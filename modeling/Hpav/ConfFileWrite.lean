import Mathlib.Tactic.Common
import Hpav.FileAccess
import Hpav.FileDownload

/-!
# Writing the configuration of a device

`conf_file_write` (`conf_file.c`): the update file of the device is deleted, then the base
file is written. The device obeys, refuses or stays silent as a list of fates says, so every
pattern of lost and failed confirmations is one such list. `attempts` is what a request
with its retries comes to under a list of fates, and the loops of the two operations are
described by it (`loopEnds_delete`, `loopEnds_write`).
-/

namespace Hpav

open CMem

/-! ## The device -/

/-- `DEVICE_INKA_CONF_PATH`: "/inka.conf" -/
def deviceInkaConfPath : CString :=
  [47, 105, 110, 107, 97, 46, 99, 111, 110, 102]

/-- `DEVICE_INKA_UPDATE_CONF_PATH`: "/inka_update.conf" -/
def deviceInkaUpdateConfPath : CString :=
  [47, 105, 110, 107, 97, 95, 117, 112, 100, 97, 116, 101, 46, 99, 111, 110, 102]

/-- The configuration files of a device, and whether a fragment was stored on it. -/
structure Device where
  inkaConf : Option (List UInt8)
  inkaUpdateConf : Option (List UInt8)
  stored : Bool

/-- Bytes written into a file at an offset. -/
def storeAt (file : List UInt8) (offset : Nat) (bytes : List UInt8) : List UInt8 :=
  file.take offset ++ List.replicate (offset - file.length) 0 ++ bytes ++
    file.drop (offset + bytes.length)

/-- What a request does on the device. The first fragment of a file starts it over. -/
def Device.execute (d : Device) (r : FileAccessReq) : Device :=
  if r.op = opDelete then
    if r.parameter = deviceInkaUpdateConfPath then { d with inkaUpdateConf := none }
    else if r.parameter = deviceInkaConfPath then { d with inkaConf := none }
    else d
  else if r.op = opWrite ∧ r.parameter = deviceInkaConfPath then
    let file := if r.fragmentNumber.toNat = 0 then [] else d.inkaConf.getD []
    { d with
      inkaConf := some (storeAt file r.offset.toNat (r.data.take r.length.toNat))
      stored := true }
  else
    d

/-- What becomes of one exchange. -/
inductive Fate where
  /-- the request is carried out and confirmed -/
  | served
  /-- the device confirms a failure -/
  | refused
  /-- no confirmation comes, whether or not the request was carried out -/
  | timeout (executed : Bool)
  /-- pcap fails, before or after the request was sent -/
  | pcapError (executed : Bool)
  deriving DecidableEq, Repr

def Device.executeIf (d : Device) (executed : Bool) (r : FileAccessReq) : Device :=
  if executed then d.execute r else d

def deviceCnf (mstatus : UInt8) (mac : Mac) (r : FileAccessReq) : FileAccessCnf :=
  { echoCnf mac r with mstatus }

/-- The device under a list of fates; behind its end nothing gets through any more. -/
def faultyDevice : Environment (Device × List Fate) where
  respond := fun (d, fates) mac r =>
    match fates with
    | [] => (.received [], (d, []))
    | .served :: rest => (.received [deviceCnf 0 mac r], (d.execute r, rest))
    | .refused :: rest => (.received [deviceCnf 1 mac r], (d, rest))
    | .timeout executed :: rest => (.received [], (d.executeIf executed r, rest))
    | .pcapError executed :: rest => (.pcapError, (d.executeIf executed r, rest))

/-! ## The command -/

def deleteUpdateCommand : FileAccessCommand :=
  ⟨opDelete, fileTypeGeneralFile, deviceInkaUpdateConfPath, []⟩

def writeConfCommand (inputFile : CString) : FileAccessCommand :=
  ⟨opWrite, fileTypeGeneralFile, deviceInkaConfPath, inputFile⟩

structure ConfFileEnd (σ : Type) where
  fs : LocalFs
  rv : Int
  env : σ

/-- `conf_file_write`, for the station `mac`. -/
def confFileWrite {σ : Type} (uninit : List UInt8) (e : Environment σ) (fuel : Nat) (mac : Mac)
    (inputFile : CString) (fs : LocalFs) (env : σ) : Except Fault (Option (ConfFileEnd σ)) := do
  let deletion ← fileAccessReq uninit e deleteUpdateCommand fuel [mac] fs env
  match deletion with
  | none => return none
  | some deletion => do
    let write ← fileAccessReq uninit e (writeConfCommand inputFile) fuel [mac] deletion.fs deletion.env
    match write with
    | none => return none
    | some write => return some ⟨write.fs, if write.rv ≠ 0 then -1 else 0, write.env⟩

/-! ## A request and its retries -/

/-- What the exchanges made for one request come to. -/
structure Attempt where
  executed : Bool
  acknowledged : Bool
  rest : List Fate
  deriving DecidableEq, Repr

/-- At most `n` exchanges are made for a request. -/
def attempts : Nat → List Fate → Attempt
  | 0, fates => ⟨false, false, fates⟩
  | _ + 1, [] => ⟨false, false, []⟩
  | _ + 1, .served :: rest => ⟨true, true, rest⟩
  | _ + 1, .refused :: rest => ⟨false, false, rest⟩
  | n + 1, .timeout executed :: rest =>
    ⟨executed || (attempts n rest).executed, (attempts n rest).acknowledged, (attempts n rest).rest⟩
  | _ + 1, .pcapError executed :: rest => ⟨executed, false, rest⟩

/-- What is acknowledged was executed. -/
theorem attempts_executed {n : Nat} {fates : List Fate} (h : (attempts n fates).acknowledged = true) :
    (attempts n fates).executed = true := by
  induction n generalizing fates with
  | zero => cases h
  | succ n ih =>
    rcases fates with _ | ⟨fate, rest⟩
    · cases h
    · cases fate with
      | served => rfl
      | refused => cases h
      | timeout executed =>
        show (executed || (attempts n rest).executed) = true
        rw [ih h, Bool.or_true]
      | pcapError executed => cases h

/-- What is the same in all exchanges made for one request: the request is prepared
again, and does the same on the device. -/
structure Phase (cmd : FileAccessCommand) (P : Sender → Prop) (X : Device → Device) : Prop where
  command : cmd.op ≠ opScanSta
  prepare : ∀ s, P s → ∃ s', prepareRequest cmd s = .ok s' ∧ P s' ∧ s'.retryCount = s.retryCount
  retry : ∀ s, P s → P s.retry
  isOpen : ∀ s, P s → s.Open
  op : ∀ s, P s → s.mmeSent.op = opDelete ∨ s.mmeSent.op = opWrite
  execute : ∀ s s', P s → prepareRequest cmd s = .ok s' → ∀ d, Device.execute d s'.mmeSent = X d
  again : ∀ d, X (X d) = X d

def applyIf (executed : Bool) (X : Device → Device) (d : Device) : Device :=
  if executed then X d else d

section Attempts

variable {cmd : FileAccessCommand} {P : Sender → Prop} {X : Device → Device}

/-- The answer to a request is processed as its status says. -/
theorem Phase.process (h : Phase cmd P X) {s : Sender} (hs : P s) (uninit : List UInt8)
    (mstatus : UInt8) (mac : Mac) (fs : LocalFs) :
    processMtkVsFileAccessCnf uninit cmd fs [deviceCnf mstatus mac s.mmeSent] =
      .ok (fs, mstatus = 0) := by
  have hop : (deviceCnf mstatus mac s.mmeSent).op = opDelete ∨
      (deviceCnf mstatus mac s.mmeSent).op = opWrite := h.op s hs
  refine processMtkVsFileAccessCnf_quiet h.command ?_ ?_ ?_ ?_
  all_goals
    rcases hop with hop | hop <;> rw [hop] <;> decide

/-- An answer with status 0 moves the sender on, or ends the transfer. -/
theorem Phase.receive_served (h : Phase cmd P X) {s : Sender} (hs : P s) (uninit : List UInt8)
    (mac : Mac) (fs : LocalFs) :
    receiveResponse uninit cmd fs s (.received [deviceCnf 0 mac s.mmeSent]) =
      .ok (fs, if loopCondition (s.advance (deviceCnf 0 mac s.mmeSent)) 0 [deviceCnf 0 mac s.mmeSent]
        then .again (s.advance (deviceCnf 0 mac s.mmeSent)) else .leave 0) := by
  have hprocess : processMtkVsFileAccessCnf uninit cmd fs [deviceCnf 0 mac s.mmeSent] =
      .ok (fs, true) := h.process hs uninit 0 mac fs
  exact receiveResponse_processed hprocess

/-- An answer with another status ends the transfer. -/
theorem Phase.receive_refused (h : Phase cmd P X) (uninit : List UInt8) (s : Sender) (mac : Mac) (fs : LocalFs) :
    receiveResponse uninit cmd fs s (.received [deviceCnf 1 mac s.mmeSent]) =
      .ok (fs, .leave hpavNok) := by
  have hrefused : (deviceCnf 1 mac s.mmeSent).mstatus ≠ 0 := by
    show (1 : UInt8) ≠ 0
    decide
  exact receiveResponse_refused uninit fs s h.command hrefused

/-- The device does what the request says, or nothing. -/
theorem Phase.executeIf (h : Phase cmd P X) {s s' : Sender} (hs : P s)
    (hprep : prepareRequest cmd s = .ok s') (d : Device) (executed : Bool) :
    d.executeIf executed s'.mmeSent = applyIf executed X d := by
  unfold Device.executeIf applyIf
  rw [h.execute s s' hs hprep]

/-- Doing it twice is doing it once. -/
theorem Phase.applyIf_applyIf (h : Phase cmd P X) (first second : Bool) (d : Device) :
    applyIf second X (applyIf first X d) = applyIf (first || second) X d := by
  cases first <;> cases second <;> simp [applyIf, h.again]

/-- Once the exchanges run out nothing is executed or acknowledged. -/
theorem attempts_nil (n : Nat) : attempts n [] = ⟨false, false, []⟩ := by
  cases n <;> rfl

/-- An exchange without a confirmation: the last retry fails, others try again. -/
theorem Phase.loopEnds_silent (h : Phase cmd P X) (uninit : List UInt8) {n m : Nat} {s : Sender}
    {fs : LocalFs} {d : Device} {fates rest : List Fate} {executed : Bool}
    (Q : LocalFs → Int → Device × List Fate → Prop) (hs : P s) (hretry : s.retryCount + (n + 1) = 3)
    (hresp : ∀ mac r, faultyDevice.respond (d, fates) mac r =
      (.received [], (d.executeIf executed r, rest)))
    (hlast : n = 0 → Q fs reqFail (applyIf executed X d, rest))
    (hagain : ∀ s', P s' → s'.retryCount + n = 3 → 0 < n → ∃ fs' rv env', Q fs' rv env' ∧
      LoopEnds uninit faultyDevice cmd m fs s' (applyIf executed X d, rest) fs' rv env') :
    ∃ fs' rv env', Q fs' rv env' ∧
      LoopEnds uninit faultyDevice cmd (m + 1) fs s (d, fates) fs' rv env' := by
  rcases h.prepare s hs with ⟨s', hprep, hs', hcount⟩
  have hresp' := hresp s'.destMac s'.mmeSent
  rw [h.executeIf hs hprep] at hresp'
  have hrecv := receiveResponse_silent uninit cmd fs (h.isOpen s' hs')
  rcases Nat.eq_zero_or_pos n with hn | hn
  · rw [if_pos (by omega)] at hrecv
    exact ⟨_, _, _, hlast hn, .leave hprep hresp' hrecv⟩
  · rw [if_neg (by omega)] at hrecv
    have hretry' : s'.retry.retryCount + n = 3 := by
      show s'.retryCount + 1 + n = 3
      omega
    rcases hagain s'.retry (h.retry s' hs') hretry' hn with ⟨fs', rv, env', hQ, hends⟩
    exact ⟨fs', rv, env', hQ, hends.again hprep hresp' hrecv⟩

/-- A request that is not acknowledged ends the loop with a failure; it was carried out if
one of its exchanges says so. -/
theorem Phase.loopEnds_failed (h : Phase cmd P X) (uninit : List UInt8) (fs : LocalFs) (d : Device)
    {n : Nat} {s : Sender} {fates : List Fate} (hs : P s) (hretry : s.retryCount + n = 3) (hn : 0 < n)
    (hack : (attempts n fates).acknowledged = false) :
    ∃ fs' rv env', (fs' = fs ∧ rv ≠ 0 ∧
        env' = (applyIf (attempts n fates).executed X d, (attempts n fates).rest)) ∧
      LoopEnds uninit faultyDevice cmd n fs s (d, fates) fs' rv env' := by
  -- on the tries that are left, over what the fates do to the device
  induction n generalizing s d fates with
  | zero => exact absurd hn (Nat.lt_irrefl 0)
  | succ n ih =>
    have hsilent : ∀ executed rest,
        (∀ mac r, faultyDevice.respond (d, fates) mac r =
          (.received [], (d.executeIf executed r, rest))) →
        attempts (n + 1) fates = ⟨executed || (attempts n rest).executed,
          (attempts n rest).acknowledged, (attempts n rest).rest⟩ →
        ∃ fs' rv env', (fs' = fs ∧ rv ≠ 0 ∧
            env' = (applyIf (attempts (n + 1) fates).executed X d, (attempts (n + 1) fates).rest)) ∧
          LoopEnds uninit faultyDevice cmd (n + 1) fs s (d, fates) fs' rv env' := by
      intro executed rest hresp hattempts
      rw [hattempts] at hack ⊢
      refine h.loopEnds_silent uninit _ hs hretry hresp ?_ ?_
      · rintro rfl
        refine ⟨rfl, by decide, ?_⟩
        simp [attempts]
      · intro s' hs' hretry' hn'
        rcases ih (applyIf executed X d) hs' hretry' hn' hack with
          ⟨fs', rv, env', ⟨hfs, hrv, henv⟩, hends⟩
        refine ⟨fs', rv, env', ⟨hfs, hrv, ?_⟩, hends⟩
        rw [henv, h.applyIf_applyIf]
    rcases h.prepare s hs with ⟨s', hprep, hs', hcount⟩
    -- only a timeout is tried again, and a timeout after the request arrived
    -- leaves the device as if it had been carried out
    rcases fates with _ | ⟨fate, rest⟩
    · exact hsilent false [] (fun _ _ => rfl) (by rw [attempts_nil, attempts_nil]; rfl)
    · cases fate with
      | served => cases hack
      | refused =>
        exact ⟨fs, hpavNok, _, ⟨rfl, by decide, rfl⟩,
          .leave hprep rfl (h.receive_refused uninit s' s'.destMac fs)⟩
      | timeout executed => exact hsilent executed rest (fun _ _ => rfl) rfl
      | pcapError executed =>
        refine ⟨fs, -1, _, ⟨rfl, by decide, ?_⟩, .leave hprep rfl rfl⟩
        rw [h.executeIf hs hprep]
        rfl

/-- A request that is acknowledged: the loop goes on behind its confirmation. -/
theorem Phase.loopEnds_acknowledged (h : Phase cmd P X) (uninit : List UInt8) {n k : Nat}
    {s : Sender} {fs : LocalFs} {d : Device} {fates : List Fate} (Q : LocalFs → Int → Device × List Fate → Prop) (hs : P s)
    (hretry : s.retryCount + n = 3) (hack : (attempts n fates).acknowledged = true)
    (hlast : ∀ s' c, P s' → c = deviceCnf 0 s'.destMac s'.mmeSent → ¬ loopCondition (s'.advance c) 0 [c] →
      Q fs 0 (X d, (attempts n fates).rest))
    (hagain : ∀ s' c, P s' → c = deviceCnf 0 s'.destMac s'.mmeSent → loopCondition (s'.advance c) 0 [c] →
      ∃ fs' rv env', Q fs' rv env' ∧ LoopEnds uninit faultyDevice cmd k fs (s'.advance c)
        (X d, (attempts n fates).rest) fs' rv env') :
    ∃ fs' rv env', Q fs' rv env' ∧
      LoopEnds uninit faultyDevice cmd (n + k) fs s (d, fates) fs' rv env' := by
  induction n generalizing s d fates with
  | zero => cases hack
  | succ n ih =>
    rw [Nat.succ_add]
    rcases fates with _ | ⟨fate, rest⟩
    · cases hack
    · cases fate with
      | served =>
        rcases h.prepare s hs with ⟨s', hprep, hs', hcount⟩
        have hrecv := h.receive_served hs' uninit s'.destMac fs
        have hresp : faultyDevice.respond (d, .served :: rest) s'.destMac s'.mmeSent =
            (.received [deviceCnf 0 s'.destMac s'.mmeSent], (X d, rest)) := by
          rw [← h.execute s s' hs hprep]
          rfl
        by_cases hcond : loopCondition (s'.advance (deviceCnf 0 s'.destMac s'.mmeSent)) 0
            [deviceCnf 0 s'.destMac s'.mmeSent]
        · rw [if_pos hcond] at hrecv
          rcases hagain s' _ hs' rfl hcond with ⟨fs', rv, env', hQ, hends⟩
          exact ⟨fs', rv, env', hQ, (hends.mono (Nat.le_add_left k n)).again hprep hresp hrecv⟩
        · rw [if_neg hcond] at hrecv
          exact ⟨_, _, _, hlast s' _ hs' rfl hcond, .leave hprep hresp hrecv⟩
      | refused => cases hack
      | timeout executed =>
        -- carried out a second time, the request changes nothing
        have hX : X (applyIf executed X d) = X d := by
          cases executed
          · rfl
          · exact h.again d
        refine h.loopEnds_silent uninit Q hs hretry (fun _ _ => rfl) ?_ ?_
        · rintro rfl
          cases hack
        · intro s' hs' hretry' _
          refine ih hs' hretry' hack ?_ ?_
          · intro s₂ c hs₂ hc hcond
            rw [hX]
            exact hlast s₂ c hs₂ hc hcond
          · intro s₂ c hs₂ hc hcond
            rw [hX]
            exact hagain s₂ c hs₂ hc hcond
      | pcapError executed => cases hack

end Attempts

/-! ## The deletion -/

/-- The sender of the deletion. -/
structure Deleting (s : Sender) : Prop where
  op : s.mmeSent.op = opDelete
  parameter : s.mmeSent.parameter = deviceInkaUpdateConfPath
  total : s.mmeSent.totalFragments = 0
  number : s.mmeSent.fragmentNumber = 0

def Device.deleteUpdate (d : Device) : Device :=
  { d with inkaUpdateConf := none }

/-- The deletion is such a request. -/
theorem phase_delete : Phase deleteUpdateCommand Deleting Device.deleteUpdate where
  command := by decide
  prepare s hs := ⟨s, rfl, hs, rfl⟩
  retry _ hs := ⟨hs.op, hs.parameter, hs.total, hs.number⟩
  isOpen _ hs := Or.inl hs.total
  op _ hs := Or.inl hs.op
  execute s s' hs hprep d := by
    obtain rfl : s = s' := by
      injection hprep
    unfold Device.execute
    rw [if_pos hs.op, if_pos hs.parameter]
    rfl
  again _ := rfl

/-- The deletion as a whole: it succeeds if it is acknowledged. -/
theorem loopEnds_delete (uninit : List UInt8) (fs : LocalFs) (d : Device) (fates : List Fate)
    {s : Sender} (hs : Deleting s) (hretry : s.retryCount = 0) :
    ∃ fs' rv env', (fs' = fs ∧
        env' = (applyIf (attempts 3 fates).executed Device.deleteUpdate d, (attempts 3 fates).rest)) ∧
      LoopEnds uninit faultyDevice deleteUpdateCommand 3 fs s (d, fates) fs' rv env' := by
  have hretry' : s.retryCount + 3 = 3 := by omega
  rcases hack : (attempts 3 fates).acknowledged with _ | _
  · rcases phase_delete.loopEnds_failed uninit fs d hs hretry' (by omega) hack with
      ⟨fs', rv, env', ⟨hfs, _, henv⟩, hends⟩
    exact ⟨fs', rv, env', ⟨hfs, henv⟩, hends⟩
  · refine phase_delete.loopEnds_acknowledged uninit (k := 0) _ hs hretry' hack ?_ ?_
    · intro s' c _ _ _
      refine ⟨rfl, ?_⟩
      rw [attempts_executed hack]
      rfl
    · rintro s' c hs' rfl hcond
      -- the confirmation echoes no fragments: the loop is over
      rcases hcond.2 with ⟨_, hempty⟩ | hlt
      · cases hempty
      · have htotal : (s'.advance (deviceCnf 0 s'.destMac s'.mmeSent)).mmeSent.totalFragments = 0 :=
          hs'.total
        rw [htotal] at hlt
        exact absurd hlt (by rw [UInt16.lt_iff_toNat_lt]; exact Nat.not_lt_zero _)

/-! ## The write -/

/-- The number of fragments that are sent: their count is kept in 16 bits, and one is sent
in any case. -/
def sentFragments (file : List UInt8) : Nat :=
  max 1 (UInt16.ofNat (fragmentCount file)).toNat

/-- What the base file holds once `k` fragments of `file` are stored in it. -/
def prefixWritten (file : List UInt8) : Nat → List UInt8
  | 0 => []
  | k + 1 => storeAt (prefixWritten file k) (dataMaxLen * k) (chunkOf file k)

/-- What the base file holds once the write is complete. -/
def written (file : List UInt8) : List UInt8 :=
  prefixWritten file (sentFragments file)

/-- The fragment `k` of `file` is stored. -/
def Device.storeFragment (file : List UInt8) (k : Nat) (d : Device) : Device :=
  { d with
    inkaConf := some (storeAt (if k = 0 then [] else d.inkaConf.getD []) (dataMaxLen * k)
      (chunkOf file k))
    stored := true }

/-- The sender of the fragment `k` of `file`. -/
structure Writing (file : List UInt8) (k : Nat) (s : Sender) : Prop where
  buf : s.buf = file
  op : s.mmeSent.op = opWrite
  parameter : s.mmeSent.parameter = deviceInkaConfPath
  total : s.mmeSent.totalFragments = UInt16.ofNat (fragmentCount file)
  number : s.mmeSent.fragmentNumber.toNat = k

section Write

variable {file : List UInt8} {k : Nat}

/-- Bytes that are stored twice are stored once. -/
theorem storeAt_storeAt (m : List UInt8) (offset : Nat) (bytes : List UInt8) :
    storeAt (storeAt m offset bytes) offset bytes = storeAt m offset bytes := by
  have hfront : (m.take offset ++ List.replicate (offset - m.length) 0).length = offset := by
    rw [List.length_append, List.length_take, List.length_replicate]
    omega
  generalize hf : m.take offset ++ List.replicate (offset - m.length) 0 = front at hfront
  have hstore : storeAt m offset bytes = front ++ (bytes ++ m.drop (offset + bytes.length)) := by
    unfold storeAt
    rw [hf, List.append_assoc]
  have hzero : offset - (front ++ (bytes ++ m.drop (offset + bytes.length))).length = 0 := by
    rw [List.length_append]
    omega
  rw [hstore]
  unfold storeAt
  rw [hzero, List.take_left' hfront, List.replicate_zero, List.append_nil, ← List.drop_drop,
    List.drop_left' hfront, List.drop_left, List.append_assoc]

/-- At least one fragment is sent. -/
theorem sentFragments_pos (file : List UInt8) : 0 < sentFragments file :=
  Nat.lt_of_lt_of_le Nat.one_pos (Nat.le_max_left _ _)

/-- No more fragments are sent than the file has. -/
theorem sentFragments_le (hpos : 1 ≤ file.length) : sentFragments file ≤ fragmentCount file := by
  unfold sentFragments
  rw [UInt16.toNat_ofNat']
  unfold fragmentCount dataMaxLen
  omega

/-- The loop over the fragments goes on while there are fragments left to send. -/
theorem succ_lt_total_iff (hk : k < sentFragments file) :
    k + 1 < (UInt16.ofNat (fragmentCount file)).toNat ↔ k + 1 < sentFragments file := by
  unfold sentFragments at *
  omega

/-- Fragment by fragment the file grows, unless it is too large for the counters. -/
theorem prefixWritten_eq (hsize : file.length ≤ 65535 * dataMaxLen) (hk : k ≤ fragmentCount file) :
    prefixWritten file k = file.take (dataMaxLen * k) := by
  induction k with
  | zero => simp [prefixWritten]
  | succ k ih =>
    have hstart : dataMaxLen * k < file.length := start_lt_of_lt_count (by omega)
    have hlength : (file.take (dataMaxLen * k)).length = dataMaxLen * k := by
      rw [List.length_take]
      omega
    have hempty : (file.take (dataMaxLen * k)).drop (dataMaxLen * k + (fragmentOf file k).length) = [] :=
      List.drop_eq_nil_of_le (by omega)
    unfold prefixWritten
    rw [ih (by omega), chunkOf_eq_fragmentOf hsize (Nat.le_of_lt hstart)]
    unfold storeAt
    rw [hlength, Nat.sub_self, List.replicate_zero, hempty, List.append_nil, List.append_nil,
      List.take_of_length_le (le_of_eq hlength), Nat.mul_succ, List.take_add]
    rfl

/-- All fragments together are the file. -/
theorem written_eq (hpos : 1 ≤ file.length) (hsize : file.length ≤ 65535 * dataMaxLen) :
    written file = file := by
  have hcount : sentFragments file = fragmentCount file := by
    unfold sentFragments
    rw [UInt16.toNat_ofNat']
    unfold fragmentCount dataMaxLen
    unfold dataMaxLen at hsize
    omega
  have hend : file.length ≤ dataMaxLen * fragmentCount file := by
    unfold fragmentCount dataMaxLen
    omega
  unfold written
  rw [hcount, prefixWritten_eq hsize le_rfl, List.take_of_length_le hend]

/-- A fragment that is sent begins inside the file. -/
theorem Writing.start_le {s : Sender} (hs : Writing file k s) (hpos : 1 ≤ file.length)
    (hk : k < sentFragments file) :
    dataMaxLen * s.mmeSent.fragmentNumber.toNat ≤ s.buf.length := by
  have hle := sentFragments_le hpos
  rw [hs.number, hs.buf]
  exact Nat.le_of_lt (start_lt_of_lt_count (by omega))

/-- A fragment that is executed twice leaves what it left the first time. -/
theorem Device.storeFragment_again (file : List UInt8) (k : Nat) (d : Device) :
    (d.storeFragment file k).storeFragment file k = d.storeFragment file k := by
  unfold Device.storeFragment
  by_cases hk : k = 0
  · simp only [if_pos hk]
  · simp only [if_neg hk, Option.getD_some, storeAt_storeAt]

/-- Each fragment of the file is such a request. -/
theorem phase_write (inputFile : CString) (hpos : 1 ≤ file.length) (hk : k < sentFragments file) :
    Phase (writeConfCommand inputFile) (Writing file k) (Device.storeFragment file k) where
  command := by
    show opWrite ≠ opScanSta
    decide
  prepare s hs := by
    have hop : (writeConfCommand inputFile).op = opWrite := rfl
    rcases prepareRequest_write hop (hs.start_le hpos hk) with ⟨checksum, hprep⟩
    exact ⟨_, hprep, ⟨hs.buf, hs.op, hs.parameter, hs.total, hs.number⟩, rfl⟩
  retry _ hs := ⟨hs.buf, hs.op, hs.parameter, hs.total, hs.number⟩
  isOpen s hs := by
    by_cases hzero : s.mmeSent.totalFragments = 0
    · exact Or.inl hzero
    · right
      have hne : (UInt16.ofNat (fragmentCount file)).toNat ≠ 0 := by
        rw [← hs.total]
        exact fun h0 => hzero (UInt16.toNat_inj.mp h0)
      rw [UInt16.lt_iff_toNat_lt, hs.number, hs.total]
      unfold sentFragments at hk
      omega
  op _ hs := Or.inr hs.op
  execute s s' hs hprep d := by
    have hop : (writeConfCommand inputFile).op = opWrite := rfl
    -- the checksum is all that preparing the request adds to it
    rcases prepareRequest_write hop (hs.start_le hpos hk) with ⟨checksum, hprep'⟩
    rw [hprep'] at hprep
    injection hprep with hprep
    subst hprep
    unfold Device.execute Device.storeFragment
    have hdelete : ¬ opWrite = opDelete := by decide
    simp only [hs.op, hs.parameter, hs.number, hs.buf, if_neg hdelete, true_and, if_true,
      toNat_chunkLength, List.take_left]
    rw [← hs.number, toNat_chunkOffset]
  again d := d.storeFragment_again file k

/-- What becomes of the device while the last `n` fragments are sent, from fragment `k` on:
whether all were acknowledged, and the fates left. -/
def transfer (file : List UInt8) : Nat → Nat → Device → List Fate → Bool × Device × List Fate
  | 0, _, d, fates => (true, d, fates)
  | n + 1, k, d, fates =>
    let a := attempts 3 fates
    let d := applyIf a.executed (Device.storeFragment file k) d
    if a.acknowledged then transfer file n (k + 1) d a.rest else (false, d, a.rest)

/-- The loop over the fragments from fragment `k` on. -/
theorem loopEnds_write (uninit : List UInt8) (inputFile : CString) (fs : LocalFs) (d : Device)
    (fates : List Fate) {n : Nat} {s : Sender} (hpos : 1 ≤ file.length) (hs : Writing file k s) (hretry : s.retryCount = 0)
    (hn : 0 < n) (hsum : k + n = sentFragments file) :
    ∃ fs' rv env', (fs' = fs ∧ (rv = 0 ↔ (transfer file n k d fates).1 = true) ∧
        env' = (transfer file n k d fates).2) ∧
      LoopEnds uninit faultyDevice (writeConfCommand inputFile) (3 * n) fs s (d, fates) fs' rv env' := by
  -- on the fragments that are left to send
  induction n generalizing k s d fates with
  | zero => exact absurd hn (Nat.lt_irrefl 0)
  | succ n ih =>
    have hk : k < sentFragments file := by omega
    have hphase := phase_write inputFile hpos hk
    have hretry' : s.retryCount + 3 = 3 := by omega
    rcases hack : (attempts 3 fates).acknowledged with _ | _
    · have htransfer : transfer file (n + 1) k d fates =
          (false, applyIf (attempts 3 fates).executed (Device.storeFragment file k) d,
            (attempts 3 fates).rest) := by
        simp [transfer, hack]
      rcases hphase.loopEnds_failed uninit fs d hs hretry' (by omega) hack with
        ⟨fs', rv, env', ⟨hfs, hrv, henv⟩, hends⟩
      rw [htransfer]
      exact ⟨fs', rv, env', ⟨hfs, by simp [hrv], henv⟩, hends.mono (by omega)⟩
    · have htransfer : transfer file (n + 1) k d fates =
          transfer file n (k + 1) (Device.storeFragment file k d) (attempts 3 fates).rest := by
        simp [transfer, hack, attempts_executed hack, applyIf]
      rw [htransfer, show 3 * (n + 1) = 3 + 3 * n by omega]
      -- the confirmation moves the sender on by one fragment
      have hnext : ∀ s' : Sender, Writing file k s' →
          (s'.advance (deviceCnf 0 s'.destMac s'.mmeSent)).mmeSent.fragmentNumber.toNat = k + 1 := by
        intro s' hs'
        have hle : sentFragments file ≤ 65535 := by
          have hlt := (UInt16.ofNat (fragmentCount file)).toNat_lt
          unfold sentFragments
          omega
        show (s'.mmeSent.fragmentNumber + 1).toNat = k + 1
        rw [toNat_add_one (by rw [hs'.number]; exact hk) hle, hs'.number]
      -- and the loop goes on exactly if there is another one
      have hloop : ∀ s' : Sender, Writing file k s' →
          (loopCondition (s'.advance (deviceCnf 0 s'.destMac s'.mmeSent)) 0
            [deviceCnf 0 s'.destMac s'.mmeSent] ↔ 0 < n) := by
        intro s' hs'
        have htotal : (s'.advance (deviceCnf 0 s'.destMac s'.mmeSent)).mmeSent.totalFragments =
            UInt16.ofNat (fragmentCount file) := hs'.total
        have hlt : (s'.advance (deviceCnf 0 s'.destMac s'.mmeSent)).mmeSent.fragmentNumber <
            (s'.advance (deviceCnf 0 s'.destMac s'.mmeSent)).mmeSent.totalFragments ↔ 0 < n := by
          rw [UInt16.lt_iff_toNat_lt, hnext s' hs', htotal, succ_lt_total_iff hk]
          omega
        rw [← hlt]
        constructor
        · intro hcond
          rcases hcond.2 with ⟨_, hempty⟩ | hlt
          · cases hempty
          · exact hlt
        · intro hlt
          exact ⟨rfl, Or.inr hlt⟩
      refine hphase.loopEnds_acknowledged uninit _ hs hretry' hack ?_ ?_
      · rintro s' c hs' rfl hcond
        rw [hloop s' hs'] at hcond
        obtain rfl : n = 0 := by omega
        exact ⟨rfl, by simp [transfer], rfl⟩
      · rintro s' c hs' rfl hcond
        rw [hloop s' hs'] at hcond
        exact ih _ _ ⟨hs'.buf, hs'.op, hs'.parameter, hs'.total, hnext s' hs'⟩ rfl hcond (by omega)

/-! ### What a transfer leaves behind -/

/-- The transfer leaves the update file alone. -/
theorem transfer_update (file : List UInt8) (n k : Nat) (d : Device) (fates : List Fate) :
    (transfer file n k d fates).2.1.inkaUpdateConf = d.inkaUpdateConf := by
  induction n generalizing k d fates with
  | zero => rfl
  | succ n ih =>
    have hd : (applyIf (attempts 3 fates).executed (Device.storeFragment file k) d).inkaUpdateConf =
        d.inkaUpdateConf := by
      unfold applyIf
      split <;> rfl
    unfold transfer
    simp only
    split
    · rw [ih, hd]
    · exact hd

/-- What was stored stays stored. -/
theorem transfer_stored (file : List UInt8) (n k : Nat) (d : Device) (fates : List Fate)
    (h : d.stored = true) : (transfer file n k d fates).2.1.stored = true := by
  induction n generalizing k d fates with
  | zero => exact h
  | succ n ih =>
    have hd : (applyIf (attempts 3 fates).executed (Device.storeFragment file k) d).stored = true := by
      unfold applyIf
      split
      · rfl
      · exact h
    unfold transfer
    simp only
    split
    · exact ih _ _ _ hd
    · exact hd

/-- A complete transfer leaves the whole file. -/
theorem transfer_complete {n : Nat} {d : Device} {fates : List Fate}
    (hd : k = 0 ∨ d.inkaConf = some (prefixWritten file k)) (hn : 0 < n)
    (h : (transfer file n k d fates).1 = true) :
    (transfer file n k d fates).2.1.inkaConf = some (prefixWritten file (k + n)) := by
  induction n generalizing k d fates with
  | zero => exact absurd hn (Nat.lt_irrefl 0)
  | succ n ih =>
    rcases hack : (attempts 3 fates).acknowledged with _ | _
    · simp [transfer, hack] at h
    · have htransfer : transfer file (n + 1) k d fates =
          transfer file n (k + 1) (Device.storeFragment file k d) (attempts 3 fates).rest := by
        simp [transfer, hack, attempts_executed hack, applyIf]
      have hstored : (Device.storeFragment file k d).inkaConf = some (prefixWritten file (k + 1)) := by
        unfold Device.storeFragment
        rcases hd with rfl | hd
        · rfl
        · by_cases hk : k = 0
          · subst hk
            rfl
          · simp only [if_neg hk, hd, Option.getD_some]
            rfl
      rw [htransfer] at h ⊢
      rcases Nat.eq_zero_or_pos n with rfl | hn'
      · exact hstored
      · rw [ih (Or.inr hstored) hn' h]
        congr 2
        omega

/-- The first fragment decides whether anything is stored at all. -/
theorem transfer_first (file : List UInt8) (n k : Nat) (d : Device) (fates : List Fate) :
    ((attempts 3 fates).executed = true → (transfer file (n + 1) k d fates).2.1.stored = true) ∧
      ((attempts 3 fates).executed = false → (transfer file (n + 1) k d fates).1 = false ∧
        (transfer file (n + 1) k d fates).2.1 = d) := by
  constructor
  · intro hexec
    have hd : (applyIf (attempts 3 fates).executed (Device.storeFragment file k) d).stored = true := by
      rw [hexec]
      rfl
    unfold transfer
    simp only
    split
    · exact transfer_stored file n (k + 1) _ _ hd
    · exact hd
  · intro hexec
    have hack : (attempts 3 fates).acknowledged = false := by
      by_contra hne
      rw [Bool.not_eq_false] at hne
      rw [attempts_executed hne] at hexec
      cases hexec
    simp [transfer, hack, hexec, applyIf]

end Write

/-! ## The whole operation -/

/-- All of the next `n` requests are acknowledged. -/
def acknowledgedAll : Nat → List Fate → Bool
  | 0, _ => true
  | n + 1, fates => (attempts 3 fates).acknowledged && acknowledgedAll n (attempts 3 fates).rest

/-- The transfer succeeds exactly if everything was acknowledged. -/
theorem transfer_fst (file : List UInt8) (n k : Nat) (d : Device) (fates : List Fate) :
    (transfer file n k d fates).1 = acknowledgedAll n fates := by
  induction n generalizing k d fates with
  | zero => rfl
  | succ n ih =>
    unfold transfer acknowledgedAll
    rcases hack : (attempts 3 fates).acknowledged with _ | _
    · simp [hack]
    · simp [hack, ih]

/-- The second step of the operation: an empty file is not sent at all. -/
def writeEnd (file : List UInt8) (d : Device) (fates : List Fate) : Bool × Device × List Fate :=
  if file.length = 0 then (false, d, fates) else transfer file (sentFragments file) 0 d fates

/-- The command is the deletion, and then the transfer. -/
theorem confFileWrite_eq (uninit : List UInt8) (mac : Mac) {fuel : Nat} {inputFile : CString}
    {fs : LocalFs} {file : List UInt8} (hfile : fs.content inputFile = some file)
    (hfuel : 3 * sentFragments file ≤ fuel) (d : Device) (fates : List Fate) :
    ∃ rv, confFileWrite uninit faultyDevice fuel mac inputFile fs (d, fates) =
        .ok (some ⟨fs, rv, (writeEnd file
          (applyIf (attempts 3 fates).executed Device.deleteUpdate d) (attempts 3 fates).rest).2⟩) ∧
      (rv = 0 ↔ (writeEnd file
          (applyIf (attempts 3 fates).executed Device.deleteUpdate d) (attempts 3 fates).rest).1 = true) := by
  have hsent := sentFragments_pos file
  generalize hd₁ : applyIf (attempts 3 fates).executed Device.deleteUpdate d = d₁
  generalize hrest : (attempts 3 fates).rest = rest
  -- the deletion: its result is dropped
  have hdelete : ∃ rv stations, fileAccessReq uninit faultyDevice deleteUpdateCommand fuel [mac] fs
      (d, fates) = .ok (some ⟨fs, rv, (d₁, rest), stations⟩) := by
    rcases loopEnds_delete uninit fs d fates (s := ⟨mac, ⟨opDelete, fileTypeGeneralFile,
        deviceInkaUpdateConfPath, 0, 0, 0, 0, 0, List.replicate dataMaxLen 0⟩, 0, []⟩)
      ⟨rfl, rfl, rfl, rfl⟩ rfl with ⟨_, rv, _, ⟨rfl, rfl⟩, hends⟩
    rw [hd₁, hrest] at hends
    rcases fileAccessReq_single rfl (hends.mono (by omega : 3 ≤ fuel)) with ⟨xs, hxs⟩
    exact ⟨rv, _, hxs⟩
  rcases hdelete with ⟨rvDelete, stations, hdelete⟩
  have hwrite : ∃ rv stations, fileAccessReq uninit faultyDevice (writeConfCommand inputFile) fuel [mac]
      fs (d₁, rest) = .ok (some ⟨fs, rv, (writeEnd file d₁ rest).2, stations⟩) ∧
      (rv = 0 ↔ (writeEnd file d₁ rest).1 = true) := by
    by_cases hempty : file.length = 0
    · have hstart : startStation (writeConfCommand inputFile) fs mac = .inr reqFail := by
        unfold startStation writeConfCommand
        simp only [hfile, if_pos hempty]
        rfl
      rw [writeEnd, if_pos hempty]
      exact ⟨reqFail, _, fileAccessReq_early hstart, by simp [reqFail]⟩
    · have hstart : startStation (writeConfCommand inputFile) fs mac =
          .inl ⟨mac, ⟨opWrite, fileTypeGeneralFile, deviceInkaConfPath,
            UInt16.ofNat (fragmentCount file), 0, 0, 0, 0, List.replicate dataMaxLen 0⟩, 0, file⟩ := by
        unfold startStation writeConfCommand
        simp only [hfile, if_neg hempty]
        rfl
      have hwriting : Writing file 0 ⟨mac, ⟨opWrite, fileTypeGeneralFile, deviceInkaConfPath,
          UInt16.ofNat (fragmentCount file), 0, 0, 0, 0, List.replicate dataMaxLen 0⟩, 0, file⟩ :=
        ⟨rfl, rfl, rfl, rfl, rfl⟩
      rcases loopEnds_write uninit inputFile fs d₁ rest (by omega) hwriting rfl hsent
        (Nat.zero_add _) with ⟨_, rv, _, ⟨rfl, hrv, rfl⟩, hends⟩
      rcases fileAccessReq_single hstart (hends.mono hfuel) with ⟨xs, hxs⟩
      rw [writeEnd, if_neg hempty]
      exact ⟨rv, _, hxs, hrv⟩
  rcases hwrite with ⟨rvWrite, stations', hwrite, hrv⟩
  refine ⟨if rvWrite ≠ 0 then -1 else 0, ?_, ?_⟩
  · unfold confFileWrite
    simp only [hdelete, hwrite, bind_ok]
    rfl
  · rw [← hrv]
    by_cases hzero : rvWrite = 0
    · simp [hzero]
    · simp [hzero]

/-! ## The effective configuration -/

/-- The base configuration, overridden by the update if there is one. -/
def overridden (override : Option (List UInt8) → List UInt8 → Option (List UInt8))
    (base update : Option (List UInt8)) : Option (List UInt8) :=
  match update with
  | none => base
  | some update => override base update

def Device.effective (override : Option (List UInt8) → List UInt8 → Option (List UInt8))
    (d : Device) : Option (List UInt8) :=
  overridden override d.inkaConf d.inkaUpdateConf

/-- The update file behind the deletion. -/
def remainingUpdate (update : Option (List UInt8)) (fates : List Fate) : Option (List UInt8) :=
  if (attempts 3 fates).executed then none else update

/-- The fates under which dropping the result of the deletion does no harm. -/
structure Harmless (override : Option (List UInt8) → List UInt8 → Option (List UInt8))
    (base update : Option (List UInt8)) (file : List UInt8) (fates : List Fate) : Prop where
  /-- a write that completes leaves the file, which no remaining update overrides -/
  complete : file.length ≠ 0 →
    acknowledgedAll (sentFragments file) (attempts 3 fates).rest = true →
    overridden override (some (written file)) (remainingUpdate update fates) = some file
  /-- if no fragment is stored, an update that was deleted did not override anything -/
  lost : file.length = 0 ∨ (attempts 3 (attempts 3 fates).rest).executed = false →
    (attempts 3 fates).executed = true → overridden override base update = base

/-- Onto a device that holds nothing the transfer stores a file, or fails and changes nothing. -/
theorem writeEnd_unstored (file : List UInt8) {d : Device} (fates : List Fate)
    (hd : d.stored = false) :
    (file.length = 0 ∨ (attempts 3 fates).executed = false ↔
      (writeEnd file d fates).2.1.stored = false) ∧
    (file.length = 0 ∨ (attempts 3 fates).executed = false →
      (writeEnd file d fates).1 = false ∧ (writeEnd file d fates).2.1 = d) := by
  unfold writeEnd
  by_cases hempty : file.length = 0
  · rw [if_pos hempty]
    exact ⟨by simp [hempty, hd], fun _ => ⟨rfl, rfl⟩⟩
  · rw [if_neg hempty]
    rcases Nat.exists_eq_succ_of_ne_zero (sentFragments_pos file).ne' with ⟨n, hn⟩
    rw [hn]
    rcases transfer_first file n 0 d fates with ⟨hfirst, hlost⟩
    rcases hexec : (attempts 3 fates).executed with _ | _
    · rcases hlost hexec with ⟨hfail, hsame⟩
      rw [hsame]
      exact ⟨by simp [hd], fun _ => ⟨hfail, rfl⟩⟩
    · have hstored := hfirst hexec
      constructor
      · simp [hempty, hstored]
      · rintro (h0 | h0)
        · exact absurd h0 hempty
        · cases h0

/-- A write that completes leaves the whole file, beside the update. -/
theorem writeEnd_complete (file : List UInt8) (d : Device) (fates : List Fate) :
    ((writeEnd file d fates).1 = true ↔
      file.length ≠ 0 ∧ acknowledgedAll (sentFragments file) fates = true) ∧
    ((writeEnd file d fates).1 = true →
      (writeEnd file d fates).2.1.inkaConf = some (written file)) ∧
    (writeEnd file d fates).2.1.inkaUpdateConf = d.inkaUpdateConf := by
  unfold writeEnd
  by_cases hempty : file.length = 0
  · rw [if_pos hempty]
    exact ⟨by simp [hempty], fun h => absurd h Bool.false_ne_true, rfl⟩
  · rw [if_neg hempty]
    refine ⟨?_, ?_, transfer_update file _ 0 d fates⟩
    · rw [transfer_fst]
      exact (and_iff_right hempty).symm
    · intro h
      have hall := transfer_complete (Or.inl rfl) (sentFragments_pos file) h
      rw [Nat.zero_add] at hall
      exact hall

/-- The operation under a list of fates: if it returns 0 the effective configuration is the
file, and if it fails without a fragment stored the effective configuration is what it
was, exactly if dropping the result of the deletion is harmless under these fates. -/
theorem confFileWrite_effective_iff
    (override : Option (List UInt8) → List UInt8 → Option (List UInt8)) (uninit : List UInt8)
    (fuel : Nat) (mac : Mac) (inputFile : CString) (fs : LocalFs) (file : List UInt8)
    (base update : Option (List UInt8)) (fates : List Fate)
    (hfile : fs.content inputFile = some file) (hfuel : 3 * sentFragments file ≤ fuel) :
    ∃ rv d' rest, confFileWrite uninit faultyDevice fuel mac inputFile fs (⟨base, update, false⟩, fates) =
        .ok (some ⟨fs, rv, (d', rest)⟩) ∧
      (((rv = 0 → d'.effective override = some file) ∧
          (rv ≠ 0 → d'.stored = false →
            d'.effective override = Device.effective override ⟨base, update, false⟩)) ↔
        Harmless override base update file fates) := by
  rcases confFileWrite_eq uninit mac hfile hfuel ⟨base, update, false⟩ fates with
    ⟨rv, hrun, hrv⟩
  have hd₁ : applyIf (attempts 3 fates).executed Device.deleteUpdate ⟨base, update, false⟩ =
      ⟨base, remainingUpdate update fates, false⟩ := by
    unfold applyIf remainingUpdate
    split <;> rfl
  rw [hd₁] at hrun hrv
  generalize hend : writeEnd file ⟨base, remainingUpdate update fates, false⟩ (attempts 3 fates).rest =
    result at hrun hrv
  refine ⟨rv, result.2.1, result.2.2, hrun, ?_⟩
  rcases writeEnd_unstored file (d := ⟨base, remainingUpdate update fates, false⟩)
    (attempts 3 fates).rest rfl with ⟨hunstored, hlost⟩
  rcases writeEnd_complete file ⟨base, remainingUpdate update fates, false⟩
    (attempts 3 fates).rest with ⟨hsuccess, hwhole, hupdate⟩
  rw [hend] at hunstored hlost hsuccess hwhole hupdate
  have hcomplete : result.1 = true → result.2.1.effective override =
      overridden override (some (written file)) (remainingUpdate update fates) := by
    intro hok
    unfold Device.effective
    rw [hwhole hok, hupdate]
  constructor
  · -- with zero the device has to hold the file; without it, and with nothing stored,
    -- the update file must not have been what made the difference
    rintro ⟨hzero, hfailed⟩
    refine ⟨?_, ?_⟩
    · intro hne hack
      have hok := hsuccess.mpr ⟨hne, hack⟩
      rw [← hcomplete hok]
      exact hzero (hrv.mpr hok)
    · intro hnone hexec
      rcases hlost hnone with ⟨hfail, hsame⟩
      have hrv' : rv ≠ 0 := by
        rw [Ne, hrv, hfail]
        decide
      have heffective := hfailed hrv' (hunstored.mp hnone)
      rw [hsame] at heffective
      unfold remainingUpdate at heffective
      rw [if_pos hexec] at heffective
      exact heffective.symm
  · rintro ⟨hcompleted, hnothing⟩
    refine ⟨?_, ?_⟩
    · intro hzero
      have hok := hrv.mp hzero
      rcases hsuccess.mp hok with ⟨hne, hack⟩
      rw [hcomplete hok]
      exact hcompleted hne hack
    · intro _ hstored
      have hnone := hunstored.mpr hstored
      rw [(hlost hnone).2]
      show overridden override base (remainingUpdate update fates) = overridden override base update
      unfold remainingUpdate
      -- nothing was stored: only the update file can be gone
      by_cases hexec : (attempts 3 fates).executed = true
      · rw [if_pos hexec, hnothing hnone hexec]
        rfl
      · rw [if_neg hexec]

/-- A file of at most 65535 fragments, on a device without an update file: nothing can
happen to the requests that does harm. -/
theorem harmless_of_no_update {override : Option (List UInt8) → List UInt8 → Option (List UInt8)}
    {base : Option (List UInt8)} {file : List UInt8} {fates : List Fate}
    (hsize : file.length ≤ 65535 * dataMaxLen) : Harmless override base none file fates := by
  refine ⟨?_, fun _ _ => rfl⟩
  intro hne _
  have hnone : remainingUpdate none fates = none := by
    unfold remainingUpdate
    split <;> rfl
  rw [hnone, written_eq (Nat.one_le_iff_ne_zero.mpr hne) hsize]
  rfl

/-- An update that sets everything the base sets. -/
def replaceAll (_ : Option (List UInt8)) (update : List UInt8) : Option (List UInt8) :=
  some update

/-- Nothing is lost, and there is no update. -/
theorem confFileWrite_effective_iff_served :
    ∃ rv d' rest, confFileWrite [] faultyDevice 3 secondStation [102] (oneFile [1, 2, 3])
        (⟨some [9], none, false⟩, [.served, .served]) =
          .ok (some ⟨oneFile [1, 2, 3], rv, (d', rest)⟩) ∧
      (((rv = 0 → d'.effective replaceAll = some [1, 2, 3]) ∧
          (rv ≠ 0 → d'.stored = false →
            d'.effective replaceAll = Device.effective replaceAll ⟨some [9], none, false⟩)) ↔
        Harmless replaceAll (some [9]) none [1, 2, 3] [.served, .served]) :=
  confFileWrite_effective_iff replaceAll [] 3 secondStation [102] (oneFile [1, 2, 3]) [1, 2, 3]
    (some [9]) none [.served, .served] rfl (by decide)

/-- The requests to delete the update are lost, the file is written: the operation returns
0, and the update still overrides the file. -/
theorem confFileWrite_deletion_lost :
    ∃ d' rest, confFileWrite [] faultyDevice 3 secondStation [102] (oneFile [1, 2, 3])
        (⟨some [9], some [8], false⟩,
          [.timeout false, .timeout false, .timeout false, .served]) =
          .ok (some ⟨oneFile [1, 2, 3], 0, (d', rest)⟩) ∧
      d'.inkaConf = some [1, 2, 3] ∧ d'.effective replaceAll = some [8] ∧
      d'.effective replaceAll ≠ some [1, 2, 3] :=
  ⟨_, _, rfl, rfl, rfl, by decide⟩

end Hpav
