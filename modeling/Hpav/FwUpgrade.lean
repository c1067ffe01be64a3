import Mathlib.Tactic.Common
import Hpav.ConfFileEdit
import Hpav.ExitCode

/-!
# Upgrading the firmware of a station

`test_fw_upgrade` (`main.c`): the bootloader is written first, then the firmware. The station may lose
and refuse what it likes, as long as it is honest about what it has stored and what comes back in an
exchange answers the request of this exchange (`Honest`). The tool does not look whether it does: a
confirmation that is late, and read in a later exchange, can make it take a part for the whole. What
holds while one file is sent is `Progress`; the end of each of the two commands is put together to
`testFwUpgrade_upgrades`.
-/

namespace Hpav

open CMem CScan

/-! ## The flash of a station -/

/-- A place in the flash: the type of the file, and its name. -/
abbrev Area := UInt8 × CString

/-- What a station keeps in its flash. -/
abbrev Flash := Area → Option (List UInt8)

def FileAccessReq.area (r : FileAccessReq) : Area :=
  (r.fileType, r.parameter)

def FileAccessCommand.area (cmd : FileAccessCommand) : Area :=
  (cmd.fileType, cmd.parameter)

/-- A fragment is stored. The first one starts its area over. -/
def Flash.store (m : Flash) (r : FileAccessReq) : Flash := fun a =>
  if a = r.area then
    some (storeAt (if r.fragmentNumber.toNat = 0 then [] else (m a).getD []) r.offset.toNat
      (r.data.take r.length.toNat))
  else m a

section

variable {σ : Type}

/-- A station that is honest: a write is carried out or not, and it was carried out if everything
that comes back reports success. What comes back belongs to the request: it repeats the operation,
and the first confirmation of a success the number of the fragment and how many there are. Nothing is
said about what gets lost, refused or carried out without an answer. -/
structure Honest (e : Environment σ) (flash : σ → Flash) : Prop where
  carried : ∀ env mac r, r.op = opWrite → flash (e.respond env mac r).2 = flash env ∨
    flash (e.respond env mac r).2 = (flash env).store r
  operation : ∀ env mac r cs, (e.respond env mac r).1 = .received cs → ∀ c ∈ cs, c.op = r.op
  confirmed : ∀ env mac r head rest, r.op = opWrite → (e.respond env mac r).1 = .received (head :: rest) →
    (∀ c ∈ head :: rest, c.mstatus = 0) →
    flash (e.respond env mac r).2 = (flash env).store r ∧ head.totalFragments = r.totalFragments ∧
      head.fragmentNumber = r.fragmentNumber

/-- A station that confirms every request. -/
def Reliable (e : Environment σ) : Prop :=
  ∀ env mac r, ∃ head rest, (e.respond env mac r).1 = .received (head :: rest) ∧
    ∀ c ∈ head :: rest, c.mstatus = 0

end

/-! ## One file -/

/-- How far an area is while fragment `k` is sent: what precedes the fragment is stored, and perhaps
the fragment itself. -/
structure Progress (area : Area) (file : List UInt8) (k : Nat) (old m : Flash) : Prop where
  others : ∀ a, a ≠ area → m a = old a
  held : m area = (if k = 0 then old area else some (prefixWritten file k)) ∨
    m area = some (prefixWritten file (k + 1))

/-- The sender of fragment `k`. -/
structure Flashing (cmd : FileAccessCommand) (file : List UInt8) (k : Nat) (s : Sender) : Prop where
  buf : s.buf = file
  op : s.mmeSent.op = opWrite
  area : s.mmeSent.area = cmd.area
  total : s.mmeSent.totalFragments = UInt16.ofNat (fragmentCount file)
  number : s.mmeSent.fragmentNumber.toNat = k

/-- The request carries fragment `k`. -/
structure CarriesFragment (area : Area) (file : List UInt8) (k : Nat) (r : FileAccessReq) : Prop where
  op : r.op = opWrite
  area : r.area = area
  number : r.fragmentNumber.toNat = k
  offset : r.offset.toNat = dataMaxLen * k
  data : r.data.take r.length.toNat = chunkOf file k

/-- How the transfer of a file ends. -/
structure FlashEnd {σ : Type} (e : Environment σ) (flash : σ → Flash) (area : Area) (file : List UInt8) (old : Flash)
    (rv : Int) (env : σ) : Prop where
  others : ∀ a, a ≠ area → flash env a = old a
  held : flash env area = old area ∨ ∃ j ≤ sentFragments file, flash env area = some (prefixWritten file j)
  complete : rv = 0 → flash env area = some (written file)
  served : Reliable e → rv = 0

section OneFile

variable {area : Area} {cmd : FileAccessCommand} {file : List UInt8} {k : Nat} {old m : Flash}

/-- Stored once or twice, the fragment is there. -/
theorem Progress.store (h : Progress area file k old m) {r : FileAccessReq} (hr : CarriesFragment area file k r) :
    (∀ a, a ≠ area → m.store r a = old a) ∧ m.store r area = some (prefixWritten file (k + 1)) := by
  constructor
  · intro a ha
    unfold Flash.store
    rw [if_neg (by rw [hr.area]; exact ha), h.others a ha]
  · unfold Flash.store
    rw [if_pos hr.area.symm, hr.number, hr.offset, hr.data]
    show _ = some (storeAt (prefixWritten file k) (dataMaxLen * k) (chunkOf file k))
    by_cases hk : k = 0
    · rw [if_pos hk, hk]
      rfl
    · rw [if_neg hk]
      rcases h.held with hheld | hheld
      · rw [hheld, if_neg hk, Option.getD_some]
      · -- the fragment was stored before
        rw [hheld, Option.getD_some]
        show some (storeAt (storeAt _ _ _) _ _) = _
        rw [storeAt_storeAt]

/-- An exchange leaves the area as far as it was, or brings it one fragment further. -/
theorem Progress.carried (h : Progress area file k old m) {r : FileAccessReq} (hr : CarriesFragment area file k r)
    {m' : Flash} (hm : m' = m ∨ m' = m.store r) : Progress area file k old m' := by
  rcases hm with rfl | rfl
  · exact h
  · rcases h.store hr with ⟨hothers, hheld⟩
    exact ⟨hothers, Or.inr hheld⟩

/-- The next fragment finds everything in front of it stored. -/
theorem Progress.next (h : Progress area file k old m) {r : FileAccessReq} (hr : CarriesFragment area file k r) :
    Progress area file (k + 1) old (m.store r) := by
  rcases h.store hr with ⟨hothers, hheld⟩
  refine ⟨hothers, Or.inl ?_⟩
  rw [if_neg (Nat.succ_ne_zero k), hheld]

/-- The next request carries the fragment the transfer is at. -/
theorem Flashing.prepare (hop : cmd.op = opWrite) (hpos : 1 ≤ file.length) (hk : k < sentFragments file) {s : Sender}
    (hs : Flashing cmd file k s) :
    ∃ s', prepareRequest cmd s = .ok s' ∧ Flashing cmd file k s' ∧ s'.retryCount = s.retryCount ∧
      CarriesFragment cmd.area file k s'.mmeSent := by
  have hstart : dataMaxLen * s.mmeSent.fragmentNumber.toNat ≤ s.buf.length := by
    have hle := sentFragments_le hpos
    rw [hs.number, hs.buf]
    exact Nat.le_of_lt (start_lt_of_lt_count (by omega))
  rcases prepareRequest_write hop hstart with ⟨checksum, hprep⟩
  refine ⟨_, hprep, ⟨hs.buf, hs.op, hs.area, hs.total, hs.number⟩, rfl, hs.op, hs.area, hs.number, ?_, ?_⟩
  · show (UInt32.ofNat _).toNat = _
    rw [toNat_chunkOffset, hs.number]
  · show List.take (UInt16.ofNat _).toNat (_ ++ _) = _
    rw [toNat_chunkLength, List.take_left, hs.buf, hs.number]

/-- A transfer with fragments left goes on. -/
theorem Flashing.isOpen (hk : k < sentFragments file) {s : Sender} (hs : Flashing cmd file k s) : s.Open := by
  by_cases hzero : s.mmeSent.totalFragments = 0
  · exact Or.inl hzero
  · right
    have hne : (UInt16.ofNat (fragmentCount file)).toNat ≠ 0 := by
      rw [← hs.total]
      exact fun h0 => hzero (UInt16.toNat_inj.mp h0)
    rw [UInt16.lt_iff_toNat_lt, hs.number, hs.total]
    unfold sentFragments at hk
    omega

/-- Confirmations of a write leave the files of the host alone. -/
theorem processLoop_writes {cs : List FileAccessCnf} (h : ∀ c ∈ cs, c.op = opWrite) (s : ProcessState) :
    ∃ success, processLoop cmd s cs = .ok (s, success) := by
  induction cs with
  | nil => exact ⟨true, rfl⟩
  | cons c cs ih =>
    have hop := h c List.mem_cons_self
    rcases ih fun d hd => h d (List.mem_cons_of_mem _ hd) with ⟨success, hrest⟩
    unfold processLoop
    by_cases hstatus : c.mstatus = 0
    · refine ⟨success, ?_⟩
      have hquiet : processSuccess cmd s c = .ok s := by
        apply processSuccess_quiet
        all_goals
          rw [hop]
          decide
      rw [if_pos hstatus, hquiet, bind_ok, hrest]
    · exact ⟨false, if_neg hstatus⟩

/-- The turn behind confirmations of a write. -/
theorem receiveResponse_writes (uninit : List UInt8) (hop : cmd.op = opWrite) (fs : LocalFs) (s : Sender)
    {head : FileAccessCnf} {rest : List FileAccessCnf} (h : ∀ c ∈ head :: rest, c.op = opWrite) :
    receiveResponse uninit cmd fs s (.received (head :: rest)) = .ok (fs,
      if ∀ c ∈ head :: rest, c.mstatus = 0 then
        if loopCondition (s.advance head) 0 (head :: rest) then .again (s.advance head) else .leave 0
      else .leave hpavNok) := by
  have hscan : cmd.op ≠ opScanSta := by
    rw [hop]
    decide
  have hne : head :: rest ≠ [] := List.cons_ne_nil _ _
  rcases @processLoop_writes cmd _ h ⟨fs, .null, uninit⟩ with ⟨success, hloop⟩
  have hprocess : processMtkVsFileAccessCnf uninit cmd fs (head :: rest) = .ok (fs, success) := by
    rw [processMtkVsFileAccessCnf_eq hscan hne, hloop, bind_ok]
  have hsuccess := processMtkVsFileAccessCnf_success hne hprocess
  rw [receiveResponse_processed hprocess]
  cases success with
  | true => rw [if_pos (hsuccess.mp rfl)]; rfl
  | false =>
    have hnot : ¬ ∀ c ∈ head :: rest, c.mstatus = 0 := fun hall => Bool.false_ne_true (hsuccess.mpr hall)
    rw [if_neg hnot, if_neg]
    · rfl
    · intro hcond
      exact absurd hcond.1 (by decide)

/-! ### The loop -/

section Loop

variable {σ : Type} {e : Environment σ} {flash : σ → Flash}

/-- What is held at an end that is not a success. -/
theorem FlashEnd.failed (h : Progress area file k old m) (hk : k < sentFragments file) {rv : Int} (hrv : rv ≠ 0)
    {env : σ} (henv : flash env = m) (hunreliable : ¬ Reliable e) : FlashEnd e flash area file old rv env := by
  subst henv
  refine ⟨h.others, ?_, fun hzero => absurd hzero hrv, fun hreliable => absurd hreliable hunreliable⟩
  rcases h.held with hheld | hheld
  · by_cases hzero : k = 0
    · rw [if_pos hzero] at hheld
      exact Or.inl hheld
    · rw [if_neg hzero] at hheld
      exact Or.inr ⟨k, Nat.le_of_lt hk, hheld⟩
  · exact Or.inr ⟨k + 1, hk, hheld⟩

/-- Behind the confirmation of a fragment the loop goes on if there is another one. -/
theorem Flashing.advance {s : Sender} (hs : Flashing cmd file k s) (hk : k < sentFragments file) {head : FileAccessCnf}
    (rest : List FileAccessCnf) (htotal : head.totalFragments = s.mmeSent.totalFragments)
    (hnumber : head.fragmentNumber = s.mmeSent.fragmentNumber) :
    Flashing cmd file (k + 1) (s.advance head) ∧
      (loopCondition (s.advance head) 0 (head :: rest) ↔ k + 1 < sentFragments file) := by
  have hle : sentFragments file ≤ 65535 := sentFragments_le_count file
  have hnext : (s.advance head).mmeSent.fragmentNumber.toNat = k + 1 := by
    show (head.fragmentNumber + 1).toNat = k + 1
    rw [hnumber, toNat_add_one (by rw [hs.number]; exact hk) hle, hs.number]
  have htotal' : (s.advance head).mmeSent.totalFragments = UInt16.ofNat (fragmentCount file) := htotal.trans hs.total
  refine ⟨⟨hs.buf, hs.op, hs.area, htotal', hnext⟩, ?_⟩
  rw [← succ_lt_total_iff hk]
  have hlt : (s.advance head).mmeSent.fragmentNumber < (s.advance head).mmeSent.totalFragments ↔
      k + 1 < (UInt16.ofNat (fragmentCount file)).toNat := by
    rw [UInt16.lt_iff_toNat_lt, hnext, htotal']
  rw [← hlt]
  constructor
  · intro hcond
    rcases hcond.2 with ⟨_, hempty⟩ | hlt
    · cases hempty
    · exact hlt
  · intro hlt
    exact ⟨rfl, Or.inr hlt⟩

/-- One exchange: the loop ends, tries the fragment again, or goes on behind it. -/
theorem loopEnds_exchange (honest : Honest e flash) (uninit : List UInt8) (hop : cmd.op = opWrite)
    (hpos : 1 ≤ file.length) (hk : k < sentFragments file) (fs : LocalFs) {fuel : Nat} {s : Sender} {env : σ}
    (hs : Flashing cmd file k s) (h : Progress cmd.area file k old (flash env))
    (hagain : ∀ s' env', s'.retryCount = s.retryCount + 1 → s'.retryCount < 3 → Flashing cmd file k s' →
      Progress cmd.area file k old (flash env') → ∃ rv env'', FlashEnd e flash cmd.area file old rv env'' ∧
        LoopEnds uninit e cmd fuel fs s' env' fs rv env'')
    (hnext : ∀ s' env', k + 1 < sentFragments file → s'.retryCount = 0 → Flashing cmd file (k + 1) s' →
      Progress cmd.area file (k + 1) old (flash env') → ∃ rv env'', FlashEnd e flash cmd.area file old rv env'' ∧
        LoopEnds uninit e cmd fuel fs s' env' fs rv env'') :
    ∃ rv env', FlashEnd e flash cmd.area file old rv env' ∧ LoopEnds uninit e cmd (fuel + 1) fs s env fs rv env' := by
  rcases hs.prepare hop hpos hk with ⟨s₁, hprep, hs₁, hcount, hsent⟩
  rcases hresp : e.respond env s₁.destMac s₁.mmeSent with ⟨outcome, env₁⟩
  have hcarried := honest.carried env s₁.destMac s₁.mmeSent hsent.op
  have hoperation := honest.operation env s₁.destMac s₁.mmeSent
  have hconfirmed := honest.confirmed env s₁.destMac s₁.mmeSent
  rw [hresp] at hcarried hoperation hconfirmed
  have hprogress := h.carried hsent hcarried
  -- an end without a success shows that the station is not reliable
  have hfailed : ∀ rv, rv ≠ 0 →
      (∀ head rest, outcome = .received (head :: rest) → ¬ ∀ c ∈ head :: rest, c.mstatus = 0) →
      FlashEnd e flash cmd.area file old rv env₁ := by
    intro rv hrv hnot
    refine FlashEnd.failed hprogress hk hrv rfl ?_
    intro hreliable
    rcases hreliable env s₁.destMac s₁.mmeSent with ⟨head, rest, hreceived, hall⟩
    rw [hresp] at hreceived
    exact hnot head rest hreceived hall
  rcases outcome with _ | _ | ⟨head, rest⟩
  · exact ⟨-1, env₁, hfailed (-1) (by decide) (fun _ _ hout => nomatch hout), .leave hprep hresp rfl⟩
  · have hrecv := receiveResponse_silent uninit cmd fs (hs₁.isOpen hk)
    by_cases hlast : 3 ≤ s₁.retryCount + 1
    · rw [if_pos hlast] at hrecv
      exact ⟨reqFail, env₁, hfailed reqFail (by decide) (fun _ _ hout => nomatch hout), .leave hprep hresp hrecv⟩
    · rw [if_neg hlast] at hrecv
      have hretry : s₁.retry.retryCount = s.retryCount + 1 := by
        rw [← hcount]
        rfl
      have hretried : Flashing cmd file k s₁.retry := ⟨hs₁.buf, hs₁.op, hs₁.area, hs₁.total, hs₁.number⟩
      rcases hagain s₁.retry env₁ hretry (by omega) hretried hprogress with ⟨rv, env', hend, hrest⟩
      exact ⟨rv, env', hend, hrest.again hprep hresp hrecv⟩
  · have hop' : ∀ c ∈ head :: rest, c.op = opWrite := by
      intro c hc
      rw [hoperation _ rfl c hc, hsent.op]
    have hrecv := receiveResponse_writes uninit hop fs s₁ hop'
    by_cases hall : ∀ c ∈ head :: rest, c.mstatus = 0
    · rw [if_pos hall] at hrecv
      rcases hconfirmed head rest hsent.op rfl hall with ⟨hflash, htotal, hnumber⟩
      rcases hs₁.advance hk rest htotal hnumber with ⟨hadvanced, hcond⟩
      by_cases hmore : k + 1 < sentFragments file
      · rw [if_pos (hcond.mpr hmore)] at hrecv
        have hstored := h.next hsent
        rw [← hflash] at hstored
        rcases hnext _ env₁ hmore rfl hadvanced hstored with ⟨rv, env', hend, hrest⟩
        exact ⟨rv, env', hend, hrest.again hprep hresp hrecv⟩
      · -- it was the last one
        rw [if_neg fun hloop => hmore (hcond.mp hloop)] at hrecv
        rcases h.store hsent with ⟨hothers, hheld⟩
        rw [← hflash] at hothers hheld
        have hwhole : flash env₁ cmd.area = some (written file) := by
          have hcount : sentFragments file = k + 1 := by omega
          rw [hheld, written, hcount]
        refine ⟨0, env₁, ⟨hothers, Or.inr ⟨k + 1, hk, hheld⟩, fun _ => hwhole, fun _ => rfl⟩, ?_⟩
        exact .leave hprep hresp hrecv
    · rw [if_neg hall] at hrecv
      refine ⟨hpavNok, env₁, hfailed hpavNok (by decide) ?_, .leave hprep hresp hrecv⟩
      intro head' rest' hout
      injection hout with hout
      injection hout with hhead hrest
      rw [← hhead, ← hrest]
      exact hall

/-- One fragment, with `t + 1` tries left. -/
theorem loopEnds_fragment (honest : Honest e flash) (uninit : List UInt8) (hop : cmd.op = opWrite)
    (hpos : 1 ≤ file.length) (hk : k < sentFragments file) (fs : LocalFs) {fuel t : Nat} {s : Sender} {env : σ}
    (hretry : s.retryCount + (t + 1) = 3) (hs : Flashing cmd file k s) (h : Progress cmd.area file k old (flash env))
    (hnext : ∀ s' env', k + 1 < sentFragments file → s'.retryCount = 0 → Flashing cmd file (k + 1) s' →
      Progress cmd.area file (k + 1) old (flash env') → ∃ rv env'', FlashEnd e flash cmd.area file old rv env'' ∧
        LoopEnds uninit e cmd fuel fs s' env' fs rv env'') :
    ∃ rv env', FlashEnd e flash cmd.area file old rv env' ∧
      LoopEnds uninit e cmd (fuel + t + 1) fs s env fs rv env' := by
  have hmore : ∀ s' env', k + 1 < sentFragments file → s'.retryCount = 0 → Flashing cmd file (k + 1) s' →
      Progress cmd.area file (k + 1) old (flash env') → ∃ rv env'', FlashEnd e flash cmd.area file old rv env'' ∧
        LoopEnds uninit e cmd (fuel + t) fs s' env' fs rv env'' := by
    intro s' env' hk' hcount hs' h'
    rcases hnext s' env' hk' hcount hs' h' with ⟨rv, env'', hend, hrest⟩
    exact ⟨rv, env'', hend, hrest.mono (Nat.le_add_right fuel t)⟩
  -- on the tries that are left: only a lost answer is followed by another one
  induction t generalizing s env with
  | zero =>
    refine loopEnds_exchange honest uninit hop hpos hk fs hs h ?_ hmore
    intro s' env' hcount hlt _ _
    omega
  | succ t ih =>
    refine loopEnds_exchange honest uninit hop hpos hk fs hs h ?_ hmore
    intro s' env' hcount _ hs' h'
    refine ih (by omega) hs' h' ?_
    intro s'' env'' hk' hcount' hs'' h''
    rcases hnext s'' env'' hk' hcount' hs'' h'' with ⟨rv, env₃, hend, hrest⟩
    exact ⟨rv, env₃, hend, hrest.mono (Nat.le_add_right fuel t)⟩

/-- The loop over the fragments from fragment `k` on. -/
theorem loopEnds_flash (honest : Honest e flash) (uninit : List UInt8) (hop : cmd.op = opWrite) (hpos : 1 ≤ file.length)
    (fs : LocalFs) {n : Nat} {s : Sender} {env : σ} (hsum : k + (n + 1) = sentFragments file)
    (hretry : s.retryCount = 0) (hs : Flashing cmd file k s) (h : Progress cmd.area file k old (flash env)) :
    ∃ rv env', FlashEnd e flash cmd.area file old rv env' ∧
      LoopEnds uninit e cmd (3 * (n + 1)) fs s env fs rv env' := by
  -- on the fragments that are left
  induction n generalizing k s env with
  | zero =>
    have hretry' : s.retryCount + (2 + 1) = 3 := by omega
    refine @loopEnds_fragment _ _ _ _ _ _ _ honest uninit hop hpos (by omega) fs 0 2 s env hretry' hs h ?_
    intro s' env' hk'
    omega
  | succ n ih =>
    have hretry' : s.retryCount + (2 + 1) = 3 := by omega
    have hfuel : 3 * (n + 1 + 1) = 3 * (n + 1) + 2 + 1 := by omega
    rw [hfuel]
    refine loopEnds_fragment honest uninit hop hpos (by omega) fs hretry' hs h ?_
    intro s' env' _ hcount hs' h'
    exact ih (by omega) hcount hs' h'

end Loop

end OneFile

/-! ## The two commands -/

/-- The file of a command can be sent. -/
def Sendable (cmd : FileAccessCommand) (fs : LocalFs) : Prop :=
  ∃ file, fs.content cmd.fileName = some file ∧ 1 ≤ file.length

/-- How a command that writes a file into the flash ends, if `ready` is what it needs besides a
reliable station. -/
structure Flashed {σ : Type} (e : Environment σ) (flash : σ → Flash) (cmd : FileAccessCommand) (fs : LocalFs)
    (ready : Prop) (old : Flash) (rv : Int) (env : σ) : Prop where
  others : ∀ a, a ≠ cmd.area → flash env a = old a
  held : flash env cmd.area = old cmd.area ∨ ∃ file, fs.content cmd.fileName = some file ∧
    ∃ j ≤ sentFragments file, flash env cmd.area = some (prefixWritten file j)
  complete : rv = 0 → ∃ file, fs.content cmd.fileName = some file ∧ 1 ≤ file.length ∧
    flash env cmd.area = some (written file)
  served : Reliable e → ready → rv = 0

section Commands

variable {σ : Type} {host : FileHost σ} {flash : σ → Flash} {cmd : FileAccessCommand} {fs : LocalFs}

/-- A failure before anything is sent. -/
theorem Flashed.unsent {ready : Prop} {rv : Int} (hrv : rv ≠ 0) (hready : ¬ ready) (env : σ) :
    Flashed host.environment flash cmd fs ready (flash env) rv env :=
  ⟨fun _ _ => rfl, Or.inl rfl, fun hzero => absurd hzero hrv, fun _ h => absurd h hready⟩

/-- A file that can be sent is started with its first fragment, and no other one is. -/
theorem startStation_write (hop : cmd.op = opWrite) (hparameter : cmd.parameter.length ≤ 32) (mac : Mac) :
    (¬ Sendable cmd fs ∧ startStation cmd fs mac = .inr reqFail) ∨
    ∃ file s, fs.content cmd.fileName = some file ∧ 1 ≤ file.length ∧ startStation cmd fs mac = .inl s ∧
      Flashing cmd file 0 s ∧ s.retryCount = 0 := by
  unfold startStation
  simp only [if_neg (Nat.not_lt.mpr hparameter), if_pos hop]
  rcases hfile : fs.content cmd.fileName with _ | file
  · left
    refine ⟨?_, rfl⟩
    rintro ⟨file, hsome, -⟩
    rw [hfile] at hsome
    cases hsome
  · by_cases hempty : file.length = 0
    · left
      refine ⟨?_, if_pos hempty⟩
      rintro ⟨file', hsome, hpos⟩
      rw [hfile] at hsome
      injection hsome with hsome
      rw [← hsome] at hpos
      omega
    · right
      refine ⟨file, _, rfl, by omega, if_neg hempty, ⟨rfl, hop, rfl, rfl, rfl⟩, rfl⟩

/-- A file is written at one station. -/
theorem accessFiles_flashed (honest : Honest host.environment flash) (hfuel : 3 * 65535 ≤ host.fuel)
    (hop : cmd.op = opWrite) (hparameter : cmd.parameter.length ≤ 32) (mac : Mac) (env : σ) :
    ∃ last, accessFiles host cmd [mac] fs env = .ok (some last) ∧ last.fs = fs ∧
      Flashed host.environment flash cmd fs (Sendable cmd fs) (flash env) last.rv last.env := by
  rcases @startStation_write cmd fs hop hparameter mac with ⟨hnot, hstart⟩ | ⟨file, s, hfile, hpos, hstart, hs, hretry⟩
  · have hrun := @fileAccessReq_early _ host.uninit host.environment _ host.fuel _ _ env _ hstart
    refine ⟨⟨reqFail, [.transfer (fs.writable cmd.fileName) [(mac, [])]], fs, env⟩, ?_, rfl, ?_⟩
    · unfold accessFiles
      rw [hrun]
      rfl
    · exact Flashed.unsent (show reqFail ≠ 0 by decide) hnot env
  · have hcount := sentFragments_le_count file
    obtain ⟨n, hn⟩ : ∃ n, sentFragments file = n + 1 := Nat.exists_eq_succ_of_ne_zero (sentFragments_pos file).ne'
    have hprogress : Progress cmd.area file 0 (flash env) (flash env) := ⟨fun _ _ => rfl, Or.inl rfl⟩
    rcases loopEnds_flash honest host.uninit hop hpos fs (by omega : 0 + (n + 1) = _) hretry hs hprogress with
      ⟨rv, env', hend, hloop⟩
    rcases fileAccessReq_single hstart (hloop.mono (by omega : 3 * (n + 1) ≤ host.fuel)) with ⟨exchanges, hrun⟩
    refine ⟨⟨rv, [.transfer (fs.writable cmd.fileName) [(mac, exchanges)]], fs, env'⟩, ?_, rfl, hend.others, ?_, ?_, ?_⟩
    · unfold accessFiles
      rw [hrun]
      rfl
    · rcases hend.held with hheld | ⟨j, hj, hheld⟩
      · exact Or.inl hheld
      · exact Or.inr ⟨file, hfile, j, hj, hheld⟩
    · intro hzero
      exact ⟨file, hfile, hpos, hend.complete hzero⟩
    · intro hreliable _
      exact hend.served hreliable

/-! ### The words of the commands -/

/-- `bootloader input <file>` -/
def bootloaderInput (fileName : CString) : FileAccessCommand :=
  ⟨opWrite, fileTypeBootloader, [], fileName⟩

/-- `simage <name> input <file>`. A file called "input" is taken for the option. -/
def simageInput (fileName : CString) : FileAccessCommand :=
  ⟨opWrite, fileTypeSimage, if fileName = text "input" then [] else fileName, fileName⟩

/-- The words of the first command are parsed to the writing of the bootloader. -/
theorem parseMtkVsFileAccess_bootloader {fileName : CString} (hname : fileName.length < 128) :
    parseMtkVsFileAccess [text "bootloader", text "input", fileName] =
      .ok (some (bootloaderInput fileName, false)) := by
  have hcopy : strcpy 128 fileName = .ok fileName := if_pos hname
  have hword : parseWord [text "bootloader", text "input", fileName] =
      .ok (some (⟨text "bootloader", opWrite, fileTypeBootloader, false, .input⟩, [], [text "input", fileName])) := rfl
  have hfile : parseFile [text "input", fileName] = .ok (some (.input, fileName, [])) := by
    show (strcpy 128 fileName >>= fun fileName => .ok (some (_, fileName, _))) = _
    rw [hcopy]
    rfl
  unfold parseMtkVsFileAccess
  rw [if_neg (List.cons_ne_nil _ _), hword]
  show (parseFile [text "input", fileName] >>= _) = _
  rw [hfile]
  rfl

/-- The words of the second command are parsed to the writing of the firmware. -/
theorem parseMtkVsFileAccess_simage {fileName : CString} (hname : fileName.length < 32) :
    parseMtkVsFileAccess [text "simage", fileName, text "input", fileName] =
      .ok (some (simageInput fileName, false)) := by
  by_cases hinput : fileName = text "input"
  · rw [hinput]
    decide
  have hcopy : strcpy 128 fileName = .ok fileName := if_pos (by omega)
  have hparameter : strcpy 32 fileName = .ok fileName := if_pos hname
  have hword : parseWord [text "simage", fileName, text "input", fileName] =
      .ok (some (⟨text "simage", opWrite, fileTypeSimage, true, .input⟩, fileName, [text "input", fileName])) := by
    show (if opWrite = opWrite ∧ fileTypeSimage = fileTypeSimage ∧ fileName = text "input" then _ else
      strcpy 32 fileName >>= _) = _
    rw [if_neg (fun h => hinput h.2.2), hparameter]
    rfl
  have hfile : parseFile [text "input", fileName] = .ok (some (.input, fileName, [])) := by
    show (strcpy 128 fileName >>= fun fileName => .ok (some (_, fileName, _))) = _
    rw [hcopy]
    rfl
  unfold parseMtkVsFileAccess simageInput
  rw [if_neg (List.cons_ne_nil _ _), hword, if_neg hinput]
  show (parseFile [text "input", fileName] >>= _) = _
  rw [hfile]
  rfl

/-! ### On the channel -/

/-- A command that writes, with its channel. -/
theorem executeOnChannel_flashed {m : Machine σ} (honest : Honest m.host.environment flash)
    (hfuel : 3 * 65535 ≤ m.host.fuel) (hop : cmd.op = opWrite) (hparameter : cmd.parameter.length ≤ 32) (k : Nat)
    {ifName station : CString} {words : List CString} (hopen : ∃ opening, openChannel (m.around k) ifName = .ok opening)
    (hparse : parseMtkVsFileAccess words = .ok (some (cmd, false))) (env : σ) :
    ∃ last, executeOnChannel m k ifName .fileAccess (station :: words) fs env = .ok (some last) ∧ last.fs = fs ∧
      Flashed m.host.environment flash cmd fs ((∃ s, openChannel (m.around k) ifName = .ok (.channel s)) ∧
        (stomac station).isSome = true ∧ Sendable cmd fs) (flash env) last.rv last.env := by
  rcases hopen with ⟨setting | ⟨rv, met⟩, hopen⟩
  · cases hstation : stomac station with
    | none =>
      have husage : testMmeMtkVsFileAccessReq m.host (station :: words) fs env = .ok (some (.usage fs env)) := by
        unfold testMmeMtkVsFileAccessReq
        simp only [hstation]
      refine ⟨⟨exitUsage, .opened :: [.usageError], fs, env⟩, ?_, rfl, ?_⟩
      · unfold executeOnChannel
        rw [hopen, bind_ok]
        simp only
        show (testMmeMtkVsFileAccessReq m.host (station :: words) fs env >>= _) = _
        rw [husage]
        rfl
      · refine Flashed.unsent (show exitUsage ≠ 0 by decide) ?_ env
        rintro ⟨-, haddress, -⟩
        cases haddress
    | some mac =>
      rcases @accessFiles_flashed _ m.host flash cmd fs honest hfuel hop hparameter (destOf mac) env with
        ⟨last, hrun, hfs, hflashed⟩
      rw [← testMmeMtkVsFileAccessReq_single m.host hstation hparse] at hrun
      refine ⟨{ last with log := .opened :: last.log }, ?_, hfs, ?_⟩
      · unfold executeOnChannel
        rw [hopen, bind_ok]
        simp only
        show (testMmeMtkVsFileAccessReq m.host (station :: words) fs env >>= _) = _
        rw [hrun]
        rfl
      · exact ⟨hflashed.others, hflashed.held, hflashed.complete, fun h hready => hflashed.served h hready.2.2⟩
  · refine ⟨⟨rv, [met], fs, env⟩, ?_, rfl, ?_⟩
    · unfold executeOnChannel
      rw [hopen, bind_ok]
      rfl
    · have hrv : rv ≠ 0 := by
        rcases openChannel_failed hopen with _ | _ | _
        all_goals decide
      refine Flashed.unsent hrv ?_ env
      rintro ⟨⟨s, hchannel⟩, -⟩
      rw [hopen] at hchannel
      cases hchannel

/-! ## The upgrade -/

/-- What an upgrade leaves behind. -/
structure Upgraded (m : Machine σ) (flash : σ → Flash) (ifName mac bootloader firmware : CString) (fs : LocalFs)
    (old : Flash) (rv : Int) (env : σ) : Prop where
  /-- no other area is touched -/
  others : ∀ a, a ≠ (bootloaderInput bootloader).area → a ≠ (simageInput firmware).area → flash env a = old a
  /-- the firmware is touched only behind a whole bootloader -/
  ordered : flash env (simageInput firmware).area ≠ old (simageInput firmware).area →
    ∃ file, fs.content bootloader = some file ∧ flash env (bootloaderInput bootloader).area = some (written file)
  /-- success tells that both are there -/
  complete : rv = 0 → ∃ b f, fs.content bootloader = some b ∧ fs.content firmware = some f ∧ 1 ≤ b.length ∧
    1 ≤ f.length ∧ flash env (bootloaderInput bootloader).area = some (written b) ∧
    flash env (simageInput firmware).area = some (written f)
  /-- and so are their contents, unless there are more fragments than can be counted -/
  contents : rv = 0 → ∀ b f, fs.content bootloader = some b → fs.content firmware = some f →
    b.length ≤ 65535 * dataMaxLen → f.length ≤ 65535 * dataMaxLen →
    flash env (bootloaderInput bootloader).area = some b ∧ flash env (simageInput firmware).area = some f
  /-- a reliable station is upgraded -/
  served : Reliable m.host.environment → (∀ k < 2, ∃ s, openChannel (m.around k) ifName = .ok (.channel s)) →
    (stomac mac).isSome = true → Sendable (bootloaderInput bootloader) fs → Sendable (simageInput firmware) fs →
    rv = 0

/-- The two files go to different areas. -/
theorem area_ne (bootloader firmware : CString) :
    (simageInput firmware).area ≠ (bootloaderInput bootloader).area := by
  intro h
  have htype := congrArg Prod.fst h
  exact absurd htype (show fileTypeSimage ≠ fileTypeBootloader by decide)

/-- Upgrading an honest station, whatever becomes of the exchanges, where opening the channel comes to
an end: the upgrade ends, changes no file of the host and no other part of the flash, begins with the
firmware only when the bootloader is whole, and succeeds only if both are. -/
theorem testFwUpgrade_upgrades {m : Machine σ} (honest : Honest m.host.environment flash)
    (hfuel : 3 * 65535 ≤ m.host.fuel) {ifName mac bootloader firmware : CString}
    (hopen : ∀ k < 2, ∃ opening, openChannel (m.around k) ifName = .ok opening) (hbootloader : bootloader.length < 128)
    (hfirmware : firmware.length < 32) (env : σ) :
    ∃ last, testFwUpgrade m ifName mac bootloader firmware fs env = .ok (some last) ∧ last.fs = fs ∧
      Upgraded m flash ifName mac bootloader firmware fs (flash env) last.rv last.env := by
  have hne := area_ne bootloader firmware
  have hparameter : (simageInput firmware).parameter.length ≤ 32 := by
    unfold simageInput
    show (if _ then _ else _ : CString).length ≤ 32
    split
    · decide
    · omega
  rcases @executeOnChannel_flashed _ flash (bootloaderInput bootloader) fs m honest hfuel rfl (Nat.zero_le 32) 0 ifName
    mac _ (hopen 0 (by omega)) (parseMtkVsFileAccess_bootloader hbootloader) env with ⟨first, hfirst, hfs, hboot⟩
  unfold testFwUpgrade
  rw [hfirst, bind_ok]
  simp only
  by_cases hrv : first.rv = 0
  · rw [if_neg (not_not.mpr hrv), hfs]
    rcases @executeOnChannel_flashed _ flash (simageInput firmware) fs m honest hfuel rfl hparameter 1 ifName mac
      _ (hopen 1 (by omega)) (parseMtkVsFileAccess_simage hfirmware) first.env with ⟨last, hlast, hfs', himage⟩
    have hbootArea : flash last.env (bootloaderInput bootloader).area =
        flash first.env (bootloaderInput bootloader).area := himage.others _ hne.symm
    rcases hboot.complete hrv with ⟨b, hb, hbpos, hbwritten⟩
    have hcomplete : last.rv = 0 → ∃ b f,
        fs.content bootloader = some b ∧ fs.content firmware = some f ∧ 1 ≤ b.length ∧ 1 ≤ f.length ∧
        flash last.env (bootloaderInput bootloader).area = some (written b) ∧
        flash last.env (simageInput firmware).area = some (written f) := by
      intro hzero
      rcases himage.complete hzero with ⟨f, hf, hfpos, hfwritten⟩
      exact ⟨b, f, hb, hf, hbpos, hfpos, hbootArea.trans hbwritten, hfwritten⟩
    refine ⟨{ last with log := first.log ++ last.log }, ?_, hfs', ?_, ?_, hcomplete, ?_, ?_⟩
    · rw [hlast]
      rfl
    · intro a hab haf
      rw [himage.others a haf, hboot.others a hab]
    · intro _
      exact ⟨b, hb, hbootArea.trans hbwritten⟩
    · intro hzero b' f' hb' hf' hbsize hfsize
      rcases hcomplete hzero with ⟨b, f, hb, hf, hbpos, hfpos, hbheld, hfheld⟩
      obtain rfl : b = b' := Option.some.inj (hb.symm.trans hb')
      obtain rfl : f = f' := Option.some.inj (hf.symm.trans hf')
      rw [written_eq hbpos hbsize] at hbheld
      rw [written_eq hfpos hfsize] at hfheld
      exact ⟨hbheld, hfheld⟩
    · intro hreliable hchannels haddress _ hsend
      exact himage.served hreliable ⟨hchannels 1 (by omega), haddress, hsend⟩
  · rw [if_pos hrv]
    refine ⟨first, rfl, hfs, ?_, ?_, fun hzero => absurd hzero hrv, fun hzero => absurd hzero hrv, ?_⟩
    · intro a hab _
      exact hboot.others a hab
    · intro htouched
      exact absurd (hboot.others _ hne) htouched
    · intro hreliable hchannels haddress hsend _
      exact absurd (hboot.served hreliable ⟨hchannels 0 (by omega), haddress, hsend⟩) hrv

/-- A path of 32 bytes or more overruns the parameter, and does so once the bootloader is written. -/
theorem testFwUpgrade_overrun {m : Machine σ} {ifName mac bootloader firmware : CString} {env : σ}
    {first : CommandEnd σ} {s : Setting}
    (hfirst : executeOnChannel m 0 ifName .fileAccess [mac, text "bootloader", text "input", bootloader] fs env =
      .ok (some first)) (hrv : first.rv = 0) (hopen : openChannel (m.around 1) ifName = .ok (.channel s))
    (haddress : (stomac mac).isSome = true) (hlong : 32 ≤ firmware.length) :
    testFwUpgrade m ifName mac bootloader firmware fs env = .error .outOfBounds := by
  rcases Option.isSome_iff_exists.mp haddress with ⟨station, hstation⟩
  have hinput : firmware ≠ text "input" := by
    intro hinput
    rw [hinput] at hlong
    exact absurd hlong (by decide)
  have hparameter : strcpy 32 firmware = .error .outOfBounds := if_neg (by omega)
  have hword : parseWord [text "simage", firmware, text "input", firmware] = .error .outOfBounds := by
    show (if opWrite = opWrite ∧ fileTypeSimage = fileTypeSimage ∧ firmware = text "input" then _ else
      strcpy 32 firmware >>= _) = _
    rw [if_neg (fun h => hinput h.2.2), hparameter]
    rfl
  have hparse : parseMtkVsFileAccess [text "simage", firmware, text "input", firmware] = .error .outOfBounds := by
    unfold parseMtkVsFileAccess
    rw [if_neg (List.cons_ne_nil _ _), hword]
    rfl
  -- an address of zeros is passed on, and skipped where the words are read
  have hzero : parseMtkVsFileAccess [mac, text "simage", firmware, text "input", firmware] = .error .outOfBounds := by
    unfold parseMtkVsFileAccess
    rw [if_neg (List.cons_ne_nil _ _), parseWord_address hstation, hword]
    rfl
  have haccess : testMmeMtkVsFileAccessReq m.host [mac, text "simage", firmware, text "input", firmware] first.fs
      first.env = .error .outOfBounds := by
    unfold testMmeMtkVsFileAccessReq
    simp only [hstation]
    by_cases hspecific : station.bytes = List.replicate 6 0
    · simp only [hspecific, ne_eq, not_true_eq_false, if_false, hzero]
      rfl
    · simp only [ne_eq, hspecific, not_false_eq_true, if_true, hparse]
      rfl
  unfold testFwUpgrade
  rw [hfirst, bind_ok]
  simp only
  rw [if_neg (not_not.mpr hrv)]
  unfold executeOnChannel
  rw [hopen, bind_ok]
  simp only
  show ((testMmeMtkVsFileAccessReq m.host [mac, text "simage", firmware, text "input", firmware] first.fs first.env >>=
    _) >>= _) = _
  rw [haccess]
  rfl

end Commands

/-! ## Two stations -/

/-- A request is carried out on the flash if it is a write. -/
def Flash.execute (m : Flash) (r : FileAccessReq) : Flash :=
  if r.op = opWrite then m.store r else m

/-- A station that confirms everything. -/
def servingFlash : Environment Flash where
  respond m mac r := (.received [deviceCnf 0 mac r], m.execute r)

/-- A station under a list of fates; behind its end nothing gets through any more. -/
def lossyFlash : Environment (Flash × List Fate) where
  respond := fun (m, fates) mac r =>
    match fates with
    | [] => (.received [], (m, []))
    | .served :: rest => (.received [deviceCnf 0 mac r], (m.execute r, rest))
    | .refused :: rest => (.received [deviceCnf 1 mac r], (m, rest))
    | .timeout executed :: rest => (.received [], (if executed then m.execute r else m, rest))
    | .pcapError executed :: rest => (.pcapError, (if executed then m.execute r else m, rest))

/-- A request to write is stored. -/
theorem execute_write {r : FileAccessReq} (hop : r.op = opWrite) (m : Flash) : m.execute r = m.store r :=
  if_pos hop

/-- A station that serves everything answers for what it has stored. -/
theorem servingFlash_honest : Honest servingFlash id where
  carried m mac r hop := Or.inr (execute_write hop m)
  operation m mac r cs hreceived c hc := by
    injection hreceived with hreceived
    rw [← hreceived] at hc
    rw [List.mem_singleton.mp hc]
    rfl
  confirmed m mac r head rest hop hreceived _ := by
    injection hreceived with hreceived
    injection hreceived with hhead
    rw [← hhead]
    exact ⟨execute_write hop m, rfl, rfl⟩

/-- It serves everything. -/
theorem servingFlash_reliable : Reliable servingFlash := by
  intro m mac r
  refine ⟨deviceCnf 0 mac r, [], rfl, ?_⟩
  intro c hc
  rw [List.mem_singleton.mp hc]
  rfl

/-- A station whose answers get lost answers for what it has stored. -/
theorem lossyFlash_honest : Honest lossyFlash Prod.fst where
  carried := by
    rintro ⟨m, fates⟩ mac r hop
    have hexecuted : ∀ executed : Bool, (if executed then m.execute r else m) = m ∨
        (if executed then m.execute r else m) = m.store r := by
      intro executed
      cases executed with
      | true => exact Or.inr (execute_write hop m)
      | false => exact Or.inl rfl
    rcases fates with _ | ⟨fate, rest⟩
    · exact Or.inl rfl
    · cases fate with
      | served => exact Or.inr (execute_write hop m)
      | refused => exact Or.inl rfl
      | timeout executed => exact hexecuted executed
      | pcapError executed => exact hexecuted executed
  operation := by
    rintro ⟨m, fates⟩ mac r cs hreceived c hc
    rcases fates with _ | ⟨fate, rest⟩
    · injection hreceived with hreceived
      rw [← hreceived] at hc
      cases hc
    · cases fate with
      | served | refused =>
        injection hreceived with hreceived
        rw [← hreceived] at hc
        rw [List.mem_singleton.mp hc]
        rfl
      | timeout executed =>
        injection hreceived with hreceived
        rw [← hreceived] at hc
        cases hc
      | pcapError executed => cases hreceived
  confirmed := by
    rintro ⟨m, fates⟩ mac r head rest hop hreceived hall
    rcases fates with _ | ⟨fate, rest'⟩
    · cases hreceived
    · cases fate with
      | served =>
        injection hreceived with hreceived
        injection hreceived with hhead
        rw [← hhead]
        exact ⟨execute_write hop m, rfl, rfl⟩
      | refused =>
        -- the confirmation reports a failure
        injection hreceived with hreceived
        injection hreceived with hhead
        have hstatus := hall head List.mem_cons_self
        rw [← hhead] at hstatus
        exact absurd hstatus (show (1 : UInt8) ≠ 0 by decide)
      | timeout executed => cases hreceived
      | pcapError executed => cases hreceived

/-- A bootloader of three fragments. -/
def bootFile : List UInt8 :=
  (List.range 2500).map UInt8.ofNat

/-- A firmware of four. -/
def firmwareFile : List UInt8 :=
  (List.range 3100).map fun i => UInt8.ofNat (7 * i)

/-- The bootloader has 2500 bytes. -/
theorem length_bootFile : bootFile.length = 2500 := by
  unfold bootFile
  rw [List.length_map, List.length_range]

/-- The firmware has 3100 bytes. -/
theorem length_firmwareFile : firmwareFile.length = 3100 := by
  unfold firmwareFile
  rw [List.length_map, List.length_range]

/-- The files of an upgrade. -/
def upgradeFiles : LocalFs where
  content path :=
    if path = text "boot.bin" then some bootFile else if path = text "fw.bin" then some firmwareFile else none
  writable _ := true

/-- A host with one interface, and a station behind it. -/
def upgradeMachine {σ : Type} (e : Environment σ) : Machine σ where
  around := quietMachine.around
  listed := none
  host := ⟨e, 3 * 65535, []⟩
  temp := none

/-- The channel is opened for both commands. -/
theorem upgradeMachine_opens {σ : Type} (e : Environment σ) (k : Nat) :
    openChannel ((upgradeMachine e).around k) (text "eth0") = .ok (.channel (quietMachine.around k).setting) := rfl

/-- A serving station gets both files, fragment by fragment. The same holds as ever where the first
confirmation is lost, the second fragment is sent twice in vain, and one of the firmware is refused. -/
theorem testFwUpgrade_upgrades_two :
    (∃ last, testFwUpgrade (upgradeMachine servingFlash) (text "eth0") (text "00:13:d7:00:00:01") (text "boot.bin")
        (text "fw.bin") upgradeFiles (fun _ => none) = .ok (some last) ∧ last.rv = 0 ∧
      last.env (fileTypeBootloader, []) = some bootFile ∧ last.env (fileTypeSimage, text "fw.bin") = some firmwareFile) ∧
    ∃ last, testFwUpgrade (upgradeMachine lossyFlash) (text "eth0") (text "00:13:d7:00:00:01") (text "boot.bin")
        (text "fw.bin") upgradeFiles (fun _ => none, [.timeout true, .served, .timeout false, .timeout false, .served,
        .served, .served, .refused]) = .ok (some last) ∧
      last.fs = upgradeFiles ∧
      Upgraded (upgradeMachine lossyFlash) Prod.fst (text "eth0") (text "00:13:d7:00:00:01") (text "boot.bin")
        (text "fw.bin") upgradeFiles (fun _ => none) last.rv last.env := by
  have hboot : (text "boot.bin").length < 128 := by decide
  have hfirmware : (text "fw.bin").length < 32 := by decide
  constructor
  · rcases @testFwUpgrade_upgrades _ id upgradeFiles (upgradeMachine servingFlash) servingFlash_honest le_rfl
      (text "eth0") (text "00:13:d7:00:00:01") _ _ (fun k _ => ⟨_, upgradeMachine_opens _ k⟩) hboot hfirmware
      (fun _ => none) with ⟨last, hrun, -, hupgraded⟩
    have hb : upgradeFiles.content (text "boot.bin") = some bootFile := rfl
    have hf : upgradeFiles.content (text "fw.bin") = some firmwareFile := rfl
    have hrv := hupgraded.served servingFlash_reliable (fun k _ => ⟨_, upgradeMachine_opens _ k⟩) rfl
      ⟨_, hb, by rw [length_bootFile]; decide⟩ ⟨_, hf, by rw [length_firmwareFile]; decide⟩
    rcases hupgraded.contents hrv _ _ hb hf (by rw [length_bootFile]; decide) (by rw [length_firmwareFile]; decide) with
      ⟨hbheld, hfheld⟩
    exact ⟨last, hrun, hrv, hbheld, hfheld⟩
  · exact @testFwUpgrade_upgrades _ Prod.fst upgradeFiles (upgradeMachine lossyFlash) lossyFlash_honest le_rfl
      (text "eth0") (text "00:13:d7:00:00:01") _ _ (fun k _ => ⟨_, upgradeMachine_opens _ k⟩) hboot hfirmware _

end Hpav
