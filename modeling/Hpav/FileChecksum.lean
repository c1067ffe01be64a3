import Mathlib.Tactic.Common
import Hpav.Lib.Transition
import Hpav.FileAccessSystem
import Hpav.FileDownload

/-!
# The checksums of a download

A request of a bootloader or a firmware carries the complemented XOR of the words of its
data. `xorchecksum` takes whole words only and leaves its result alone otherwise, and the
request is the one of the fragment before: a fragment that does not consist of whole words
goes out with whatever checksum the request had.
-/

namespace Hpav

open CMem Transition

/-! ## The sum of the words -/

/-- A word, low byte first. -/
def leWord (b0 b1 b2 b3 : UInt8) : UInt32 :=
  UInt32.ofNat (b0.toNat + 256 * b1.toNat + 65536 * b2.toNat + 16777216 * b3.toNat)

/-- The words of the data, the last one filled up with zeros. -/
def words : List UInt8 → List UInt32
  | [] => []
  | [b0] => [leWord b0 0 0 0]
  | [b0, b1] => [leWord b0 b1 0 0]
  | [b0, b1, b2] => [leWord b0 b1 b2 0]
  | b0 :: b1 :: b2 :: b3 :: rest => leWord b0 b1 b2 b3 :: words rest

/-- The complemented XOR of the words. -/
def wordChecksum (data : List UInt8) : UInt32 :=
  ~~~(words data).foldl (· ^^^ ·) 0

theorem toNat_leWord (b0 b1 b2 b3 : UInt8) :
    (leWord b0 b1 b2 b3).toNat =
      2 ^ 8 * (2 ^ 8 * (2 ^ 8 * b3.toNat + b2.toNat) + b1.toNat) + b0.toNat := by
  have h0 := b0.toNat_lt
  have h1 := b1.toNat_lt
  have h2 := b2.toNat_lt
  have h3 := b3.toNat_lt
  unfold leWord
  rw [UInt32.toNat_ofNat']
  omega

/-- A byte and what stands above it are combined separately. -/
theorem xor_byte (hi lo hi' lo' : Nat) (hlo : lo < 2 ^ 8) (hlo' : lo' < 2 ^ 8) :
    (2 ^ 8 * hi + lo) ^^^ (2 ^ 8 * hi' + lo') = 2 ^ 8 * (hi ^^^ hi') + (lo ^^^ lo') := by
  apply Nat.eq_of_testBit_eq
  intro j
  rw [Nat.testBit_xor, Nat.testBit_two_pow_mul_add _ hlo, Nat.testBit_two_pow_mul_add _ hlo',
    Nat.testBit_two_pow_mul_add _ (Nat.xor_lt_two_pow hlo hlo')]
  split
  · rw [Nat.testBit_xor]
  · rw [Nat.testBit_xor]

theorem leWord_xor (a0 a1 a2 a3 b0 b1 b2 b3 : UInt8) :
    leWord (a0 ^^^ b0) (a1 ^^^ b1) (a2 ^^^ b2) (a3 ^^^ b3) = leWord a0 a1 a2 a3 ^^^ leWord b0 b1 b2 b3 := by
  apply UInt32.toNat_inj.mp
  rw [UInt32.toNat_xor, toNat_leWord, toNat_leWord, toNat_leWord,
    xor_byte _ _ _ _ a0.toNat_lt b0.toNat_lt, xor_byte _ _ _ _ a1.toNat_lt b1.toNat_lt,
    xor_byte _ _ _ _ a2.toNat_lt b2.toNat_lt]
  simp only [UInt8.toNat_xor]

theorem leWord_not (b0 b1 b2 b3 : UInt8) :
    leWord (~~~b0) (~~~b1) (~~~b2) (~~~b3) = ~~~leWord b0 b1 b2 b3 := by
  have h0 := b0.toNat_lt
  have h1 := b1.toNat_lt
  have h2 := b2.toNat_lt
  have h3 := b3.toNat_lt
  apply UInt32.toNat_inj.mp
  rw [UInt32.toNat_not, toNat_leWord, toNat_leWord]
  simp only [UInt8.toNat_not, UInt8.size, UInt32.size]
  omega

/-- The loop over the words of a buffer combines them one by one. -/
theorem xorLoop_words {buf : List UInt8} (hwhole : buf.length % 4 = 0) (r0 r1 r2 r3 : UInt8) :
    leWord (xorLoop buf (r0, r1, r2, r3)).1 (xorLoop buf (r0, r1, r2, r3)).2.1
        (xorLoop buf (r0, r1, r2, r3)).2.2.1 (xorLoop buf (r0, r1, r2, r3)).2.2.2 =
      (words buf).foldl (· ^^^ ·) (leWord r0 r1 r2 r3) := by
  induction buf using words.induct generalizing r0 r1 r2 r3 with
  | case1 => rfl
  | case2 b0 => simp at hwhole
  | case3 b0 b1 => simp at hwhole
  | case4 b0 b1 b2 => simp at hwhole
  | case5 b0 b1 b2 b3 rest ih =>
    have hrest : rest.length % 4 = 0 := by
      simp only [List.length_cons] at hwhole
      omega
    unfold xorLoop words
    rw [ih hrest, List.foldl_cons, leWord_xor]

/-- `xorchecksum` is the checksum of whole words, and nothing for other data. -/
theorem xorchecksum_eq (buf : List UInt8) :
    xorchecksum buf = if buf.length % 4 = 0 then some (wordChecksum buf) else none := by
  have hmask : buf.length &&& 3 = buf.length % 4 := Nat.and_two_pow_sub_one_eq_mod buf.length 2
  unfold xorchecksum
  rw [hmask]
  by_cases hwhole : buf.length % 4 = 0
  · rw [if_neg (not_not_intro hwhole), if_pos hwhole]
    have hloop := xorLoop_words hwhole 0 0 0 0
    have hzero : leWord 0 0 0 0 = 0 := rfl
    rw [hzero] at hloop
    unfold wordChecksum
    rw [← hloop, ← leWord_not]
    rfl
  · rw [if_pos hwhole, if_neg hwhole]

/-! ## A fragment that is sent -/

/-- The size of the fragment a sender is going to send. -/
def Sender.fragmentSize (s : Sender) : Nat :=
  let start := dataMaxLen * s.mmeSent.fragmentNumber.toNat
  let remainLen := (((s.buf.length : Int) - start) % 2 ^ 32).toNat
  if remainLen > dataMaxLen then dataMaxLen else remainLen

/-- The checksum of the request is the one of the data it carries. -/
def FileAccessReq.RightChecksum (r : FileAccessReq) : Prop :=
  r.checksum = wordChecksum (r.data.take r.length.toNat)

theorem fragmentSize_le (s : Sender) : s.fragmentSize ≤ dataMaxLen := by
  unfold Sender.fragmentSize
  simp only
  split <;> omega

/-- A fragment of whole words gets its checksum. -/
theorem prepareRequest_checksum {cmd : FileAccessCommand} {s s' : Sender} (hop : cmd.op = opWrite)
    (htype : cmd.fileType ≠ fileTypeGeneralFile) (hwhole : s.fragmentSize % 4 = 0)
    (h : prepareRequest cmd s = .ok s') : s'.mmeSent.RightChecksum := by
  have hle := fragmentSize_le s
  unfold prepareRequest at h
  rw [if_pos hop] at h
  change (load s.buf (dataMaxLen * s.mmeSent.fragmentNumber.toNat) s.fragmentSize >>= _) = _ at h
  rcases hload : load s.buf (dataMaxLen * s.mmeSent.fragmentNumber.toNat) s.fragmentSize with e | chunk
  · rw [hload] at h
    cases h
  · have hlength := length_load hload
    rw [hload, bind_ok] at h
    have hsum : xorchecksum chunk = some (wordChecksum chunk) := by
      rw [xorchecksum_eq, hlength, if_pos hwhole]
    simp only [hsum, if_pos htype] at h
    injection h with h
    rw [← h]
    have hshort : (UInt16.ofNat s.fragmentSize).toNat = chunk.length := by
      rw [UInt16.toNat_ofNat', hlength]
      exact Nat.mod_eq_of_lt (by unfold dataMaxLen at hle; omega)
    unfold FileAccessReq.RightChecksum
    change wordChecksum chunk = wordChecksum ((chunk ++ _).take (UInt16.ofNat s.fragmentSize).toNat)
    rw [hshort, List.take_left]

/-! ## Runs -/

section Runs

variable {β : Type} {host mac : Mac} {cmd : FileAccessCommand} {sta : Station β} {fs : LocalFs} {b : β}

/-- What is sent in the step is a fragment of whole words. -/
def SendsWords (t : Transfer β) (e : Event) : Prop :=
  match e with
  | .send => ∀ s, t.control = .sending s → s.fragmentSize % 4 = 0
  | .deliver _ => True
  | .receive _ => True

/-- Every request on the network has the checksum of its data. -/
def Transfer.RightChecksums (t : Transfer β) : Prop :=
  ∀ r ∈ t.requests, r.RightChecksum

theorem Transfer.RightChecksums.step {t t' : Transfer β} {e : Event} (h : t.RightChecksums)
    (hop : cmd.op = opWrite) (htype : cmd.fileType ≠ fileTypeGeneralFile) (hwords : SendsWords t e)
    (hstep : Transfer.Step host cmd sta t e t') : t'.RightChecksums := by
  cases hstep with
  | send hcontrol hprep =>
    intro r hr
    rcases List.mem_cons.mp hr with rfl | hr
    · exact prepareRequest_checksum hop htype (hwords _ hcontrol) hprep
    · exact h r hr
  | deliver _ _ _ => exact h
  | receive _ _ _ _ _ _ => exact h

/-- In a run that sends fragments of whole words only, every request that was ever sent has
the checksum of its own data. -/
theorem reachable_rightChecksums (hop : cmd.op = opWrite) (htype : cmd.fileType ≠ fileTypeGeneralFile)
    {t : Transfer β} (h : ((transferMachine host mac cmd sta fs b).restrict SendsWords).Reachable t) :
    t.RightChecksums := by
  refine h.invariant ?_ ?_
  · rintro t rfl r hr
    cases hr
  · intro t e t' hright hstep
    exact hright.step hop htype hstep.2 hstep.1

/-- What `prepareRequest` makes is sent. -/
theorem reachable_send {t : Transfer β} {s s' : Sender}
    (h : (transferMachine host mac cmd sta fs b).Reachable t) (hcontrol : t.control = .sending s)
    (hprep : prepareRequest cmd s = .ok s') :
    (transferMachine host mac cmd sta fs b).Reachable
      { t with control := .waiting s', requests := s'.mmeSent :: t.requests } :=
  h.step (Transfer.Step.send hcontrol hprep)

/-! ## Files of whole words -/

/-- The sender sends the file. -/
def Transfer.SendsFile (file : List UInt8) (t : Transfer β) : Prop :=
  ∀ s, t.control = .sending s ∨ t.control = .waiting s → s.buf = file

theorem receiveResponse_buf {uninit : List UInt8} {fs fs' : LocalFs} {s s' : Sender} {outcome : Outcome}
    (h : receiveResponse uninit cmd fs s outcome = .ok (fs', .again s')) : s'.buf = s.buf := by
  rcases receiveResponse_cases h with ⟨_, _, hturn⟩ | ⟨_, _, hturns⟩ | ⟨head, _, _, _, _, hturns⟩
  · cases hturn
  · rcases hturns with ⟨_, hturn⟩ | ⟨_, _, hturn⟩ | ⟨_, _, hturn⟩
    · cases hturn
    · injection hturn with hs
      rw [hs]
      rfl
    · cases hturn
  · rcases hturns with ⟨_, hturn⟩ | ⟨_, hturn⟩
    · injection hturn with hs
      rw [hs]
      rfl
    · cases hturn

theorem startStation_buf {s : Sender} {file : List UInt8} (hop : cmd.op = opWrite)
    (hfile : fs.content cmd.fileName = some file) (h : startStation cmd fs mac = .inl s) : s.buf = file := by
  unfold startStation at h
  simp only [hop, hfile, if_true] at h
  split at h
  · cases h
  · split at h
    · cases h
    · injection h with h
      rw [← h]

theorem Transfer.SendsFile.step {file : List UInt8} {t t' : Transfer β} {e : Event} (h : t.SendsFile file)
    (hstep : Transfer.Step host cmd sta t e t') : t'.SendsFile file := by
  cases hstep with
  | send hcontrol hprep =>
    intro s hs
    rcases hs with hs | hs
    · cases hs
    · injection hs with hs
      rw [← hs, (prepareRequest_frame hprep).2.2.1]
      exact h _ (Or.inl hcontrol)
  | deliver _ _ _ => exact h
  | @receive s _ _ _ _ _ turn hcontrol _ _ hrecv =>
    intro s' hs'
    cases turn with
    | again s'' =>
      rcases hs' with hs' | hs'
      · injection hs' with hs'
        rw [← hs', receiveResponse_buf hrecv]
        exact h s (Or.inr hcontrol)
      · cases hs'
    | leave rv => rcases hs' with hs' | hs' <;> cases hs'

theorem fragmentSize_words {s : Sender} (h : s.buf.length % 4 = 0) : s.fragmentSize % 4 = 0 := by
  unfold Sender.fragmentSize
  simp only [dataMaxLen]
  split <;> omega

theorem Transfer.sendsFile_start (hop : cmd.op = opWrite) {file : List UInt8}
    (hfile : fs.content cmd.fileName = some file) : (Transfer.start cmd mac fs b).SendsFile file := by
  intro s hs
  unfold Transfer.start at hs
  rcases hstart : startStation cmd fs mac with s' | rv
  · rw [hstart] at hs
    rcases hs with hs | hs
    · injection hs with hs
      rw [← hs]
      exact startStation_buf hop hfile hstart
    · cases hs
  · rw [hstart] at hs
    rcases hs with hs | hs <;> cases hs

/-- In every run the sender sends the file it has read. -/
theorem reachable_sendsFile (hop : cmd.op = opWrite) {file : List UInt8} (hfile : fs.content cmd.fileName = some file)
    {t : Transfer β} (h : (transferMachine host mac cmd sta fs b).Reachable t) : t.SendsFile file := by
  refine h.invariant ?_ ?_
  · rintro t rfl
    exact Transfer.sendsFile_start hop hfile
  · intro t e t' hsends hstep
    exact hsends.step hstep

/-- The runs with a file of whole words are runs that send whole words. -/
theorem reachable_sendsWords (hop : cmd.op = opWrite) {file : List UInt8} (hfile : fs.content cmd.fileName = some file)
    (hwords : file.length % 4 = 0) {t : Transfer β} (h : (transferMachine host mac cmd sta fs b).Reachable t) :
    ((transferMachine host mac cmd sta fs b).restrict SendsWords).Reachable t := by
  induction h with
  | init hinit => exact .init hinit
  | @step t t' e hbefore hstep ih =>
    refine ih.step ⟨hstep, ?_⟩
    cases e with
    | send =>
      intro s hs
      refine fragmentSize_words ?_
      rw [reachable_sendsFile hop hfile hbefore s (Or.inl hs)]
      exact hwords
    | deliver request => exact trivial
    | receive outcome => exact trivial

end Runs

/-- The bootloader is written from a local file `b`. -/
def bootloaderCommand : FileAccessCommand where
  op := opWrite
  fileType := 0
  parameter := []
  fileName := [98]

def bootloaderFs (file : List UInt8) : LocalFs :=
  ⟨fun p => if p = [98] then some file else none, fun _ => true⟩

/-- A station that does not answer. -/
def silentStation : Station Unit :=
  ⟨fun _ _ => (), fun _ _ _ => False⟩

/-- The state in front of the first request. -/
def bootloaderSender (file : List UInt8) : Sender where
  destMac := secondStation
  mmeSent := ⟨opWrite, 0, [], UInt16.ofNat ((file.length + dataMaxLen - 1) / dataMaxLen), 0, 0, 0, 0,
    List.replicate dataMaxLen 0⟩
  retryCount := 0
  buf := file

theorem start_bootloader {file : List UInt8} (hne : file.length ≠ 0) :
    (Transfer.start bootloaderCommand secondStation (bootloaderFs file) ()).control =
      .sending (bootloaderSender file) := by
  unfold Transfer.start startStation
  simp only [bootloaderCommand, bootloaderFs, if_true, if_neg hne]
  rfl

/-- A bootloader of two fragments, the first of which is sent twice: every checksum belongs to the
data that is sent with it. -/
theorem reachable_rightChecksums_twoFragments :
    ∃ t : Transfer Memory, t.control = .returned 0 ∧ t.delivered.length = 3 ∧ (∀ r ∈ t.delivered, r ∈ t.requests) ∧
      t.RightChecksums := by
  have hfile : (bootloaderFs twoFragments).content bootloaderCommand.fileName = some twoFragments := rfl
  have hlength := length_twoFragments
  rcases fileDownload_firstLost firstStation secondStation (fun _ => none) rfl (by decide) hfile
    (by omega) (by rw [hlength]; decide) with ⟨t, ht, hreturned, hdelivered⟩
  have hwords := reachable_sendsWords rfl hfile (by rw [hlength]) ht
  refine ⟨t, hreturned, ?_, (Transfer.reachable_traced ht).delivered, reachable_rightChecksums rfl (by decide) hwords⟩
  rw [hdelivered]
  unfold fragmentCount
  rw [hlength]
  rfl

theorem prepareRequest_oneByte :
    prepareRequest bootloaderCommand (bootloaderSender [5]) = .ok { bootloaderSender [5] with
      mmeSent := { (bootloaderSender [5]).mmeSent with
        data := [5] ++ (List.replicate dataMaxLen 0).drop 1
        length := 1 } } := by
  rfl

/-- A file of one byte goes out with the checksum 0 of the cleared request. -/
theorem oneByte_wrong_checksum : ¬ ∀ (cmd : FileAccessCommand) (fs : LocalFs) (t : Transfer Unit),
    cmd.op = opWrite → cmd.fileType ≠ fileTypeGeneralFile →
    (transferMachine firstStation secondStation cmd silentStation fs ()).Reachable t →
    t.RightChecksums := by
  intro h
  have hcontrol := @start_bootloader [5] (by decide)
  have hsent := @reachable_send _ firstStation secondStation bootloaderCommand silentStation
    (bootloaderFs [5]) () _ _ _ (.init rfl) hcontrol prepareRequest_oneByte
  have hright := h bootloaderCommand (bootloaderFs [5]) _ rfl (by decide) hsent _ List.mem_cons_self
  unfold FileAccessReq.RightChecksum at hright
  exact absurd hright (by decide)

end Hpav
