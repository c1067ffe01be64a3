import Mathlib.Data.Nat.SuccPred
import Mathlib.Tactic.Common
import Hpav.Lib.Transition
import Hpav.FileAccessAnswer

/-!
# Writing a file to a station

The operation `write`, over a network that loses, delays and duplicates messages. The layers:

* `prepareRequest_sends`, `receiveResponse_sends`: what the two halves of a turn do while a
  file is sent;
* `Downloading`: the invariant of the system; every request ever made transmits the
  fragment it names, and the station's memory holds what was delivered;
* `downloadRefinement`: the sender goes on behind whatever is acknowledged, so the system
  refines `Transition.Acknowledged`, and no fragment is skipped.
-/

namespace Hpav

open CMem Transition

/-! ## Files in fragments -/

/-- The fragment `k` of a file. -/
def fragmentOf (file : List UInt8) (k : Nat) : List UInt8 :=
  (file.drop (dataMaxLen * k)).take dataMaxLen

def fragmentCount (file : List UInt8) : Nat :=
  (file.length + dataMaxLen - 1) / dataMaxLen

/-- The bytes the tool takes for fragment `k`: what is left of the file, at most 1024 bytes.
The difference is kept in 32 bits. -/
def chunkSize (fileSize k : Nat) : Nat :=
  min dataMaxLen (((fileSize : Int) - (dataMaxLen * k : Nat)) % 2 ^ 32).toNat

def chunkOf (file : List UInt8) (k : Nat) : List UInt8 :=
  (file.drop (dataMaxLen * k)).take (chunkSize file.length k)

/-- A chunk ends inside the file. -/
theorem chunkSize_le {fileSize k : Nat} (h : dataMaxLen * k ≤ fileSize) :
    dataMaxLen * k + chunkSize fileSize k ≤ fileSize := by
  unfold chunkSize dataMaxLen at *
  omega

/-- A chunk that begins inside the file has its size. -/
theorem length_chunkOf {file : List UInt8} {k : Nat} (h : dataMaxLen * k ≤ file.length) :
    (chunkOf file k).length = chunkSize file.length k := by
  have hle := chunkSize_le h
  unfold chunkOf
  rw [List.length_take, List.length_drop]
  omega

/-- As long as a file is not too long for the field its chunks are its fragments. -/
theorem chunkOf_eq_fragmentOf {file : List UInt8} {k : Nat}
    (hsize : file.length ≤ 65535 * dataMaxLen) (h : dataMaxLen * k ≤ file.length) :
    chunkOf file k = fragmentOf file k := by
  have hlength : chunkSize file.length k = min dataMaxLen (file.length - dataMaxLen * k) := by
    unfold chunkSize dataMaxLen at *
    omega
  unfold chunkOf fragmentOf
  rw [hlength, List.take_eq_take_iff, List.length_drop]
  omega

/-- Every fragment begins inside the file. -/
theorem start_lt_of_lt_count {file : List UInt8} {k : Nat} (h : k < fragmentCount file) :
    dataMaxLen * k < file.length := by
  unfold fragmentCount dataMaxLen at h
  show 1024 * k < file.length
  omega

/-- Every byte of the file is in a fragment. -/
theorem div_lt_count {file : List UInt8} {i : Nat} (h : i < file.length) :
    i / dataMaxLen < fragmentCount file := by
  unfold fragmentCount dataMaxLen
  omega

/-- The bytes a fragment holds are those of the file at its offset. -/
theorem fragmentOf_getElem? {file : List UInt8} {i : Nat} :
    (fragmentOf file (i / dataMaxLen))[i - dataMaxLen * (i / dataMaxLen)]? = file[i]? := by
  have hlt : i - dataMaxLen * (i / dataMaxLen) < dataMaxLen := by
    unfold dataMaxLen
    omega
  have hsum : dataMaxLen * (i / dataMaxLen) + (i - dataMaxLen * (i / dataMaxLen)) = i := by
    unfold dataMaxLen
    omega
  unfold fragmentOf
  rw [List.getElem?_take_of_lt hlt, List.getElem?_drop, hsum]

/-- The request transmits the fragment it names. -/
structure Transmits (file : List UInt8) (r : FileAccessReq) : Prop where
  op : r.op = opWrite
  total : r.totalFragments.toNat = fragmentCount file
  number : r.fragmentNumber.toNat < fragmentCount file
  offset : r.offset.toNat = dataMaxLen * r.fragmentNumber.toNat
  length : r.length.toNat = (fragmentOf file r.fragmentNumber.toNat).length
  data : r.data.take r.length.toNat = fragmentOf file r.fragmentNumber.toNat

/-- A sender that is to send a fragment of the file. -/
structure Sender.Sends (s : Sender) (file : List UInt8) : Prop where
  buf : s.buf = file
  op : s.mmeSent.op = opWrite
  total : s.mmeSent.totalFragments.toNat = fragmentCount file
  number : s.mmeSent.fragmentNumber.toNat < fragmentCount file

/-! ## The station -/

/-- The file on the station, byte by byte. -/
abbrev Memory := Nat → Option UInt8

def Memory.store (m : Memory) (offset : Nat) (bytes : List UInt8) : Memory := fun i =>
  if offset ≤ i ∧ i < offset + bytes.length then bytes[i - offset]? else m i

/-- The memory holds the whole file, and is unchanged behind its end. -/
def Memory.Holds (m : Memory) (file : List UInt8) (old : Memory) : Prop :=
  ∀ i, m i = if i < file.length then file[i]? else old i

/-- The confirmation echoes the request. -/
def Echoes (r : FileAccessReq) (c : FileAccessCnf) : Prop :=
  c.mstatus = 0 ∧ c.op = r.op ∧ c.totalFragments = r.totalFragments ∧
    c.fragmentNumber = r.fragmentNumber

/-- The station that stores what it is sent and confirms it. -/
def downloadStation : Station Memory where
  serve m r := m.store r.offset.toNat (r.data.take r.length.toNat)
  Answers _ r c := Echoes r c

/-- A request that transmits a fragment writes bytes of the file only. -/
theorem Transmits.store_eq {file : List UInt8} {r : FileAccessReq} (hr : Transmits file r)
    (m : Memory) (i : Nat) :
    m.store r.offset.toNat (r.data.take r.length.toNat) i =
      if i < file.length ∧ i / dataMaxLen = r.fragmentNumber.toNat then file[i]? else m i := by
  unfold Memory.store
  rw [hr.data, hr.offset]
  have hlength : (fragmentOf file r.fragmentNumber.toNat).length =
      min dataMaxLen (file.length - dataMaxLen * r.fragmentNumber.toNat) := by
    unfold fragmentOf
    rw [List.length_take, List.length_drop]
  have hstart := start_lt_of_lt_count hr.number
  have hiff : (dataMaxLen * r.fragmentNumber.toNat ≤ i ∧
      i < dataMaxLen * r.fragmentNumber.toNat + (fragmentOf file r.fragmentNumber.toNat).length) ↔
      (i < file.length ∧ i / dataMaxLen = r.fragmentNumber.toNat) := by
    rw [hlength]
    unfold dataMaxLen at *
    omega
  by_cases hi : i < file.length ∧ i / dataMaxLen = r.fragmentNumber.toNat
  · rw [if_pos (hiff.mpr hi), if_pos hi, ← hi.2]
    exact fragmentOf_getElem?
  · rw [if_neg (fun hin => hi (hiff.mp hin)), if_neg hi]

/-! ## The two halves of a turn -/

section Turn

variable {cmd : FileAccessCommand} {file : List UInt8}

/-- A request of a write: the chunk in front, the offset and the length of it. The copy
stays inside the buffer. -/
theorem prepareRequest_write {s : Sender} (hop : cmd.op = opWrite)
    (hstart : dataMaxLen * s.mmeSent.fragmentNumber.toNat ≤ s.buf.length) :
    ∃ checksum, prepareRequest cmd s = .ok { s with mmeSent := { s.mmeSent with
      data := chunkOf s.buf s.mmeSent.fragmentNumber.toNat ++
        s.mmeSent.data.drop (chunkOf s.buf s.mmeSent.fragmentNumber.toNat).length
      length := UInt16.ofNat (chunkOf s.buf s.mmeSent.fragmentNumber.toNat).length
      offset := UInt32.ofNat (dataMaxLen * s.mmeSent.fragmentNumber.toNat)
      checksum } } := by
  generalize hk : s.mmeSent.fragmentNumber.toNat = k at *
  generalize hn : (if (((s.buf.length : Int) - (dataMaxLen * k : Nat)) % 2 ^ 32).toNat > dataMaxLen
    then dataMaxLen else (((s.buf.length : Int) - (dataMaxLen * k : Nat)) % 2 ^ 32).toNat) = size
  have hsize : size = chunkSize s.buf.length k := by
    rw [← hn]
    unfold chunkSize
    split <;> omega
  have hload : load s.buf (dataMaxLen * k) size = .ok (chunkOf s.buf k) := by
    rw [hsize, load_ok (chunkSize_le hstart)]
    rfl
  have hlength : (chunkOf s.buf k).length = size := (length_chunkOf hstart).trans hsize.symm
  unfold prepareRequest
  rw [if_pos hop]
  simp only [hk, hn, hload, bind_ok, hlength]
  split
  · rcases xorchecksum (chunkOf s.buf k) with _ | checksum
    · exact ⟨s.mmeSent.checksum, rfl⟩
    · exact ⟨checksum, rfl⟩
  · exact ⟨s.mmeSent.checksum, rfl⟩

/-- The length of a chunk fits its field. -/
theorem toNat_chunkLength {bytes : List UInt8} {k : Nat} :
    (UInt16.ofNat (chunkOf bytes k).length).toNat = (chunkOf bytes k).length := by
  have hle : (chunkOf bytes k).length ≤ dataMaxLen := by
    unfold chunkOf chunkSize
    rw [List.length_take]
    omega
  rw [UInt16.toNat_ofNat']
  unfold dataMaxLen at hle
  omega

/-- The offset of a chunk fits its field. -/
theorem toNat_chunkOffset {k : UInt16} :
    (UInt32.ofNat (dataMaxLen * k.toNat)).toNat = dataMaxLen * k.toNat := by
  have hlt := k.toNat_lt
  rw [UInt32.toNat_ofNat']
  unfold dataMaxLen
  omega

/-- A sender of the file prepares a request that transmits a fragment. -/
theorem prepareRequest_sends {s : Sender} (hop : cmd.op = opWrite)
    (hsize : file.length ≤ 65535 * dataMaxLen) (hs : s.Sends file) :
    ∃ s', prepareRequest cmd s = .ok s' ∧ s'.Sends file ∧ Transmits file s'.mmeSent := by
  have hstart := start_lt_of_lt_count hs.number
  rcases prepareRequest_write hop (s := s) (by rw [hs.buf]; omega) with ⟨checksum, hprep⟩
  rw [hs.buf] at hprep
  have hchunk := chunkOf_eq_fragmentOf hsize (Nat.le_of_lt hstart)
  refine ⟨_, hprep, ⟨rfl, hs.op, hs.total, hs.number⟩, hs.op, hs.total, hs.number, ?_, ?_, ?_⟩
  · exact toNat_chunkOffset
  · show (UInt16.ofNat _).toNat = _
    rw [toNat_chunkLength, hchunk]
  · show List.take (UInt16.ofNat _).toNat (_ ++ _) = _
    rw [toNat_chunkLength, List.take_left, hchunk]

/-- The sender that takes up the position behind an echo. -/
theorem Sender.Sends.advance {s : Sender} {r : FileAccessReq} {head : FileAccessCnf}
    (hsize : file.length ≤ 65535 * dataMaxLen) (hs : s.Sends file) (hr : Transmits file r)
    (hecho : Echoes r head) :
    (s.advance head).mmeSent.fragmentNumber.toNat = r.fragmentNumber.toNat + 1 ∧
      ((s.advance head).mmeSent.fragmentNumber < (s.advance head).mmeSent.totalFragments →
        (s.advance head).Sends file) ∧
      (¬ (s.advance head).mmeSent.fragmentNumber < (s.advance head).mmeSent.totalFragments →
        fragmentCount file = r.fragmentNumber.toNat + 1) := by
  have hcount : fragmentCount file ≤ 65535 := by
    unfold fragmentCount dataMaxLen
    unfold dataMaxLen at hsize
    omega
  have hnext : (s.advance head).mmeSent.fragmentNumber.toNat = r.fragmentNumber.toNat + 1 := by
    show (head.fragmentNumber + 1).toNat = _
    rw [hecho.2.2.2]
    exact toNat_add_one hr.number hcount
  have htotal : (s.advance head).mmeSent.totalFragments.toNat = fragmentCount file := by
    show head.totalFragments.toNat = _
    rw [hecho.2.2.1]
    exact hr.total
  refine ⟨hnext, ?_, ?_⟩
  · intro hlt
    rw [UInt16.lt_iff_toNat_lt, htotal] at hlt
    exact ⟨hs.buf, hs.op, htotal, hlt⟩
  · intro hend
    rw [UInt16.lt_iff_toNat_lt, hnext, htotal] at hend
    have hlt := hr.number
    omega

/-- What follows an exchange in which only echoes of `served` were read: a failure, another
try, or the fragment behind one of them. -/
theorem receiveResponse_sends {uninit : List UInt8} {fs fs' : LocalFs} {s : Sender}
    {outcome : Outcome} {turn : Turn} {served : List FileAccessReq}
    (hsize : file.length ≤ 65535 * dataMaxLen) (hs : s.Sends file)
    (hserved : ∀ r ∈ served, Transmits file r)
    (hechoes : ∀ cs, outcome = .received cs → ∀ c ∈ cs, ∃ r ∈ served, Echoes r c)
    (h : receiveResponse uninit cmd fs s outcome = .ok (fs', turn)) :
    (∃ rv, rv ≠ 0 ∧ turn = .leave rv) ∨ turn = .again s.retry ∨
      ∃ r ∈ served,
        (∃ s', turn = .again s' ∧ s'.Sends file ∧
          s'.mmeSent.fragmentNumber.toNat = r.fragmentNumber.toNat + 1) ∨
        (turn = .leave 0 ∧ fragmentCount file = r.fragmentNumber.toNat + 1) := by
  have hopen : s.Open := Or.inr (by rw [UInt16.lt_iff_toNat_lt, hs.total]; exact hs.number)
  rcases receiveResponse_cases h with ⟨_, _, rfl⟩ | ⟨_, _, hcases⟩ |
    ⟨head, rest, success, rfl, hprocess, hcases⟩
  · exact Or.inl ⟨-1, by decide, rfl⟩
  · rcases hcases with ⟨_, rfl⟩ | ⟨_, _, rfl⟩ | ⟨_, hcond, _⟩
    · exact Or.inl ⟨reqFail, by decide, rfl⟩
    · exact Or.inr (Or.inl rfl)
    · exact absurd hopen.loopCondition_retry hcond
  · right; right
    -- every request was acknowledged, so every confirmation reports success
    have hsuccess : success = true := by
      rw [processMtkVsFileAccessCnf_success (List.cons_ne_nil _ _) hprocess]
      intro c hc
      rcases hechoes _ rfl c hc with ⟨_, _, hecho⟩
      exact hecho.1
    subst hsuccess
    rcases hechoes _ rfl head List.mem_cons_self with ⟨r, hr, hecho⟩
    rcases hs.advance hsize (hserved r hr) hecho with ⟨hnext, hsends, hlast⟩
    refine ⟨r, hr, ?_⟩
    rcases hcases with ⟨hcond, rfl⟩ | ⟨hcond, rfl⟩
    · left
      refine ⟨_, rfl, ?_, hnext⟩
      rcases hcond.2 with ⟨_, hempty⟩ | hlt
      · cases hempty
      · exact hsends hlt
    · right
      exact ⟨rfl, hlast (fun hlt => hcond ⟨rfl, Or.inr hlt⟩)⟩

end Turn

/-! ## The invariant -/

section Download

variable {host mac : Mac} {cmd : FileAccessCommand} {fs : LocalFs} {file : List UInt8} {old : Memory}

/-- Every request transmits a fragment, the sender is about to transmit one, and the
memory is the old one with the delivered fragments written over it. -/
structure Downloading (host : Mac) (file : List UInt8) (old : Memory) (t : Transfer Memory) : Prop where
  traced : t.Traced host downloadStation
  sender : ∀ s, t.control = .sending s ∨ t.control = .waiting s → s.Sends file
  requests : ∀ r ∈ t.requests, Transmits file r
  written : ∀ r ∈ t.delivered, ∀ i < file.length, i / dataMaxLen = r.fragmentNumber.toNat →
    t.station i = file[i]?
  frame : ∀ i, t.station i = old i ∨ (i < file.length ∧ t.station i = file[i]?)

/-- A sender that is started has the file and is at its begin. -/
theorem startStation_sends {s : Sender} (hop : cmd.op = opWrite)
    (hfile : fs.content cmd.fileName = some file) (hsize : file.length ≤ 65535 * dataMaxLen)
    (h : startStation cmd fs mac = .inl s) : s.Sends file := by
  unfold startStation at h
  simp only [hop, hfile] at h
  split at h
  · cases h
  · rw [if_pos trivial] at h
    split at h
    · cases h
    · rename_i hne
      injection h with h
      subst h
      have hcount : (UInt16.ofNat ((file.length + dataMaxLen - 1) / dataMaxLen)).toNat =
          fragmentCount file := by
        rw [UInt16.toNat_ofNat']
        unfold fragmentCount dataMaxLen
        unfold dataMaxLen at hsize
        omega
      refine ⟨rfl, rfl, hcount, ?_⟩
      show 0 < fragmentCount file
      unfold fragmentCount dataMaxLen
      omega

/-- At the start nothing of the file is stored. -/
theorem downloading_start (hop : cmd.op = opWrite) (hfile : fs.content cmd.fileName = some file)
    (hsize : file.length ≤ 65535 * dataMaxLen) :
    Downloading host file old (Transfer.start cmd mac fs old) where
  traced := Transfer.traced_start host cmd downloadStation mac fs old
  sender := by
    intro s hs
    unfold Transfer.start at hs
    simp only at hs
    rcases hstart : startStation cmd fs mac with s' | rv
    · rw [hstart] at hs
      rcases hs with hs | hs
      · injection hs with hs
        exact hs ▸ startStation_sends hop hfile hsize hstart
      · cases hs
    · rw [hstart] at hs
      rcases hs with hs | hs <;> cases hs
  requests := fun _ hr => absurd hr List.not_mem_nil
  written := fun _ hr => absurd hr List.not_mem_nil
  frame := fun _ => Or.inl rfl

/-- What is read in an exchange echoes delivered requests. -/
theorem Downloading.echoes {t : Transfer Memory} {run : ChannelRun} {uninit : Nat → UInt8}
    {scan : Bool} {outcome : Outcome} (h : Downloading host file old t)
    (hcaptured : ∀ f ∈ run.captured, rxAccepted host f = true → f ∈ t.answers)
    (hrun : fileAccessSndrcv uninit host scan run = .ok outcome) :
    ∀ cs, outcome = .received cs → ∀ c ∈ cs, ∃ r ∈ t.delivered, Echoes r c := by
  rintro cs rfl c hc
  rcases h.traced.response hcaptured hrun c hc with ⟨r, hr, _, _, _, hecho⟩
  exact ⟨r, hr, hecho⟩

/-- Every step keeps what is known of sender, station and memory. -/
theorem Downloading.step {t t' : Transfer Memory} {e : Event} (hop : cmd.op = opWrite)
    (hsize : file.length ≤ 65535 * dataMaxLen) (h : Downloading host file old t)
    (hstep : Transfer.Step host cmd downloadStation t e t') : Downloading host file old t' := by
  have htraced := h.traced.step hstep
  cases hstep with
  | @send s s' hcontrol hprep =>
    -- what is sent is the fragment the sender stands at
    rcases prepareRequest_sends hop hsize (h.sender s (Or.inl hcontrol)) with
      ⟨s₁, hprep₁, hsends, htransmits⟩
    obtain rfl : s₁ = s' := by
      rw [hprep₁] at hprep
      injection hprep
    refine ⟨htraced, ?_, ?_, h.written, h.frame⟩
    · intro s₂ hs₂
      rcases hs₂ with hs₂ | hs₂
      · cases hs₂
      · injection hs₂ with hs₂
        exact hs₂ ▸ hsends
    · intro r hr
      rcases List.mem_cons.mp hr with rfl | hr
      · exact htransmits
      · exact h.requests r hr
  | @deliver request c f hrequest hanswers hframe =>
    have hstore := (h.requests request hrequest).store_eq t.station
    refine ⟨htraced, h.sender, h.requests, ?_, ?_⟩
    · -- a fragment stored again is stored with the same bytes
      intro r hr i hi hdiv
      show t.station.store _ _ i = _
      rw [hstore i]
      split
      · rfl
      · rename_i hother
        rcases List.mem_cons.mp hr with rfl | hr
        · exact absurd ⟨hi, hdiv⟩ hother
        · exact h.written r hr i hi hdiv
    · intro i
      show t.station.store _ _ i = _ ∨ (_ ∧ t.station.store _ _ i = _)
      rw [hstore i]
      split
      · rename_i hin
        exact Or.inr ⟨hin.1, rfl⟩
      · exact h.frame i
  | @receive s run uninit outcome uninitMac fs' turn hcontrol hcaptured hrun hrecv =>
    refine ⟨htraced, ?_, h.requests, h.written, h.frame⟩
    intro s₂ hs₂
    have hs := h.sender s (Or.inr hcontrol)
    -- the turn gives up, tries again, or moves behind an acknowledged fragment
    rcases receiveResponse_sends hsize hs (fun r hr => h.requests r (h.traced.delivered r hr))
        (h.echoes hcaptured hrun) hrecv with
      ⟨rv, _, rfl⟩ | rfl | ⟨r, _, ⟨s', rfl, hs', _⟩ | ⟨rfl, _⟩⟩
    · rcases hs₂ with hs₂ | hs₂ <;> cases hs₂
    · rcases hs₂ with hs₂ | hs₂
      · injection hs₂ with hs₂
        exact hs₂ ▸ ⟨hs.buf, hs.op, hs.total, hs.number⟩
      · cases hs₂
    · rcases hs₂ with hs₂ | hs₂
      · injection hs₂ with hs₂
        exact hs₂ ▸ hs'
      · cases hs₂
    · rcases hs₂ with hs₂ | hs₂ <;> cases hs₂

/-! ## The refinement -/

/-- The fragment the program works on; all of them are behind it when it returns 0. -/
def Control.position (file : List UInt8) : Control → Nat
  | .sending s => s.mmeSent.fragmentNumber.toNat
  | .waiting s => s.mmeSent.fragmentNumber.toNat
  | .returned rv => if rv = 0 then fragmentCount file else 0

/-- The fragment numbers of a list of requests. -/
def fragmentNumbers (rs : List FileAccessReq) : Set Nat :=
  { k | ∃ r ∈ rs, r.fragmentNumber.toNat = k }

/-- A request that is delivered adds its fragment. -/
theorem fragmentNumbers_cons (r : FileAccessReq) (rs : List FileAccessReq) :
    fragmentNumbers (r :: rs) = insert r.fragmentNumber.toNat (fragmentNumbers rs) := by
  ext k
  constructor
  · rintro ⟨r', hr', rfl⟩
    rcases List.mem_cons.mp hr' with rfl | hr'
    · exact Or.inl rfl
    · exact Or.inr ⟨r', hr', rfl⟩
  · rintro (rfl | ⟨r', hr', rfl⟩)
    · exact ⟨r, List.mem_cons_self, rfl⟩
    · exact ⟨r', List.mem_cons_of_mem _ hr', rfl⟩

/-- The abstract view of the system. What was delivered may have been acknowledged. -/
def Transfer.abstract (file : List UInt8) (t : Transfer Memory) : Acknowledged.State Nat where
  position := t.control.position file
  asked := fragmentNumbers t.requests
  stored := fragmentNumbers t.delivered
  acked := fragmentNumbers t.delivered

/-- Every step of the transfer is one of the abstract sender, or changes nothing it can see. -/
theorem Downloading.refines {t t' : Transfer Memory} {e : Event}
    (hsize : file.length ≤ 65535 * dataMaxLen) (h : Downloading host file old t)
    (hstep : Transfer.Step host cmd downloadStation t e t') :
    (∃ l, Acknowledged.Step (t.abstract file) l (t'.abstract file)) ∨
      t'.abstract file = t.abstract file := by
  -- sending asks, delivering stores and acknowledges, receiving moves the position
  cases hstep with
  | @send s s' hcontrol hprep =>
    left
    have hnumber := (prepareRequest_frame hprep).2.2.2.2.2
    have hask : Acknowledged.State.mk (s'.mmeSent.fragmentNumber.toNat)
        (fragmentNumbers (s'.mmeSent :: t.requests)) (fragmentNumbers t.delivered) (fragmentNumbers t.delivered) =
        { t.abstract file with
          asked := insert (t.abstract file).position (t.abstract file).asked } := by
      unfold Transfer.abstract
      rw [fragmentNumbers_cons, hnumber, hcontrol]
      rfl
    refine ⟨.ask, ?_⟩
    show Acknowledged.Step _ _ (Acknowledged.State.mk _ _ _ _)
    rw [show (Control.waiting s').position file = s'.mmeSent.fragmentNumber.toNat from rfl, hask]
    exact .ask
  | @deliver request c f hrequest hanswers hframe =>
    left
    refine ⟨.store request.fragmentNumber.toNat, ?_⟩
    have hasked : request.fragmentNumber.toNat ∈ (t.abstract file).asked :=
      ⟨request, hrequest, rfl⟩
    have hstore := Acknowledged.Step.store hasked
    show Acknowledged.Step _ _ (Acknowledged.State.mk _ _ (fragmentNumbers _) (fragmentNumbers _))
    rw [fragmentNumbers_cons]
    exact hstore
  | @receive s run uninit outcome uninitMac fs' turn hcontrol hcaptured hrun hrecv =>
    have hposition : (t.abstract file).position = s.mmeSent.fragmentNumber.toNat := by
      unfold Transfer.abstract
      rw [hcontrol]
      rfl
    rcases receiveResponse_sends hsize (h.sender s (Or.inr hcontrol))
        (fun r hr => h.requests r (h.traced.delivered r hr)) (h.echoes hcaptured hrun) hrecv with
      ⟨rv, hrv, rfl⟩ | rfl | ⟨r, hr, hnext⟩
    · -- the program gives up
      left
      refine ⟨.fallBack 0, ?_⟩
      have hback := Acknowledged.Step.fallBack (Nat.zero_le (t.abstract file).position)
      unfold Transfer.abstract
      rw [show (Turn.leave rv).control.position file = 0 from if_neg hrv]
      exact hback
    · -- a timeout leaves the abstract state as it is
      right
      unfold Transfer.abstract
      rw [hcontrol]
      rfl
    · left
      refine ⟨.resume r.fragmentNumber.toNat, ?_⟩
      have hacked : r.fragmentNumber.toNat ∈ (t.abstract file).acked := ⟨r, hr, rfl⟩
      have hresume := Acknowledged.Step.resume hacked
      unfold Transfer.abstract
      rcases hnext with ⟨s', rfl, _, hnumber⟩ | ⟨rfl, hcount⟩
      · rw [show (Turn.again s').control.position file = r.fragmentNumber.toNat + 1 from hnumber]
        exact hresume
      · rw [show (Turn.leave 0).control.position file = r.fragmentNumber.toNat + 1 from hcount]
        exact hresume

/-- Writing a file is going on behind what is acknowledged. -/
def downloadRefinement (host mac : Mac) (old : Memory) (hop : cmd.op = opWrite)
    (hfile : fs.content cmd.fileName = some file) (hsize : file.length ≤ 65535 * dataMaxLen) :
    Refinement (transferMachine host mac cmd downloadStation fs old) (Acknowledged.machine Nat) where
  map t := t.abstract file
  Inv := Downloading host file old
  inv_init := by
    rintro t rfl
    exact downloading_start hop hfile hsize
  inv_step _ _ _ h hstep := h.step hop hsize hstep
  init := by
    rintro t rfl
    have hempty : fragmentNumbers [] = ∅ := by
      ext k
      simp [fragmentNumbers]
    refine ⟨?_, hempty, hempty, hempty⟩
    show IsMin ((Transfer.start cmd mac fs old).control.position file)
    rcases hstart : startStation cmd fs mac with s | rv
    · have hzero : s.mmeSent.fragmentNumber = 0 := startStation_first hstart
      unfold Transfer.start
      simp only [hstart, Control.position, hzero]
      exact isMin_bot
    · have hrv := startStation_early hstart
      unfold Transfer.start
      simp only [hstart, Control.position, if_neg hrv]
      exact isMin_bot
  step _ _ _ h hstep := h.refines hsize hstep

/-- Where every fragment was delivered the station holds the file. -/
theorem Downloading.holds {t : Transfer Memory} (h : Downloading host file old t)
    (hall : ∀ k < fragmentCount file, k ∈ fragmentNumbers t.delivered) : t.station.Holds file old := by
  intro i
  by_cases hi : i < file.length
  · rcases hall _ (div_lt_count hi) with ⟨r, hr, hnumber⟩
    rw [if_pos hi]
    exact h.written r hr i hi hnumber.symm
  · rw [if_neg hi]
    rcases h.frame i with hold | ⟨hin, _⟩
    · exact hold
    · exact absurd hin hi

/-- In every state a run can reach: each request was made for a fragment below their number,
at its offset and with the bytes the file has there, and all the fragments in front of it
had reached the station; and if the program returned 0 the station holds the whole file. -/
theorem fileDownload_complete (host mac : Mac) (cmd : FileAccessCommand) (fs : LocalFs)
    (file : List UInt8) (old : Memory) (t : Transfer Memory) (hop : cmd.op = opWrite)
    (hfile : fs.content cmd.fileName = some file) (hsize : file.length ≤ 65535 * 1024)
    (h : (transferMachine host mac cmd downloadStation fs old).Reachable t) :
    (∀ r ∈ t.requests,
      r.fragmentNumber < r.totalFragments ∧
      r.totalFragments.toNat = (file.length + 1023) / 1024 ∧
      r.offset.toNat = 1024 * r.fragmentNumber.toNat ∧
      r.data.take r.length.toNat = (file.drop (1024 * r.fragmentNumber.toNat)).take 1024 ∧
      r.length.toNat = min 1024 (file.length - 1024 * r.fragmentNumber.toNat)) ∧
    (∀ r ∈ t.requests, ∀ k < r.fragmentNumber.toNat,
      ∃ r' ∈ t.delivered, r'.fragmentNumber.toNat = k) ∧
    (t.control = .returned 0 → t.station.Holds file old) := by
  rcases (downloadRefinement host mac old hop hfile hsize).reachable h with ⟨hinv, habs⟩
  have hprefix := Acknowledged.reachable_prefix habs
  refine ⟨?_, ?_, ?_⟩
  · intro r hr
    have hr' := hinv.requests r hr
    refine ⟨?_, hr'.total, hr'.offset, hr'.data, ?_⟩
    · rw [UInt16.lt_iff_toNat_lt, hr'.total]
      exact hr'.number
    · rw [hr'.length, fragmentOf, List.length_take, List.length_drop]
  · intro r hr k hk
    exact hprefix.asked _ ⟨r, hr, rfl⟩ hk
  · intro hcontrol
    refine hinv.holds (fun k hk => hprefix.position ?_)
    show k < t.control.position file
    rw [hcontrol]
    exact hk

/-! ## Runs that come through -/

/-- A file that can be sent starts the loop at its first fragment. -/
theorem startStation_opened (hop : cmd.op = opWrite) (hparam : cmd.parameter.length ≤ 32)
    (hfile : fs.content cmd.fileName = some file) (hpos : 1 ≤ file.length) (mac : Mac) :
    ∃ s, startStation cmd fs mac = .inl s ∧ s.retryCount = 0 ∧ s.mmeSent.fragmentNumber = 0 := by
  unfold startStation
  simp only [hop, hfile]
  rw [if_neg (by omega), if_pos trivial, if_neg (by omega)]
  exact ⟨_, rfl, rfl, rfl⟩

/-- The confirmation that echoes a request and carries nothing else. -/
def echoCnf (mac : Mac) (r : FileAccessReq) : FileAccessCnf :=
  ⟨0, r.op, r.fileType, List.replicate 32 0, r.totalFragments, r.fragmentNumber, 0, 0,
    List.replicate dataMaxLen 0, mac⟩

/-- The confirmation without data is well formed. -/
theorem echoCnf_wellFormed (mac : Mac) (r : FileAccessReq) : (echoCnf mac r).WellFormed :=
  ⟨List.length_replicate, List.length_replicate, fun _ => List.drop_zero⟩

/-- The confirmation of the fragment that was sent moves the sender on, or ends the transfer. -/
theorem receiveResponse_echo (mac : Mac) (fs : LocalFs) {s : Sender} (hop : cmd.op = opWrite)
    (hs : s.mmeSent.op = opWrite) :
    receiveResponse [] cmd fs s (.received [echoCnf mac s.mmeSent]) =
      .ok (fs, if loopCondition (s.advance (echoCnf mac s.mmeSent)) 0 [echoCnf mac s.mmeSent]
        then .again (s.advance (echoCnf mac s.mmeSent)) else .leave 0) := by
  have hwrite : (echoCnf mac s.mmeSent).op = opWrite := hs
  refine receiveResponse_processed (processMtkVsFileAccessCnf_quiet ?_ ?_ ?_ ?_ ?_) <;>
    first | rw [hop] | rw [hwrite]
  all_goals decide

/-- From any turn on, a run in which nothing more is lost returns 0, and serves each fragment that
is left once. -/
theorem fileDownload_lossless_from {t : Transfer Memory} {s : Sender} (n : Nat)
    (hop : cmd.op = opWrite) (hsize : file.length ≤ 65535 * dataMaxLen) (hs : s.Sends file)
    (hn : fragmentCount file - s.mmeSent.fragmentNumber.toNat = n)
    (h : (transferMachine host mac cmd downloadStation fs old).Reachable t)
    (hcontrol : t.control = .sending s) :
    ∃ t', (transferMachine host mac cmd downloadStation fs old).Reachable t' ∧
      t'.control = .returned 0 ∧ t'.delivered.length = t.delivered.length + n := by
  -- on the fragments behind the sender's position
  induction n generalizing t s with
  | zero =>
    have hlt := hs.number
    omega
  | succ n ih =>
    rcases prepareRequest_sends hop hsize hs with ⟨s', hprep, hs', htransmits⟩
    have hscan : cmd.op ≠ opScanSta := by
      rw [hop]
      decide
    have hrecv := receiveResponse_echo mac t.fs hop hs'.op
    have hecho : Echoes s'.mmeSent (echoCnf mac s'.mmeSent) := ⟨rfl, rfl, rfl, rfl⟩
    have hnext := Transfer.reachable_exchanged h hscan hcontrol hprep
      (echoCnf_wellFormed mac s'.mmeSent) hecho hrecv
    rcases hs'.advance hsize htransmits hecho with ⟨hnumber, hsends, hlast⟩
    by_cases hcond : loopCondition (s'.advance (echoCnf mac s'.mmeSent)) 0 [echoCnf mac s'.mmeSent]
    · -- another fragment: it is the one behind
      rw [if_pos hcond] at hnext
      have hlt : (s'.advance (echoCnf mac s'.mmeSent)).mmeSent.fragmentNumber <
          (s'.advance (echoCnf mac s'.mmeSent)).mmeSent.totalFragments := by
        rcases hcond.2 with ⟨_, hempty⟩ | hlt
        · cases hempty
        · exact hlt
      have hleft : fragmentCount file - (s'.advance (echoCnf mac s'.mmeSent)).mmeSent.fragmentNumber.toNat = n := by
        rw [hnumber, (prepareRequest_frame hprep).2.2.2.2.2]
        omega
      rcases ih (hsends hlt) hleft hnext rfl with ⟨t', ht', hreturned, hdelivered⟩
      refine ⟨t', ht', hreturned, ?_⟩
      rw [hdelivered, List.length_cons]
      omega
    · -- it was the last one
      rw [if_neg hcond] at hnext
      have hcount := hlast fun hlt => hcond ⟨rfl, Or.inr hlt⟩
      rw [(prepareRequest_frame hprep).2.2.2.2.2] at hcount
      obtain rfl : n = 0 := by omega
      exact ⟨_, hnext, rfl, rfl⟩

/-- For every file there is a run that returns 0. -/
theorem fileDownload_lossless (host mac : Mac) (old : Memory) (hop : cmd.op = opWrite)
    (hparam : cmd.parameter.length ≤ 32)
    (hfile : fs.content cmd.fileName = some file) (hpos : 1 ≤ file.length)
    (hsize : file.length ≤ 65535 * dataMaxLen) :
    ∃ t, (transferMachine host mac cmd downloadStation fs old).Reachable t ∧
      t.control = .returned 0 := by
  rcases startStation_opened hop hparam hfile hpos mac with ⟨s, hstart, -, -⟩
  have hcontrol : (Transfer.start cmd mac fs old).control = .sending s := by
    unfold Transfer.start
    rw [hstart]
  have hinit : (transferMachine host mac cmd downloadStation fs old).Reachable (Transfer.start cmd mac fs old) :=
    .init rfl
  rcases fileDownload_lossless_from _ hop hsize (startStation_sends hop hfile hsize hstart) rfl hinit hcontrol
    with ⟨t, ht, hreturned, -⟩
  exact ⟨t, ht, hreturned⟩

/-- For every file there is a run that returns 0 although the first confirmation is lost: one
fragment is served twice. -/
theorem fileDownload_firstLost (host mac : Mac) (old : Memory) (hop : cmd.op = opWrite)
    (hparam : cmd.parameter.length ≤ 32)
    (hfile : fs.content cmd.fileName = some file) (hpos : 1 ≤ file.length)
    (hsize : file.length ≤ 65535 * dataMaxLen) :
    ∃ t, (transferMachine host mac cmd downloadStation fs old).Reachable t ∧
      t.control = .returned 0 ∧ t.delivered.length = fragmentCount file + 1 := by
  rcases startStation_opened hop hparam hfile hpos mac with ⟨s, hstart, hretries, hnumber⟩
  have hcontrol : (Transfer.start cmd mac fs old).control = .sending s := by
    unfold Transfer.start
    rw [hstart]
  have hs := startStation_sends hop hfile hsize hstart
  rcases prepareRequest_sends hop hsize hs with ⟨s', hprep, hs', -⟩
  have hframe := prepareRequest_frame hprep
  have hopen : s'.Open := by
    right
    rw [UInt16.lt_iff_toNat_lt, hs'.total]
    exact hs'.number
  have hrecv := receiveResponse_silent [] cmd (Transfer.start cmd mac fs old).fs hopen
  rw [if_neg (by rw [hframe.2.1, hretries]; decide)] at hrecv
  have hecho : Echoes s'.mmeSent (echoCnf mac s'.mmeSent) := ⟨rfl, rfl, rfl, rfl⟩
  have hinit : (transferMachine host mac cmd downloadStation fs old).Reachable (Transfer.start cmd mac fs old) :=
    .init rfl
  have hlost := Transfer.reachable_unanswered hinit hcontrol hprep (echoCnf_wellFormed mac s'.mmeSent) hecho hrecv
  -- the fragment is sent once more, and from here on nothing is lost
  have hretried : s'.retry.Sends file := ⟨hs'.buf, hs'.op, hs'.total, hs'.number⟩
  have hleft : fragmentCount file - s'.retry.mmeSent.fragmentNumber.toNat = fragmentCount file := by
    show fragmentCount file - s'.mmeSent.fragmentNumber.toNat = fragmentCount file
    rw [hframe.2.2.2.2.2, hnumber]
    rfl
  rcases fileDownload_lossless_from _ hop hsize hretried hleft hlost rfl with ⟨t, ht, hreturned, hdelivered⟩
  refine ⟨t, ht, hreturned, ?_⟩
  rw [hdelivered]
  exact Nat.add_comm 1 (fragmentCount file)

end Download

/-- `write /inka.conf` from the local file `f` -/
def writeCommand : FileAccessCommand :=
  ⟨opWrite, fileTypeGeneralFile, [47, 105, 110, 107, 97, 46, 99, 111, 110, 102], [102]⟩

/-- The host holds the file `f`. -/
def oneFile (file : List UInt8) : LocalFs :=
  noFiles.write [102] file

/-- A file of two fragments. -/
def twoFragments : List UInt8 :=
  (List.range 1500).map UInt8.ofNat

/-- The file is longer than one fragment and not longer than two. -/
theorem length_twoFragments : twoFragments.length = 1500 := by
  unfold twoFragments
  rw [List.length_map, List.length_range]

/-- The first confirmation is lost, and its fragment served twice: the station holds the file. -/
theorem fileDownload_complete_lostConfirmation :
    ∃ t, (transferMachine firstStation secondStation writeCommand downloadStation
        (oneFile twoFragments) (fun _ => none)).Reachable t ∧
      t.control = .returned 0 ∧ t.delivered.length = 3 ∧ t.station.Holds twoFragments (fun _ => none) := by
  have hfile : (oneFile twoFragments).content writeCommand.fileName = some twoFragments := rfl
  have hlength := length_twoFragments
  rcases fileDownload_firstLost firstStation secondStation (fun _ => none) rfl (by decide) hfile
    (by omega) (by rw [hlength]; decide) with ⟨t, ht, hreturned, hdelivered⟩
  refine ⟨t, ht, hreturned, ?_, (fileDownload_complete firstStation secondStation writeCommand
    (oneFile twoFragments) twoFragments (fun _ => none) t rfl hfile (by omega) ht).2.2 hreturned⟩
  rw [hdelivered]
  unfold fragmentCount
  rw [hlength]
  rfl

end Hpav
