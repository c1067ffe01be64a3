import Mathlib.Data.List.GetD
import Mathlib.Tactic.Common
import Hpav.Lib.Transition
import Hpav.FileAccessAnswer

/-!
# Saving a file of a station

The operation `save`, over a network that loses, delays and duplicates messages. The tool
files what it reads: fragment 0 starts the output file over, every other one is appended,
whatever was asked for (`processLoop_files`). `InOrder` says which confirmations an exchange
may bring without spoiling the file, and `Saving` is what holds as long as all of them do.
A duplicate of the last answer is enough to spoil it: see the run at the end.
-/

namespace Hpav

open CMem Transition

/-! ## Filing -/

/-- The fragments that make up the file once `numbers` were read behind `l`. -/
def filed (l : List Nat) (numbers : List Nat) : List Nat :=
  numbers.foldl (fun l k => if k = 0 then [0] else l ++ [k]) l

/-- What an exchange may bring while fragment `n` is asked for: filed behind the first `n`
fragments, its confirmations make up the file up to the first of them. -/
def InOrder (n : Nat) (cs : List FileAccessCnf) : Prop :=
  match cs with
  | [] => True
  | head :: _ =>
    filed (List.range n) (cs.map fun c => c.fragmentNumber.toNat) =
      List.range (head.fragmentNumber.toNat + 1)

instance (n : Nat) (cs : List FileAccessCnf) : Decidable (InOrder n cs) := by
  cases cs <;> unfold InOrder <;> infer_instance

/-- A single confirmation is in order if it brings the fragment asked for, or the first. -/
theorem inOrder_singleton {n : Nat} {c : FileAccessCnf} :
    InOrder n [c] ↔ c.fragmentNumber.toNat = n ∨ c.fragmentNumber.toNat = 0 := by
  show (if c.fragmentNumber.toNat = 0 then [0] else List.range n ++ [c.fragmentNumber.toNat]) =
    List.range (c.fragmentNumber.toNat + 1) ↔ _
  constructor
  · intro h
    by_cases hzero : c.fragmentNumber.toNat = 0
    · exact Or.inr hzero
    · left
      rw [if_neg hzero] at h
      have hlength := congrArg List.length h
      simp only [List.length_append, List.length_range, List.length_singleton] at hlength
      omega
  · rintro (hn | hzero)
    · by_cases hzero : c.fragmentNumber.toNat = 0
      · rw [if_pos hzero, hzero]
        rfl
      · rw [if_neg hzero, hn, List.range_succ]
    · rw [if_pos hzero, hzero]
      rfl

section Filing

variable {fragments : List (List UInt8)} {old : Option (List UInt8)}

/-- The bytes of a list of fragments. -/
def bytesOf (fragments : List (List UInt8)) (l : List Nat) : List UInt8 :=
  l.flatMap fun k => fragments.getD k []

/-- The file holds the fragments `l`: alone once the first one was filed, behind what the
file held before until then. -/
def Filed (fragments : List (List UInt8)) (old content : Option (List UInt8)) (l : List Nat) : Prop :=
  if 0 ∈ l then content = some (bytesOf fragments l)
  else content.getD [] = old.getD [] ++ bytesOf fragments l

/-- Before the first fragment the file is what it was. -/
theorem filed_nil (fragments : List (List UInt8)) (old : Option (List UInt8)) :
    Filed fragments old old [] := by
  unfold Filed
  rw [if_neg List.not_mem_nil]
  exact (List.append_nil _).symm

/-- The bytes of one more fragment are put behind. -/
theorem bytesOf_append (fragments : List (List UInt8)) (l : List Nat) (k : Nat) :
    bytesOf fragments (l ++ [k]) = bytesOf fragments l ++ fragments.getD k [] := by
  unfold bytesOf
  rw [List.flatMap_append, List.flatMap_singleton]

/-- The bytes of all fragments are the file. -/
theorem bytesOf_range (fragments : List (List UInt8)) :
    bytesOf fragments (List.range fragments.length) = fragments.flatten := by
  unfold bytesOf
  rw [List.flatMap_def]
  congr 1
  apply List.ext_getElem?
  intro i
  rw [List.getElem?_map]
  rcases Nat.lt_or_ge i fragments.length with hi | hi
  · rw [List.getElem?_range hi, Option.map_some, List.getElem?_eq_getElem hi,
      List.getD_eq_getElem?_getD, List.getElem?_eq_getElem hi]
    rfl
  · rw [List.getElem?_eq_none (by simpa using hi), List.getElem?_eq_none hi]
    rfl

/-- The first fragment starts the file over. -/
theorem filed_first {bytes : List UInt8}
    (h : fragments.getD 0 [] = bytes) : Filed fragments old (some bytes) [0] := by
  unfold Filed bytesOf
  rw [if_pos (List.mem_singleton_self 0), List.flatMap_singleton, h]

/-- Any other one goes behind the file. -/
theorem Filed.append {content : Option (List UInt8)} {l : List Nat} {k : Nat} {bytes : List UInt8}
    (h : Filed fragments old content l) (hk : k ≠ 0) (hbytes : fragments.getD k [] = bytes) :
    Filed fragments old (some (content.getD [] ++ bytes)) (l ++ [k]) := by
  have hmem : 0 ∈ l ++ [k] ↔ 0 ∈ l := by
    simp [Ne.symm hk]
  unfold Filed at *
  rw [bytesOf_append, hbytes]
  by_cases hzero : 0 ∈ l
  · rw [if_pos hzero] at h
    rw [if_pos (hmem.mpr hzero), h]
    rfl
  · rw [if_neg hzero] at h
    rw [if_neg (fun hin => hzero (hmem.mp hin)), ← List.append_assoc, ← h]
    rfl

end Filing

/-! ## The station -/

/-- The confirmation brings the fragment the request asks for. -/
def Brings (fragments : List (List UInt8)) (number : UInt16) (c : FileAccessCnf) : Prop :=
  fragments[number.toNat]? = some c.payload ∧ c.mstatus = 0 ∧ c.op = opSave ∧
    c.totalFragments.toNat = fragments.length ∧ c.fragmentNumber = number ∧
    c.length.toNat = c.payload.length

/-- The station that holds a file in fragments. -/
def uploadStation (fragments : List (List UInt8)) : Station Unit where
  serve b _ := b
  Answers _ r c := Brings fragments r.fragmentNumber c

/-- A confirmation of the station, as it comes out of its structure. -/
def IsFragmentCnf (fragments : List (List UInt8)) (c : FileAccessCnf) : Prop :=
  Brings fragments c.fragmentNumber c ∧ c.data.length = dataMaxLen

section Turn

variable {cmd : FileAccessCommand} {fragments : List (List UInt8)} {old : Option (List UInt8)}

/-- A confirmation carries one of the fragments. -/
theorem IsFragmentCnf.number_lt {c : FileAccessCnf} (h : IsFragmentCnf fragments c) :
    c.fragmentNumber.toNat < fragments.length :=
  (List.getElem?_eq_some_iff.mp h.1.1).1

/-- One confirmation files its fragment. -/
theorem processSuccess_files {s : ProcessState} {c : FileAccessCnf} {l : List Nat}
    (hc : IsFragmentCnf fragments c) (hwritable : s.fs.writable cmd.fileName = true)
    (h : Filed fragments old (s.fs.content cmd.fileName) l) :
    ∃ s', processSuccess cmd s c = .ok s' ∧ s'.fs.writable cmd.fileName = true ∧
      Filed fragments old (s'.fs.content cmd.fileName) (filed l [c.fragmentNumber.toNat]) := by
  rcases hc with ⟨⟨hbytes, _, hop, _, _, hlength⟩, hdata⟩
  have hget : fragments.getD c.fragmentNumber.toNat [] = c.payload := by
    rw [List.getD_eq_getElem?_getD, hbytes]
    rfl
  have hfits : c.length.toNat ≤ dataMaxLen := by
    rw [hlength, FileAccessCnf.payload, List.length_take, hdata]
    exact Nat.min_le_right _ _
  refine ⟨_, processSuccess_save hop hfits hwritable, ?_, ?_⟩
  · simp only
    split
    · exact hwritable
    · exact hwritable
  · show Filed fragments old _ (if c.fragmentNumber.toNat = 0 then [0] else l ++ [c.fragmentNumber.toNat])
    by_cases hzero : c.fragmentNumber = 0
    · have hzero' : c.fragmentNumber.toNat = 0 := by
        rw [hzero]
        rfl
      rw [if_pos hzero']
      simp only [if_pos hzero, LocalFs.content_write, if_true]
      exact filed_first (hzero' ▸ hget)
    · have hzero' : c.fragmentNumber.toNat ≠ 0 := fun h0 => hzero (UInt16.toNat_inj.mp h0)
      rw [if_neg hzero']
      simp only [if_neg hzero, LocalFs.append, LocalFs.content_write, if_true]
      exact h.append hzero' hget

/-- A chain of confirmations files its fragments, one behind the other. -/
theorem processLoop_files {s : ProcessState} {cs : List FileAccessCnf} {l : List Nat}
    (hcs : ∀ c ∈ cs, IsFragmentCnf fragments c) (hwritable : s.fs.writable cmd.fileName = true)
    (h : Filed fragments old (s.fs.content cmd.fileName) l) :
    ∃ s', processLoop cmd s cs = .ok (s', true) ∧ s'.fs.writable cmd.fileName = true ∧
      Filed fragments old (s'.fs.content cmd.fileName)
        (filed l (cs.map fun c => c.fragmentNumber.toNat)) := by
  induction cs generalizing s l with
  | nil => exact ⟨s, rfl, hwritable, h⟩
  | cons c cs ih =>
    have hc := hcs c List.mem_cons_self
    rcases processSuccess_files hc hwritable h with ⟨s₁, hs₁, hwritable₁, h₁⟩
    rcases ih (fun c' hc' => hcs c' (List.mem_cons_of_mem _ hc')) hwritable₁ h₁ with
      ⟨s', hs', hwritable', h'⟩
    refine ⟨s', ?_, hwritable', h'⟩
    unfold processLoop
    rw [if_pos hc.1.2.1, hs₁, bind_ok]
    exact hs'

/-! ## The invariant -/

/-- A sender that asks for a fragment the station has; before the first answer the number
of fragments is not known. -/
structure Sender.Asks (s : Sender) (fragments : List (List UInt8)) : Prop where
  number : s.mmeSent.fragmentNumber.toNat < fragments.length
  total : s.mmeSent.totalFragments.toNat = fragments.length ∨ s.mmeSent.totalFragments = 0

/-- A sender that asks goes on. -/
theorem Sender.Asks.open {s : Sender} (h : s.Asks fragments) : s.Open := by
  rcases h.total with htotal | hzero
  · right
    rw [UInt16.lt_iff_toNat_lt, htotal]
    exact h.number
  · exact Or.inl hzero

/-- The sender that takes up the position behind a fragment. -/
theorem IsFragmentCnf.advance {s : Sender} {head : FileAccessCnf} (h : IsFragmentCnf fragments head) :
    (s.advance head).mmeSent.fragmentNumber.toNat = head.fragmentNumber.toNat + 1 ∧
      ((s.advance head).mmeSent.fragmentNumber < (s.advance head).mmeSent.totalFragments →
        (s.advance head).Asks fragments) ∧
      (¬ (s.advance head).mmeSent.fragmentNumber < (s.advance head).mmeSent.totalFragments →
        fragments.length = head.fragmentNumber.toNat + 1) := by
  have htotal : (s.advance head).mmeSent.totalFragments.toNat = fragments.length := h.1.2.2.2.1
  have hcount : fragments.length ≤ 65535 := by
    have hlt := head.totalFragments.toNat_lt
    have heq : head.totalFragments.toNat = fragments.length := h.1.2.2.2.1
    omega
  have hlt := h.number_lt
  have hnext : (s.advance head).mmeSent.fragmentNumber.toNat = head.fragmentNumber.toNat + 1 :=
    toNat_add_one hlt hcount
  refine ⟨hnext, ?_, ?_⟩
  · intro hless
    rw [UInt16.lt_iff_toNat_lt, htotal] at hless
    exact ⟨hless, Or.inl htotal⟩
  · intro hend
    rw [UInt16.lt_iff_toNat_lt, hnext, htotal] at hend
    omega

/-- What follows an exchange that brought fragments of the file in order. -/
theorem receiveResponse_files {uninit : List UInt8} {fs fs' : LocalFs} {s : Sender}
    {outcome : Outcome} {turn : Turn} (hop : cmd.op = opSave)
    (hwritable : fs.writable cmd.fileName = true) (hs : s.Asks fragments)
    (hcs : ∀ cs, outcome = .received cs → ∀ c ∈ cs, IsFragmentCnf fragments c)
    (horder : ∀ cs, outcome = .received cs → InOrder s.mmeSent.fragmentNumber.toNat cs)
    (hfiled : Filed fragments old (fs.content cmd.fileName)
      (List.range s.mmeSent.fragmentNumber.toNat))
    (h : receiveResponse uninit cmd fs s outcome = .ok (fs', turn)) :
    fs'.writable cmd.fileName = true ∧
      ((∃ rv, rv ≠ 0 ∧ turn = .leave rv) ∨
        (∃ s', turn = .again s' ∧ s'.Asks fragments ∧ Filed fragments old (fs'.content cmd.fileName)
          (List.range s'.mmeSent.fragmentNumber.toNat)) ∨
        (turn = .leave 0 ∧ Filed fragments old (fs'.content cmd.fileName)
          (List.range fragments.length))) := by
  rcases receiveResponse_cases h with ⟨_, rfl, rfl⟩ | ⟨_, rfl, hcases⟩ |
    ⟨head, rest, success, rfl, hprocess, hcases⟩
  · exact ⟨hwritable, Or.inl ⟨-1, by decide, rfl⟩⟩
  · refine ⟨hwritable, ?_⟩
    rcases hcases with ⟨_, rfl⟩ | ⟨_, _, rfl⟩ | ⟨_, hcond, _⟩
    · exact Or.inl ⟨reqFail, by decide, rfl⟩
    · exact Or.inr (Or.inl ⟨_, rfl, ⟨hs.number, hs.total⟩, hfiled⟩)
    · exact absurd hs.open.loopCondition_retry hcond
  · have hscan : cmd.op ≠ opScanSta := by
      rw [hop]
      decide
    rcases processLoop_files (s := ⟨fs, .null, uninit⟩) (hcs _ rfl) hwritable hfiled with
      ⟨p, hp, hwritable', hfiled'⟩
    rw [processMtkVsFileAccessCnf_eq hscan (List.cons_ne_nil _ _), hp, bind_ok] at hprocess
    injection hprocess with hprocess
    injection hprocess with hfs hsuccess
    subst hfs
    subst hsuccess
    refine ⟨hwritable', Or.inr ?_⟩
    -- in order: the file holds the fragments up to and with the one that came first
    have hrange : filed (List.range s.mmeSent.fragmentNumber.toNat)
        ((head :: rest).map fun c => c.fragmentNumber.toNat) =
        List.range (head.fragmentNumber.toNat + 1) := horder _ rfl
    rw [hrange] at hfiled'
    have hhead : IsFragmentCnf fragments head := hcs _ rfl head List.mem_cons_self
    rcases hhead.advance (s := s) with ⟨hnext, hasks, hlast⟩
    rcases hcases with ⟨hcond, rfl⟩ | ⟨hcond, rfl⟩
    · left
      rcases hcond.2 with ⟨_, hempty⟩ | hlt
      · cases hempty
      · rw [← hnext] at hfiled'
        exact ⟨_, rfl, hasks hlt, hfiled'⟩
    · right
      rw [← hlast (fun hlt => hcond ⟨rfl, Or.inr hlt⟩)] at hfiled'
      exact ⟨rfl, hfiled'⟩

end Turn

section Upload

variable {host mac : Mac} {cmd : FileAccessCommand} {fs : LocalFs} {fragments : List (List UInt8)}

/-- While the program works on a fragment the output file holds those in front of it; once
it returned 0 the file holds all of them. -/
structure Saving (host : Mac) (cmd : FileAccessCommand) (fs : LocalFs)
    (fragments : List (List UInt8)) (t : Transfer Unit) : Prop where
  traced : t.Traced host (uploadStation fragments)
  writable : t.fs.writable cmd.fileName = true
  sender : ∀ s, t.control = .sending s ∨ t.control = .waiting s → s.Asks fragments ∧
    Filed fragments (fs.content cmd.fileName) (t.fs.content cmd.fileName)
      (List.range s.mmeSent.fragmentNumber.toNat)
  saved : t.control = .returned 0 →
    Filed fragments (fs.content cmd.fileName) (t.fs.content cmd.fileName)
      (List.range fragments.length)

/-- The steps after which the output file is still in order. -/
def KeepsOrder (t : Transfer Unit) (e : Event) : Prop :=
  ∀ s cs, t.control = .waiting s → e = .receive (.received cs) →
    InOrder s.mmeSent.fragmentNumber.toNat cs

/-- A saving starts with the first fragment, and does not know how many there are. -/
theorem startStation_save {s : Sender} (hop : cmd.op = opSave)
    (h : startStation cmd fs mac = .inl s) :
    s.mmeSent.fragmentNumber = 0 ∧ s.mmeSent.totalFragments = 0 := by
  refine ⟨startStation_first h, ?_⟩
  unfold startStation at h
  simp only at h
  split at h
  · cases h
  · rw [if_neg (by rw [hop]; decide)] at h
    injection h with h
    rw [← h]

/-- At the start nothing is filed. -/
theorem saving_start (hop : cmd.op = opSave) (hwritable : fs.writable cmd.fileName = true)
    (hpos : 1 ≤ fragments.length) :
    Saving host cmd fs fragments (Transfer.start cmd mac fs ()) := by
  refine ⟨Transfer.traced_start host cmd _ mac fs (), hwritable, ?_, ?_⟩
  · intro s hs
    unfold Transfer.start at hs
    rcases hstart : startStation cmd fs mac with s' | rv
    · simp only [hstart] at hs
      rcases hs with hs | hs
      · injection hs with hs
        subst hs
        rcases startStation_save hop hstart with ⟨hnumber, htotal⟩
        rw [hnumber]
        refine ⟨⟨?_, Or.inr htotal⟩, filed_nil fragments _⟩
        rw [hnumber]
        exact hpos
      · cases hs
    · simp only [hstart] at hs
      rcases hs with hs | hs <;> cases hs
  · intro hreturned
    unfold Transfer.start at hreturned
    rcases hstart : startStation cmd fs mac with s' | rv
    · simp only [hstart] at hreturned
      cases hreturned
    · simp only [hstart] at hreturned
      injection hreturned with hrv
      exact absurd hrv (startStation_early hstart)

/-- What is read in an exchange are fragments of the file. -/
theorem Saving.isFragmentCnf {t : Transfer Unit} {run : ChannelRun} {uninit : Nat → UInt8}
    {scan : Bool} {outcome : Outcome} (h : Saving host cmd fs fragments t)
    (hcaptured : ∀ f ∈ run.captured, rxAccepted host f = true → f ∈ t.answers)
    (hrun : fileAccessSndrcv uninit host scan run = .ok outcome) :
    ∀ cs, outcome = .received cs → ∀ c ∈ cs, IsFragmentCnf fragments c := by
  rintro cs rfl c hc
  rcases h.traced.response hcaptured hrun c hc with ⟨r, _, _, f, hframe, hbrings⟩
  have hnumber : c.fragmentNumber = r.fragmentNumber := hbrings.2.2.2.2.1
  have hbrings' : Brings fragments c.fragmentNumber c := by
    rw [hnumber]
    exact hbrings
  exact ⟨hbrings', (hframe.2 uninit).length_data⟩

/-- A step that keeps the order files the next fragment or nothing. -/
theorem Saving.step {t t' : Transfer Unit} {e : Event} (hop : cmd.op = opSave)
    (h : Saving host cmd fs fragments t) (horder : KeepsOrder t e)
    (hstep : Transfer.Step host cmd (uploadStation fragments) t e t') :
    Saving host cmd fs fragments t' := by
  have htraced := h.traced.step hstep
  cases hstep with
  | @send s s' hcontrol hprep =>
    rcases h.sender s (Or.inl hcontrol) with ⟨hasks, hfiled⟩
    -- preparing a request asks for the fragment the sender stands at
    rcases prepareRequest_frame hprep with ⟨_, _, _, _, htotal, hnumber⟩
    refine ⟨htraced, h.writable, ?_, ?_⟩
    · intro s₂ hs₂
      rcases hs₂ with hs₂ | hs₂
      · cases hs₂
      · injection hs₂ with hs₂
        subst hs₂
        rw [← hnumber] at hfiled
        refine ⟨⟨?_, ?_⟩, hfiled⟩
        · rw [hnumber]
          exact hasks.number
        · rw [htotal]
          exact hasks.total
    · intro hreturned
      cases hreturned
  | deliver _ _ _ => exact ⟨htraced, h.writable, h.sender, h.saved⟩
  | @receive s run uninit outcome uninitMac fs' turn hcontrol hcaptured hrun hrecv =>
    rcases h.sender s (Or.inr hcontrol) with ⟨hasks, hfiled⟩
    have horder' : ∀ cs, outcome = .received cs → InOrder s.mmeSent.fragmentNumber.toNat cs := by
      rintro cs rfl
      exact horder s cs hcontrol rfl
    -- the turn gives up, goes on behind what is filed, or ends with all of it filed
    rcases receiveResponse_files hop h.writable hasks (h.isFragmentCnf hcaptured hrun) horder'
      hfiled hrecv with ⟨hwritable, ⟨rv, hrv, rfl⟩ | ⟨s', rfl, hasks', hfiled'⟩ | ⟨rfl, hfiled'⟩⟩
    · refine ⟨htraced, hwritable, ?_, ?_⟩
      · intro s₂ hs₂
        rcases hs₂ with hs₂ | hs₂ <;> cases hs₂
      · intro hreturned
        injection hreturned with hzero
        exact absurd hzero hrv
    · refine ⟨htraced, hwritable, ?_, ?_⟩
      · intro s₂ hs₂
        rcases hs₂ with hs₂ | hs₂
        · injection hs₂ with hs₂
          exact hs₂ ▸ ⟨hasks', hfiled'⟩
        · cases hs₂
      · intro hreturned
        cases hreturned
    · refine ⟨htraced, hwritable, ?_, fun _ => hfiled'⟩
      intro s₂ hs₂
      rcases hs₂ with hs₂ | hs₂ <;> cases hs₂

/-- In every run whose exchanges bring confirmations in order only: if the program returned
0, the output file is the file of the station. -/
theorem fileUpload_exact (host mac : Mac) (cmd : FileAccessCommand) (fs : LocalFs)
    (fragments : List (List UInt8)) (t : Transfer Unit) (hop : cmd.op = opSave)
    (hwritable : fs.writable cmd.fileName = true) (hpos : 1 ≤ fragments.length)
    (h : ((transferMachine host mac cmd (uploadStation fragments) fs ()).restrict
      KeepsOrder).Reachable t) :
    t.control = .returned 0 → t.fs.content cmd.fileName = some fragments.flatten := by
  have hsaving : Saving host cmd fs fragments t := by
    refine h.invariant ?_ (fun t e t' ht hstep => ht.step hop hstep.2 hstep.1)
    rintro t rfl
    exact saving_start hop hwritable hpos
  intro hreturned
  have hsaved := hsaving.saved hreturned
  unfold Filed at hsaved
  rw [if_pos (List.mem_range.mpr hpos), bytesOf_range] at hsaved
  exact hsaved

/-! ## Runs -/

/-- The confirmation that brings the fragment `number`. -/
def saveCnf (mac : Mac) (fragments : List (List UInt8)) (number : UInt16) : FileAccessCnf where
  mstatus := 0
  op := opSave
  fileType := fileTypeGeneralFile
  parameter := List.replicate 32 0
  totalFragments := UInt16.ofNat fragments.length
  fragmentNumber := number
  offset := 0
  length := UInt16.ofNat (fragments.getD number.toNat []).length
  data := fragments.getD number.toNat [] ++
    List.replicate (dataMaxLen - (fragments.getD number.toNat []).length) 0
  staMacAddr := mac

/-- No fragment is longer than a request can carry. -/
theorem length_getD_le (hfit : ∀ bytes ∈ fragments, bytes.length ≤ dataMaxLen) (k : Nat) :
    (fragments.getD k []).length ≤ dataMaxLen := by
  rcases Nat.lt_or_ge k fragments.length with hk | hk
  · rw [List.getD_eq_getElem _ _ hk]
    exact hfit _ (List.getElem_mem hk)
  · rw [List.getD_eq_default _ _ hk]
    exact Nat.zero_le _

/-- The confirmation says how long its fragment is. -/
theorem saveCnf_length (mac : Mac) (hfit : ∀ bytes ∈ fragments, bytes.length ≤ dataMaxLen)
    (number : UInt16) :
    (saveCnf mac fragments number).length.toNat = (fragments.getD number.toNat []).length := by
  have hle := length_getD_le hfit number.toNat
  show (UInt16.ofNat _).toNat = _
  rw [UInt16.toNat_ofNat']
  unfold dataMaxLen at hle
  omega

/-- The confirmation of a fragment is well formed. -/
theorem saveCnf_wellFormed (mac : Mac) (hfit : ∀ bytes ∈ fragments, bytes.length ≤ dataMaxLen)
    (number : UInt16) : (saveCnf mac fragments number).WellFormed := by
  have hle := length_getD_le hfit number.toNat
  refine ⟨List.length_replicate, ?_, ?_⟩
  · show (_ ++ List.replicate _ _).length = _
    rw [List.length_append, List.length_replicate]
    omega
  · intro _
    rw [saveCnf_length mac hfit]
    exact List.drop_left

/-- The confirmation brings the fragment that was asked for. -/
theorem saveCnf_brings (mac : Mac) (hfit : ∀ bytes ∈ fragments, bytes.length ≤ dataMaxLen)
    (hcount : fragments.length ≤ 65535) {number : UInt16} (hnumber : number.toNat < fragments.length) :
    Brings fragments number (saveCnf mac fragments number) := by
  have hlength := saveCnf_length mac hfit number
  have hpayload : (saveCnf mac fragments number).payload = fragments.getD number.toNat [] := by
    unfold FileAccessCnf.payload
    rw [hlength]
    exact List.take_left
  refine ⟨?_, rfl, rfl, ?_, rfl, ?_⟩
  · rw [hpayload, List.getD_eq_getElem _ _ hnumber]
    exact List.getElem?_eq_getElem hnumber
  · show (UInt16.ofNat fragments.length).toNat = _
    rw [UInt16.toNat_ofNat']
    omega
  · rw [hlength, hpayload]

/-- The turn behind a fragment that was asked for. -/
theorem receiveResponse_saveCnf (mac : Mac) {fs' : LocalFs} {s : Sender} (hop : cmd.op = opSave)
    (hwritable : fs'.writable cmd.fileName = true)
    (hc : IsFragmentCnf fragments (saveCnf mac fragments s.mmeSent.fragmentNumber)) :
    ∃ fs'', fs''.writable cmd.fileName = true ∧
      receiveResponse [] cmd fs' s (.received [saveCnf mac fragments s.mmeSent.fragmentNumber]) =
        .ok (fs'', if loopCondition (s.advance (saveCnf mac fragments s.mmeSent.fragmentNumber)) 0
            [saveCnf mac fragments s.mmeSent.fragmentNumber]
          then .again (s.advance (saveCnf mac fragments s.mmeSent.fragmentNumber)) else .leave 0) := by
  have hscan : cmd.op ≠ opScanSta := by
    rw [hop]
    decide
  have hall : ∀ c ∈ [saveCnf mac fragments s.mmeSent.fragmentNumber], IsFragmentCnf fragments c := by
    simpa using hc
  rcases processLoop_files (s := ⟨fs', .null, []⟩) hall hwritable
    (filed_nil fragments (fs'.content cmd.fileName)) with ⟨p, hp, hwritable', _⟩
  have hprocess : processMtkVsFileAccessCnf [] cmd fs'
      [saveCnf mac fragments s.mmeSent.fragmentNumber] = .ok (p.fs, true) := by
    rw [processMtkVsFileAccessCnf_eq hscan (List.cons_ne_nil _ _), hp]
    rfl
  exact ⟨p.fs, hwritable', receiveResponse_processed hprocess⟩

/-- From any turn on, a run in which nothing more is lost returns 0, with all exchanges in
order. -/
theorem fileUpload_lossless_from {t : Transfer Unit} {s : Sender} (n : Nat)
    (hop : cmd.op = opSave) (hfit : ∀ bytes ∈ fragments, bytes.length ≤ dataMaxLen)
    (hcount : fragments.length ≤ 65535) (hs : s.Asks fragments)
    (hn : fragments.length - s.mmeSent.fragmentNumber.toNat = n)
    (hwritable : t.fs.writable cmd.fileName = true)
    (h : ((transferMachine host mac cmd (uploadStation fragments) fs ()).restrict
      KeepsOrder).Reachable t) (hcontrol : t.control = .sending s) :
    ∃ t', ((transferMachine host mac cmd (uploadStation fragments) fs ()).restrict
      KeepsOrder).Reachable t' ∧ t'.control = .returned 0 := by
  -- on the fragments behind the sender's position
  induction n generalizing t s with
  | zero =>
    have hlt := hs.number
    omega
  | succ n ih =>
    have hscan : cmd.op ≠ opScanSta := by
      rw [hop]
      decide
    have hread : cmd.op ≠ opWrite := by
      rw [hop]
      decide
    have hprep := prepareRequest_unchanged hread s
    have hc : IsFragmentCnf fragments (saveCnf mac fragments s.mmeSent.fragmentNumber) :=
      ⟨saveCnf_brings mac hfit hcount hs.number, (saveCnf_wellFormed mac hfit _).data⟩
    rcases receiveResponse_saveCnf mac hop hwritable hc with ⟨fs', hwritable', hrecv⟩
    rcases Transfer.steps_exchanged host (uploadStation fragments) hscan hcontrol hprep
      (saveCnf_wellFormed mac hfit _) hc.1 hrecv with
      ⟨t₁, t₂, hsend, hdeliver, hwaiting, hreceive⟩
    -- one exchange keeps the order, since there is one answer to it
    have hnext := ((h.step ⟨hsend, fun _ _ _ hev => by cases hev⟩).step
      ⟨hdeliver, fun _ _ _ hev => by cases hev⟩).step ⟨hreceive, by
        intro s₂ cs hs₂ hev
        rw [hwaiting] at hs₂
        injection hs₂ with hs₂
        injection hev with hev
        injection hev with hev
        subst hs₂
        subst hev
        exact inOrder_singleton.mpr (Or.inl rfl)⟩
    rcases hc.advance (s := s) with ⟨hnumber, hasks, _⟩
    by_cases hcond : loopCondition (s.advance (saveCnf mac fragments s.mmeSent.fragmentNumber)) 0
        [saveCnf mac fragments s.mmeSent.fragmentNumber]
    · rw [if_pos hcond] at hnext
      have hlt : (s.advance (saveCnf mac fragments s.mmeSent.fragmentNumber)).mmeSent.fragmentNumber <
          (s.advance (saveCnf mac fragments s.mmeSent.fragmentNumber)).mmeSent.totalFragments := by
        rcases hcond.2 with ⟨_, hempty⟩ | hlt
        · cases hempty
        · exact hlt
      refine ih (hasks hlt) ?_ hwritable' hnext rfl
      rw [hnumber]
      show fragments.length - (s.mmeSent.fragmentNumber.toNat + 1) = n
      omega
    · rw [if_neg hcond] at hnext
      exact ⟨_, hnext, rfl⟩

/-- Every file can be saved with all exchanges in order. -/
theorem fileUpload_lossless (host mac : Mac) (hop : cmd.op = opSave)
    (hparam : cmd.parameter.length ≤ 32) (hwritable : fs.writable cmd.fileName = true)
    (hfit : ∀ bytes ∈ fragments, bytes.length ≤ dataMaxLen) (hpos : 1 ≤ fragments.length)
    (hcount : fragments.length ≤ 65535) :
    ∃ t, ((transferMachine host mac cmd (uploadStation fragments) fs ()).restrict
      KeepsOrder).Reachable t ∧ t.control = .returned 0 := by
  have hsaving : Saving host cmd fs fragments (Transfer.start cmd mac fs ()) :=
    saving_start hop hwritable hpos
  rcases hstart : startStation cmd fs mac with s | rv
  · have hcontrol : (Transfer.start cmd mac fs ()).control = .sending s := by
      unfold Transfer.start
      rw [hstart]
    exact fileUpload_lossless_from _ hop hfit hcount (hsaving.sender s (Or.inl hcontrol)).1 rfl
      hwritable (.init rfl) hcontrol
  · unfold startStation at hstart
    simp only at hstart
    rw [if_neg (by omega), if_neg (by rw [hop]; decide)] at hstart
    cases hstart

end Upload

/-- `save f` into the local file `f` -/
def saveCommand : FileAccessCommand :=
  ⟨opSave, fileTypeGeneralFile, [102], [102]⟩

/-- A file of the station, in fragments of one byte. -/
abbrev threeFragments : List (List UInt8) :=
  [[10], [11], [12]]

/-- Three fragments of one byte fit. -/
theorem threeFragments_fit : ∀ bytes ∈ threeFragments, bytes.length ≤ dataMaxLen := by
  decide

/-- Three fragments are fetched one after the other. -/
theorem fileUpload_exact_three_fragments :
    ∃ t, ((transferMachine firstStation secondStation saveCommand (uploadStation threeFragments)
        noFiles ()).restrict KeepsOrder).Reachable t ∧
      t.control = .returned 0 ∧ t.fs.content saveCommand.fileName = some [10, 11, 12] := by
  have hop : saveCommand.op = opSave := rfl
  have hwritable : noFiles.writable saveCommand.fileName = true := rfl
  rcases fileUpload_lossless firstStation secondStation hop (by decide) hwritable
    threeFragments_fit (by decide) (by decide) with ⟨t, ht, hreturned⟩
  exact ⟨t, ht, hreturned, fileUpload_exact firstStation secondStation saveCommand noFiles
    threeFragments t hop hwritable (by decide) ht hreturned⟩

/-- The program asks for the fragment `number`. -/
def saveSender (number total : UInt16) : Sender :=
  ⟨secondStation, ⟨opSave, fileTypeGeneralFile, [102], total, number, 0, 0, 0,
    List.replicate dataMaxLen 0⟩, 0, []⟩

/-- The station answers with the fragment that was asked for. -/
theorem saveCnf_answers {number total : UInt16} (h : number.toNat < threeFragments.length) :
    (uploadStation threeFragments).Answers () (saveSender number total).mmeSent
      (saveCnf secondStation threeFragments number) :=
  saveCnf_brings secondStation threeFragments_fit (by decide) h

/-- Fragments 0 and 1 are saved; while fragment 2 is asked for the answer with fragment 1
arrives a second time; then fragment 2 is saved. The program returns 0 and the file holds
fragment 1 twice. -/
theorem fileUpload_duplicate_spoils :
    ∃ t, (transferMachine firstStation secondStation saveCommand (uploadStation threeFragments)
        noFiles ()).Reachable t ∧
      t.control = .returned 0 ∧ t.fs.content saveCommand.fileName = some [10, 11, 11, 12] ∧
      t.fs.content saveCommand.fileName ≠ some threeFragments.flatten := by
  have hscan : saveCommand.op ≠ opScanSta := by decide
  have hprep : ∀ number total, prepareRequest saveCommand (saveSender number total) =
      .ok (saveSender number total) := fun _ _ => rfl
  have hstart : (transferMachine firstStation secondStation saveCommand (uploadStation threeFragments)
      noFiles ()).Reachable (Transfer.start saveCommand secondStation noFiles ()) := .init rfl
  have hfirst := Transfer.reachable_exchanged hstart hscan rfl (hprep 0 0)
    (saveCnf_wellFormed secondStation threeFragments_fit 0) (saveCnf_answers (by decide)) rfl
  have hsecond := Transfer.reachable_exchanged hfirst hscan rfl (hprep 1 3)
    (saveCnf_wellFormed secondStation threeFragments_fit 1) (saveCnf_answers (by decide)) rfl
  have hduplicate := Transfer.reachable_captured hsecond hscan rfl (hprep 2 3) List.mem_cons_self
    (answerFrame_answers firstStation _ (saveCnf_wellFormed secondStation threeFragments_fit 1)) rfl
  have hthird := Transfer.reachable_exchanged hduplicate hscan rfl (hprep 2 3)
    (saveCnf_wellFormed secondStation threeFragments_fit 2) (saveCnf_answers (by decide)) rfl
  exact ⟨_, hthird, rfl, rfl, by decide⟩

end Hpav
