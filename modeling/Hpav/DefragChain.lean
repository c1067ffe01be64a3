import Mathlib.Tactic.Common
import Hpav.Defrag

/-!
# The packets of an exchange

What `hpav_defrag_frames` delivers. The loop that chains the packets has three kinds
of state: nothing delivered yet, a chain whose last packet is known, and a chain whose
last pointer a failed group has overwritten with NULL. The third kind has no step: the
next group writes through the NULL pointer. `Deliverable` says which lists of groups
stay clear of that, and `defragFrames_cases` that nothing else goes wrong.
-/

namespace Hpav

open CMem Grouping

/-! ## What should be delivered -/

/-- The packet of a group, if `hpav_defrag_grouped_frames` accepts it. -/
def acceptedPacket (group : Group) : Option MmePacket :=
  match defragGroupedFrames group with
  | .ok (some packet) => some packet
  | _ => none

/-- One packet for each accepted group, in the order of the groups. -/
def acceptedPackets (groupList : List Group) : List MmePacket :=
  groupList.filterMap acceptedPacket

/-- The packets of the key groups of the received frames, in the order of the first
frame of each group. -/
def packetsOf (frames : List EthFrame) : List MmePacket :=
  acceptedPackets (groups EthFrame.key frames)

/-- The groups the chaining loop gets through when `seen` tells whether a packet is
chained already: no complete group has a fragment shorter than its headers, and no
group behind a delivered packet is incomplete unless it is the last of all. -/
structure Deliverable (seen : Prop) (groupList : List Group) : Prop where
  sized : ∀ g ∈ groupList, Complete g → Sized g
  failure_last : ∀ pre g post, groupList = pre ++ g :: post → ¬ Complete g →
    (seen ∨ ∃ p ∈ pre, Complete p) → post = []

/-- Without groups there is nothing left to deliver. -/
theorem Deliverable.nil (seen : Prop) : Deliverable seen [] :=
  ⟨by simp, fun pre g post h => by simp at h⟩

/-- A complete group has to fit its packet, and goes in front. -/
theorem Deliverable.cons_complete_iff {seen : Prop} {g : Group} {gs : List Group}
    (hg : Complete g) : Deliverable seen (g :: gs) ↔ Sized g ∧ Deliverable True gs := by
  constructor
  · rintro ⟨hsized, hlast⟩
    refine ⟨hsized g List.mem_cons_self hg, ?_, ?_⟩
    · intro g' hg'
      exact hsized g' (List.mem_cons_of_mem _ hg')
    · intro pre g' post hsplit hg' _
      exact hlast (g :: pre) g' post (by rw [hsplit]; rfl) hg' (Or.inr ⟨g, List.mem_cons_self, hg⟩)
  · rintro ⟨hsize, hsized, hlast⟩
    refine ⟨?_, ?_⟩
    · intro g' hg' hcomplete
      rcases List.mem_cons.mp hg' with rfl | hg'
      · exact hsize
      · exact hsized g' hg' hcomplete
    · intro pre g' post hsplit hg' _
      cases pre with
      | nil =>
        injection hsplit with hhead _
        exact absurd (hhead ▸ hg) hg'
      | cons p pre =>
        injection hsplit with _ htail
        exact hlast pre g' post htail hg' (Or.inl trivial)

/-- An incomplete group is passed over, unless a packet is chained: then it has to be the last
of all. -/
theorem Deliverable.cons_incomplete_iff {seen : Prop} {g : Group} {gs : List Group}
    (hg : ¬ Complete g) : Deliverable seen (g :: gs) ↔ (seen → gs = []) ∧ Deliverable seen gs := by
  constructor
  · rintro ⟨hsized, hlast⟩
    refine ⟨fun hseen => hlast [] g gs rfl hg (Or.inl hseen), ?_, ?_⟩
    · intro g' hg'
      exact hsized g' (List.mem_cons_of_mem _ hg')
    · intro pre g' post hsplit hg' hbefore
      apply hlast (g :: pre) g' post (by rw [hsplit]; rfl) hg'
      rcases hbefore with hseen | ⟨p, hp, hcomplete⟩
      · exact Or.inl hseen
      · exact Or.inr ⟨p, List.mem_cons_of_mem _ hp, hcomplete⟩
  · rintro ⟨hlastHere, hsized, hlast⟩
    refine ⟨?_, ?_⟩
    · intro g' hg' hcomplete
      rcases List.mem_cons.mp hg' with rfl | hg'
      · exact absurd hcomplete hg
      · exact hsized g' hg' hcomplete
    · -- the group that fails is `g` itself, or stands behind it
      intro pre g' post hsplit hg' hbefore
      cases pre with
      | nil =>
        injection hsplit with _ htail
        rcases hbefore with hseen | ⟨p, hp, _⟩
        · exact htail ▸ hlastHere hseen
        · exact absurd hp List.not_mem_nil
      | cons p pre =>
        injection hsplit with hhead htail
        apply hlast pre g' post htail hg'
        rcases hbefore with hseen | ⟨p', hp', hcomplete⟩
        · exact Or.inl hseen
        · rcases List.mem_cons.mp hp' with rfl | hp'
          · exact absurd (hhead ▸ hcomplete) hg
          · exact Or.inr ⟨p', hp', hcomplete⟩

/-- Groups that fail, then at least one that does not, and behind these at most one more. -/
def DeliversSome (whole : Group → Prop) (groupList : List Group) : Prop :=
  ∃ parts wholes rest, groupList = parts ++ (wholes ++ rest) ∧ (∀ g ∈ parts, ¬ whole g) ∧ wholes ≠ [] ∧
    (∀ g ∈ wholes, whole g) ∧ rest.length ≤ 1

/-- Only what is said of the groups of the list counts. -/
theorem DeliversSome.congr {whole whole' : Group → Prop} {groupList : List Group}
    (h : ∀ g ∈ groupList, whole g ↔ whole' g) : DeliversSome whole groupList ↔ DeliversSome whole' groupList := by
  have hsame : ∀ {p q : Group → Prop}, (∀ g ∈ groupList, p g ↔ q g) → DeliversSome p groupList →
      DeliversSome q groupList := by
    rintro p q hpq ⟨parts, wholes, rest, rfl, hparts, hne, hwholes, hrest⟩
    refine ⟨parts, wholes, rest, rfl, ?_, hne, ?_, hrest⟩
    · intro g hg hq
      exact hparts g hg ((hpq g (List.mem_append_left _ hg)).mpr hq)
    · intro g hg
      exact (hpq g (List.mem_append_right _ (List.mem_append_left _ hg))).mp (hwholes g hg)
  exact ⟨hsame h, hsame fun g hg => (h g hg).symm⟩

/-- Behind a packet there are complete groups, and at most one more. -/
theorem deliverable_true_iff {groupList : List Group} (hsized : ∀ g ∈ groupList, Complete g → Sized g) :
    Deliverable True groupList ↔
      ∃ wholes rest, groupList = wholes ++ rest ∧ (∀ g ∈ wholes, Complete g) ∧ rest.length ≤ 1 := by
  induction groupList with
  | nil =>
    constructor
    · intro _
      exact ⟨[], [], rfl, by simp, Nat.zero_le _⟩
    · intro _
      exact Deliverable.nil _
  | cons g gs ih =>
    have hgs : ∀ g' ∈ gs, Complete g' → Sized g' := fun g' hg' => hsized g' (List.mem_cons_of_mem _ hg')
    by_cases hcomplete : Complete g
    · rw [Deliverable.cons_complete_iff hcomplete, ih hgs]
      constructor
      · rintro ⟨-, wholes, rest, rfl, hwholes, hrest⟩
        exact ⟨g :: wholes, rest, rfl, by simpa [hcomplete] using hwholes, hrest⟩
      · rintro ⟨wholes, rest, hsplit, hwholes, hrest⟩
        refine ⟨hsized g List.mem_cons_self hcomplete, ?_⟩
        cases wholes with
        | nil =>
          -- the group is the one that may stand behind
          rw [List.nil_append] at hsplit
          rw [← hsplit, List.length_cons] at hrest
          exact ⟨[], gs, rfl, by simp, by omega⟩
        | cons w ws =>
          injection hsplit with _ htail
          exact ⟨ws, rest, htail, fun g' hg' => hwholes g' (List.mem_cons_of_mem _ hg'), hrest⟩
    · rw [Deliverable.cons_incomplete_iff hcomplete, ih hgs]
      constructor
      · rintro ⟨hlast, -⟩
        rw [hlast trivial]
        exact ⟨[], [g], rfl, by simp, Nat.le_refl _⟩
      · rintro ⟨wholes, rest, hsplit, hwholes, hrest⟩
        cases wholes with
        | nil =>
          rw [List.nil_append] at hsplit
          rw [← hsplit, List.length_cons] at hrest
          have hnil : gs = [] := List.length_eq_zero_iff.mp (by omega)
          exact ⟨fun _ => hnil, [], gs, rfl, by simp, by omega⟩
        | cons w ws =>
          injection hsplit with hhead _
          exact absurd (hwholes w List.mem_cons_self) (hhead ▸ hcomplete)

/-- What is delivered is some packet exactly if the complete groups stand like this. -/
theorem deliversSome_iff {groupList : List Group} (hsized : ∀ g ∈ groupList, Complete g → Sized g) :
    (Deliverable False groupList ∧ ∃ g ∈ groupList, Complete g) ↔ DeliversSome Complete groupList := by
  induction groupList with
  | nil =>
    constructor
    · rintro ⟨-, g, hg, -⟩
      cases hg
    · rintro ⟨parts, wholes, rest, hsplit, -, hne, -⟩
      have hnil := List.append_eq_nil_iff.mp (List.append_eq_nil_iff.mp hsplit.symm).2
      exact absurd hnil.1 hne
  | cons g gs ih =>
    have hgs : ∀ g' ∈ gs, Complete g' → Sized g' := fun g' hg' => hsized g' (List.mem_cons_of_mem _ hg')
    by_cases hcomplete : Complete g
    · rw [Deliverable.cons_complete_iff hcomplete, deliverable_true_iff hgs]
      constructor
      · rintro ⟨⟨-, wholes, rest, rfl, hwholes, hrest⟩, -⟩
        exact ⟨[], g :: wholes, rest, rfl, by simp, List.cons_ne_nil _ _, by simpa [hcomplete] using hwholes, hrest⟩
      · rintro ⟨parts, wholes, rest, hsplit, hparts, hne, hwholes, hrest⟩
        refine ⟨⟨hsized g List.mem_cons_self hcomplete, ?_⟩, g, List.mem_cons_self, hcomplete⟩
        -- the first group does not fail, so there is none that does in front of it
        cases parts with
        | nil =>
          obtain ⟨w, ws, rfl⟩ := List.exists_cons_of_ne_nil hne
          injection hsplit with _ htail
          exact ⟨ws, rest, htail, fun g' hg' => hwholes g' (List.mem_cons_of_mem _ hg'), hrest⟩
        | cons p ps =>
          injection hsplit with hhead _
          exact absurd (hhead ▸ hcomplete) (hparts p List.mem_cons_self)
    · rw [Deliverable.cons_incomplete_iff hcomplete]
      constructor
      · rintro ⟨⟨-, hdeliverable⟩, g', hg', hcomplete'⟩
        have hmem : g' ∈ gs := by
          rcases List.mem_cons.mp hg' with rfl | hmem
          · exact absurd hcomplete' hcomplete
          · exact hmem
        obtain ⟨parts, wholes, rest, rfl, hparts, hne, hwholes, hrest⟩ :=
          (ih hgs).mp ⟨hdeliverable, g', hmem, hcomplete'⟩
        exact ⟨g :: parts, wholes, rest, rfl, by simpa [hcomplete] using hparts, hne, hwholes, hrest⟩
      · rintro ⟨parts, wholes, rest, hsplit, hparts, hne, hwholes, hrest⟩
        cases parts with
        | nil =>
          obtain ⟨w, ws, rfl⟩ := List.exists_cons_of_ne_nil hne
          injection hsplit with hhead _
          exact absurd (hwholes w List.mem_cons_self) (hhead ▸ hcomplete)
        | cons p ps =>
          injection hsplit with _ htail
          obtain ⟨hdeliverable, g', hg', hcomplete'⟩ := (ih hgs).mpr
            ⟨ps, wholes, rest, htail, fun g' hg' => hparts g' (List.mem_cons_of_mem _ hg'), hne, hwholes, hrest⟩
          exact ⟨⟨fun h => h.elim, hdeliverable⟩, g', List.mem_cons_of_mem _ hg', hcomplete'⟩

/-! ## One step of the chaining loop -/

/-- The head and the last pointer describe the chain of the packets `ps`. -/
def Chained (s : DefragState) (ps : List MmePacket) : Prop :=
  Linked s.heap s.newPackets s.lastPacket ps

/-- The packets `ps` are chained, and the last pointer is NULL all the same. -/
def Severed (s : DefragState) (ps : List MmePacket) : Prop :=
  s.newPackets ≠ none ∧ s.lastPacket = none ∧ chain s.heap s.newPackets = ps

/-- At first there are no packets. -/
theorem chained_init : Chained DefragState.init [] :=
  Linked.nil _

/-- A packet is put at the end of the chain. -/
theorem addPacket_some {s : DefragState} {ps : List MmePacket} (hs : Chained s ps)
    (p : MmePacket) : ∃ s', addPacket s (some p) = .ok s' ∧ Chained s' (ps ++ [p]) := by
  unfold addPacket mallocNode
  by_cases hps : ps = []
  · have hnew : s.newPackets = none := hs.head_none_iff.mpr hps
    simp only [hnew]
    exact ⟨_, rfl, by rw [hps]; exact Linked.singleton s.heap p⟩
  · rcases hs.link hps p with ⟨heap, hset, _, hlinked⟩
    rcases hnew : s.newPackets with _ | new
    · exact absurd (hs.head_none_iff.mp hnew) hps
    · simp only [hset, bind_ok]
      exact ⟨_, rfl, hnew ▸ hlinked⟩

/-- No packet leaves an empty chain empty. -/
theorem addPacket_none_of_empty {s : DefragState} (hs : Chained s []) :
    ∃ s', addPacket s none = .ok s' ∧ Chained s' [] := by
  have hnew : s.newPackets = none := hs.head_none_iff.mpr rfl
  unfold addPacket
  simp only [hnew]
  exact ⟨_, rfl, Linked.nil _⟩

/-- A failed group behind a delivered packet loses the last pointer. -/
theorem addPacket_none_of_chained {s : DefragState} {ps : List MmePacket} (hs : Chained s ps)
    (hps : ps ≠ []) : ∃ s', addPacket s none = .ok s' ∧ Severed s' ps := by
  rcases hnew : s.newPackets with _ | new
  · exact absurd (hs.head_none_iff.mp hnew) hps
  · unfold addPacket
    simp only [hnew]
    rw [hs.terminate hps]
    refine ⟨⟨s.heap, some new, none⟩, rfl, by simp, rfl, ?_⟩
    rw [← hnew]
    exact hs.chain_eq

/-- Once the last pointer is lost, no group can be chained. -/
theorem addPacket_severed {s : DefragState} {ps : List MmePacket} (hs : Severed s ps)
    (o : Option MmePacket) : addPacket s o = .error .nullDeref := by
  rcases hs with ⟨hnew, hlast, _⟩
  rcases hcase : s.newPackets with _ | new
  · exact absurd hcase hnew
  · cases o with
    | none =>
      unfold addPacket
      simp only [hcase, hlast]
      rfl
    | some p =>
      unfold addPacket mallocNode
      simp only [hcase, hlast]
      rfl

/-- A group is put together, and what comes out is added. -/
theorem defragGroup_of_ne_nil {g : Group} (hg : g ≠ []) (s : DefragState) :
    defragGroup s g = (defragGroupedFrames g >>= fun o => addPacket s o) := by
  cases g with
  | nil => exact absurd rfl hg
  | cons first rest => rfl

/-- Of a complete group that fits the packet is accepted. -/
theorem acceptedPacket_complete {g : Group} (h : Complete g) (hs : Sized g) :
    acceptedPacket g = groupPacket g := by
  unfold acceptedPacket
  rw [defragGroupedFrames_complete h hs]
  rcases groupPacket g with _ | p <;> rfl

/-- Of an incomplete group none is accepted. -/
theorem acceptedPacket_incomplete {g : Group} (h : ¬ Complete g) : acceptedPacket g = none := by
  unfold acceptedPacket
  rw [defragGroupedFrames_incomplete h]

/-- A complete group has a frame. -/
theorem Complete.ne_nil {g : Group} (h : Complete g) : g ≠ [] := by
  rintro rfl
  simp [Complete] at h

/-- A complete group has a packet. -/
theorem Complete.exists_packet {g : Group} (h : Complete g) : ∃ p, groupPacket g = some p := by
  cases g with
  | nil => exact absurd rfl h.ne_nil
  | cons first rest => exact ⟨_, rfl⟩

/-! ## Whole runs of the chaining loop -/

/-- Once the end of the chain is lost the next group faults. -/
theorem run_severed {s : DefragState} {ps : List MmePacket} (hs : Severed s ps) {g : Group}
    (gs : List Group) (hg : g ≠ []) : ∃ e, (g :: gs).foldlM defragGroup s = .error e := by
  rw [List.foldlM_cons, defragGroup_of_ne_nil hg]
  rcases defragGroupedFrames g with e | o
  · exact ⟨e, rfl⟩
  · rw [bind_ok, addPacket_severed hs]
    exact ⟨_, rfl⟩

/-- From a sound chain of `ps` the loop chains the accepted packets of all groups behind
them if the groups are deliverable, and does not get through otherwise. -/
theorem run_chained_cases {s : DefragState} {ps : List MmePacket} (gs : List Group)
    (hs : Chained s ps) (hne : ∀ g ∈ gs, g ≠ []) :
    (∃ s', gs.foldlM defragGroup s = .ok s' ∧
        chain s'.heap s'.newPackets = ps ++ acceptedPackets gs ∧ Deliverable (ps ≠ []) gs) ∨
      ((∃ e, gs.foldlM defragGroup s = .error e) ∧ ¬ Deliverable (ps ≠ []) gs) := by
  induction gs generalizing s ps with
  | nil =>
    left
    refine ⟨s, rfl, ?_, Deliverable.nil _⟩
    rw [hs.chain_eq]
    simp [acceptedPackets]
  | cons g gs ih =>
    have hg : g ≠ [] := hne g List.mem_cons_self
    have hgs : ∀ g' ∈ gs, g' ≠ [] := fun g' hg' => hne g' (List.mem_cons_of_mem _ hg')
    rw [List.foldlM_cons, defragGroup_of_ne_nil hg]
    by_cases hcomplete : Complete g
    · rw [Deliverable.cons_complete_iff hcomplete]
      by_cases hsized : Sized g
      · -- a packet: it goes to the end of the chain
        rcases hcomplete.exists_packet with ⟨p, hp⟩
        rcases addPacket_some hs p with ⟨s', hadd, hs'⟩
        have hih := ih hs' hgs
        have htail : acceptedPackets (g :: gs) = p :: acceptedPackets gs := by
          rw [acceptedPackets, List.filterMap_cons, acceptedPacket_complete hcomplete hsized, hp]
          rfl
        have hpne : ps ++ [p] ≠ [] := by simp
        rw [defragGroupedFrames_complete hcomplete hsized, hp, bind_ok, hadd, bind_ok, htail]
        simp only [hpne, ne_eq, not_false_eq_true, List.append_assoc, List.singleton_append] at hih
        simpa [hsized] using hih
      · right
        -- a frame shorter than its header: the copy loop fails
        rcases defragGroupedFrames_short hcomplete hsized with ⟨e, he⟩
        rw [he]
        exact ⟨⟨e, rfl⟩, fun h => hsized h.1⟩
    · rw [Deliverable.cons_incomplete_iff hcomplete, defragGroupedFrames_incomplete hcomplete, bind_ok]
      have htail : acceptedPackets (g :: gs) = acceptedPackets gs := by
        rw [acceptedPackets, List.filterMap_cons, acceptedPacket_incomplete hcomplete]
        rfl
      rw [htail]
      by_cases hps : ps = []
      · -- nothing delivered yet: both pointers stay NULL
        subst hps
        rcases addPacket_none_of_empty hs with ⟨s', hadd, hs'⟩
        rw [hadd, bind_ok]
        simpa using ih hs' hgs
      · -- a packet is delivered already: only the end of the list is left to go to
        rcases addPacket_none_of_chained hs hps with ⟨s', hadd, hs'⟩
        rw [hadd, bind_ok]
        cases gs with
        | nil =>
          left
          refine ⟨s', rfl, ?_, fun _ => rfl, Deliverable.nil _⟩
          rw [hs'.2.2]
          simp [acceptedPackets]
        | cons g' gs' =>
          right
          refine ⟨run_severed hs' gs' (hgs g' List.mem_cons_self), ?_⟩
          rintro ⟨hlast, _⟩
          exact absurd (hlast hps) (by simp)

/-- The loop delivers every packet where this can be done, and faults where it cannot. -/
theorem run_groups_cases (frames : List EthFrame) :
    (∃ s, (groups EthFrame.key frames).foldlM defragGroup DefragState.init = .ok s ∧
        chain s.heap s.newPackets = packetsOf frames ∧
        Deliverable False (groups EthFrame.key frames)) ∨
      ((∃ e, (groups EthFrame.key frames).foldlM defragGroup DefragState.init = .error e) ∧
        ¬ Deliverable False (groups EthFrame.key frames)) := by
  have hrun := run_chained_cases (groups EthFrame.key frames) chained_init
    (fun g hg => ne_nil_of_mem_groups hg)
  simpa [packetsOf] using hrun

/-- With frames the function is the loop over the groups. -/
theorem defragFrames_eq (frames : List EthFrame) (hne : frames ≠ []) :
    defragFrames frames = ((groups EthFrame.key frames).foldlM defragGroup DefragState.init >>=
      fun s => .ok (chain s.heap s.newPackets)) := by
  unfold defragFrames
  rw [groupFrames_eq frames hne, bind_ok]
  rfl

/-- Deliverable groups are delivered, and nothing else is. -/
theorem defragFrames_cases (frames : List EthFrame) :
    (defragFrames frames = .ok (packetsOf frames) ∧
        Deliverable False (groups EthFrame.key frames)) ∨
      ((∃ e, defragFrames frames = .error e) ∧
        ¬ Deliverable False (groups EthFrame.key frames)) := by
  by_cases hne : frames = []
  · subst hne
    exact Or.inl ⟨rfl, Deliverable.nil _⟩
  · rw [defragFrames_eq frames hne]
    rcases run_groups_cases frames with ⟨s, hrun, hchain, hdeliverable⟩ | ⟨⟨e, hrun⟩, hnot⟩
    · left
      rw [hrun, bind_ok, hchain]
      exact ⟨rfl, hdeliverable⟩
    · right
      rw [hrun]
      exact ⟨⟨e, rfl⟩, hnot⟩

/-- Whatever the frames are, a result is the packets of the accepted groups. -/
theorem defragFrames_sound {frames : List EthFrame} {packets : List MmePacket}
    (h : defragFrames frames = .ok packets) : packets = packetsOf frames := by
  rcases defragFrames_cases frames with ⟨hok, _⟩ | ⟨⟨e, he⟩, _⟩
  · rw [hok] at h
    injection h with h
    exact h.symm
  · rw [he] at h
    cases h

/-- What can be delivered is delivered. -/
theorem defragFrames_of_deliverable {frames : List EthFrame}
    (h : Deliverable False (groups EthFrame.key frames)) :
    defragFrames frames = .ok (packetsOf frames) := by
  rcases defragFrames_cases frames with ⟨hok, _⟩ | ⟨_, hnot⟩
  · exact hok
  · exact absurd h hnot

/-- `hpav_defrag_frames` delivers the packets of the accepted groups, one each and in the
order of their first frames, exactly if the groups are deliverable. -/
theorem defragFrames_eq_packetsOf_iff (frames : List EthFrame) :
    defragFrames frames = .ok (packetsOf frames) ↔
      Deliverable False (groups EthFrame.key frames) := by
  constructor
  · intro h
    rcases defragFrames_cases frames with ⟨_, hdeliverable⟩ | ⟨⟨e, he⟩, _⟩
    · exact hdeliverable
    · rw [he] at h
      cases h
  · exact defragFrames_of_deliverable

/-! ## A frame alone -/

/-- The packet of an unfragmented frame. -/
def framePacket (f : EthFrame) : MmePacket :=
  ⟨f.frameSize - ethHeaderSize, f.bytesFrom ethHeaderSize, f.dstMacAddr, f.srcMacAddr⟩

/-- A fragment byte with both halves zero is zero. -/
theorem unfragmented_byte : ∀ b : Fin 256,
    (((UInt8.ofNat b.val &&& 0xF0) >>> 4).toNat = 0 ∧ ((UInt8.ofNat b.val &&& 0x0F) >>> 0).toNat = 0) ↔
      UInt8.ofNat b.val = 0 := by
  decide +kernel

/-- A frame alone is a whole message if it is the first fragment of one. -/
theorem complete_single_iff (f : EthFrame) : Complete [f] ↔ f.fmiNfFn = 0 := by
  have hfields := unfragmented_byte ⟨f.fmiNfFn.toNat, f.fmiNfFn.toNat_lt⟩
  simp only [UInt8.ofNat_toNat] at hfields
  rw [← hfields]
  show (f.fragmentNumber :: [] = [0] ∧ some (f.numFragments + 1) = some 1) ↔
    (f.fragmentNumber = 0 ∧ f.numFragments = 0)
  simp

/-- A frame alone is a group alone. -/
theorem groups_single (f : EthFrame) : groups EthFrame.key [f] = [[f]] := by
  refine groups_of_forall_key (k := f.key) (List.cons_ne_nil f []) ?_
  intro x hx
  rw [List.mem_singleton.mp hx]

/-- A frame alone is delivered if it is a whole message, and dropped otherwise. -/
theorem defragFrames_single {f : EthFrame} (hsize : ethHeaderSize ≤ f.frameSize) :
    defragFrames [f] = .ok (if f.fmiNfFn = 0 then [framePacket f] else []) := by
  have hsized : Sized [f] := ⟨hsize, fun frame hframe => nomatch hframe⟩
  have hdeliverable : Deliverable False (groups EthFrame.key [f]) := by
    rw [groups_single]
    by_cases hcomplete : Complete [f]
    · rw [Deliverable.cons_complete_iff hcomplete]
      exact ⟨hsized, Deliverable.nil _⟩
    · rw [Deliverable.cons_incomplete_iff hcomplete]
      exact ⟨fun h => h.elim, Deliverable.nil _⟩
  rw [defragFrames_of_deliverable hdeliverable]
  unfold packetsOf acceptedPackets
  rw [groups_single]
  split
  · rename_i hzero
    have haccepted := acceptedPacket_complete ((complete_single_iff f).mpr hzero) hsized
    have hpacket : groupPacket [f] = some (framePacket f) := by
      unfold groupPacket groupData framePacket
      simp only [List.flatMap_nil, List.append_nil, f.length_bytesFrom]
    simp only [List.filterMap_cons, List.filterMap_nil, haccepted, hpacket]
  · rename_i hnot
    have hrejected := acceptedPacket_incomplete (fun h => hnot ((complete_single_iff f).mp h))
    simp only [List.filterMap_cons, List.filterMap_nil, hrejected]

/-- A minimal Ethernet frame of 60 bytes to the host: a vendor-specific MME of which
only the fragmentation bytes differ. -/
def shortFrame (nfFn fmsn : UInt8) : EthFrame :=
  EthFrame.ofCapture
    ([0x00, 0x1A, 0x11, 0x00, 0x00, 0x01, 0x00, 0x1A, 0x11, 0x00, 0x00, 0x02, 0x88, 0xE1,
      0x01, 0x01, 0xA0, nfFn, fmsn, 0x00, 0x13, 0xD7] ++ List.replicate 38 0) (by simp [ethFrameArea])

/-- Three messages: the second one announces two fragments and lost the last of them. -/
def lostFragmentCapture : List EthFrame :=
  [shortFrame 0x00 0, shortFrame 0x01 1, shortFrame 0x00 2]

/-- The incomplete second message keeps the third one from being delivered: the packet
of the third is written through the NULL last pointer. -/
theorem defragFrames_lostFragmentCapture :
    defragFrames lostFragmentCapture = .error .nullDeref ∧
      defragFrames lostFragmentCapture ≠ .ok (packetsOf lostFragmentCapture) := by
  have hrun : defragFrames lostFragmentCapture = .error .nullDeref := by decide +kernel
  exact ⟨hrun, by rw [hrun]; exact fun h => by cases h⟩

end Hpav
