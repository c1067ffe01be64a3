import Mathlib.Tactic.Common
import Hpav.Channel
import Hpav.DefragChain

/-!
# Packets of any length

Captured packets of any number of bytes, through `rx_callback` and then through
`hpav_defrag_frames`. Neither looks whether a packet is long enough for what is read of it,
or short enough for the frame it is copied to. `RightSizes` is what the sizes of a group
should come to, and `LongEnough` when they do.
-/

namespace Hpav

open CMem Grouping

/-! ## The frames received -/

/-- Of the frames that are taken, those that are kept: without an expected type the last. -/
def keptFrames (type : UInt16) (frames : List EthFrame) : List EthFrame :=
  if type = 0 then frames.getLast?.toList else frames

theorem chain_nodes (frames : List EthFrame) :
    chain (nodes frames) (if (nodes frames).length = 0 then none else some ((nodes frames).length - 1)) =
      frames.getLast?.toList := by
  rcases frames.eq_nil_or_concat with rfl | ⟨init, last, rfl⟩
  · rfl
  · rw [List.concat_eq_append, List.getLast?_concat]
    have hlength : (nodes (init ++ [last])).length = init.length + 1 := by
      rw [length_nodes, List.length_append, List.length_singleton]
    rw [hlength, if_neg (Nat.succ_ne_zero _), Nat.add_sub_cancel]
    have hlast : (nodes (init ++ [last]))[init.length]? = some ⟨last, none⟩ := by
      unfold nodes
      simp
    have hpath : Path (nodes (init ++ [last])) (some init.length) [init.length] [last] :=
      .cons (n := ⟨last, none⟩) hlast .nil
    exact Linked.chain_eq ⟨_, hpath, List.nodup_singleton _, rfl⟩

/-- Legal packets are received: those that are wanted, and kept. -/
theorem receivedFrames_of_legal (host sta : Mac) (type : UInt16) (numFragments : UInt32)
    {packets : List (List UInt8)} (hlegal : ∀ packetData ∈ packets, Legal host type packetData) :
    ∃ c, packets.foldlM rxCallback (Capture.start host sta type numFragments) = .ok c ∧
      receivedFrames c = keptFrames type (wantedFrames host type packets) := by
  unfold keptFrames
  by_cases htype : type = 0
  · rw [htype] at hlegal ⊢
    rcases rx_latest (c := Capture.start host sta 0 numFragments) rfl rfl hlegal with
      ⟨c, hrun, -, hlatest, hheap⟩
    refine ⟨c, hrun, ?_⟩
    have hnodes : c.heap = nodes (wantedFrames host 0 packets) := hheap
    have hpointer : c.user.rxFrames = _ := hlatest
    unfold receivedFrames
    rw [hpointer, hnodes, chain_nodes, if_pos rfl]
  · rcases rx_chained (c := Capture.start host sta type numFragments) htype (Linked.nil _) hlegal with
      ⟨c, hrun, -, hchained⟩
    refine ⟨c, hrun, ?_⟩
    rw [if_neg htype]
    exact Linked.chain_eq hchained

/-! ## The sizes of a group -/

/-- The size of the MME header that is skipped in the frames of a group. -/
def groupHeaderSize : Group → Nat
  | [] => mmeHeaderSize
  | first :: _ => sizeOfMmeHeader first.mmtype

/-- The size of the buffer that is allocated for a group. -/
def allocatedSize (group : Group) : Nat :=
  ((dataSizeLoop (groupHeaderSize group) group 0 + groupHeaderSize group) % 2 ^ 32).toNat

/-- What the sizes should come to: no difference is negative, no sum wraps around, and the
copies fill the buffer, each byte once. -/
structure RightSizes (group : Group) : Prop where
  notNegative : ∀ frame ∈ group, 0 ≤ (frame.frameSize : Int) - ethHeaderSize - groupHeaderSize group
  noWrap : (allocatedSize group : Int) =
    (group.map fun frame => (frame.frameSize : Int) - ethHeaderSize - groupHeaderSize group).sum +
      groupHeaderSize group
  exactCopy : ∃ data, copyLoop (groupHeaderSize group) group 0 0 (mallocBuf (allocatedSize group)) = .ok data ∧
    data.length = allocatedSize group ∧ ∀ cell ∈ data, cell.length = 1

theorem rightSizes_iff {group : Group} (h : Complete group) :
    RightSizes group ↔ ∀ frame ∈ group, ethHeaderSize + groupHeaderSize group ≤ frame.frameSize := by
  constructor
  · intro hsizes frame hframe
    have hle := hsizes.notNegative frame hframe
    omega
  · -- frames as long as their headers: the sizes are those the copy loop is proved for
    intro hlong
    cases group with
    | nil => exact absurd rfl h.ne_nil
    | cons first rest =>
      have hheader : groupHeaderSize (first :: rest) = sizeOfMmeHeader first.mmtype := rfl
      rw [hheader] at hlong
      have hfirst := hlong first List.mem_cons_self
      have hrest : ∀ frame ∈ rest, ethHeaderSize + sizeOfMmeHeader first.mmtype ≤ frame.frameSize :=
        fun frame hframe => hlong frame (List.mem_cons_of_mem _ hframe)
      have hsized : Sized (first :: rest) := ⟨by omega, hrest⟩
      have hlength := h.length_le
      rw [List.length_cons] at hlength
      have hsize : allocatedSize (first :: rest) = (groupData (first :: rest)).length :=
        dataSize_eq first rest (by omega) hsized
      refine ⟨?_, ?_, ?_⟩
      · intro frame hframe
        have hle := hlong frame hframe
        rw [hheader]
        omega
      · have hsum := payload_sum (sizeOfMmeHeader first.mmtype) rest hrest
        rw [hsize, hheader, List.map_cons, List.sum_cons, hsum]
        unfold groupData
        rw [List.length_append, EthFrame.length_bytesFrom]
        omega
      · refine ⟨once (groupData (first :: rest)), ?_, by rw [length_once, hsize], ?_⟩
        · rw [hsize, hheader]
          exact copyLoop_sized first rest hsized
        · intro cell hcell
          rcases List.mem_map.mp hcell with ⟨b, -, rfl⟩
          rfl

/-! ## Reassembly -/

/-- Every group the loop over the groups gets to has the right sizes, if it is a complete
one; of any other group no size is computed. -/
def Reassembled (frames : List EthFrame) : Prop :=
  ∀ pre group post, groups EthFrame.key frames = pre ++ group :: post →
    (∃ s, pre.foldlM defragGroup DefragState.init = .ok s) → Complete group → RightSizes group

/-- No incomplete group behind a complete one is followed by another group: there the loop
would end with the NULL pointer the incomplete group left. -/
def FailureLast (groupList : List Group) : Prop :=
  ∀ pre group post, groupList = pre ++ group :: post → ¬ Complete group → (∃ p ∈ pre, Complete p) → post = []

/-- The frames of each complete group hold their headers, as far as the loop gets. -/
def LongEnough (frames : List EthFrame) : Prop :=
  ∀ pre group post, groups EthFrame.key frames = pre ++ group :: post → FailureLast pre → Complete group →
    ∀ frame ∈ group, ethHeaderSize + groupHeaderSize group ≤ frame.frameSize

theorem Sized.of_long {group : Group} (h : ∀ frame ∈ group, ethHeaderSize + groupHeaderSize group ≤ frame.frameSize) :
    Sized group := by
  cases group with
  | nil => trivial
  | cons first rest =>
    have hfirst := h first List.mem_cons_self
    exact ⟨by omega, fun frame hframe => h frame (List.mem_cons_of_mem _ hframe)⟩

/-- The loop gets through a list of groups exactly if they are deliverable. -/
theorem run_iff_deliverable {groupList : List Group} (hne : ∀ g ∈ groupList, g ≠ []) :
    (∃ s, groupList.foldlM defragGroup DefragState.init = .ok s) ↔ Deliverable False groupList := by
  rcases run_chained_cases groupList chained_init hne with ⟨s, hrun, -, hdeliverable⟩ | ⟨⟨e, hrun⟩, hnot⟩
  · simp only [ne_eq, not_true_eq_false] at hdeliverable
    exact ⟨fun _ => hdeliverable, fun _ => ⟨s, hrun⟩⟩
  · simp only [ne_eq, not_true_eq_false] at hnot
    refine ⟨?_, fun h => absurd h hnot⟩
    rintro ⟨s, hs⟩
    rw [hrun] at hs
    cases hs

theorem Deliverable.failureLast {groupList : List Group} (h : Deliverable False groupList) : FailureLast groupList :=
  fun pre group post hsplit hincomplete hbefore => h.failure_last pre group post hsplit hincomplete (Or.inr hbefore)

theorem FailureLast.of_append {groupList groupList' : List Group} (h : FailureLast (groupList ++ groupList')) :
    FailureLast groupList := by
  intro pre group post hsplit hincomplete hbefore
  have hall := h pre group (post ++ groupList') (by rw [hsplit, List.append_assoc, List.cons_append]) hincomplete
    hbefore
  exact (List.append_eq_nil_iff.mp hall).1

/-- The sizes are right wherever the loop gets to, exactly if the frames are long enough. -/
theorem reassembled_iff {frames : List EthFrame} : Reassembled frames ↔ LongEnough frames := by
  have hne : ∀ {pre : List Group} {post}, groups EthFrame.key frames = pre ++ post → ∀ g ∈ pre, g ≠ [] := by
    intro pre post hsplit g hg
    have hmem : g ∈ groups EthFrame.key frames := by
      rw [hsplit]
      exact List.mem_append_left _ hg
    exact ne_nil_of_mem_groups hmem
  constructor
  · intro h pre
    -- up to a group the loop gets through, since the groups before it are long enough
    induction hlen : pre.length using Nat.strong_induction_on generalizing pre with
    | _ n ih =>
      intro group post hsplit hfailure hcomplete
      refine (rightSizes_iff hcomplete).mp (h pre group post hsplit ?_ hcomplete)
      rw [run_iff_deliverable (hne hsplit)]
      refine ⟨?_, fun a g b hpre hincomplete hbefore =>
        hfailure a g b hpre hincomplete (hbefore.resolve_left not_false)⟩
      intro g hg hgcomplete
      rcases List.append_of_mem hg with ⟨a, b, hpre⟩
      have hshorter : a.length < n := by
        rw [← hlen, hpre, List.length_append, List.length_cons]
        omega
      have hlater : groups EthFrame.key frames = a ++ g :: (b ++ group :: post) := by
        rw [hsplit, hpre, List.append_assoc, List.cons_append]
      have hinit : FailureLast a := by
        rw [hpre] at hfailure
        exact hfailure.of_append
      exact Sized.of_long (ih a.length hshorter a rfl g _ hlater hinit hgcomplete)
  · intro h pre group post hsplit hrun hcomplete
    have hdeliverable := (run_iff_deliverable (hne hsplit)).mp hrun
    exact (rightSizes_iff hcomplete).mpr (h pre group post hsplit hdeliverable.failureLast hcomplete)

/-- Whatever is captured, the callback stays within the captured bytes and its frame, and
the sizes of reassembly are right, exactly if the packets are legal and those kept are long
enough for the headers skipped in them. -/
theorem capture_safe_iff (host sta : Mac) (type : UInt16) (numFragments : UInt32) (packets : List (List UInt8)) :
    (∃ c, packets.foldlM rxCallback (Capture.start host sta type numFragments) = .ok c ∧
        Reassembled (receivedFrames c)) ↔
      (∀ packetData ∈ packets, Legal host type packetData) ∧
        LongEnough (keptFrames type (wantedFrames host type packets)) := by
  constructor
  · rintro ⟨c, hrun, hreassembled⟩
    have hlegal : ∀ packetData ∈ packets, Legal host type packetData := legal_of_foldlM hrun
    rcases receivedFrames_of_legal host sta type numFragments hlegal with ⟨c', hrun', hframes⟩
    rw [hrun] at hrun'
    cases hrun'
    rw [hframes] at hreassembled
    exact ⟨hlegal, reassembled_iff.mp hreassembled⟩
  · rintro ⟨hlegal, hlong⟩
    rcases receivedFrames_of_legal host sta type numFragments hlegal with ⟨c, hrun, hframes⟩
    refine ⟨c, hrun, ?_⟩
    rw [hframes]
    exact reassembled_iff.mpr hlong

/-- A packet of more bytes than a frame has room for. -/
theorem capture_oversized : ¬ ∃ c,
    [firstStation.bytes ++ secondStation.bytes ++ [0x88, 0xE1, 0x01, 0x01, 0xA0] ++ List.replicate 2005 0].foldlM
      rxCallback (Capture.start firstStation secondStation 0xA001 1) = .ok c := by
  rintro ⟨c, hrun⟩
  have hlegal := legal_of_foldlM hrun _ List.mem_cons_self
  have hwanted : Wanted firstStation 0xA001 (firstStation.bytes ++ secondStation.bytes ++
      [0x88, 0xE1, 0x01, 0x01, 0xA0] ++ List.replicate 2005 0) := by decide +kernel
  have harea := hlegal.area hwanted
  exact absurd harea (by decide +kernel)

end Hpav
