import Mathlib.Algebra.BigOperators.Group.List.Basic
import Mathlib.Data.Int.Cast.Basic
import Mathlib.Data.List.Induction
import Mathlib.Tactic.Common
import Hpav.Lib.CMem
import Hpav.Lib.Grouping
import Hpav.Frame

/-!
# Defragmentation

`hpav_defrag_frames` and the functions below it (`hpav_mme.c`): the frames of one
exchange are sorted into groups of equal key, and every group whose fragments are
all there and in order becomes one packet. A group is the list of its frames in the
order they arrived; the empty list is the NULL group of the node the caller starts
with. The chain of packets is built on a heap, since the function keeps a head and a
last pointer of its own.
-/

namespace Hpav

open CMem Grouping

/-! ## Groups of frames -/

/-- The unique key identifier of HPAV 1.1, 11.1.7. -/
structure FrameKey where
  dst : Mac
  src : Mac
  mmv : UInt8
  mmtype : UInt16
  fmsn : UInt8
  deriving DecidableEq

def EthFrame.key (f : EthFrame) : FrameKey :=
  ⟨f.dstMacAddr, f.srcMacAddr, f.mmv, f.mmtype, f.fmiFmsn⟩

/-- `struct hpav_defrag_group`: the frames of one group. -/
abbrev Group := List EthFrame

/-- The key comparison of the loop, made with the first frame of the group. -/
def keyMatch (group : Group) (frame : EthFrame) : Bool :=
  match group with
  | [] => false
  | first :: _ =>
    first.dstMacAddr.bytes == frame.dstMacAddr.bytes &&
      first.srcMacAddr.bytes == frame.srcMacAddr.bytes &&
      first.mmv == frame.mmv && first.mmtype == frame.mmtype && first.fmiFmsn == frame.fmiFmsn

/-- The loop over the group list. It runs to the end of the list, so `found` is the
last group that matches. -/
def findGroup (frame : EthFrame) : List Group → Nat → Option Nat → Option Nat
  | [], _, found => found
  | group :: rest, i, found =>
    findGroup frame rest (i + 1) (if keyMatch group frame then some i else found)

/-- `hpav_defrag_add_to_group_list` -/
def defragAddToGroupList (groupList : List Group) (frame : EthFrame) :
    Except Fault (List Group) :=
  match findGroup frame groupList 0 none with
  | some i => .ok (groupList.modify i (· ++ [frame]))
  | none =>
    match groupList.getLast? with
    | none => .error .nullDeref
    -- the node the caller allocates holds no group yet
    | some [] => .ok (groupList.dropLast ++ [[frame]])
    | some _ => .ok (groupList ++ [[frame]])

/-- The group list after all frames. -/
def groupFrames (frames : List EthFrame) : Except Fault (List Group) :=
  frames.foldlM defragAddToGroupList [[]]

/-! ## Building the packet of a group -/

/-- The order check: the fragment numbers count up from `total`. -/
def fragmentLoop : List EthFrame → Nat → Option Nat
  | [], total => some total
  | frame :: rest, total =>
    if frame.fragmentNumber ≠ total then none else fragmentLoop rest (total + 1)

/-- The loop that adds up `data_size`, an `unsigned int`. -/
def dataSizeLoop (sizeOfMmeHdr : Nat) : List EthFrame → Int → Int
  | [], dataSize => dataSize
  | frame :: rest, dataSize =>
    dataSizeLoop sizeOfMmeHdr rest
      ((dataSize + (frame.frameSize - ethHeaderSize - sizeOfMmeHdr)) % 2 ^ 32)

/-- The loop that copies the data: the MME header is kept for the first fragment only. -/
def copyLoop (sizeOfMmeHdr : Nat) : List EthFrame → Nat → Nat → Buffer → Except Fault Buffer
  | [], _, _, data => .ok data
  | frame :: rest, fragmentIndex, currentDataBuffer, data => do
    let ptrBegin := if fragmentIndex = 0 then ethHeaderSize else ethHeaderSize + sizeOfMmeHdr
    let sizeToCopy : Int := frame.frameSize - ptrBegin
    let bytes ← loadInt frame.mem ptrBegin sizeToCopy
    let data ← store data currentDataBuffer bytes
    copyLoop sizeOfMmeHdr rest (fragmentIndex + 1) (currentDataBuffer + bytes.length) data

/-- `hpav_defrag_grouped_frames` -/
def defragGroupedFrames (group : Group) : Except Fault (Option MmePacket) :=
  match group with
  | [] => .ok none
  | first :: _ =>
    let sizeOfMmeHdr := sizeOfMmeHeader first.mmtype
    match fragmentLoop group 0 with
    | none => .ok none
    | some totalFragmentNumber =>
      -- a fragment is missing: the whole group is dropped
      if first.numFragments + 1 ≠ totalFragmentNumber then
        .ok none
      else do
        let dataSize := ((dataSizeLoop sizeOfMmeHdr group 0 + sizeOfMmeHdr) % 2 ^ 32).toNat
        let data ← copyLoop sizeOfMmeHdr group 0 0 (mallocBuf dataSize)
        return some ⟨dataSize, contents data, first.dstMacAddr, first.srcMacAddr⟩

/-! ## The chain of packets -/

/-- The packets allocated so far and the two pointers of `hpav_defrag_frames`. -/
structure DefragState where
  heap : Heap MmePacket
  newPackets : Option Nat
  lastPacket : Option Nat

def DefragState.init : DefragState :=
  ⟨[], none, none⟩

/-- Chain the outcome of one group. -/
def addPacket (s : DefragState) (newMmePacket : Option MmePacket) : Except Fault DefragState :=
  match newMmePacket with
  | none =>
    -- the branch for a failed group is empty: it goes on with the NULL pointer
    match s.newPackets with
    | none => .ok ⟨s.heap, none, none⟩
    | some _ => do
      let heap ← setNext s.heap s.lastPacket none
      return ⟨heap, s.newPackets, none⟩
  | some packet =>
    let (heap, new) := mallocNode s.heap packet
    match s.newPackets with
    | none => .ok ⟨heap, some new, some new⟩
    | some _ => do
      let heap ← setNext heap s.lastPacket (some new)
      return ⟨heap, s.newPackets, some new⟩

/-- One turn of the loop over the group list. -/
def defragGroup (s : DefragState) (group : Group) : Except Fault DefragState :=
  if group.isEmpty then
    .ok s
  else do
    let newMmePacket ← defragGroupedFrames group
    addPacket s newMmePacket

/-- `hpav_defrag_frames` -/
def defragFrames (frames : List EthFrame) : Except Fault (List MmePacket) := do
  let groupList ← groupFrames frames
  let s ← groupList.foldlM defragGroup DefragState.init
  return chain s.heap s.newPackets

/-! ## The grouping loop -/

/-- A group takes frames with the key of its first one. -/
theorem keyMatch_cons (first : EthFrame) (rest : List EthFrame) (frame : EthFrame) :
    keyMatch (first :: rest) frame = true ↔ first.key = frame.key := by
  simp only [keyMatch, Bool.and_eq_true, beq_iff_eq, EthFrame.key, FrameKey.mk.injEq, and_assoc]
  constructor
  · rintro ⟨hdst, hsrc, hrest⟩
    exact ⟨Mac.ext_bytes hdst, Mac.ext_bytes hsrc, hrest⟩
  · rintro ⟨hdst, hsrc, hrest⟩
    exact ⟨by rw [hdst], by rw [hsrc], hrest⟩

/-- Where no group matches the search ends with what it had. -/
theorem findGroup_no_match (frame : EthFrame) (groupList : List Group) (i : Nat)
    (found : Option Nat) (h : ∀ g ∈ groupList, keyMatch g frame = false) :
    findGroup frame groupList i found = found := by
  induction groupList generalizing i with
  | nil => rfl
  | cons g gs ih =>
    unfold findGroup
    rw [h g List.mem_cons_self]
    exact ih (i + 1) (fun g' hg' => h g' (List.mem_cons_of_mem _ hg'))

/-- The loop ends with the last group that matches. -/
theorem findGroup_last_match (frame : EthFrame) (pre : List Group) (g : Group)
    (post : List Group) (i : Nat) (found : Option Nat) (hg : keyMatch g frame = true)
    (hpost : ∀ g' ∈ post, keyMatch g' frame = false) :
    findGroup frame (pre ++ g :: post) i found = some (i + pre.length) := by
  induction pre generalizing i found with
  | nil =>
    rw [List.nil_append]
    unfold findGroup
    rw [if_pos hg]
    exact findGroup_no_match frame post (i + 1) _ hpost
  | cons g' pre ih =>
    rw [List.cons_append]
    unfold findGroup
    rw [ih]
    simp only [List.length_cons]
    congr 1
    omega

/-- A class of frames matches exactly the frames that carry its key. -/
theorem keyMatch_classOf {frames : List EthFrame} {k : FrameKey} {frame : EthFrame}
    (hk : k ∈ firstKeys EthFrame.key frames) :
    keyMatch (classOf EthFrame.key frames k) frame = true ↔ k = frame.key := by
  have hne := classOf_ne_nil hk
  rcases hc : classOf EthFrame.key frames k with _ | ⟨first, rest⟩
  · exact absurd hc hne
  · have hfirst : first.key = k := key_of_mem_classOf (by rw [hc]; exact List.mem_cons_self)
    rw [keyMatch_cons, hfirst]

/-- In a list of groups the loop finds the group of the frame's key. -/
theorem findGroup_groups (frames : List EthFrame) (frame : EthFrame) :
    (∃ i, findGroup frame (groups EthFrame.key frames) 0 none = some i ∧
      (firstKeys EthFrame.key frames)[i]? = some frame.key) ∨
    (findGroup frame (groups EthFrame.key frames) 0 none = none ∧
      frame.key ∉ firstKeys EthFrame.key frames) := by
  by_cases hmem : frame.key ∈ firstKeys EthFrame.key frames
  · left
    rcases List.append_of_mem hmem with ⟨pre, post, hsplit⟩
    have hnd := nodup_firstKeys EthFrame.key frames
    rw [hsplit, List.nodup_append, List.nodup_cons] at hnd
    refine ⟨pre.length, ?_, by simp [hsplit]⟩
    -- the keys behind the frame's own are other keys
    have hpost : ∀ g ∈ post.map (classOf EthFrame.key frames), keyMatch g frame = false := by
      intro g hg
      rcases List.mem_map.mp hg with ⟨k, hk, rfl⟩
      have hkmem : k ∈ firstKeys EthFrame.key frames := by
        rw [hsplit]
        exact List.mem_append_right _ (List.mem_cons_of_mem _ hk)
      rw [Bool.eq_false_iff, Ne, keyMatch_classOf hkmem]
      rintro rfl
      exact hnd.2.1.1 hk
    have hself : keyMatch (classOf EthFrame.key frames frame.key) frame = true :=
      (keyMatch_classOf hmem).mpr rfl
    have hfind := findGroup_last_match frame (pre.map (classOf EthFrame.key frames))
      (classOf EthFrame.key frames frame.key) (post.map (classOf EthFrame.key frames)) 0 none
      hself hpost
    simpa [groups, hsplit] using hfind
  · right
    refine ⟨?_, hmem⟩
    apply findGroup_no_match
    intro g hg
    rcases List.mem_map.mp hg with ⟨k, hk, rfl⟩
    rw [Bool.eq_false_iff, Ne, keyMatch_classOf hk]
    rintro rfl
    exact hmem hk

/-- One frame more: the group list goes on to be the groups of the frames seen. -/
theorem defragAddToGroupList_groups (frames : List EthFrame) (frame : EthFrame)
    (hne : frames ≠ []) :
    defragAddToGroupList (groups EthFrame.key frames) frame =
      .ok (groups EthFrame.key (frames ++ [frame])) := by
  unfold defragAddToGroupList
  rcases findGroup_groups frames frame with ⟨i, hfind, hi⟩ | ⟨hfind, hnew⟩
  · rw [hfind, groups_snoc_of_mem hi]
  · rw [hfind, groups_snoc_of_not_mem hnew]
    rcases hlast : (groups EthFrame.key frames).getLast? with _ | g
    · -- there is a frame, so there is a group
      have hnil : groups EthFrame.key frames = [] := List.getLast?_eq_none_iff.mp hlast
      rcases List.exists_mem_of_ne_nil frames hne with ⟨f, hf⟩
      have hkey : f.key ∈ firstKeys EthFrame.key frames := mem_firstKeys.mpr ⟨f, hf, rfl⟩
      have hclass : classOf EthFrame.key frames f.key ∈ groups EthFrame.key frames :=
        List.mem_map_of_mem hkey
      rw [hnil] at hclass
      exact absurd hclass List.not_mem_nil
    · have hg : g ∈ groups EthFrame.key frames := List.mem_of_getLast? hlast
      rcases List.mem_map.mp hg with ⟨k, hk, hgk⟩
      have hgne : g ≠ [] := hgk ▸ classOf_ne_nil hk
      cases g with
      | nil => exact absurd rfl hgne
      | cons first rest => rfl

/-- The grouping loop computes the groups by key, in the order of their first frames. -/
theorem groupFrames_eq (frames : List EthFrame) (hne : frames ≠ []) :
    groupFrames frames = .ok (groups EthFrame.key frames) := by
  induction frames using List.reverseRecOn with
  | nil => exact absurd rfl hne
  | append_singleton frames frame ih =>
    unfold groupFrames
    rw [List.foldlM_append]
    by_cases h : frames = []
    · subst h
      have hnew : frame.key ∉ firstKeys EthFrame.key [] := by simp [firstKeys]
      rw [groups_snoc_of_not_mem hnew]
      rfl
    · change (groupFrames frames >>= fun gl => [frame].foldlM defragAddToGroupList gl) = _
      rw [ih h]
      simp only [List.foldlM_cons, List.foldlM_nil, bind_pure]
      exact defragAddToGroupList_groups frames frame h

/-! ## What a group yields -/

/-- All fragments are there, in order, and as many as the first one announces. -/
def Complete (group : Group) : Prop :=
  group.map EthFrame.fragmentNumber = List.range group.length ∧
    group.head?.map (fun first => first.numFragments + 1) = some group.length

instance (group : Group) : Decidable (Complete group) :=
  inferInstanceAs (Decidable (_ ∧ _))

/-- No fragment is shorter than the headers that are skipped in it. -/
def Sized (group : Group) : Prop :=
  match group with
  | [] => True
  | first :: rest =>
    ethHeaderSize ≤ first.frameSize ∧
      ∀ frame ∈ rest, ethHeaderSize + sizeOfMmeHeader first.mmtype ≤ frame.frameSize

instance (group : Group) : Decidable (Sized group) := by
  unfold Sized
  split <;> infer_instance

/-- The bytes of a frame from offset `off` to its end. -/
def EthFrame.bytesFrom (f : EthFrame) (off : Nat) : List UInt8 :=
  (f.mem.drop off).take (f.frameSize - off)

/-- The bytes of a frame from an offset end with the frame. -/
theorem EthFrame.length_bytesFrom (f : EthFrame) (off : Nat) :
    (f.bytesFrom off).length = f.frameSize - off := by
  have hmem := f.mem_length
  have hsize := f.size_le
  simp only [EthFrame.bytesFrom, List.length_take, List.length_drop]
  omega

/-- The MME of a group: the first frame's with its header, then the payloads of the
others. -/
def groupData (group : Group) : List UInt8 :=
  match group with
  | [] => []
  | first :: rest =>
    first.bytesFrom ethHeaderSize ++
      rest.flatMap (·.bytesFrom (ethHeaderSize + sizeOfMmeHeader first.mmtype))

/-- The packet that a group of fragments stands for. -/
def groupPacket (group : Group) : Option MmePacket :=
  match group with
  | [] => none
  | first :: rest =>
    some ⟨(groupData (first :: rest)).length, groupData (first :: rest), first.dstMacAddr,
      first.srcMacAddr⟩

/-- The loop goes through exactly if the fragments are numbered on without a gap. -/
theorem fragmentLoop_eq (frames : List EthFrame) (total : Nat) :
    fragmentLoop frames total =
      if frames.map EthFrame.fragmentNumber = List.range' total frames.length then
        some (total + frames.length)
      else none := by
  induction frames generalizing total with
  | nil => simp [fragmentLoop]
  | cons f fs ih =>
    unfold fragmentLoop
    by_cases hf : f.fragmentNumber = total
    · rw [if_neg (by simpa using hf), ih]
      simp only [List.map_cons, List.length_cons, List.range'_succ, hf, List.cons.injEq, true_and]
      congr 2
      omega
    · rw [if_pos hf, if_neg]
      simp [List.range'_succ, hf]

/-- The size is the sum of what is behind the headers, in 32 bits. -/
theorem dataSizeLoop_eq (hdr : Nat) (frames : List EthFrame) (dataSize : Int) :
    dataSizeLoop hdr frames dataSize % 2 ^ 32 =
      (dataSize + (frames.map fun f => (f.frameSize : Int) - ethHeaderSize - hdr).sum) % 2 ^ 32 := by
  induction frames generalizing dataSize with
  | nil => simp [dataSizeLoop]
  | cons f fs ih =>
    unfold dataSizeLoop
    rw [ih, List.map_cons, List.sum_cons, Int.emod_add_emod, add_assoc]

/-- What is behind an offset inside the frame is loaded. -/
theorem loadInt_bytesFrom (f : EthFrame) (off : Nat) (h : off ≤ f.frameSize) :
    loadInt f.mem off ((f.frameSize : Int) - off) = .ok (f.bytesFrom off) := by
  have hmem := f.mem_length
  have hle := f.size_le
  have hsize : ((f.frameSize : Int) - off).toNat = f.frameSize - off := by omega
  rw [loadInt, if_neg (by omega), hsize, load_ok (by omega)]
  rfl

/-- An offset behind the frame makes the length negative. -/
theorem loadInt_short (f : EthFrame) (off : Nat) (h : f.frameSize < off) :
    loadInt f.mem off ((f.frameSize : Int) - off) = .error .outOfBounds := by
  rw [loadInt, if_pos (by omega)]

/-- A later fragment is copied without its headers. -/
theorem copyLoop_cons (hdr : Nat) (f : EthFrame) (fs : List EthFrame) (i cursor : Nat)
    (data : Buffer) :
    copyLoop hdr (f :: fs) (i + 1) cursor data =
      (loadInt f.mem (ethHeaderSize + hdr) ((f.frameSize : Int) - (ethHeaderSize + hdr : Nat)) >>=
        fun bytes => store data cursor bytes >>=
          fun data => copyLoop hdr fs (i + 1 + 1) (cursor + bytes.length) data) := rfl

/-- The copy loop behind the first fragment: each payload lands right behind the part
already written. -/
theorem copyLoop_rest (hdr : Nat) (frames : List EthFrame) (i : Nat) (written : List UInt8)
    (m : Nat) (hsized : ∀ f ∈ frames, ethHeaderSize + hdr ≤ f.frameSize)
    (hm : (frames.flatMap (·.bytesFrom (ethHeaderSize + hdr))).length ≤ m) :
    copyLoop hdr frames (i + 1) written.length (once written ++ mallocBuf m) =
      .ok (once (written ++ frames.flatMap (·.bytesFrom (ethHeaderSize + hdr))) ++
        mallocBuf (m - (frames.flatMap (·.bytesFrom (ethHeaderSize + hdr))).length)) := by
  induction frames generalizing i written m with
  | nil => simp [copyLoop]
  | cons f fs ih =>
    have hf := hsized f List.mem_cons_self
    rw [List.flatMap_cons, List.length_append] at hm
    have hstore := store_cursor written (f.bytesFrom (ethHeaderSize + hdr)) m (by omega)
    have hrest := ih (i + 1) (written ++ f.bytesFrom (ethHeaderSize + hdr))
      (m - (f.bytesFrom (ethHeaderSize + hdr)).length)
      (fun f' hf' => hsized f' (List.mem_cons_of_mem _ hf')) (by omega)
    rw [copyLoop_cons, loadInt_bytesFrom f _ hf, bind_ok, hstore, bind_ok,
      ← List.length_append, hrest, List.flatMap_cons, List.append_assoc, List.length_append,
      Nat.sub_sub]

/-- A fragment shorter than its headers makes the size of its copy negative. -/
theorem copyLoop_short (hdr : Nat) (frames : List EthFrame) (i cursor : Nat) (data : Buffer)
    (h : ∃ f ∈ frames, f.frameSize < ethHeaderSize + hdr) :
    ∃ e, copyLoop hdr frames (i + 1) cursor data = .error e := by
  induction frames generalizing i cursor data with
  | nil => simp at h
  | cons f fs ih =>
    rw [copyLoop_cons]
    by_cases hf : f.frameSize < ethHeaderSize + hdr
    · rw [loadInt_short f _ hf]
      exact ⟨_, rfl⟩
    · rw [loadInt_bytesFrom f _ (by omega), bind_ok]
      rcases hs : store data cursor (f.bytesFrom (ethHeaderSize + hdr)) with e | data'
      · exact ⟨e, rfl⟩
      · have hfs : ∃ f' ∈ fs, f'.frameSize < ethHeaderSize + hdr := by
          rcases h with ⟨f', hmem, hlt⟩
          rcases List.mem_cons.mp hmem with rfl | hmem
          · exact absurd hlt hf
          · exact ⟨f', hmem, hlt⟩
        rw [bind_ok]
        exact ih (i + 1) _ data' hfs

/-- The sizes of the pieces add up to the length of the data. -/
theorem payload_sum (hdr : Nat) (frames : List EthFrame)
    (hsized : ∀ f ∈ frames, ethHeaderSize + hdr ≤ f.frameSize) :
    (frames.map fun f => (f.frameSize : Int) - ethHeaderSize - hdr).sum =
      (frames.flatMap (·.bytesFrom (ethHeaderSize + hdr))).length := by
  induction frames with
  | nil => rfl
  | cons f fs ih =>
    have hf := hsized f List.mem_cons_self
    rw [List.map_cons, List.sum_cons, ih (fun f' hf' => hsized f' (List.mem_cons_of_mem _ hf')),
      List.flatMap_cons, List.length_append, EthFrame.length_bytesFrom]
    omega

/-- Each piece fits a frame. -/
theorem length_payloads_le (off : Nat) (frames : List EthFrame) :
    (frames.flatMap (·.bytesFrom off)).length ≤ frames.length * ethFrameArea := by
  induction frames with
  | nil => simp
  | cons f fs ih =>
    have hle := f.size_le
    rw [List.flatMap_cons, List.length_append, EthFrame.length_bytesFrom, List.length_cons,
      Nat.succ_mul]
    omega

/-- A message has at most 16 fragments. -/
theorem Complete.length_le {group : Group} (h : Complete group) : group.length ≤ 16 := by
  cases group with
  | nil => simp
  | cons first rest =>
    have hcount := h.2
    have hle := numFragments_le first
    simp only [List.head?_cons, Option.map_some, Option.some.injEq] at hcount
    omega

/-- The size the function allocates is the size of the message: nothing wraps around. -/
theorem dataSize_eq (first : EthFrame) (rest : List EthFrame) (hlen : rest.length ≤ 15)
    (hsized : Sized (first :: rest)) :
    ((dataSizeLoop (sizeOfMmeHeader first.mmtype) (first :: rest) 0 +
      sizeOfMmeHeader first.mmtype) % 2 ^ 32).toNat = (groupData (first :: rest)).length := by
  rcases hsized with ⟨hfirst, hrest⟩
  have hsum := payload_sum (sizeOfMmeHeader first.mmtype) rest hrest
  have hle := length_payloads_le (ethHeaderSize + sizeOfMmeHeader first.mmtype) rest
  have hfirst_le : first.frameSize ≤ 2021 := first.size_le
  have hbound : rest.length * ethFrameArea ≤ 15 * 2021 := Nat.mul_le_mul hlen (Nat.le_refl _)
  rw [← Int.emod_add_emod, dataSizeLoop_eq, Int.emod_add_emod, List.map_cons, List.sum_cons, hsum]
  unfold groupData
  rw [List.length_append, EthFrame.length_bytesFrom]
  omega

/-- A group with a fragment missing or out of order yields no packet. -/
theorem defragGroupedFrames_incomplete {group : Group} (h : ¬ Complete group) :
    defragGroupedFrames group = .ok none := by
  cases group with
  | nil => rfl
  | cons first rest =>
    unfold defragGroupedFrames
    simp only [fragmentLoop_eq, ← List.range_eq_range', Nat.zero_add]
    by_cases horder : (first :: rest).map EthFrame.fragmentNumber = List.range (first :: rest).length
    · rw [if_pos horder]
      have hcount : first.numFragments + 1 ≠ (first :: rest).length := by
        intro e
        exact h ⟨horder, by simp [e]⟩
      simp only [if_pos hcount]
    · rw [if_neg horder]

/-- A complete group is copied to a packet of the computed size. -/
theorem defragGroupedFrames_of_complete {first : EthFrame} {rest : List EthFrame}
    (h : Complete (first :: rest)) :
    defragGroupedFrames (first :: rest) =
      (copyLoop (sizeOfMmeHeader first.mmtype) (first :: rest) 0 0
        (mallocBuf ((dataSizeLoop (sizeOfMmeHeader first.mmtype) (first :: rest) 0 +
          sizeOfMmeHeader first.mmtype) % 2 ^ 32).toNat) >>= fun data =>
        .ok (some ⟨((dataSizeLoop (sizeOfMmeHeader first.mmtype) (first :: rest) 0 +
          sizeOfMmeHeader first.mmtype) % 2 ^ 32).toNat, contents data, first.dstMacAddr,
          first.srcMacAddr⟩)) := by
  have hcount : first.numFragments + 1 = (first :: rest).length := by simpa using h.2
  unfold defragGroupedFrames
  simp only [fragmentLoop_eq, ← List.range_eq_range', Nat.zero_add, if_pos h.1,
    if_neg (not_not_intro hcount)]
  rfl

/-- The first fragment is copied with its header. -/
theorem copyLoop_first (hdr : Nat) (f : EthFrame) (fs : List EthFrame) (data : Buffer) :
    copyLoop hdr (f :: fs) 0 0 data =
      (loadInt f.mem ethHeaderSize ((f.frameSize : Int) - ethHeaderSize) >>= fun bytes =>
        store data 0 bytes >>= fun data => copyLoop hdr fs 1 (0 + bytes.length) data) := rfl

/-- The copies fill the buffer of the message, every byte of it once. -/
theorem copyLoop_sized (first : EthFrame) (rest : List EthFrame) (hs : Sized (first :: rest)) :
    copyLoop (sizeOfMmeHeader first.mmtype) (first :: rest) 0 0 (mallocBuf (groupData (first :: rest)).length) =
      .ok (once (groupData (first :: rest))) := by
  have hfirst : ethHeaderSize ≤ first.frameSize := hs.1
  have hstore := store_cursor [] (first.bytesFrom ethHeaderSize)
    (groupData (first :: rest)).length (by simp [groupData])
  have hrest := copyLoop_rest (sizeOfMmeHeader first.mmtype) rest 0
    (first.bytesFrom ethHeaderSize)
    ((groupData (first :: rest)).length - (first.bytesFrom ethHeaderSize).length) hs.2
    (by simp [groupData])
  have hleft : (groupData (first :: rest)).length - (first.bytesFrom ethHeaderSize).length -
      (rest.flatMap (·.bytesFrom (ethHeaderSize + sizeOfMmeHeader first.mmtype))).length = 0 := by
    simp [groupData]
  simp only [once_nil, List.nil_append, List.length_nil] at hstore
  rw [copyLoop_first, loadInt_bytesFrom first _ hfirst, bind_ok, hstore, bind_ok, Nat.zero_add,
    hrest, hleft, mallocBuf_zero, List.append_nil]
  rfl

/-- A complete group yields its message, every byte of it written once. -/
theorem defragGroupedFrames_complete {group : Group} (h : Complete group) (hs : Sized group) :
    defragGroupedFrames group = .ok (groupPacket group) := by
  cases group with
  | nil => rfl
  | cons first rest =>
    have hlen := h.length_le
    rw [List.length_cons] at hlen
    rw [defragGroupedFrames_of_complete h, dataSize_eq first rest (by omega) hs,
      copyLoop_sized first rest hs, bind_ok, contents_once]
    rfl

/-- A complete group with a fragment shorter than its headers copies out of bounds. -/
theorem defragGroupedFrames_short {group : Group} (h : Complete group) (hs : ¬ Sized group) :
    ∃ e, defragGroupedFrames group = .error e := by
  cases group with
  | nil => exact absurd trivial hs
  | cons first rest =>
    rw [defragGroupedFrames_of_complete h, copyLoop_first]
    by_cases hfirst : ethHeaderSize ≤ first.frameSize
    · have hrest : ∃ f ∈ rest, f.frameSize < ethHeaderSize + sizeOfMmeHeader first.mmtype := by
        by_contra hall
        exact hs ⟨hfirst, fun f hf => Nat.le_of_not_lt fun hlt => hall ⟨f, hf, hlt⟩⟩
      rw [loadInt_bytesFrom first _ hfirst, bind_ok]
      generalize mallocBuf _ = buf
      rcases store buf 0 (first.bytesFrom ethHeaderSize) with e | data
      · exact ⟨e, rfl⟩
      · rcases copyLoop_short (sizeOfMmeHeader first.mmtype) rest 0
          (0 + (first.bytesFrom ethHeaderSize).length) data hrest with ⟨e, he⟩
        rw [bind_ok, he]
        exact ⟨e, rfl⟩
    · rw [loadInt_short first _ (by omega)]
      exact ⟨_, rfl⟩

end Hpav
