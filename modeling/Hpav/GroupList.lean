import Mathlib.Tactic.Common
import Hpav.Lib.ChainList
import Hpav.Defrag

/-!
# The group list in memory

`hpav_defrag_add_to_group_list` (`hpav_mme.c`) works on two levels of linked lists: the nodes of
the group list point at the first nodes of the groups, and these at the frames. Here both levels
are nodes on a heap, a pointer to a frame is an address among the frames received, and the
function walks and changes the lists as the source does. `Held` is the invariant of its calls:
one chain for each key seen, and in it the frames that came with this key. With it the lists
hold the groups that `groupFrames` computes, and these divide up the frames.
-/

namespace Hpav

open CMem Grouping

/-! ## The function and its caller -/

/-- The nodes of type `hpav_defrag_group`, that hold `frame`, and of type
`hpav_defrag_group_list`, that hold `group`. -/
structure GroupMemory where
  groupHeap : Heap (Option Nat)
  listHeap : Heap (Option Nat)

namespace GroupMemory

/-- The node that `hpav_defrag_frames` allocates and clears. -/
def start : GroupMemory :=
  ⟨[], (mallocNode [] none).1⟩

/-- The conditions of the loop: there is a group, and its first frame has the key of the frame. -/
def keyTest (frames : Heap EthFrame) (groups : Heap (Option Nat)) (group frame : Option Nat) :
    Except Fault Bool :=
  match group with
  | none => .ok false
  | some _ => do
    let node ← readNode groups group
    let first ← readNode frames node.val
    let new ← readNode frames frame
    return keyMatch [first.val] new.val

/-- The loop over the group list, with `group_found` and `last_group_list`. -/
def searchLoop (frames : Heap EthFrame) (m : GroupMemory) (frame : Option Nat) :
    Nat → Option Nat → Option Nat → Option Nat → Except Fault (Option (Option Nat × Option Nat))
  | 0, _, _, _ => .ok none
  | _ + 1, none, groupFound, lastGroupList => .ok (some (groupFound, lastGroupList))
  | turns + 1, some groupList, groupFound, _ => do
    let node ← readNode m.listHeap (some groupList)
    let hit ← keyTest frames m.groupHeap node.val frame
    searchLoop frames m frame turns node.next (if hit then node.val else groupFound) (some groupList)

/-- No group found: a new group, in the node the caller allocated or in a node of its own. -/
def addGroup (m : GroupMemory) (lastGroupList frame : Option Nat) : Except Fault GroupMemory := do
  let (groups, groupFound) := mallocNode m.groupHeap none
  let last ← readNode m.listHeap lastGroupList
  let lists ← match last.val with
    | none => setVal m.listHeap lastGroupList (some groupFound)
    | some _ =>
      let (lists, newGroupList) := mallocNode m.listHeap (some groupFound)
      setNext lists lastGroupList (some newGroupList)
  let groups ← setVal groups (some groupFound) frame
  return ⟨groups, lists⟩

/-- A group found: a new node behind its last one. -/
def addNode (turns : Nat) (m : GroupMemory) (groupFound frame : Option Nat) :
    Except Fault (Option GroupMemory) := do
  let (groups, newGroup) := mallocNode m.groupHeap frame
  match ← lastNode groups turns groupFound none with
  | none => return none
  | some lastGroup => do
    let groups ← setNext groups lastGroup (some newGroup)
    return some ⟨groups, m.listHeap⟩

/-- `hpav_defrag_add_to_group_list`; a loop makes at most `turns` turns, and nothing is
returned when these are used up. -/
def defragAddToGroupList (turns : Nat) (frames : Heap EthFrame) (m : GroupMemory)
    (groupList frame : Option Nat) : Except Fault (Option GroupMemory) := do
  match ← searchLoop frames m frame turns groupList none none with
  | none => return none
  | some (none, lastGroupList) => do
    let m ← addGroup m lastGroupList frame
    return some m
  | some (some groupFound, _) => addNode turns m (some groupFound) frame

/-- Frames added one after the other. -/
def addFrames (turns : Nat) (frames : Heap EthFrame) (groupList : Option Nat) :
    List (Option Nat) → GroupMemory → Except Fault (Option GroupMemory)
  | [], m => .ok (some m)
  | frame :: rest, m => do
    match ← defragAddToGroupList turns frames m groupList frame with
    | none => return none
    | some m => addFrames turns frames groupList rest m

/-- The loop of `hpav_defrag_frames` over the frames received. -/
def frameLoop (turns : Nat) (frames : Heap EthFrame) (groupList : Option Nat) :
    Nat → Option Nat → GroupMemory → Except Fault (Option GroupMemory)
  | 0, _, _ => .ok none
  | _ + 1, none, m => .ok (some m)
  | left + 1, some currentFrame, m => do
    match ← defragAddToGroupList turns frames m groupList (some currentFrame) with
    | none => return none
    | some m => do
      let frame ← readNode frames (some currentFrame)
      frameLoop turns frames groupList left frame.next m

/-- The first half of `hpav_defrag_frames`, up to the full group list. -/
def regroupFrames (turns : Nat) (frames : Heap EthFrame) (currentFrame : Option Nat) :
    Except Fault (Option GroupMemory) :=
  frameLoop turns frames (some 0) turns currentFrame start

/-- The groups of the list at `groupList`: what the nodes of each hold. -/
def groupsAt (m : GroupMemory) (groupList : Option Nat) : List (List (Option Nat)) :=
  (chain m.listHeap groupList).map (chain m.groupHeap)

/-- The same groups, with the frames in place of the pointers. -/
def framesAt (m : GroupMemory) (frames : Heap EthFrame) (groupList : Option Nat) : List Group :=
  (m.groupsAt groupList).map fun group =>
    group.filterMap fun frame => (frame.bind (frames[·]?)).map (·.val)

end GroupMemory

/-- A pointer to a frame that was received. -/
def framePtr {n : Nat} (a : Fin n) : Option Nat :=
  some a.val

/-- The key of the frame at an address. -/
def keyAt (frames : Heap EthFrame) (a : Fin frames.length) : FrameKey :=
  (frames.get a).val.key

namespace GroupMemory

/-! ## The search -/

variable {frames : Heap EthFrame} {m : GroupMemory}

theorem readNode_framePtr (a : Fin frames.length) : readNode frames (framePtr a) = .ok (frames.get a) :=
  readNode_some (List.getElem?_eq_getElem a.isLt)

theorem keyMatch_singleton (first frame : EthFrame) : keyMatch [first] frame = decide (first.key = frame.key) := by
  rw [Bool.eq_iff_iff, decide_eq_true_iff]
  exact keyMatch_cons first [] frame

/-- The test at the first node of a chain of frames with one key. -/
theorem keyTest_class {added : List (Fin frames.length)} {k : FrameKey} (hk : k ∈ firstKeys (keyAt frames) added)
    {groups : Heap (Option Nat)} {group : Option Nat} {as : List Nat}
    (hpath : Path groups group as ((classOf (keyAt frames) added k).map framePtr)) (a : Fin frames.length) :
    keyTest frames groups group (framePtr a) = .ok (decide (k = keyAt frames a)) := by
  have hne := classOf_ne_nil hk
  rcases hclass : classOf (keyAt frames) added k with _ | ⟨first, rest⟩
  · exact absurd hclass hne
  · have hfirst : keyAt frames first = k := key_of_mem_classOf (by rw [hclass]; exact List.mem_cons_self)
    rw [hclass, List.map_cons] at hpath
    rcases hpath.head_cons with ⟨b, n, rfl, hn, hval⟩
    unfold keyTest
    simp only [readNode_some hn, bind_ok, hval, readNode_framePtr]
    rw [keyMatch_singleton, ← hfirst]
    rfl

/-- What the loop has found when the list names one group for each of the keys `ks`. -/
theorem searchLoop_eq {κ : Type} [DecidableEq κ] {key : κ} {ks : List κ} {headOf : κ → Option Nat}
    {frame : Option Nat} {p : Option Nat} {nodes : List Nat} (hpath : Path m.listHeap p nodes (ks.map headOf))
    (htest : ∀ k ∈ ks, keyTest frames m.groupHeap (headOf k) frame = .ok (decide (k = key)))
    {turns : Nat} (hturns : nodes.length < turns) (found last : Option Nat) :
    searchLoop frames m frame turns p found last =
      .ok (some (if key ∈ ks then headOf key else found, nodes.getLast?.or last)) := by
  induction ks generalizing p nodes turns found last with
  | nil =>
    cases hpath with
    | nil =>
      cases turns with
      | zero => cases hturns
      | succ turns => rfl
  | cons k ks ih =>
    rw [List.map_cons] at hpath
    generalize hhead : headOf k = group at hpath
    cases hpath with
    | @cons a n as _ hn hrest =>
      cases turns with
      | zero => cases hturns
      | succ turns =>
        have htail := ih hrest (fun k' hk' => htest k' (List.mem_cons_of_mem _ hk'))
          (Nat.lt_of_succ_lt_succ hturns) (if k = key then headOf k else found) (some a)
        have hfirst := htest k List.mem_cons_self
        rw [hhead] at hfirst
        unfold searchLoop
        rw [readNode_some hn, bind_ok, hfirst, bind_ok, getLast?_cons_or]
        rw [hhead] at htail
        by_cases hk : k = key
        · subst hk
          simpa [hhead] using htail
        · simpa [hk, Ne.symm hk] using htail

/-! ## One frame -/

/-- The walk comes to the last node of the group, and the new one is stored behind it. -/
theorem addNode_eq {frame groupFound : Option Nat} {as : List Nat} {xs : List (Option Nat)} {turns l : Nat}
    {groups' : Heap (Option Nat)} (hpath : Path m.groupHeap groupFound as xs) (hturns : as.length < turns)
    (hl : as.getLast? = some l)
    (hset : setNext (m.groupHeap ++ [⟨frame, none⟩]) (some l) (some m.groupHeap.length) = .ok groups') :
    addNode turns m groupFound frame = .ok (some ⟨groups', m.listHeap⟩) := by
  have hwalk := (hpath.append [⟨frame, none⟩]).lastNode_eq hturns none
  rw [hl, Option.some_or] at hwalk
  unfold addNode mallocNode
  simp only [hwalk, bind_ok, hset]
  rfl

/-- Behind a node that has a group the new group gets a node of its own. -/
theorem addGroup_eq {frame : Option Nat} {l group : Nat} {node : Node (Option Nat)} {lists' : Heap (Option Nat)}
    (hnode : m.listHeap[l]? = some node) (hgroup : node.val = some group)
    (hset : setNext (m.listHeap ++ [⟨some m.groupHeap.length, none⟩]) (some l) (some m.listHeap.length) = .ok lists') :
    addGroup m (some l) frame = .ok ⟨m.groupHeap ++ [⟨frame, none⟩], lists'⟩ := by
  unfold addGroup mallocNode
  simp only [readNode_some hnode, bind_ok, hgroup, hset, setVal_fresh]
  rfl

/-- The memory after the frames `added`: one chain for each key that they have, with the frames
of this key in the order they came, and a group list that names the chains in the order of
the keys. -/
structure Held (frames : Heap EthFrame) (added : List (Fin frames.length)) (m : GroupMemory)
    (chainOf : FrameKey → Chain (Option Nat)) : Prop where
  payloads : ∀ k ∈ firstKeys (keyAt frames) added,
    (chainOf k).payloads = (classOf (keyAt frames) added k).map framePtr
  chains : Chains m.groupHeap ((firstKeys (keyAt frames) added).map chainOf)
  lists : ∃ last, Linked m.listHeap (some 0) last ((firstKeys (keyAt frames) added).map fun k => (chainOf k).head)

variable {added : List (Fin frames.length)} {chainOf : FrameKey → Chain (Option Nat)}

theorem Held.path (hm : Held frames added m chainOf) {k : FrameKey} (hk : k ∈ firstKeys (keyAt frames) added) :
    Path m.groupHeap (chainOf k).head (chainOf k).nodes ((classOf (keyAt frames) added k).map framePtr) := by
  rw [← hm.payloads k hk]
  exact hm.chains.path _ (List.mem_map_of_mem hk)

/-- No chain is empty, so each has a first node and a last one. -/
theorem Held.ends (hm : Held frames added m chainOf) {k : FrameKey} (hk : k ∈ firstKeys (keyAt frames) added) :
    ∃ b l, (chainOf k).head = some b ∧ (chainOf k).nodes.getLast? = some l := by
  have hpath := hm.path hk
  have hne : (classOf (keyAt frames) added k).map framePtr ≠ [] := by
    intro hnil
    exact classOf_ne_nil hk (List.map_eq_nil_iff.mp hnil)
  rcases hpath.exists_last hne with ⟨l, hl⟩
  rcases List.exists_cons_of_ne_nil hne with ⟨x, xs, hcons⟩
  rw [hcons] at hpath
  rcases hpath.head_cons with ⟨b, n, hb, -, -⟩
  exact ⟨b, l, hb, hl⟩

theorem Held.length_nodes_le (hm : Held frames added m chainOf) {k : FrameKey}
    (hk : k ∈ firstKeys (keyAt frames) added) : (chainOf k).nodes.length ≤ added.length := by
  rw [(hm.path hk).length_eq, List.length_map]
  exact List.length_filter_le _ _

/-- The search finds the chain of the frame's key and the last node of the group list. -/
theorem Held.searchLoop_eq (hm : Held frames added m chainOf) (a : Fin frames.length) :
    ∃ last, Linked m.listHeap (some 0) last ((firstKeys (keyAt frames) added).map fun k => (chainOf k).head) ∧
      ∀ turns, added.length + 2 ≤ turns → searchLoop frames m (framePtr a) turns (some 0) none none =
        .ok (some (if keyAt frames a ∈ firstKeys (keyAt frames) added then (chainOf (keyAt frames a)).head else none,
          last)) := by
  rcases hm.lists with ⟨last, hlinked⟩
  refine ⟨last, hlinked, ?_⟩
  intro turns hturns
  rcases hlinked with ⟨nodes, hpath, -, hlast⟩
  have hlen := hpath.length_eq
  have hle := length_groups_le (keyAt frames) added
  rw [List.length_map] at hlen
  rw [groups, List.length_map] at hle
  have htest : ∀ k ∈ firstKeys (keyAt frames) added,
      keyTest frames m.groupHeap (chainOf k).head (framePtr a) = .ok (decide (k = keyAt frames a)) := by
    intro k hk
    exact keyTest_class hk (hm.path hk) a
  have hlt : nodes.length < turns := by omega
  rw [GroupMemory.searchLoop_eq hpath htest hlt none none, hlast, Option.or_none]

/-- A frame with a key that was seen goes to the end of its chain. -/
theorem Held.add_seen (hm : Held frames added m chainOf) (a : Fin frames.length)
    (hseen : keyAt frames a ∈ firstKeys (keyAt frames) added) :
    ∃ m' chainOf', Held frames (added ++ [a]) m' chainOf' ∧ ∀ turns, added.length + 2 ≤ turns →
      defragAddToGroupList turns frames m (some 0) (framePtr a) = .ok (some m') := by
  rcases hm.searchLoop_eq a with ⟨last, hlinked, hsearch⟩
  rcases hm.ends hseen with ⟨b, l, hb, hl⟩
  rcases List.append_of_mem hseen with ⟨pre, post, hsplit⟩
  have hchains := hm.chains
  rw [hsplit, List.map_append, List.map_cons] at hchains
  rcases hchains.link hl (framePtr a) with ⟨groups', hset, hgroups⟩
  have hkeys := firstKeys_snoc_of_mem hseen
  -- no other chain has this key
  have hnd := nodup_firstKeys (keyAt frames) added
  rw [hsplit, List.nodup_middle, List.nodup_cons, List.mem_append, not_or] at hnd
  rcases hnd with ⟨⟨hpre, hpost⟩, -⟩
  refine ⟨⟨groups', m.listHeap⟩, Function.update chainOf (keyAt frames a)
    ((chainOf (keyAt frames a)).grow m.groupHeap.length (framePtr a)), ⟨?_, ?_, ?_⟩, ?_⟩
  · intro k hk
    rw [hkeys] at hk
    rw [classOf_snoc]
    by_cases hka : keyAt frames a = k
    · subst hka
      rw [Function.update_self, if_pos rfl, List.map_append, ← hm.payloads _ hseen]
      rfl
    · rw [Function.update_of_ne (Ne.symm hka), if_neg hka, hm.payloads k hk]
  · rw [hkeys, hsplit, List.map_append, List.map_cons, Function.update_self,
      map_update_of_not_mem hpre, map_update_of_not_mem hpost]
    exact hgroups
  · rw [hkeys]
    simp only [head_update_grow]
    exact ⟨last, hlinked⟩
  · intro turns hturns
    have hnodes := hm.length_nodes_le hseen
    have hlt : (chainOf (keyAt frames a)).nodes.length < turns := by omega
    have hadd := addNode_eq (hm.path hseen) hlt hl hset
    rw [hb] at hadd
    unfold defragAddToGroupList
    rw [hsearch turns hturns, bind_ok, if_pos hseen, hb]
    exact hadd

/-- A frame with a new key starts a chain, named by a new node of the group list. -/
theorem Held.add_new (hm : Held frames added m chainOf) (hne : added ≠ []) (a : Fin frames.length)
    (hnew : keyAt frames a ∉ firstKeys (keyAt frames) added) :
    ∃ m' chainOf', Held frames (added ++ [a]) m' chainOf' ∧ ∀ turns, added.length + 2 ≤ turns →
      defragAddToGroupList turns frames m (some 0) (framePtr a) = .ok (some m') := by
  rcases hm.searchLoop_eq a with ⟨last, hlinked, hsearch⟩
  have hkeys := firstKeys_snoc_of_not_mem hnew
  have hheads : (firstKeys (keyAt frames) added).map (fun k => (chainOf k).head) ≠ [] := by
    rcases List.exists_mem_of_ne_nil added hne with ⟨x, hx⟩
    have hk : keyAt frames x ∈ firstKeys (keyAt frames) added := mem_firstKeys.mpr ⟨x, hx, rfl⟩
    exact List.ne_nil_of_mem (List.mem_map_of_mem hk)
  -- the last node of the group list names a group
  obtain ⟨l, node, group, rfl, hnode, hgroup⟩ : ∃ l node group, last = some l ∧ m.listHeap[l]? = some node ∧
      node.val = some group := by
    rcases hlinked.last_some hheads with ⟨l, -, rfl, -⟩
    rcases hlinked with ⟨nodes, hpath, -, hl⟩
    rcases hpath.at_last hl with ⟨node, hnode, -, hval⟩
    rcases List.mem_map.mp (List.mem_of_getLast? hval) with ⟨k, hk, hkval⟩
    rcases hm.ends hk with ⟨b, -, hb, -⟩
    exact ⟨l, node, b, rfl, hnode, by rw [← hkval, hb]⟩
  rcases hlinked.link hheads (some m.groupHeap.length) with ⟨lists', hset, -, hlinked'⟩
  refine ⟨⟨m.groupHeap ++ [⟨framePtr a, none⟩], lists'⟩, Function.update chainOf (keyAt frames a)
    (Chain.single m.groupHeap.length (framePtr a)), ⟨?_, ?_, ?_⟩, ?_⟩
  · intro k hk
    rw [hkeys] at hk
    rw [classOf_snoc]
    by_cases hka : keyAt frames a = k
    · subst hka
      have hnone : classOf (keyAt frames) added (keyAt frames a) = [] := classOf_eq_nil hnew
      rw [Function.update_self, if_pos rfl, hnone]
      rfl
    · have hold : k ∈ firstKeys (keyAt frames) added := by
        rcases List.mem_append.mp hk with hk | hk
        · exact hk
        · exact absurd (List.mem_singleton.mp hk).symm hka
      rw [Function.update_of_ne (Ne.symm hka), if_neg hka, hm.payloads k hold]
  · rw [hkeys, List.map_append, List.map_singleton, Function.update_self, map_update_of_not_mem hnew]
    exact hm.chains.fresh (framePtr a)
  · rw [hkeys, List.map_append, List.map_singleton, Function.update_self]
    refine ⟨some m.listHeap.length, ?_⟩
    rw [map_head_update_of_not_mem hnew]
    exact hlinked'
  · intro turns hturns
    unfold defragAddToGroupList
    rw [hsearch turns hturns, bind_ok, if_neg hnew]
    simp only [addGroup_eq hnode hgroup hset, bind_ok]
    rfl

/-- The first frame goes into the node the caller allocated. -/
theorem held_first (a : Fin frames.length) :
    ∃ m' chainOf', Held frames [a] m' chainOf' ∧ ∀ turns, 2 ≤ turns →
      defragAddToGroupList turns frames start (some 0) (framePtr a) = .ok (some m') := by
  have hkeys : firstKeys (keyAt frames) [a] = [keyAt frames a] := firstKeys_singleton (keyAt frames) a
  refine ⟨⟨[⟨framePtr a, none⟩], [⟨some 0, none⟩]⟩, fun _ => Chain.single 0 (framePtr a), ⟨?_, ?_, ?_⟩, ?_⟩
  · intro k hk
    rw [hkeys] at hk
    obtain rfl := List.mem_singleton.mp hk
    have hclass : classOf (keyAt frames) [a] (keyAt frames a) = [a] := List.filter_cons_of_pos (by simp)
    rw [hclass]
    rfl
  · rw [hkeys]
    exact (Chains.nil []).fresh (framePtr a)
  · rw [hkeys]
    exact ⟨some 0, Linked.singleton [] (some 0)⟩
  · intro turns hturns
    rcases Nat.exists_eq_add_of_le' hturns with ⟨turns, rfl⟩
    rfl

/-! ## Any number of frames -/

/-- The memory after the frames `added`: the one empty node, and then what `Held` says. -/
def Reached (frames : Heap EthFrame) (added : List (Fin frames.length)) (m : GroupMemory) : Prop :=
  (added = [] ∧ m = start) ∨ (added ≠ [] ∧ ∃ chainOf, Held frames added m chainOf)

theorem reached_start (frames : Heap EthFrame) : Reached frames [] start :=
  Or.inl ⟨rfl, rfl⟩

/-- One frame more. -/
theorem Reached.step (hm : Reached frames added m) (a : Fin frames.length) :
    ∃ m', Reached frames (added ++ [a]) m' ∧ ∀ turns, added.length + 2 ≤ turns →
      defragAddToGroupList turns frames m (some 0) (framePtr a) = .ok (some m') := by
  have hne : added ++ [a] ≠ [] := List.append_ne_nil_of_right_ne_nil _ (List.cons_ne_nil a [])
  rcases hm with ⟨rfl, rfl⟩ | ⟨hadded, chainOf, hm⟩
  · rcases held_first a with ⟨m', chainOf, hm', hadd⟩
    exact ⟨m', Or.inr ⟨hne, chainOf, hm'⟩, hadd⟩
  · by_cases hseen : keyAt frames a ∈ firstKeys (keyAt frames) added
    · rcases hm.add_seen a hseen with ⟨m', chainOf', hm', hadd⟩
      exact ⟨m', Or.inr ⟨hne, chainOf', hm'⟩, hadd⟩
    · rcases hm.add_new hadded a hseen with ⟨m', chainOf', hm', hadd⟩
      exact ⟨m', Or.inr ⟨hne, chainOf', hm'⟩, hadd⟩

/-- All frames of a sequence. -/
theorem Reached.run (hm : Reached frames added m) (rest : List (Fin frames.length)) :
    ∃ m', Reached frames (added ++ rest) m' ∧ ∀ turns, (added ++ rest).length + 2 ≤ turns →
      addFrames turns frames (some 0) (rest.map framePtr) m = .ok (some m') := by
  induction rest generalizing added m with
  | nil =>
    refine ⟨m, ?_, fun turns _ => rfl⟩
    rw [List.append_nil]
    exact hm
  | cons a rest ih =>
    rcases hm.step a with ⟨m₁, hm₁, hadd⟩
    rcases ih hm₁ with ⟨m', hm', hrest⟩
    rw [List.append_assoc, List.singleton_append] at hm' hrest
    refine ⟨m', hm', ?_⟩
    intro turns hturns
    have hadded : added.length + 2 ≤ turns := by
      rw [List.length_append] at hturns
      omega
    rw [List.map_cons]
    unfold addFrames
    rw [hadd turns hadded, bind_ok]
    exact hrest turns hturns

/-- The groups in the lists after the frames `added`; before the first frame there is a node
without a group. -/
def partsOf (frames : Heap EthFrame) (added : List (Fin frames.length)) : List (List (Fin frames.length)) :=
  if added = [] then [[]] else groups (keyAt frames) added

theorem Reached.groupsAt_eq (hm : Reached frames added m) :
    m.groupsAt (some 0) = (partsOf frames added).map (List.map framePtr) := by
  rcases hm with ⟨rfl, rfl⟩ | ⟨hadded, chainOf, hm⟩
  · rfl
  · rcases hm.lists with ⟨last, hlinked⟩
    have hread := hm.chains.map_chain
    rw [List.map_map, List.map_map, List.map_map] at hread
    unfold groupsAt partsOf
    rw [hlinked.chain_eq, if_neg hadded, groups, List.map_map, List.map_map]
    refine hread.trans (List.map_congr_left ?_)
    intro k hk
    exact hm.payloads k hk

theorem partsOf_partitions (frames : Heap EthFrame) (added : List (Fin frames.length)) :
    Partitions (keyAt frames) added (partsOf frames added) := by
  unfold partsOf
  split
  · rename_i hnil
    rw [hnil]
    exact Partitions.empty (keyAt frames)
  · exact groups_partitions (keyAt frames) added

/-- After any sequence of frames the lists divide it up by the key: destination, source, `mmv`,
`mmtype` and `fmsn`. -/
theorem addFrames_partitions (frames : Heap EthFrame) (added : List (Fin frames.length)) :
    ∃ m parts, (∀ more, addFrames (added.length + 2 + more) frames (some 0) (added.map framePtr) start = .ok (some m)) ∧
      m.groupsAt (some 0) = parts.map (List.map framePtr) ∧ Partitions (keyAt frames) added parts := by
  rcases (reached_start frames).run added with ⟨m, hm, hrun⟩
  refine ⟨m, partsOf frames added, ?_, hm.groupsAt_eq, partsOf_partitions frames added⟩
  intro more
  exact hrun _ (Nat.le_add_right _ _)

/-! ## The frames of a chain -/

/-- The loop adds the frames of the chain one after the other. -/
theorem frameLoop_eq (turns : Nat) (groupList : Option Nat) {p : Option Nat} {as : List Nat} {xs : List EthFrame}
    (hpath : Path frames p as xs) {left : Nat} (hleft : as.length < left) (m : GroupMemory) :
    frameLoop turns frames groupList left p m = addFrames turns frames groupList (as.map some) m := by
  induction hpath generalizing left m with
  | nil =>
    cases left with
    | zero => cases hleft
    | succ left => rfl
  | @cons a n as xs hn _ ih =>
    cases left with
    | zero => cases hleft
    | succ left =>
      rw [List.map_cons]
      unfold frameLoop addFrames
      cases hadd : defragAddToGroupList turns frames m groupList (some a) with
      | error e => rfl
      | ok added =>
        rw [bind_ok, bind_ok]
        cases added with
        | none => rfl
        | some m' =>
          have hrest := ih (Nat.lt_of_succ_lt_succ hleft) m'
          simp only [readNode_some hn, bind_ok]
          exact hrest

/-- The frames of a path, as addresses. -/
theorem exists_added {p : Option Nat} {as : List Nat} {xs : List EthFrame} (hpath : Path frames p as xs) :
    ∃ added : List (Fin frames.length), as.map some = added.map framePtr ∧
      xs = added.map fun a => (frames.get a).val := by
  induction hpath with
  | nil => exact ⟨[], rfl, rfl⟩
  | @cons a n as xs hn _ ih =>
    rcases ih with ⟨added, has, hxs⟩
    rcases List.getElem?_eq_some_iff.mp hn with ⟨hlt, rfl⟩
    refine ⟨⟨a, hlt⟩ :: added, ?_, ?_⟩
    · rw [List.map_cons, List.map_cons, has]
      rfl
    · rw [List.map_cons, hxs]
      rfl

theorem Reached.framesAt_eq (hm : Reached frames added m) :
    m.framesAt frames (some 0) = (partsOf frames added).map (List.map fun a => (frames.get a).val) := by
  unfold framesAt
  rw [hm.groupsAt_eq, List.map_map]
  apply List.map_congr_left
  intro part _
  rw [Function.comp_apply, List.filterMap_map, ← List.filterMap_eq_map]
  apply List.filterMap_congr
  intro a _
  have hget : frames[a.val]? = some (frames.get a) := List.getElem?_eq_getElem a.isLt
  simp only [Function.comp_apply, framePtr, Option.bind_some, hget, Option.map_some]

/-- The lists in memory hold the groups of `groupFrames`. -/
theorem groupFrames_partsOf (frames : Heap EthFrame) (added : List (Fin frames.length)) :
    groupFrames (added.map fun a => (frames.get a).val) =
      .ok ((partsOf frames added).map (List.map fun a => (frames.get a).val)) := by
  unfold partsOf
  split
  · rename_i hnil
    rw [hnil]
    rfl
  · rename_i hadded
    have hne : added.map (fun a => (frames.get a).val) ≠ [] := by
      intro hnil
      exact hadded (List.map_eq_nil_iff.mp hnil)
    rw [groupFrames_eq _ hne, groups_map]
    rfl

/-- From a chain of frames `hpav_defrag_frames` comes to lists that hold the groups of `groupFrames`. -/
theorem regroupFrames_refines {p last : Option Nat} {xs : List EthFrame} (hframes : Linked frames p last xs) :
    ∃ m, (∀ more, regroupFrames (xs.length + 2 + more) frames p = .ok (some m)) ∧
      groupFrames xs = .ok (m.framesAt frames (some 0)) := by
  rcases hframes with ⟨as, hpath, -, -⟩
  have hlen := hpath.length_eq
  rcases exists_added hpath with ⟨added, has, rfl⟩
  rcases (reached_start frames).run added with ⟨m, hm, hrun⟩
  refine ⟨m, ?_, ?_⟩
  · intro more
    rw [List.nil_append] at hrun
    rw [List.length_map] at hlen ⊢
    unfold regroupFrames
    rw [frameLoop_eq _ _ hpath (by omega), has]
    exact hrun _ (by omega)
  · rw [hm.framesAt_eq]
    exact groupFrames_partsOf frames added

end GroupMemory

end Hpav
