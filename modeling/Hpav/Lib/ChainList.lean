import Mathlib.Data.List.Nodup
import Mathlib.Tactic.Common
import Hpav.Lib.ListSegment

/-!
# Several chains in one heap

A program that keeps a list of lists has many chains in one heap, and adds to the end of any
of them. `Chains h cs` says that every chain of `cs` is in the heap and that no node is in two
of them, or in one of them twice. A store into the last node of one chain then leaves all the
others as they are, which gives the rules for a new chain (`Chains.fresh`) and for a node more
at the end of an old one (`Chains.link`).
-/

namespace CMem

variable {α : Type} {h : Heap α} {p : Option Nat} {as : List Nat} {xs : List α}

/-! ## One chain among others -/

/-- `p->val = v` -/
def setVal (h : Heap α) (p : Option Nat) (v : α) : Except Fault (Heap α) :=
  match p with
  | none => .error .nullDeref
  | some a =>
    match h[a]? with
    | none => .error .outOfBounds
    | some n => .ok (h.set a { n with val := v })

theorem setVal_some {a : Nat} {n : Node α} (hn : h[a]? = some n) (v : α) :
    setVal h (some a) v = .ok (h.set a { n with val := v }) := by
  simp only [setVal, hn]

/-- A store into the node allocated last. -/
theorem setVal_fresh (h : Heap α) (v w : α) :
    setVal (h ++ [⟨v, none⟩]) (some h.length) w = .ok (h ++ [⟨w, none⟩]) := by
  have hn : (h ++ [⟨v, none⟩])[h.length]? = some ⟨v, none⟩ := by simp
  rw [setVal_some hn, List.set_append_right _ _ (Nat.le_refl _), Nat.sub_self]
  rfl

/-- A store into a node that the path does not visit. -/
theorem Path.set (hp : Path h p as xs) {a : Nat} (ha : a ∉ as) (n : Node α) : Path (h.set a n) p as xs := by
  induction hp with
  | nil => exact .nil
  | cons hm _ ih =>
    refine .cons ?_ (ih (List.not_mem_of_not_mem_cons ha))
    rw [List.getElem?_set_ne (List.ne_of_not_mem_cons ha)]
    exact hm

/-- A node allocated last is a path of its own. -/
theorem Path.fresh (h : Heap α) (v : α) : Path (h ++ [⟨v, none⟩]) (some h.length) [h.length] [v] :=
  .cons (n := ⟨v, none⟩) (by simp) .nil

/-- A path that reads something starts at an allocated node with the first payload. -/
theorem Path.head_cons {x : α} (hp : Path h p as (x :: xs)) :
    ∃ a n, p = some a ∧ h[a]? = some n ∧ n.val = x := by
  cases hp with
  | cons hn _ => exact ⟨_, _, rfl, hn, rfl⟩

/-- The last node of a path that reads something. -/
theorem Path.exists_last (hp : Path h p as xs) (hne : xs ≠ []) : ∃ l, as.getLast? = some l := by
  cases hlast : as.getLast? with
  | some l => exact ⟨l, rfl⟩
  | none =>
    have hlen := hp.length_eq
    rw [List.getLast?_eq_none_iff.mp hlast] at hlen
    exact absurd (List.length_eq_zero_iff.mp hlen.symm) hne

/-- The last of some nodes, for a variable that is set to each of them in turn. -/
theorem getLast?_cons_or (a : Nat) (as : List Nat) (last : Option Nat) :
    (a :: as).getLast?.or last = as.getLast?.or (some a) := by
  rw [List.getLast?_cons]
  cases as.getLast? with
  | none => rfl
  | some b => rfl

/-- `while (current) { last = current; current = current->next; }`, at most so many turns. -/
def lastNode (h : Heap α) : Nat → Option Nat → Option Nat → Except Fault (Option (Option Nat))
  | 0, _, _ => .ok none
  | _ + 1, none, last => .ok (some last)
  | turns + 1, some current, _ => do
    let node ← readNode h (some current)
    lastNode h turns node.next (some current)

/-- The walk ends at the last node. -/
theorem Path.lastNode_eq (hp : Path h p as xs) {turns : Nat} (hturns : as.length < turns) (last : Option Nat) :
    lastNode h turns p last = .ok (some (as.getLast?.or last)) := by
  induction hp generalizing turns last with
  | nil =>
    cases turns with
    | zero => cases hturns
    | succ turns => rfl
  | @cons a n as xs hn _ ih =>
    cases turns with
    | zero => cases hturns
    | succ turns =>
      have hrest := ih (Nat.lt_of_succ_lt_succ hturns) (some a)
      unfold lastNode
      rw [readNode_some hn, bind_ok, hrest, getLast?_cons_or]

/-! ## Many chains -/

/-- A chain: where it starts, the nodes it visits and what it reads. -/
structure Chain (α : Type) where
  head : Option Nat
  nodes : List Nat
  payloads : List α

/-- A chain of one node. -/
def Chain.single (a : Nat) (x : α) : Chain α :=
  ⟨some a, [a], [x]⟩

/-- A node more at the end. -/
def Chain.grow (c : Chain α) (a : Nat) (x : α) : Chain α :=
  ⟨c.head, c.nodes ++ [a], c.payloads ++ [x]⟩

/-- The chains are in the heap, and no node is visited twice. -/
structure Chains (h : Heap α) (cs : List (Chain α)) : Prop where
  path : ∀ c ∈ cs, Path h c.head c.nodes c.payloads
  nodup : (cs.flatMap Chain.nodes).Nodup

variable {cs pre post : List (Chain α)} {c : Chain α}

theorem Chains.nil (h : Heap α) : Chains h [] := by
  constructor
  · intro c hc
    cases hc
  · exact List.nodup_nil

theorem Chains.lt_length (hcs : Chains h cs) : ∀ a ∈ cs.flatMap Chain.nodes, a < h.length := by
  intro a ha
  rcases List.mem_flatMap.mp ha with ⟨c, hc, hac⟩
  exact (hcs.path c hc).lt_length a hac

/-- The node that is allocated next is in no chain. -/
theorem Chains.length_not_mem (hcs : Chains h cs) : h.length ∉ cs.flatMap Chain.nodes := by
  intro hmem
  exact Nat.lt_irrefl _ (hcs.lt_length _ hmem)

theorem Chains.nodup_of_mem (hcs : Chains h cs) (hc : c ∈ cs) : c.nodes.Nodup :=
  (List.nodup_flatMap.mp hcs.nodup).1 c hc

/-- A new node starts a chain of its own. -/
theorem Chains.fresh (hcs : Chains h cs) (v : α) :
    Chains (h ++ [⟨v, none⟩]) (cs ++ [Chain.single h.length v]) := by
  constructor
  · intro c hc
    rcases List.mem_append.mp hc with hc | hc
    · exact (hcs.path c hc).append _
    · rw [List.mem_singleton.mp hc]
      exact Path.fresh h v
  · rw [List.flatMap_append, List.flatMap_singleton]
    refine List.nodup_append.mpr ⟨hcs.nodup, List.nodup_singleton h.length, ?_⟩
    rintro a ha b hb rfl
    rw [List.mem_singleton.mp hb] at ha
    exact hcs.length_not_mem ha

/-- A new node behind the last one of a chain: the chain grows by it, the others stay. -/
theorem Chains.link (hcs : Chains h (pre ++ c :: post)) {l : Nat} (hl : c.nodes.getLast? = some l) (v : α) :
    ∃ h', setNext (h ++ [⟨v, none⟩]) (some l) (some h.length) = .ok h' ∧
      Chains h' (pre ++ c.grow h.length v :: post) := by
  have hc : c ∈ pre ++ c :: post := List.mem_append_right _ List.mem_cons_self
  have hpath := (hcs.path c hc).append [⟨v, none⟩]
  have hlc : l ∈ c.nodes := List.mem_of_getLast? hl
  obtain ⟨m, hm⟩ : ∃ m, (h ++ [⟨v, none⟩])[l]? = some m := ⟨_, List.getElem?_eq_getElem (hpath.lt_length l hlc)⟩
  have hfresh := hcs.length_not_mem
  have hnd := hcs.nodup
  rw [List.flatMap_append, List.flatMap_cons] at hfresh hnd
  rcases List.nodup_append.mp hnd with ⟨hndpre, hndback, hpre⟩
  rcases List.nodup_append.mp hndback with ⟨hndc, hndpost, hpost⟩
  refine ⟨_, setNext_some hm _, ?_, ?_⟩
  · -- the store is at a node of `c`, which the other chains do not visit
    have hothers : ∀ d ∈ pre ++ c :: post, l ∉ d.nodes →
        Path ((h ++ [(⟨v, none⟩ : Node α)]).set l { m with next := some h.length }) d.head d.nodes d.payloads := by
      intro d hd hld
      exact ((hcs.path d hd).append _).set hld _
    intro d hd
    rcases List.mem_append.mp hd with hd | hd
    · refine hothers d (List.mem_append_left _ hd) ?_
      intro hld
      exact hpre l (List.mem_flatMap.mpr ⟨d, hd, hld⟩) l (List.mem_append_left _ hlc) rfl
    · rcases List.mem_cons.mp hd with rfl | hd
      · refine hpath.link hndc hl ?_ (by simp) m hm
        intro hmem
        exact hfresh (List.mem_append_right _ (List.mem_append_left _ hmem))
      · refine hothers d (List.mem_append_right _ (List.mem_cons_of_mem _ hd)) ?_
        intro hld
        exact hpost l hlc l (List.mem_flatMap.mpr ⟨d, hd, hld⟩) rfl
  · rw [List.flatMap_append, List.flatMap_cons]
    have hperm : (pre.flatMap Chain.nodes ++ (c.nodes ++ [h.length] ++ post.flatMap Chain.nodes)).Perm
        (h.length :: (pre.flatMap Chain.nodes ++ (c.nodes ++ post.flatMap Chain.nodes))) := by
      rw [List.append_assoc c.nodes, ← List.append_assoc, List.singleton_append, ← List.append_assoc]
      exact List.perm_middle
    exact hperm.nodup_iff.mpr (List.nodup_cons.mpr ⟨hfresh, hnd⟩)

/-! ## A chain for each key -/

section Keyed

variable {κ : Type} [DecidableEq κ] {chainOf : κ → Chain α} {k : κ} {ks : List κ}

theorem map_update_of_not_mem (hk : k ∉ ks) (c : Chain α) : ks.map (Function.update chainOf k c) = ks.map chainOf := by
  apply List.map_congr_left
  intro k' hk'
  have hne : k' ≠ k := by
    rintro rfl
    exact hk hk'
  rw [Function.update_of_ne hne]

theorem map_head_update_of_not_mem (hk : k ∉ ks) (c : Chain α) :
    ks.map (fun k' => (Function.update chainOf k c k').head) = ks.map fun k' => (chainOf k').head := by
  have hmap := congrArg (List.map Chain.head) (@map_update_of_not_mem _ _ _ chainOf _ _ hk c)
  rw [List.map_map, List.map_map] at hmap
  exact hmap

/-- A longer chain in the place of a chain leaves the pointers to the first nodes as they are. -/
theorem head_update_grow (a : Nat) (x : α) (k' : κ) :
    (Function.update chainOf k ((chainOf k).grow a x) k').head = (chainOf k').head := by
  by_cases hk : k' = k
  · subst hk
    rw [Function.update_self]
    rfl
  · rw [Function.update_of_ne hk]

end Keyed

/-! ## Reading the chains -/

/-- Reading the chains gives their payloads. -/
theorem Chains.chain_eq (hcs : Chains h cs) (hc : c ∈ cs) : chain h c.head = c.payloads :=
  (hcs.path c hc).walk_eq _ (length_le_of_nodup (hcs.nodup_of_mem hc) (hcs.path c hc).lt_length)

theorem Chains.map_chain (hcs : Chains h cs) : (cs.map Chain.head).map (chain h) = cs.map Chain.payloads := by
  rw [List.map_map]
  apply List.map_congr_left
  intro c hc
  exact hcs.chain_eq hc

end CMem
