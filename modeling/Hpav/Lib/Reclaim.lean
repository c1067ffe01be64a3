import Mathlib.Tactic.Common
import Hpav.Lib.ChainList

/-!
# Giving nodes back

`free` makes a cell of a node. A cell can neither be read nor be given back again, so a
program that gets through has given every node back at most once, and read none of them
afterwards. `freeLoop` is the loop that gives a list back; what a node owns goes before it.
The rule for it (`Path.freeLoop_eq`) says which cells are left: the nodes of the list, and
no others. `Reclaimed` is what a program without a leak leaves behind.
-/

namespace CMem

variable {α σ : Type}

/-- The nodes of a heap in use; one that was given back is `none`. -/
abbrev Cells (α : Type) := List (Option (Node α))

/-- A heap of which nothing was given back. -/
def cells (h : Heap α) : Cells α :=
  h.map some

/-- Everything was given back. -/
def Reclaimed (c : Cells α) : Prop :=
  ∀ cell ∈ c, cell = none

/-- `*p` -/
def readCell (cs : Cells α) (p : Option Nat) : Except Fault (Node α) :=
  match p with
  | none => .error .nullDeref
  | some a =>
    match cs[a]? with
    | some (some n) => .ok n
    | _ => .error .outOfBounds

/-- `free(p)`, which does nothing to NULL. -/
def free (cs : Cells α) (p : Option Nat) : Except Fault (Cells α) :=
  match p with
  | none => .ok cs
  | some a =>
    match cs[a]? with
    | some (some _) => .ok (cs.set a none)
    | _ => .error .outOfBounds

/-- `while (p) { next = p->next; ..; free(p); p = next; }`, at most so many turns. `each` gives
back what a node owns. -/
def freeLoop (each : α → σ → Except Fault (Option σ)) :
    Nat → Option Nat → Cells α → σ → Except Fault (Option (Cells α × σ))
  | 0, _, _, _ => .ok none
  | _ + 1, none, c, s => .ok (some (c, s))
  | turns + 1, some a, c, s => do
    let node ← readCell c (some a)
    match ← each node.val s with
    | none => return none
    | some s => do
      let c ← free c (some a)
      freeLoop each turns node.next c s

/-! ## What is left -/

/-- The cells after the nodes `as` were given back. -/
def wipe (as : List Nat) (c : Cells α) : Cells α :=
  as.foldl (fun c a => c.set a none) c

theorem wipe_append (as bs : List Nat) (c : Cells α) : wipe (as ++ bs) c = wipe bs (wipe as c) :=
  List.foldl_append

@[simp] theorem length_wipe (as : List Nat) (c : Cells α) : (wipe as c).length = c.length := by
  induction as generalizing c with
  | nil => rfl
  | cons a as ih =>
    show (wipe as (c.set a none)).length = c.length
    rw [ih, List.length_set]

/-- The other nodes are as they were. -/
theorem wipe_of_not_mem {as : List Nat} {cs : Cells α} {i : Nat} (hi : i ∉ as) : (wipe as cs)[i]? = cs[i]? := by
  induction as generalizing cs with
  | nil => rfl
  | cons a as ih =>
    show (wipe as (cs.set a none))[i]? = cs[i]?
    rw [ih (List.not_mem_of_not_mem_cons hi), List.getElem?_set_ne (Ne.symm (List.ne_of_not_mem_cons hi))]

theorem wipe_of_mem {as : List Nat} {c : Cells α} {i : Nat} (hi : i ∈ as) (hlt : i < c.length) :
    (wipe as c)[i]? = some none := by
  induction as generalizing c with
  | nil => cases hi
  | cons a as ih =>
    show (wipe as (c.set a none))[i]? = some none
    by_cases hmem : i ∈ as
    · exact ih hmem (by rw [List.length_set]; exact hlt)
    · obtain rfl : i = a := (List.mem_cons.mp hi).resolve_right hmem
      rw [wipe_of_not_mem hmem, List.getElem?_set_self hlt]

/-- Everything was given back exactly if nothing was left out. -/
theorem reclaimed_wipe_iff {as : List Nat} {h : Heap α} :
    Reclaimed (wipe as (cells h)) ↔ ∀ i < h.length, i ∈ as := by
  have hlength : (wipe as (cells h)).length = h.length := by rw [length_wipe, cells, List.length_map]
  constructor
  · intro hall i hi
    by_contra hmem
    have hget : (wipe as (cells h))[i]? = some (some h[i]) := by
      rw [wipe_of_not_mem hmem, cells, List.getElem?_map, List.getElem?_eq_getElem hi]
      rfl
    have hcell := hall _ (List.mem_of_getElem? hget)
    cases hcell
  · intro hall cell hcell
    rcases List.mem_iff_getElem?.mp hcell with ⟨i, hi⟩
    have hlt : i < h.length := hlength ▸ (List.getElem?_eq_some_iff.mp hi).1
    rw [wipe_of_mem (hall i hlt) (by rw [cells, List.length_map]; exact hlt)] at hi
    exact (Option.some.inj hi).symm

/-- Different nodes are all of them if there are as many. -/
theorem forall_mem_of_length_eq {as : List Nat} {n : Nat} (hnd : as.Nodup) (hlt : ∀ a ∈ as, a < n)
    (hlength : as.length = n) : ∀ i < n, i ∈ as := by
  intro i hi
  have hsub : as ⊆ List.range n := fun a ha => List.mem_range.mpr (hlt a ha)
  have hperm : as.Perm (List.range n) :=
    (List.subperm_of_subset hnd hsub).perm_of_length_le (by rw [List.length_range, hlength])
  exact hperm.mem_iff.mpr (List.mem_range.mpr hi)

/-- The later nodes of a list are still there when the earlier ones were given back. -/
theorem not_mem_gone_append {gone as bs : List Nat} (hnd : (as ++ bs).Nodup) (hgone : ∀ a ∈ as ++ bs, a ∉ gone) :
    ∀ b ∈ bs, b ∉ gone ++ as := by
  intro b hb hmem
  rcases List.mem_append.mp hmem with hmem | hmem
  · exact hgone b (List.mem_append_right _ hb) hmem
  · exact (List.nodup_append.mp hnd).2.2 b hmem b hb rfl

/-! ## One node -/

section Single

variable {h : Heap α} {gone : List Nat} {a : Nat} {n : Node α}

theorem readCell_wipe (hn : h[a]? = some n) (ha : a ∉ gone) : readCell (wipe gone (cells h)) (some a) = .ok n := by
  have hget : (wipe gone (cells h))[a]? = some (some n) := by
    rw [wipe_of_not_mem ha, cells, List.getElem?_map, hn]
    rfl
  simp only [readCell, hget]

theorem free_wipe (hn : h[a]? = some n) (ha : a ∉ gone) :
    free (wipe gone (cells h)) (some a) = .ok (wipe (gone ++ [a]) (cells h)) := by
  have hget : (wipe gone (cells h))[a]? = some (some n) := by
    rw [wipe_of_not_mem ha, cells, List.getElem?_map, hn]
    rfl
  simp only [free, hget, wipe_append]
  rfl

/-- What was given back is not given back again. -/
theorem free_wipe_of_mem (ha : a ∈ gone) : free (wipe gone (cells h)) (some a) = .error .outOfBounds := by
  rcases Nat.lt_or_ge a h.length with hlt | hge
  · have hget := wipe_of_mem (c := cells h) ha (by rw [cells, List.length_map]; exact hlt)
    simp only [free, hget]
  · have hget : (wipe gone (cells h))[a]? = none := by
      rw [List.getElem?_eq_none_iff, length_wipe, cells, List.length_map]
      exact hge
    simp only [free, hget]

end Single

/-! ## Lists -/

/-- `each` gives back what the nodes with the payloads `xs` own, one behind the other. -/
inductive Gives (each : α → σ → Except Fault (Option σ)) : List α → σ → σ → Prop where
  | nil (s : σ) : Gives each [] s s
  | cons {x : α} {xs : List α} {s s' s'' : σ} (hx : each x s = .ok (some s')) (hxs : Gives each xs s' s'') :
      Gives each (x :: xs) s s''

variable {each : α → σ → Except Fault (Option σ)} {h : Heap α} {p : Option Nat} {as gone : List Nat} {xs : List α}

/-- The loop gives back the nodes of the list and what they own. -/
theorem Path.freeLoop_eq (hp : Path h p as xs) (hnd : as.Nodup) (hgone : ∀ a ∈ as, a ∉ gone) {turns : Nat}
    (hturns : as.length < turns) {s s' : σ} (hgives : Gives each xs s s') :
    freeLoop each turns p (wipe gone (cells h)) s = .ok (some (wipe (gone ++ as) (cells h), s')) := by
  induction hp generalizing gone turns s with
  | nil =>
    cases hgives
    cases turns with
    | zero => cases hturns
    | succ turns =>
      rw [List.append_nil]
      rfl
  | @cons a n as xs hn _ ih =>
    cases turns with
    | zero => cases hturns
    | succ turns =>
      cases hgives with
      | cons hx hxs =>
        have hfirst : a ∉ gone := hgone a List.mem_cons_self
        have hothers := @not_mem_gone_append gone [a] as hnd hgone
        have hrest := ih (List.nodup_cons.mp hnd).2 hothers (Nat.lt_of_succ_lt_succ hturns) hxs
        rw [List.append_assoc, List.singleton_append] at hrest
        unfold freeLoop
        simp only [readCell_wipe hn hfirst, bind_ok, hx, free_wipe hn hfirst]
        exact hrest

/-- Nodes that own nothing. -/
def freeNothing : α → Unit → Except Fault (Option Unit) :=
  fun _ s => .ok (some s)

theorem gives_freeNothing (xs : List α) : Gives freeNothing xs () () := by
  induction xs with
  | nil => exact .nil ()
  | cons x xs ih => exact .cons rfl ih

/-- Nodes that own buffers, in the order in which these are given back. -/
def freeOwned {β : Type} (owned : α → List (Option Nat)) : α → Cells β → Except Fault (Option (Cells β)) :=
  fun x c => do
    let c ← (owned x).foldlM free c
    return some c

/-- The buffers that `ps` points at, without the NULL pointers. -/
theorem foldlM_free_wipe {β : Type} {h : Heap β} {ps : List (Option Nat)} {gone : List Nat}
    (hnd : (ps.filterMap id).Nodup) (hgone : ∀ a ∈ ps.filterMap id, a ∉ gone)
    (hlt : ∀ a ∈ ps.filterMap id, a < h.length) :
    ps.foldlM free (wipe gone (cells h)) = .ok (wipe (gone ++ ps.filterMap id) (cells h)) := by
  induction ps generalizing gone with
  | nil =>
    rw [List.filterMap_nil, List.append_nil]
    rfl
  | cons p ps ih =>
    rw [List.foldlM_cons]
    cases p with
    | none =>
      have hcons : (none :: ps).filterMap id = ps.filterMap id := List.filterMap_cons_none rfl
      rw [hcons] at *
      exact ih hnd hgone hlt
    | some a =>
      have hcons : (some a :: ps).filterMap id = a :: ps.filterMap id := List.filterMap_cons_some rfl
      rw [hcons] at *
      have hget := List.getElem?_eq_getElem (hlt a List.mem_cons_self)
      have hothers := @not_mem_gone_append gone [a] (ps.filterMap id) hnd hgone
      have hrest := ih (List.nodup_cons.mp hnd).2 hothers fun b hb => hlt b (List.mem_cons_of_mem _ hb)
      rw [List.append_assoc, List.singleton_append] at hrest
      rw [free_wipe hget (hgone a List.mem_cons_self), bind_ok]
      exact hrest

/-- Nodes that own different buffers. -/
theorem gives_freeOwned {β : Type} {h : Heap β} {owned : α → List (Option Nat)} {xs : List α} {gone : List Nat}
    (hnd : ((xs.flatMap owned).filterMap id).Nodup) (hgone : ∀ a ∈ (xs.flatMap owned).filterMap id, a ∉ gone)
    (hlt : ∀ a ∈ (xs.flatMap owned).filterMap id, a < h.length) :
    Gives (freeOwned owned) xs (wipe gone (cells h))
      (wipe (gone ++ (xs.flatMap owned).filterMap id) (cells h)) := by
  induction xs generalizing gone with
  | nil =>
    rw [List.flatMap_nil, List.filterMap_nil, List.append_nil]
    exact .nil _
  | cons x xs ih =>
    rw [List.flatMap_cons, List.filterMap_append] at *
    rcases List.nodup_append.mp hnd with ⟨hndx, hndxs, -⟩
    have hrest := ih hndxs (not_mem_gone_append hnd hgone) fun a ha => hlt a (List.mem_append_right _ ha)
    rw [List.append_assoc] at hrest
    refine .cons ?_ hrest
    have hown := foldlM_free_wipe (h := h) hndx (fun a ha => hgone a (List.mem_append_left _ ha))
      fun a ha => hlt a (List.mem_append_left _ ha)
    unfold freeOwned
    rw [hown, bind_ok]
    rfl

/-! ## Lists of lists -/

/-- A list of nodes that own nothing. -/
def freeList {β : Type} (turns : Nat) : Option Nat → Cells β → Except Fault (Option (Cells β)) :=
  fun p c => do
    match ← freeLoop freeNothing turns p c () with
    | none => return none
    | some (c, _) => return some c

/-- The lists are given back one behind the other. -/
theorem Chains.gives {β : Type} {h : Heap β} {cs : List (Chain β)} (hcs : Chains h cs) {gone : List Nat}
    (hgone : ∀ a ∈ cs.flatMap Chain.nodes, a ∉ gone) {turns : Nat}
    (hturns : ∀ c ∈ cs, c.nodes.length < turns) :
    Gives (freeList turns) (cs.map Chain.head) (wipe gone (cells h))
      (wipe (gone ++ cs.flatMap Chain.nodes) (cells h)) := by
  induction cs generalizing gone with
  | nil =>
    rw [List.flatMap_nil, List.append_nil]
    exact .nil _
  | cons c cs ih =>
    rw [List.flatMap_cons] at *
    have hnd := hcs.nodup
    rw [List.flatMap_cons] at hnd
    rcases List.nodup_append.mp hnd with ⟨hndc, hndcs, -⟩
    have htail : Chains h cs := ⟨fun d hd => hcs.path d (List.mem_cons_of_mem _ hd), hndcs⟩
    have hrest := ih htail (not_mem_gone_append hnd hgone) fun d hd => hturns d (List.mem_cons_of_mem _ hd)
    rw [List.append_assoc] at hrest
    refine .cons ?_ hrest
    have hgonec : ∀ a ∈ c.nodes, a ∉ gone := fun a ha => hgone a (List.mem_append_left _ ha)
    have hlist := (hcs.path c List.mem_cons_self).freeLoop_eq hndc hgonec (hturns c List.mem_cons_self)
      (gives_freeNothing c.payloads)
    unfold freeList
    rw [hlist, bind_ok]
    rfl

/-! ## Lists that fill their heap -/

/-- A path through as many different nodes as the heap has. -/
theorem Path.reclaimed (hp : Path h p as xs) (hnd : as.Nodup) (hlength : h.length = xs.length) :
    Reclaimed (wipe as (cells h)) := by
  rw [reclaimed_wipe_iff]
  exact forall_mem_of_length_eq hnd hp.lt_length (hp.length_eq.trans hlength.symm)

/-- The nodes of a list are given back, and they were all there were. -/
theorem Linked.freeList_reclaims {last : Option Nat} (hl : Linked h p last xs) (hlength : h.length = xs.length)
    {turns : Nat} (hturns : xs.length < turns) :
    ∃ c, freeList turns p (cells h) = .ok (some c) ∧ Reclaimed c := by
  rcases hl with ⟨as, hp, hnd, -⟩
  have hgone : ∀ a ∈ as, a ∉ ([] : List Nat) := fun a _ => List.not_mem_nil
  have hloop := hp.freeLoop_eq hnd hgone (hp.length_eq ▸ hturns) (gives_freeNothing xs)
  refine ⟨wipe as (cells h), ?_, hp.reclaimed hnd hlength⟩
  unfold freeList
  have hstart : freeLoop freeNothing turns p (cells h) () = .ok (some (wipe as (cells h), ())) := hloop
  rw [hstart, bind_ok]
  rfl

end CMem
