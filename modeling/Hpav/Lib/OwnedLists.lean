import Mathlib.Logic.Function.Basic
import Mathlib.Tactic.Common
import Hpav.Lib.Reclaim

/-!
# Who owns which node

Several owners share a memory: an address belongs to one of them, or it was given back.
`Shares n gone own` says so of the first `n` addresses, and has a rule for each way in which
they change hands: a new one is taken, all of one owner go to another, all of one owner are
given back. `OwnedLists` are lists in one heap whose nodes are shared that way. A node can be put
in front of a list (`OwnedLists.push`), a list behind another (`OwnedLists.join`), and a list can be
given back (`OwnedLists.release`), in any order; the cells that are left stand for the lists.
-/

namespace CMem

variable {κ α : Type}

/-! ## Shares -/

/-- Of the first `n` addresses, the ones without an owner are those in `gone`. -/
structure OwnedBy (owner : Nat → Option κ) (n : Nat) (gone : List Nat) (own : κ → List Nat) : Prop where
  nodup : ∀ k, (own k).Nodup
  mem_iff : ∀ k a, a ∈ own k ↔ owner a = some k
  gone_iff : ∀ a, a ∈ gone ↔ a < n ∧ owner a = none
  fresh : ∀ a, n ≤ a → owner a = none

/-- Each of the first `n` addresses was given back, or is owned by one `k`. -/
def Shares (n : Nat) (gone : List Nat) (own : κ → List Nat) : Prop :=
  ∃ owner, OwnedBy owner n gone own

section Reading

variable {n : Nat} {gone : List Nat} {own own' : κ → List Nat}

/-- At first nothing is owned. -/
theorem Shares.start : Shares 0 [] fun _ : κ => [] := by
  refine ⟨fun _ => none, ?_, ?_, ?_, ?_⟩
  · intro k
    exact List.nodup_nil
  · intro k a
    simp
  · intro a
    simp
  · intro a _
    rfl

/-- Nobody owns an address twice. -/
theorem Shares.nodup (hs : Shares n gone own) (k : κ) : (own k).Nodup := by
  rcases hs with ⟨owner, ho⟩
  exact ho.nodup k

/-- Two owners share no address. -/
theorem Shares.disjoint (hs : Shares n gone own) {k j : κ} (hkj : k ≠ j) {a : Nat} (ha : a ∈ own k) : a ∉ own j := by
  rcases hs with ⟨owner, ho⟩
  intro hj
  rw [ho.mem_iff] at ha hj
  rw [ha] at hj
  exact hkj (Option.some.inj hj)

/-- What is owned was not given back. -/
theorem Shares.live (hs : Shares n gone own) {k : κ} : ∀ a ∈ own k, a ∉ gone := by
  rcases hs with ⟨owner, ho⟩
  intro a ha hgone
  rw [ho.mem_iff] at ha
  have hnone := ((ho.gone_iff a).mp hgone).2
  rw [ha] at hnone
  cases hnone

/-- What is owned is allocated. -/
theorem Shares.lt (hs : Shares n gone own) {k : κ} : ∀ a ∈ own k, a < n := by
  rcases hs with ⟨owner, ho⟩
  intro a ha
  by_contra hge
  rw [ho.mem_iff, ho.fresh a (Nat.le_of_not_lt hge)] at ha
  cases ha

/-- What was freed was allocated. -/
theorem Shares.gone_lt (hs : Shares n gone own) : ∀ a ∈ gone, a < n := by
  rcases hs with ⟨owner, ho⟩
  intro a ha
  exact ((ho.gone_iff a).mp ha).1

/-- Everything was given back exactly if nobody owns anything. -/
theorem Shares.all_gone_iff (hs : Shares n gone own) : (∀ a < n, a ∈ gone) ↔ ∀ k, own k = [] := by
  constructor
  · intro hall k
    apply List.eq_nil_iff_forall_not_mem.mpr
    intro a ha
    exact hs.live a ha (hall a (hs.lt a ha))
  · intro hnone a ha
    rcases hs with ⟨owner, ho⟩
    refine (ho.gone_iff a).mpr ⟨ha, ?_⟩
    cases howner : owner a with
    | none => rfl
    | some k =>
      have hmem := (ho.mem_iff k a).mpr howner
      rw [hnone k] at hmem
      cases hmem

/-- The order of what an owner has does not matter. -/
theorem Shares.perm (hs : Shares n gone own) (hperm : ∀ k, (own' k).Perm (own k)) : Shares n gone own' := by
  rcases hs with ⟨owner, ho⟩
  refine ⟨owner, ?_, ?_, ho.gone_iff, ho.fresh⟩
  · intro k
    exact (hperm k).nodup_iff.mpr (ho.nodup k)
  · intro k a
    rw [(hperm k).mem_iff, ho.mem_iff]

end Reading

section Changes

variable [DecidableEq κ] {n : Nat} {gone : List Nat} {own : κ → List Nat}

/-- A new address. -/
theorem Shares.take (hs : Shares n gone own) (k : κ) : Shares (n + 1) gone (Function.update own k (n :: own k)) := by
  have hlt := hs.lt (k := k)
  rcases hs with ⟨owner, ho⟩
  refine ⟨Function.update owner n (some k), ?_, ?_, ?_, ?_⟩
  · intro i
    by_cases hi : i = k
    · subst hi
      rw [Function.update_self]
      exact List.nodup_cons.mpr ⟨fun hmem => Nat.lt_irrefl n (hlt n hmem), ho.nodup i⟩
    · rw [Function.update_of_ne hi]
      exact ho.nodup i
  · intro i a
    have hmem := ho.mem_iff i a
    have hfresh := ho.fresh n (Nat.le_refl n)
    simp only [Function.update_apply]
    grind
  · intro a
    have hgone := ho.gone_iff a
    simp only [Function.update_apply]
    grind
  · intro a ha
    rw [Function.update_of_ne (by omega), ho.fresh a (by omega)]

/-- What `j` owns goes to `k`. -/
theorem Shares.move (hs : Shares n gone own) {k j : κ} (hkj : k ≠ j) :
    Shares n gone (Function.update (Function.update own k (own j ++ own k)) j []) := by
  have hdisjoint : ∀ a ∈ own j, a ∉ own k := fun a ha => hs.disjoint (Ne.symm hkj) ha
  rcases hs with ⟨owner, ho⟩
  refine ⟨fun a => if owner a = some j then some k else owner a, ?_, ?_, ?_, ?_⟩
  · intro i
    simp only [Function.update_apply]
    have hi := ho.nodup i
    have hj := ho.nodup j
    grind
  · intro i a
    have hi := ho.mem_iff i a
    have hj := ho.mem_iff j a
    simp only [Function.update_apply]
    grind
  · intro a
    have hgone := ho.gone_iff a
    grind
  · intro a ha
    rw [ho.fresh a ha]
    rfl

/-- What `k` owns is given back. -/
theorem Shares.drop (hs : Shares n gone own) (k : κ) : Shares n (gone ++ own k) (Function.update own k []) := by
  have hlt := hs.lt (k := k)
  rcases hs with ⟨owner, ho⟩
  refine ⟨fun a => if owner a = some k then none else owner a, ?_, ?_, ?_, ?_⟩
  · intro i
    have hi := ho.nodup i
    simp only [Function.update_apply]
    grind
  · intro i a
    have hi := ho.mem_iff i a
    simp only [Function.update_apply]
    grind
  · intro a
    have hgone := ho.gone_iff a
    have hk := ho.mem_iff k a
    grind
  · intro a ha
    rw [ho.fresh a ha]
    rfl

end Changes

/-! ## Cells -/

/-- `malloc` -/
def mallocCell (c : Cells α) (v : α) : Cells α × Nat :=
  (c ++ [some ⟨v, none⟩], c.length)

/-- `*p = f(*p)` -/
def storeCell (cs : Cells α) (p : Option Nat) (f : Node α → Node α) : Except Fault (Cells α) := do
  let n ← readCell cs p
  match p with
  | none => .error .nullDeref
  | some a => .ok (cs.set a (some (f n)))

/-- `while (p->next) p = p->next;`, at most so many turns. -/
def lastCell (cs : Cells α) : Nat → Nat → Except Fault (Option Nat)
  | 0, _ => .ok none
  | turns + 1, a => do
    let n ← readCell cs (some a)
    match n.next with
    | none => return some a
    | some b => lastCell cs turns b

/-- `for (; p; p = p->next) visit(p);`, at most so many turns. -/
def visitCells {β : Type} (cs : Cells α) (visit : α → Except Fault β) :
    Nat → Option Nat → Except Fault (Option (List β))
  | 0, _ => .ok none
  | _ + 1, none => .ok (some [])
  | turns + 1, some a => do
    let n ← readCell cs (some a)
    let b ← visit n.val
    match ← visitCells cs visit turns n.next with
    | none => return none
    | some bs => return some (b :: bs)

section Cells

variable {h : Heap α} {gone : List Nat}

/-- Freeing takes no cell away. -/
theorem length_wipe_cells (gone : List Nat) (h : Heap α) : (wipe gone (cells h)).length = h.length := by
  rw [length_wipe, cells, List.length_map]

/-- A new cell is not a freed one. -/
theorem wipe_heap_append (hgone : ∀ a ∈ gone, a < h.length) (n : Node α) :
    wipe gone (cells h) ++ [some n] = wipe gone (cells (h ++ [n])) := by
  apply List.ext_getElem?
  intro i
  by_cases hi : i ∈ gone
  · have hlt := hgone i hi
    rw [List.getElem?_append_left (by simpa [cells] using hlt), wipe_of_mem hi (by simpa [cells] using hlt),
      wipe_of_mem hi (by simpa [cells] using Nat.lt_succ_of_lt hlt)]
  · rw [wipe_of_not_mem hi]
    rcases Nat.lt_or_ge i h.length with hlt | hge
    · rw [List.getElem?_append_left (by simpa [cells] using hlt), wipe_of_not_mem hi, cells, cells, List.getElem?_map,
        List.getElem?_map, List.getElem?_append_left hlt]
    · rw [List.getElem?_append_right (by simpa [cells] using hge), length_wipe, cells, cells, List.map_append,
        List.getElem?_append_right (by simpa using hge), List.length_map, List.map_singleton]

/-- A cell that is not freed may be written. -/
theorem wipe_heap_set {a : Nat} (ha : a ∉ gone) (n : Node α) :
    (wipe gone (cells h)).set a (some n) = wipe gone (cells (h.set a n)) := by
  apply List.ext_getElem?
  intro i
  by_cases hia : a = i
  · subst hia
    rw [wipe_of_not_mem ha, cells, cells, List.map_set]
    rcases Nat.lt_or_ge a h.length with hlt | hge
    · rw [List.getElem?_set_self (by simpa using hlt), List.getElem?_set_self (by simpa using hlt)]
    · rw [List.getElem?_eq_none_iff.mpr (by simpa using hge), List.getElem?_eq_none_iff.mpr (by simpa using hge)]
  · rw [List.getElem?_set_ne hia]
    by_cases hi : i ∈ gone
    · rcases Nat.lt_or_ge i h.length with hlt | hge
      · rw [wipe_of_mem hi (by simpa [cells] using hlt), wipe_of_mem hi (by simpa [cells] using hlt)]
      · rw [List.getElem?_eq_none_iff.mpr (by simpa [cells] using hge),
          List.getElem?_eq_none_iff.mpr (by simpa [cells] using hge)]
    · rw [wipe_of_not_mem hi, wipe_of_not_mem hi, cells, cells, List.getElem?_map, List.getElem?_map,
        List.getElem?_set_ne hia]

/-- A cell is allocated behind the others. -/
theorem mallocCell_wipe (hgone : ∀ a ∈ gone, a < h.length) (v : α) :
    mallocCell (wipe gone (cells h)) v = (wipe gone (cells (h ++ [⟨v, none⟩])), h.length) := by
  unfold mallocCell
  rw [wipe_heap_append hgone, length_wipe_cells]

/-- A cell that is not freed is changed. -/
theorem storeCell_wipe {a : Nat} {n : Node α} (hn : h[a]? = some n) (ha : a ∉ gone) (f : Node α → Node α) :
    storeCell (wipe gone (cells h)) (some a) f = .ok (wipe gone (cells (h.set a (f n)))) := by
  unfold storeCell
  rw [readCell_wipe hn ha, bind_ok]
  simp only [wipe_heap_set ha]

/-- A store into the node allocated last. -/
theorem storeCell_fresh (hgone : ∀ a ∈ gone, a < h.length) (n : Node α) (f : Node α → Node α) :
    storeCell (wipe gone (cells (h ++ [n]))) (some h.length) f = .ok (wipe gone (cells (h ++ [f n]))) := by
  have hn : (h ++ [n])[h.length]? = some n := by simp
  rw [storeCell_wipe hn (fun hmem => Nat.lt_irrefl _ (hgone _ hmem)), List.set_append_right _ _ (Nat.le_refl _),
    Nat.sub_self]
  rfl

variable {p : Option Nat} {as : List Nat} {xs : List α}

/-- The walk to the last cell ends at the last of the path. -/
theorem Path.lastCell_eq (hp : Path h p as xs) (hgone : ∀ a ∈ as, a ∉ gone) {a l : Nat} (ha : p = some a)
    (hl : as.getLast? = some l) {turns : Nat} (hturns : as.length ≤ turns) :
    lastCell (wipe gone (cells h)) turns a = .ok (some l) := by
  induction hp generalizing a turns with
  | nil => cases ha
  | @cons b n as xs hn ht ih =>
    obtain rfl : b = a := Option.some.inj ha
    cases turns with
    | zero => cases hturns
    | succ turns =>
      unfold lastCell
      rw [readCell_wipe hn (hgone b List.mem_cons_self), bind_ok]
      cases hnext : n.next with
      | none =>
        rw [hnext] at ht
        cases ht
        obtain rfl : b = l := Option.some.inj hl
        rfl
      | some d =>
        rw [hnext] at ht
        cases ht with
        | cons hm ht' =>
          rw [List.getLast?_cons_cons] at hl
          exact ih (fun a ha => hgone a (List.mem_cons_of_mem b ha)) hnext hl (Nat.le_of_succ_le_succ hturns)

/-- A walk visits the values of the path, in order. -/
theorem Path.visitCells_eq {β : Type} {visit : α → Except Fault β} {bs : List β} (hp : Path h p as xs)
    (hgone : ∀ a ∈ as, a ∉ gone) (hvisit : xs.mapM visit = .ok bs) {turns : Nat} (hturns : as.length < turns) :
    visitCells (wipe gone (cells h)) visit turns p = .ok (some bs) := by
  induction hp generalizing turns bs with
  | nil =>
    rw [List.mapM_nil] at hvisit
    cases hvisit
    cases turns with
    | zero => cases hturns
    | succ turns => rfl
  | @cons a n as xs hn _ ih =>
    cases turns with
    | zero => cases hturns
    | succ turns =>
      rw [List.mapM_cons] at hvisit
      rcases bind_eq_ok.mp hvisit with ⟨b, hb, hvisit⟩
      rcases bind_eq_ok.mp hvisit with ⟨bs', hbs, hpure⟩
      cases hpure
      have hrest := ih (fun a ha => hgone a (List.mem_cons_of_mem _ ha)) hbs (Nat.lt_of_succ_lt_succ hturns)
      unfold visitCells
      rw [readCell_wipe hn (hgone a List.mem_cons_self), bind_ok, hb, bind_ok, hrest]
      rfl

end Cells

/-! ## Lists -/

/-- The empty list. -/
def Chain.empty : Chain α :=
  ⟨none, [], []⟩

/-- A node more in front. -/
def Chain.push (c : Chain α) (a : Nat) (x : α) : Chain α :=
  ⟨some a, a :: c.nodes, x :: c.payloads⟩

/-- One list behind another one. -/
def Chain.join (c d : Chain α) : Chain α :=
  ⟨c.head, c.nodes ++ d.nodes, c.payloads ++ d.payloads⟩

/-- A path that reads nothing starts at NULL. -/
theorem Path.head_nil {h : Heap α} {p : Option Nat} {as : List Nat} (hp : Path h p as []) : p = none := by
  cases hp
  rfl

/-- A path that reads something starts at one of its nodes. -/
theorem Path.head_mem {h : Heap α} {p : Option Nat} {as : List Nat} {x : α} {xs : List α} (hp : Path h p as (x :: xs)) :
    ∃ a, p = some a ∧ a ∈ as := by
  cases hp with
  | cons => exact ⟨_, rfl, List.mem_cons_self⟩

/-- The list at `q` goes behind the last node of a path. -/
theorem Path.join {h : Heap α} {p q : Option Nat} {as bs : List Nat} {xs ys : List α} {l : Nat} {m : Node α}
    (hp : Path h p as xs) (hnd : as.Nodup) (hl : as.getLast? = some l) (hm : h[l]? = some m)
    (hq : Path h q bs ys) (hlb : l ∉ bs) : Path (h.set l { m with next := q }) p (as ++ bs) (xs ++ ys) := by
  induction hp with
  | nil => cases hl
  | @cons a n as xs hn ht ih =>
    rcases List.nodup_cons.mp hnd with ⟨hanot, hndas⟩
    cases as with
    | nil =>
      obtain rfl : a = l := Option.some.inj hl
      obtain rfl : n = m := Option.some.inj (hn.symm.trans hm)
      obtain rfl : xs = [] := List.length_eq_zero_iff.mp ht.length_eq.symm
      refine .cons (n := { n with next := q }) ?_ (hq.set hlb _)
      rw [List.getElem?_set_self (List.getElem?_eq_some_iff.mp hn).1]
    | cons a' as =>
      rw [List.getLast?_cons_cons] at hl
      have hne : l ≠ a := by
        rintro rfl
        exact hanot (List.mem_of_getLast? hl)
      refine .cons ?_ (ih hndas hl)
      rw [List.getElem?_set_ne hne]
      exact hn

section Twice

variable {σ : Type} {each : α → σ → Except Fault (Option σ)} {h : Heap α} {gone : List Nat}

/-- A list that was given back is not given back again. -/
theorem freeLoop_gone (each : α → σ → Except Fault (Option σ)) {a : Nat} (ha : a ∈ gone) (hlt : a < h.length)
    (turns : Nat) (s : σ) :
    freeLoop each (turns + 1) (some a) (wipe gone (cells h)) s = .error .outOfBounds := by
  have hget : (wipe gone (cells h))[a]? = some none := wipe_of_mem ha (by simpa [cells] using hlt)
  have hread : readCell (wipe gone (cells h)) (some a) = .error .outOfBounds := by
    simp only [readCell, hget]
  unfold freeLoop
  rw [hread]
  rfl

/-- The nodes of a list are given back whatever its last node was linked to; the loop goes on from there. -/
theorem Path.freeLoop_linked {p : Option Nat} {as : List Nat} {xs : List α} {l : Nat} {m : Node α} (hp : Path h p as xs)
    (hnd : as.Nodup) (hgone : ∀ a ∈ as, a ∉ gone) (hl : as.getLast? = some l) (hm : h[l]? = some m) {s s' : σ}
    (hgives : Gives each xs s s') (q : Option Nat) (turns : Nat) :
    freeLoop each (as.length + turns) p (wipe gone (cells (h.set l { m with next := q }))) s =
      freeLoop each turns q (wipe (gone ++ as) (cells (h.set l { m with next := q }))) s' := by
  induction hp generalizing gone s with
  | nil => cases hl
  | @cons a n as xs hn ht ih =>
    rcases List.nodup_cons.mp hnd with ⟨hanot, hndas⟩
    have hfirst : a ∉ gone := hgone a List.mem_cons_self
    cases hgives with
    | cons hx hxs =>
      cases as with
      | nil =>
        obtain rfl : a = l := Option.some.inj hl
        obtain rfl : n = m := Option.some.inj (hn.symm.trans hm)
        obtain rfl : xs = [] := List.length_eq_zero_iff.mp ht.length_eq.symm
        cases hxs
        have hn' : (h.set a { n with next := q })[a]? = some { n with next := q } :=
          List.getElem?_set_self (List.getElem?_eq_some_iff.mp hn).1
        rw [List.length_singleton, Nat.add_comm]
        rw [freeLoop]
        simp only [readCell_wipe hn' hfirst, bind_ok, hx, free_wipe hn' hfirst]
      | cons a' as =>
        rw [List.getLast?_cons_cons] at hl
        have hne : l ≠ a := by
          rintro rfl
          exact hanot (List.mem_of_getLast? hl)
        have hn' : (h.set l { m with next := q })[a]? = some n := by
          rw [List.getElem?_set_ne hne]
          exact hn
        have hrest := ih hndas (@not_mem_gone_append gone [a] (a' :: as) hnd hgone) hl hxs
        rw [List.append_assoc, List.singleton_append] at hrest
        rw [List.length_cons, Nat.succ_add, freeLoop]
        simp only [readCell_wipe hn' hfirst, bind_ok, hx, free_wipe hn' hfirst]
        exact hrest

end Twice

/-- The lists are in the heap, and their nodes are the ones that were not given back. -/
structure OwnedLists (h : Heap α) (gone : List Nat) (chainOf : κ → Chain α) : Prop where
  path : ∀ k, Path h (chainOf k).head (chainOf k).nodes (chainOf k).payloads
  shares : Shares h.length gone fun k => (chainOf k).nodes

/-- At first every list is empty. -/
theorem OwnedLists.start : OwnedLists ([] : Heap α) [] fun _ : κ => Chain.empty :=
  ⟨fun _ => .nil, Shares.start⟩

section Lists

variable [DecidableEq κ] {h : Heap α} {gone : List Nat} {chainOf : κ → Chain α}

/-- With one list changed the others own what they did. -/
theorem nodes_update (k : κ) (c : Chain α) :
    (fun i => (Function.update chainOf k c i).nodes) = Function.update (fun i => (chainOf i).nodes) k c.nodes := by
  funext i
  exact Function.apply_update (fun _ => Chain.nodes) chainOf k c i

/-- `new->next = list; list = new;` -/
theorem OwnedLists.push (hl : OwnedLists h gone chainOf) (k : κ) (x : α) :
    OwnedLists (h ++ [⟨x, (chainOf k).head⟩]) gone (Function.update chainOf k ((chainOf k).push h.length x)) := by
  constructor
  · intro i
    by_cases hi : i = k
    · subst hi
      rw [Function.update_self]
      exact .cons (n := ⟨x, (chainOf i).head⟩) (by simp) ((hl.path i).append _)
    · rw [Function.update_of_ne hi]
      exact (hl.path i).append _
  · rw [nodes_update, List.length_append]
    exact hl.shares.take k

/-- `last->next = list; list = second;`, with `last` the last node of the second list. -/
theorem OwnedLists.join (hl : OwnedLists h gone chainOf) {k j : κ} (hkj : k ≠ j) {l : Nat} {m : Node α}
    (hlast : (chainOf j).nodes.getLast? = some l) (hm : h[l]? = some m) :
    OwnedLists (h.set l { m with next := (chainOf k).head }) gone
      (Function.update (Function.update chainOf k ((chainOf j).join (chainOf k))) j Chain.empty) := by
  have hlj : l ∈ (chainOf j).nodes := List.mem_of_getLast? hlast
  constructor
  · intro i
    by_cases hij : i = j
    · subst hij
      rw [Function.update_self]
      exact .nil
    · rw [Function.update_of_ne hij]
      have hli : l ∉ (chainOf i).nodes := hl.shares.disjoint (Ne.symm hij) hlj
      by_cases hik : i = k
      · subst hik
        rw [Function.update_self]
        exact (hl.path j).join (hl.shares.nodup j) hlast hm (hl.path i) hli
      · rw [Function.update_of_ne hik]
        exact (hl.path i).set hli _
  · rw [nodes_update, nodes_update, List.length_set]
    exact hl.shares.move hkj

/-- The nodes of a list are given back. -/
theorem OwnedLists.release (hl : OwnedLists h gone chainOf) (k : κ) :
    OwnedLists h (gone ++ (chainOf k).nodes) (Function.update chainOf k Chain.empty) := by
  constructor
  · intro i
    by_cases hi : i = k
    · subst hi
      rw [Function.update_self]
      exact .nil
    · rw [Function.update_of_ne hi]
      exact hl.path i
  · rw [nodes_update]
    exact hl.shares.drop k

end Lists

/-- No node is left exactly if the lists are empty. -/
theorem OwnedLists.reclaimed_iff {h : Heap α} {gone : List Nat} {chainOf : κ → Chain α}
    (hl : OwnedLists h gone chainOf) : Reclaimed (wipe gone (cells h)) ↔ ∀ k, (chainOf k).nodes = [] := by
  rw [reclaimed_wipe_iff, hl.shares.all_gone_iff]

end CMem
