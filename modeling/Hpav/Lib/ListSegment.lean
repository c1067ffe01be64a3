import Mathlib.Tactic.Common
import Hpav.Lib.CMem

/-!
# Segments of linked lists

A list is changed in place by storing into `next` of one of its nodes. `Segment h p as q` says
that following `next` from `p` visits the nodes `as` and comes to `q`; a store into a node
leaves the segments without this node as they are, which gives the rules for inserting a node
behind another one and for unlinking one.
-/

namespace CMem

variable {α : Type}

/-- `*p` -/
def readNode (h : Heap α) (p : Option Nat) : Except Fault (Node α) :=
  match p with
  | none => .error .nullDeref
  | some a =>
    match h[a]? with
    | none => .error .outOfBounds
    | some n => .ok n

theorem readNode_some {h : Heap α} {a : Nat} {n : Node α} (hn : h[a]? = some n) : readNode h (some a) = .ok n := by
  simp only [readNode, hn]

theorem setNext_some {h : Heap α} {a : Nat} {n : Node α} (hn : h[a]? = some n) (q : Option Nat) :
    setNext h (some a) q = .ok (h.set a { n with next := q }) := by
  simp only [setNext, hn]

/-- A store into `next` leaves the payloads as they are. -/
theorem map_val_setNext {h h' : Heap α} {p q : Option Nat} (hset : setNext h p q = .ok h') :
    h'.map (·.val) = h.map (·.val) := by
  cases p with
  | none => cases hset
  | some a =>
    cases hn : h[a]? with
    | none =>
      simp only [setNext, hn] at hset
      cases hset
    | some n =>
      rw [setNext_some hn] at hset
      injection hset with hset
      rw [← hset]
      apply List.ext_getElem?
      intro i
      rw [List.getElem?_map, List.getElem?_map]
      by_cases hi : a = i
      · subst hi
        rw [List.getElem?_set_self (List.getElem?_eq_some_iff.mp hn).1, hn]
        rfl
      · rw [List.getElem?_set_ne hi]

/-- Following `next` from `p` visits the addresses `as` and comes to `q`. -/
inductive Segment (h : Heap α) : Option Nat → List Nat → Option Nat → Prop where
  | nil (p : Option Nat) : Segment h p [] p
  | cons {a : Nat} {n : Node α} {as : List Nat} {q : Option Nat} (hn : h[a]? = some n)
      (ht : Segment h n.next as q) : Segment h (some a) (a :: as) q

variable {h : Heap α} {p q r : Option Nat} {as bs : List Nat}

theorem Segment.append (hp : Segment h p as r) (hr : Segment h r bs q) : Segment h p (as ++ bs) q := by
  induction hp with
  | nil => exact hr
  | cons hn _ ih => exact .cons hn (ih hr)

theorem Segment.split (hp : Segment h p (as ++ bs) q) : ∃ r, Segment h p as r ∧ Segment h r bs q := by
  induction as generalizing p with
  | nil => exact ⟨p, .nil p, hp⟩
  | cons a as ih =>
    cases hp with
    | cons hn ht =>
      obtain ⟨r, hr, hq⟩ := ih ht
      exact ⟨r, .cons hn hr, hq⟩

theorem Segment.lt_length (hp : Segment h p as q) : ∀ a ∈ as, a < h.length := by
  induction hp with
  | nil =>
    intro a ha
    cases ha
  | cons hn _ ih =>
    intro b hb
    rcases List.mem_cons.mp hb with rfl | hb
    · exact (List.getElem?_eq_some_iff.mp hn).1
    · exact ih b hb

theorem Segment.get (hp : Segment h p as q) {a : Nat} (ha : a ∈ as) : ∃ n, h[a]? = some n :=
  ⟨_, List.getElem?_eq_getElem (hp.lt_length a ha)⟩

/-- A store elsewhere. -/
theorem Segment.set (hp : Segment h p as q) {a : Nat} (ha : a ∉ as) (n : Node α) : Segment (h.set a n) p as q := by
  induction hp with
  | nil => exact .nil _
  | cons hn _ ih =>
    refine .cons ?_ (ih (List.not_mem_of_not_mem_cons ha))
    rw [List.getElem?_set_ne (List.ne_of_not_mem_cons ha)]
    exact hn

/-- A store that keeps `next`. -/
theorem Segment.set_val (hp : Segment h p as q) {a : Nat} {n : Node α} (hn : h[a]? = some n) (v : α) :
    Segment (h.set a { n with val := v }) p as q := by
  induction hp with
  | nil => exact .nil _
  | @cons b m as q hm _ ih =>
    by_cases hab : a = b
    · subst hab
      obtain rfl : m = n := Option.some.inj (hm.symm.trans hn)
      refine .cons (n := { m with val := v }) ?_ ih
      rw [List.getElem?_set_self (List.getElem?_eq_some_iff.mp hn).1]
    · refine .cons ?_ ih
      rw [List.getElem?_set_ne hab]
      exact hm

/-- Later allocations. -/
theorem Segment.heap_append (hp : Segment h p as q) (t : Heap α) : Segment (h ++ t) p as q := by
  induction hp with
  | nil => exact .nil _
  | cons hn _ ih =>
    have hlt := (List.getElem?_eq_some_iff.mp hn).1
    refine .cons ?_ ih
    rw [List.getElem?_append_left hlt]
    exact hn

theorem Segment.eq_of_nil (hp : Segment h p [] q) : p = q := by
  cases hp
  rfl

/-- `next` of the last node is where the segment comes to. -/
theorem Segment.next_last {a : Nat} {n : Node α} (hp : Segment h p (as ++ [a]) q) (hn : h[a]? = some n) : n.next = q := by
  obtain ⟨r, -, hr⟩ := hp.split
  cases hr with
  | cons hm ht =>
    obtain rfl := Option.some.inj (hn.symm.trans hm)
    exact ht.eq_of_nil

/-- Storing into `next` of the last node turns the end of a segment. -/
theorem Segment.set_last {a : Nat} {n : Node α} (hp : Segment h p (as ++ [a]) q) (hn : h[a]? = some n)
    (ha : a ∉ as) (r : Option Nat) : Segment (h.set a { n with next := r }) p (as ++ [a]) r := by
  obtain ⟨s, hs, hq⟩ := hp.split
  refine (hs.set ha _).append ?_
  cases hq with
  | cons hm ht =>
    refine .cons (n := { n with next := r }) ?_ (.nil r)
    rw [List.getElem?_set_self (List.getElem?_eq_some_iff.mp hn).1]

/-- `new->next = prev->next; prev->next = new;` -/
theorem Segment.insert {a b : Nat} {m n : Node α} (hp : Segment h p (as ++ [a]) r) (hr : Segment h r bs q)
    (hn : h[a]? = some n) (hm : h[b]? = some m) (ha : a ∉ as) (habs : a ∉ bs) (hb : b ∉ as ++ [a]) (hbbs : b ∉ bs) :
    ∃ h' h'', setNext h (some b) n.next = .ok h' ∧ setNext h' (some a) (some b) = .ok h'' ∧
      Segment h'' p (as ++ [a] ++ b :: bs) q ∧ h''.map (·.val) = h.map (·.val) := by
  have hab : b ≠ a := by
    rintro rfl
    exact hb (by simp)
  have hnext := hp.next_last hn
  have hn' : (h.set b { m with next := n.next })[a]? = some n := by
    rw [List.getElem?_set_ne hab]
    exact hn
  refine ⟨_, _, setNext_some hm _, setNext_some hn' _, ?_, ?_⟩
  · have hfront := (hp.set hb { m with next := n.next }).set_last hn' ha (some b)
    refine hfront.append (.cons (n := { m with next := n.next }) ?_ ?_)
    · rw [List.getElem?_set_ne (Ne.symm hab), List.getElem?_set_self (List.getElem?_eq_some_iff.mp hm).1]
    · rw [hnext]
      exact (hr.set hbbs _).set habs _
  · rw [map_val_setNext (setNext_some hn' (some b)), map_val_setNext (setNext_some hm n.next)]

/-- A node goes in front of a list. -/
theorem Segment.insert_front {b : Nat} {m : Node α} (hp : Segment h p as q) (hm : h[b]? = some m) (hb : b ∉ as) :
    ∃ h', setNext h (some b) p = .ok h' ∧ Segment h' (some b) (b :: as) q ∧ h'.map (·.val) = h.map (·.val) := by
  refine ⟨_, setNext_some hm p, ?_, map_val_setNext (setNext_some hm p)⟩
  refine .cons (n := { m with next := p }) ?_ (hp.set hb _)
  rw [List.getElem?_set_self (List.getElem?_eq_some_iff.mp hm).1]

/-- A node goes behind the first ones of a list without repetition. -/
theorem Segment.insert_behind {b : Nat} {m : Node α} (hp : Segment h p (as ++ bs) q) (hne : as ≠ [])
    (hnd : (as ++ bs).Nodup) (hm : h[b]? = some m) (hb : b ∉ as ++ bs) :
    ∃ prev h' h'', h[as.getLast hne]? = some prev ∧ setNext h (some b) prev.next = .ok h' ∧
      setNext h' (some (as.getLast hne)) (some b) = .ok h'' ∧ Segment h'' p (as ++ b :: bs) q ∧
      h''.map (·.val) = h.map (·.val) := by
  have hcut := List.dropLast_append_getLast hne
  generalize as.getLast hne = a at hcut ⊢
  obtain ⟨r, hfront, hback⟩ := hp.split
  rw [← hcut] at hfront hnd hb ⊢
  obtain ⟨hndfront, -, hdisjoint⟩ := List.nodup_append.mp hnd
  obtain ⟨-, -, hdisjoint'⟩ := List.nodup_append.mp hndfront
  have hlast : a ∈ as.dropLast ++ [a] := List.mem_append_right _ (List.mem_singleton_self a)
  obtain ⟨prev, hprev⟩ := hfront.get hlast
  obtain ⟨h', h'', hset, hset', hseg, hval⟩ := hfront.insert hback hprev hm
    (fun hmem => hdisjoint' a hmem a (List.mem_singleton_self a) rfl) (fun hmem => hdisjoint a hlast a hmem rfl)
    (fun hmem => hb (List.mem_append_left _ hmem)) (fun hmem => hb (List.mem_append_right _ hmem))
  exact ⟨prev, h', h'', hprev, hset, hset', hseg, hval⟩

/-- `prev->next = current->next;` -/
theorem Segment.unlink {a : Nat} {n : Node α} (hp : Segment h p (as ++ [a]) q) (hr : Segment h r bs none)
    (hn : h[a]? = some n) (ha : a ∉ as) (habs : a ∉ bs) :
    ∃ h', setNext h (some a) r = .ok h' ∧ Segment h' p (as ++ [a]) r ∧ Segment h' r bs none :=
  ⟨_, setNext_some hn _, hp.set_last hn ha r, hr.set habs _⟩

/-! ## The nodes of a list -/

/-- The nodes that are visited from `p`, at most so many of them. -/
def listNodesLoop (h : Heap α) : Nat → Option Nat → List Nat
  | 0, _ => []
  | _ + 1, none => []
  | turns + 1, some a =>
    match h[a]? with
    | none => []
    | some n => a :: listNodesLoop h turns n.next

/-- The nodes of the list at `p`. -/
def listNodes (h : Heap α) (p : Option Nat) : List Nat :=
  listNodesLoop h h.length p

theorem Segment.listNodesLoop_eq (hp : Segment h p as none) {turns : Nat} (hturns : as.length ≤ turns) :
    listNodesLoop h turns p = as := by
  induction as generalizing p turns with
  | nil =>
    obtain rfl := hp.eq_of_nil
    cases turns with
    | zero => rfl
    | succ turns => rfl
  | cons a as ih =>
    cases hp with
    | cons hn ht =>
      cases turns with
      | zero => cases hturns
      | succ turns =>
        simp only [listNodesLoop, hn]
        rw [ih ht (Nat.le_of_succ_le_succ hturns)]

/-- Different nodes of a heap are no more than the heap has. -/
theorem length_le_of_nodup (hnd : as.Nodup) (hlt : ∀ a ∈ as, a < h.length) : as.length ≤ h.length := by
  have hsub : as ⊆ List.range h.length := fun a ha => List.mem_range.mpr (hlt a ha)
  have hle := (List.subperm_of_subset hnd hsub).length_le
  rwa [List.length_range] at hle

theorem Segment.listNodes_eq (hp : Segment h p as none) (hnd : as.Nodup) : listNodes h p = as :=
  hp.listNodesLoop_eq (length_le_of_nodup hnd hp.lt_length)

/-- Reading the list gives the payloads of its nodes. -/
theorem Segment.chain_eq (hp : Segment h p as none) (hnd : as.Nodup) :
    chain h p = as.filterMap fun a => (h[a]?).map (·.val) := by
  have hpath : ∀ {p : Option Nat} {as : List Nat}, Segment h p as none →
      Path h p as (as.filterMap fun a => (h[a]?).map (·.val)) := by
    intro p as hp
    induction as generalizing p with
    | nil =>
      obtain rfl := hp.eq_of_nil
      exact .nil
    | cons a as ih =>
      cases hp with
      | cons hn ht =>
        have htail := ih ht
        rw [List.filterMap_cons_some (by rw [hn]; rfl)]
        exact .cons hn htail
  exact (hpath hp).walk_eq _ (length_le_of_nodup hnd hp.lt_length)

end CMem
