import Mathlib.Tactic.Common
import Mathlib.Data.List.Induction
import Mathlib.Data.List.Perm.Basic

/-!
# Sorting by insertion behind equals

An element is inserted in front of the first one that has to come later. What is inserted one
after the other is sorted in the end, nothing is lost, and elements that the order does not tell
apart stay in the order in which they were inserted (`filter_insertAll`).
-/

namespace StableInsert

variable {α : Type}

/-- `a` goes behind the elements at the front that may stay in front of it. -/
def insertBehind (le : α → α → Bool) (a : α) : List α → List α
  | [] => [a]
  | b :: l => if le b a then b :: insertBehind le a l else a :: b :: l

/-- The elements of a list are inserted one after the other. -/
def insertAll (le : α → α → Bool) (l : List α) : List α :=
  l.foldl (fun sorted a => insertBehind le a sorted) []

variable {le : α → α → Bool}

/-- The place of the insertion. -/
theorem insertBehind_eq (a : α) (l : List α) :
    insertBehind le a l = l.takeWhile (fun b => le b a) ++ a :: l.dropWhile (fun b => le b a) := by
  induction l with
  | nil => rfl
  | cons b l ih =>
    unfold insertBehind
    by_cases hb : le b a = true
    · rw [if_pos hb, ih, List.takeWhile_cons, List.dropWhile_cons, if_pos hb, if_pos hb, List.cons_append]
    · rw [if_neg hb, List.takeWhile_cons, List.dropWhile_cons, if_neg hb, if_neg hb, List.nil_append]

theorem perm_insertBehind (a : α) (l : List α) : (insertBehind le a l).Perm (a :: l) := by
  rw [insertBehind_eq]
  refine List.perm_middle.trans ?_
  rw [List.takeWhile_append_dropWhile]

theorem pairwise_insertBehind (htotal : ∀ a b, le a b = true ∨ le b a = true)
    (htrans : ∀ a b c, le a b = true → le b c = true → le a c = true) (a : α) {l : List α}
    (h : l.Pairwise fun x y => le x y = true) : (insertBehind le a l).Pairwise fun x y => le x y = true := by
  induction l with
  | nil => exact List.pairwise_singleton _ _
  | cons b l ih =>
    obtain ⟨hb, hl⟩ := List.pairwise_cons.mp h
    unfold insertBehind
    by_cases hba : le b a = true
    · rw [if_pos hba]
      refine List.pairwise_cons.mpr ⟨?_, ih hl⟩
      intro c hc
      rcases List.mem_cons.mp ((perm_insertBehind a l).mem_iff.mp hc) with rfl | hc
      · exact hba
      · exact hb c hc
    · rw [if_neg hba]
      have hab : le a b = true := (htotal a b).resolve_right hba
      refine List.pairwise_cons.mpr ⟨?_, h⟩
      intro c hc
      rcases List.mem_cons.mp hc with rfl | hc
      · exact hab
      · exact htrans a b c hab (hb c hc)

/-- Of elements the order does not tell apart the inserted one is the last. -/
theorem filter_insertBehind (htrans : ∀ a b c, le a b = true → le b c = true → le a c = true) (a : α) {l : List α}
    (h : l.Pairwise fun x y => le x y = true) {p : α → Bool}
    (hclass : ∀ x y, p x = true → p y = true → le x y = true) :
    (insertBehind le a l).filter p = l.filter p ++ [a].filter p := by
  induction l with
  | nil => rfl
  | cons b l ih =>
    obtain ⟨hb, hl⟩ := List.pairwise_cons.mp h
    unfold insertBehind
    by_cases hba : le b a = true
    · rw [if_pos hba]
      by_cases hpb : p b = true
      · rw [List.filter_cons_of_pos hpb, List.filter_cons_of_pos hpb, ih hl, List.cons_append]
      · rw [List.filter_cons_of_neg hpb, List.filter_cons_of_neg hpb, ih hl]
    · rw [if_neg hba]
      by_cases hpa : p a = true
      · -- nothing of the class of `a` can stand behind its place
        have hnone : (b :: l).filter p = [] := by
          rw [List.filter_eq_nil_iff]
          intro c hc hpc
          have hca := hclass c a hpc hpa
          rcases List.mem_cons.mp hc with rfl | hc
          · exact hba hca
          · exact hba (htrans b c a (hb c hc) hca)
        rw [List.filter_cons_of_pos hpa, hnone, List.filter_cons_of_pos hpa, List.nil_append]
        rfl
      · rw [List.filter_cons_of_neg hpa, List.filter_cons_of_neg hpa, List.filter_nil, List.append_nil]

theorem insertAll_concat (l : List α) (a : α) :
    insertAll le (l ++ [a]) = insertBehind le a (insertAll le l) := by
  unfold insertAll
  rw [List.foldl_append]
  rfl

theorem perm_insertAll (l : List α) : (insertAll le l).Perm l := by
  induction l using List.reverseRecOn with
  | nil => exact List.Perm.nil
  | append_singleton l a ih =>
    rw [insertAll_concat]
    refine (perm_insertBehind a _).trans ?_
    refine (ih.cons a).trans ?_
    exact (List.perm_append_singleton a l).symm

theorem pairwise_insertAll (htotal : ∀ a b, le a b = true ∨ le b a = true)
    (htrans : ∀ a b c, le a b = true → le b c = true → le a c = true) (l : List α) :
    (insertAll le l).Pairwise fun x y => le x y = true := by
  induction l using List.reverseRecOn with
  | nil => exact List.Pairwise.nil
  | append_singleton l a ih =>
    rw [insertAll_concat]
    exact pairwise_insertBehind htotal htrans a ih

/-- Elements the order does not tell apart stay in their order. -/
theorem filter_insertAll (htotal : ∀ a b, le a b = true ∨ le b a = true)
    (htrans : ∀ a b c, le a b = true → le b c = true → le a c = true) (l : List α) {p : α → Bool}
    (hclass : ∀ x y, p x = true → p y = true → le x y = true) :
    (insertAll le l).filter p = l.filter p := by
  induction l using List.reverseRecOn with
  | nil => rfl
  | append_singleton l a ih =>
    rw [insertAll_concat, filter_insertBehind htrans a (pairwise_insertAll htotal htrans l) hclass, ih,
      List.filter_append]

end StableInsert
