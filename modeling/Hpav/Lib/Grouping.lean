import Mathlib.Data.List.Perm.Basic
import Mathlib.Data.List.Perm.Lattice
import Mathlib.Data.List.Nodup
import Mathlib.Data.List.Induction
import Mathlib.Data.List.Forall2
import Mathlib.Tactic.Common

/-!
# Grouping a sequence by key, and interleavings

`groups key xs` splits `xs` into the classes of equal `key`: one class per key, in
the order of the first element of each class, and inside a class in the order of
`xs`. `Interleaving ls xs` says that `xs` is some merge of the sequences `ls` that
keeps the order inside each of them. The two meet in `Interleaving.groups_perm`:
grouping undoes a merge of sequences that carry pairwise different keys.
-/

namespace Grouping

variable {α κ : Type} [DecidableEq κ]

/-! ## Classes of equal key -/

/-- The keys of `xs`, each once, in the order of their first occurrence. -/
def firstKeys (key : α → κ) (xs : List α) : List κ :=
  (xs.map key).eraseDups

/-- The elements of `xs` with key `k`. -/
def classOf (key : α → κ) (xs : List α) (k : κ) : List α :=
  xs.filter fun x => key x = k

/-- The classes of `xs`, in the order of their first elements. -/
def groups (key : α → κ) (xs : List α) : List (List α) :=
  (firstKeys key xs).map (classOf key xs)

/-- The keys are those of the elements. -/
theorem mem_firstKeys {key : α → κ} {xs : List α} {k : κ} :
    k ∈ firstKeys key xs ↔ ∃ x ∈ xs, key x = k := by
  simp [firstKeys, List.mem_eraseDups]

/-- Without duplicates no key comes twice. -/
theorem nodup_eraseDups (l : List κ) : l.eraseDups.Nodup := by
  cases l with
  | nil => simp
  | cons a l =>
    rw [List.eraseDups_cons, List.nodup_cons]
    exact ⟨by simp [List.mem_eraseDups], nodup_eraseDups _⟩
termination_by l.length
decreasing_by
  have hlen := List.length_filter_le (fun b => !b == a) l
  simp only [List.length_cons]
  omega

/-- No key comes twice. -/
theorem nodup_firstKeys (key : α → κ) (xs : List α) : (firstKeys key xs).Nodup :=
  nodup_eraseDups _

/-- A known key changes nothing. -/
theorem firstKeys_snoc_of_mem {key : α → κ} {xs : List α} {x : α}
    (h : key x ∈ firstKeys key xs) : firstKeys key (xs ++ [x]) = firstKeys key xs := by
  have hx : key x ∈ xs.map key := by simpa [firstKeys, List.mem_eraseDups] using h
  simp only [firstKeys, List.map_append, List.map_cons, List.map_nil, List.eraseDups_append]
  simp only [List.removeAll]
  rw [List.filter_cons_of_neg (by simpa using hx)]
  simp

/-- A new key comes last. -/
theorem firstKeys_snoc_of_not_mem {key : α → κ} {xs : List α} {x : α}
    (h : key x ∉ firstKeys key xs) : firstKeys key (xs ++ [x]) = firstKeys key xs ++ [key x] := by
  have hx : key x ∉ xs.map key := by simpa [firstKeys, List.mem_eraseDups] using h
  simp only [firstKeys, List.map_append, List.map_cons, List.map_nil, List.eraseDups_append]
  simp only [List.removeAll]
  rw [List.filter_cons_of_pos (by simpa using hx)]
  simp [List.eraseDups_cons]

/-- One element has one key. -/
theorem firstKeys_singleton (key : α → κ) (x : α) : firstKeys key [x] = [key x] := by
  have hnew : key x ∉ firstKeys key [] := List.not_mem_nil
  exact firstKeys_snoc_of_not_mem hnew

/-- An element goes to the end of its class. -/
theorem classOf_snoc (key : α → κ) (xs : List α) (x : α) (k : κ) :
    classOf key (xs ++ [x]) k = if key x = k then classOf key xs k ++ [x] else classOf key xs k := by
  by_cases h : key x = k <;> simp [classOf, h]

/-- A class of two lists is the two classes. -/
theorem classOf_append (key : α → κ) (xs ys : List α) (k : κ) :
    classOf key (xs ++ ys) k = classOf key xs k ++ classOf key ys k := by
  unfold classOf
  rw [List.filter_append]

/-- The groups are the classes of the elements. -/
theorem mem_groups {key : α → κ} {xs g : List α} : g ∈ groups key xs ↔ ∃ x ∈ xs, classOf key xs (key x) = g := by
  unfold groups
  rw [List.mem_map]
  constructor
  · rintro ⟨k, hk, rfl⟩
    obtain ⟨x, hx, rfl⟩ := mem_firstKeys.mp hk
    exact ⟨x, hx, rfl⟩
  · rintro ⟨x, hx, rfl⟩
    exact ⟨key x, mem_firstKeys.mpr ⟨x, hx, rfl⟩, rfl⟩

/-- Elements of one key are one class. -/
theorem groups_of_forall_key {key : α → κ} {xs : List α} {k : κ} (hne : xs ≠ []) (h : ∀ x ∈ xs, key x = k) :
    groups key xs = [xs] := by
  have hclass : classOf key xs k = xs := by
    unfold classOf
    rw [List.filter_eq_self]
    intro x hx
    simpa using h x hx
  have hkeys : firstKeys key xs = [k] := by
    obtain ⟨x, hx⟩ := List.exists_mem_of_ne_nil xs hne
    have hperm : (firstKeys key xs).Perm [k] := by
      rw [List.perm_ext_iff_of_nodup (nodup_firstKeys key xs) (List.nodup_singleton k)]
      intro k'
      rw [mem_firstKeys, List.mem_singleton]
      constructor
      · rintro ⟨y, hy, rfl⟩
        exact h y hy
      · rintro rfl
        exact ⟨x, hx, h x hx⟩
    exact List.perm_singleton.mp hperm
  unfold groups
  rw [hkeys, List.map_singleton, hclass]

/-- There is no element with a key that did not occur. -/
theorem classOf_eq_nil {key : α → κ} {xs : List α} {k : κ} (h : k ∉ firstKeys key xs) : classOf key xs k = [] := by
  rw [classOf, List.filter_eq_nil_iff]
  intro x hx hk
  exact h (mem_firstKeys.mpr ⟨x, hx, by simpa using hk⟩)

/-- No class is empty, and all its elements carry its key. -/
theorem classOf_ne_nil {key : α → κ} {xs : List α} {k : κ} (h : k ∈ firstKeys key xs) :
    classOf key xs k ≠ [] := by
  obtain ⟨x, hx, hk⟩ := mem_firstKeys.mp h
  exact List.ne_nil_of_mem (List.mem_filter.mpr ⟨hx, by simpa using hk⟩)

/-- The elements of a class have its key. -/
theorem key_of_mem_classOf {key : α → κ} {xs : List α} {k : κ} {x : α}
    (h : x ∈ classOf key xs k) : key x = k := by
  simpa using (List.mem_filter.mp h).2

/-- No group is empty. -/
theorem ne_nil_of_mem_groups {key : α → κ} {xs g : List α} (hg : g ∈ groups key xs) : g ≠ [] := by
  obtain ⟨k, hk, rfl⟩ := List.mem_map.mp hg
  exact classOf_ne_nil hk

/-- An element with a key already seen goes to the end of that key's class. -/
theorem groups_snoc_of_mem {key : α → κ} {xs : List α} {x : α} {i : Nat}
    (hi : (firstKeys key xs)[i]? = some (key x)) :
    groups key (xs ++ [x]) = (groups key xs).modify i (· ++ [x]) := by
  have hmem : key x ∈ firstKeys key xs := List.mem_of_getElem? hi
  have hilt := (List.getElem?_eq_some_iff.mp hi).1
  rw [groups, firstKeys_snoc_of_mem hmem]
  apply List.ext_getElem?
  intro j
  rw [List.getElem?_map, List.getElem?_modify, groups, List.getElem?_map]
  cases hj : (firstKeys key xs)[j]? with
  | none => simp
  | some k =>
    simp only [Option.map_some, Option.map_eq_map, classOf_snoc]
    by_cases hij : i = j
    · subst hij
      obtain rfl : key x = k := by simpa [hi] using hj
      simp
    · -- the keys are pairwise different, so position `j` has another key
      have hne : key x ≠ k := by
        intro e
        rw [← e] at hj
        exact hij ((List.getElem?_inj hilt (nodup_firstKeys key xs)).mp (hi.trans hj.symm))
      simp [hne, hij]

/-- An element with a new key starts a class of its own, behind all others. -/
theorem groups_snoc_of_not_mem {key : α → κ} {xs : List α} {x : α}
    (h : key x ∉ firstKeys key xs) : groups key (xs ++ [x]) = groups key xs ++ [[x]] := by
  have hnone : classOf key xs (key x) = [] := classOf_eq_nil h
  rw [groups, firstKeys_snoc_of_not_mem h, List.map_append, groups]
  congr 1
  · apply List.map_congr_left
    intro k hk
    have hne : key x ≠ k := fun e => h (e ▸ hk)
    rw [classOf_snoc, if_neg hne]
  · simp [classOf_snoc, hnone]

/-- The element behind a front is changed. -/
theorem modify_append_cons {β : Type} (f : β → β) (pre : List β) (b : β) (post : List β) :
    (pre ++ b :: post).modify pre.length f = pre ++ f b :: post := by
  induction pre with
  | nil => rfl
  | cons c pre ih =>
    rw [List.cons_append, List.length_cons, List.modify_succ_cons, ih]
    rfl

/-- The class that the element goes to, among the others. -/
theorem groups_snoc_split {key : α → κ} {xs : List α} {x : α} {pre post : List κ}
    (h : firstKeys key xs = pre ++ key x :: post) :
    groups key (xs ++ [x]) =
      pre.map (classOf key xs) ++ (classOf key xs (key x) ++ [x]) :: post.map (classOf key xs) := by
  have hi : (firstKeys key xs)[pre.length]? = some (key x) := by
    rw [h, List.getElem?_append_right (Nat.le_refl _), Nat.sub_self]
    rfl
  have hlen : pre.length = (pre.map (classOf key xs)).length := (List.length_map _).symm
  rw [groups_snoc_of_mem hi, groups, h, List.map_append, List.map_cons, hlen, modify_append_cons]

/-- Every element is in one of the classes, as often as it is there. -/
theorem flatten_groups_perm (key : α → κ) (xs : List α) : (groups key xs).flatten.Perm xs := by
  induction xs using List.reverseRecOn with
  | nil => exact List.Perm.nil
  | append_singleton xs x ih =>
    by_cases hmem : key x ∈ firstKeys key xs
    · obtain ⟨pre, post, hsplit⟩ := List.append_of_mem hmem
      have hold := ih
      rw [groups, hsplit, List.map_append, List.map_cons, List.flatten_append, List.flatten_cons] at hold
      rw [groups_snoc_split hsplit, List.flatten_append, List.flatten_cons]
      refine List.Perm.trans ?_ (hold.append_right [x])
      rw [List.append_assoc, List.append_assoc, List.append_assoc]
      exact (List.perm_append_comm.append_left _).append_left _
    · rw [groups_snoc_of_not_mem hmem, List.flatten_append, List.flatten_singleton]
      exact ih.append_right [x]

/-- There are no more classes than elements. -/
theorem length_groups_le (key : α → κ) (xs : List α) : (groups key xs).length ≤ xs.length := by
  have hsub : firstKeys key xs ⊆ xs.map key := by
    intro k hk
    obtain ⟨x, hx, rfl⟩ := mem_firstKeys.mp hk
    exact List.mem_map_of_mem hx
  have hle := (List.subperm_of_subset (nodup_firstKeys key xs) hsub).length_le
  rw [List.length_map] at hle
  rw [groups, List.length_map]
  exact hle

/-- Grouping the images by a key of theirs. -/
theorem groups_map {β : Type} (key : α → κ) (f : β → α) (ys : List β) :
    groups key (ys.map f) = (groups (fun y => key (f y)) ys).map (List.map f) := by
  have hkeys : firstKeys key (ys.map f) = firstKeys (fun y => key (f y)) ys := by
    unfold firstKeys
    rw [List.map_map]
    rfl
  unfold groups
  rw [hkeys, List.map_map]
  apply List.map_congr_left
  intro k _
  unfold classOf
  rw [List.filter_map]
  rfl

/-! ## What grouping is for -/

/-- The parts `gs` divide up the sequence `xs` by `key`: every element is in one part, elements
are together exactly if they agree on the key, a part has its elements in the order of `xs`, and
the parts stand in the order in which `xs` comes to their first elements. -/
structure Partitions [DecidableEq α] (key : α → κ) (xs : List α) (gs : List (List α)) : Prop where
  perm : gs.flatten.Perm xs
  unique : ∀ x ∈ xs, ∃! i : Nat, ∃ g, gs[i]? = some g ∧ x ∈ g
  together : ∀ x ∈ xs, ∀ y ∈ xs, (∃ g ∈ gs, x ∈ g ∧ y ∈ g) ↔ key x = key y
  apart : gs.Pairwise fun g g' => ∀ x ∈ g, ∀ y ∈ g', key x ≠ key y
  ordered : ∀ g ∈ gs, ∀ x ∈ g, g = xs.filter fun y => key y = key x
  firstOrder : gs.Pairwise fun g g' => ∀ x ∈ g.head?, ∀ y ∈ g'.head?, xs.idxOf x < xs.idxOf y
  nonempty : xs ≠ [] → ∀ g ∈ gs, g ≠ []

/-- One part is enough for no elements. -/
theorem Partitions.empty [DecidableEq α] (key : α → κ) : Partitions key [] [[]] := by
  constructor <;> simp

/-- Every element is in its class. -/
theorem mem_classOf_key {key : α → κ} {xs : List α} {x : α} (hx : x ∈ xs) : x ∈ classOf key xs (key x) :=
  List.mem_filter.mpr ⟨hx, by simp⟩

/-- The keys stand in the order in which the sequence comes to them. -/
theorem pairwise_firstKeys (key : α → κ) (xs : List α) :
    (firstKeys key xs).Pairwise fun k k' => xs.findIdx (fun x => key x = k) < xs.findIdx fun x => key x = k' := by
  induction xs using List.reverseRecOn with
  | nil => exact List.Pairwise.nil
  | append_singleton xs x ih =>
    -- a key that is there already keeps its first place
    have hkeep : ∀ k ∈ firstKeys key xs, xs.findIdx (fun y => key y = k) < xs.length ∧
        (xs ++ [x]).findIdx (fun y => key y = k) = xs.findIdx fun y => key y = k := by
      intro k hk
      obtain ⟨y, hy, hyk⟩ := mem_firstKeys.mp hk
      have hlt : xs.findIdx (fun y => key y = k) < xs.length :=
        List.findIdx_lt_length_of_exists ⟨y, hy, by simpa using hyk⟩
      rw [List.findIdx_append, if_pos hlt]
      exact ⟨hlt, rfl⟩
    have hold : (firstKeys key xs).Pairwise fun k k' =>
        (xs ++ [x]).findIdx (fun y => key y = k) < (xs ++ [x]).findIdx fun y => key y = k' := by
      refine ih.imp_of_mem ?_
      intro k k' hk hk' hlt
      rw [(hkeep k hk).2, (hkeep k' hk').2]
      exact hlt
    by_cases hmem : key x ∈ firstKeys key xs
    · rw [firstKeys_snoc_of_mem hmem]
      exact hold
    · rw [firstKeys_snoc_of_not_mem hmem]
      refine List.pairwise_append.mpr ⟨hold, List.pairwise_singleton _ _, ?_⟩
      intro k hk k' hk'
      rw [List.mem_singleton.mp hk', (hkeep k hk).2, List.findIdx_append, if_neg]
      · exact Nat.lt_of_lt_of_le (hkeep k hk).1 (Nat.le_add_left _ _)
      · rw [List.findIdx_lt_length]
        rintro ⟨y, hy, hyk⟩
        exact hmem (mem_firstKeys.mpr ⟨y, hy, by simpa using hyk⟩)

/-- The first element of a class stands where the sequence comes to the key. -/
theorem idxOf_head_classOf [DecidableEq α] {key : α → κ} {xs : List α} {k : κ} {x : α}
    (hx : (classOf key xs k).head? = some x) : xs.idxOf x = xs.findIdx fun y => key y = k := by
  induction xs with
  | nil => cases hx
  | cons y ys ih =>
    by_cases hy : key y = k
    · have hclass : classOf key (y :: ys) k = y :: classOf key ys k :=
        List.filter_cons_of_pos (by simpa using hy)
      rw [hclass] at hx
      obtain rfl : y = x := Option.some.inj hx
      rw [List.idxOf_cons_self, List.findIdx_cons]
      simp [hy]
    · have hclass : classOf key (y :: ys) k = classOf key ys k :=
        List.filter_cons_of_neg (by simpa using hy)
      rw [hclass] at hx
      have hxk : key x = k := key_of_mem_classOf (List.mem_of_mem_head? hx)
      have hyx : y ≠ x := by
        rintro rfl
        exact hy hxk
      rw [List.idxOf_cons_ne _ hyx, ih hx, List.findIdx_cons]
      simp [hy]

/-- The classes of a sequence divide it up by the key. -/
theorem groups_partitions [DecidableEq α] (key : α → κ) (xs : List α) : Partitions key xs (groups key xs) := by
  have hnd := nodup_firstKeys key xs
  have happart : (groups key xs).Pairwise fun g g' => ∀ x ∈ g, ∀ y ∈ g', key x ≠ key y := by
    unfold groups
    rw [List.pairwise_map]
    refine List.Pairwise.imp ?_ hnd
    intro k k' hne x hx y hy hxy
    rw [key_of_mem_classOf hx, key_of_mem_classOf hy] at hxy
    exact hne hxy
  have hpair : ∀ {i j : Nat} {g g' : List α}, i < j → (groups key xs)[i]? = some g → (groups key xs)[j]? = some g' →
      ∀ x ∈ g, ∀ y ∈ g', key x ≠ key y := by
    intro i j g g' hij hi hj
    obtain ⟨hilt, rfl⟩ := List.getElem?_eq_some_iff.mp hi
    obtain ⟨hjlt, rfl⟩ := List.getElem?_eq_some_iff.mp hj
    exact List.pairwise_iff_getElem.mp happart i j hilt hjlt hij
  constructor
  · exact flatten_groups_perm key xs
  · intro x hx
    have hgroup : classOf key xs (key x) ∈ groups key xs := mem_groups.mpr ⟨x, hx, rfl⟩
    obtain ⟨i, hi⟩ := List.mem_iff_getElem?.mp hgroup
    refine ⟨i, ⟨_, hi, mem_classOf_key hx⟩, ?_⟩
    rintro j ⟨g, hj, hxg⟩
    by_contra hne
    -- a second part with `x` in it would have its key
    rcases Nat.lt_or_gt_of_ne hne with hlt | hlt
    · exact hpair hlt hj hi x hxg x (mem_classOf_key hx) rfl
    · exact hpair hlt hi hj x (mem_classOf_key hx) x hxg rfl
  · intro x hx y hy
    constructor
    · rintro ⟨g, hg, hxg, hyg⟩
      obtain ⟨z, hz, rfl⟩ := mem_groups.mp hg
      rw [key_of_mem_classOf hxg, key_of_mem_classOf hyg]
    · intro hxy
      refine ⟨classOf key xs (key x), mem_groups.mpr ⟨x, hx, rfl⟩, mem_classOf_key hx, ?_⟩
      rw [hxy]
      exact mem_classOf_key hy
  · exact happart
  · intro g hg x hx
    obtain ⟨z, hz, rfl⟩ := mem_groups.mp hg
    rw [key_of_mem_classOf hx]
    rfl
  · unfold groups
    rw [List.pairwise_map]
    refine (pairwise_firstKeys key xs).imp ?_
    intro k k' hlt x hx y hy
    rw [idxOf_head_classOf hx, idxOf_head_classOf hy]
    exact hlt
  · intro _ g hg
    exact ne_nil_of_mem_groups hg

/-! ## Interleavings -/

/-- `xs` is obtained from the sequences `ls` by taking the head of any of them,
again and again, until all are used up. -/
inductive Interleaving : List (List α) → List α → Prop where
  | done {ls : List (List α)} (h : ∀ l ∈ ls, l = []) : Interleaving ls []
  | take {ls : List (List α)} {k : Nat} {x : α} {l xs : List α} (hk : ls[k]? = some (x :: l))
      (h : Interleaving (ls.set k l) xs) : Interleaving ls (x :: xs)

/-- An interleaving has the elements of its lists. -/
theorem Interleaving.mem_iff {ls : List (List α)} {xs : List α} (h : Interleaving ls xs) (y : α) :
    y ∈ xs ↔ ∃ l ∈ ls, y ∈ l := by
  induction h with
  | done h =>
    constructor
    · simp
    · rintro ⟨l, hl, hy⟩
      rw [h l hl] at hy
      exact hy
  | @take ls k x l xs hk _ ih =>
    have hklt := (List.getElem?_eq_some_iff.mp hk).1
    rw [List.mem_cons, ih]
    constructor
    · rintro (rfl | ⟨m, hm, hy⟩)
      · exact ⟨_, List.mem_of_getElem? hk, List.mem_cons_self⟩
      · rcases List.mem_or_eq_of_mem_set hm with hm | rfl
        · exact ⟨m, hm, hy⟩
        · exact ⟨_, List.mem_of_getElem? hk, List.mem_cons_of_mem _ hy⟩
    · rintro ⟨m, hm, hy⟩
      obtain ⟨j, hj⟩ := List.mem_iff_getElem?.mp hm
      by_cases hjk : j = k
      · subst hjk
        obtain rfl : x :: l = m := by simpa [hk] using hj
        rcases List.mem_cons.mp hy with rfl | hy
        · exact Or.inl rfl
        · exact Or.inr ⟨l, List.mem_of_getElem? (List.getElem?_set_self hklt), hy⟩
      · refine Or.inr ⟨m, List.mem_of_getElem? (i := j) ?_, hy⟩
        rw [List.getElem?_set_ne (Ne.symm hjk)]
        exact hj

/-- Where only the elements of the `k`-th sequence satisfy `p`, filtering a merge by
`p` gives that sequence back. -/
theorem Interleaving.filter_eq {ls : List (List α)} {xs : List α} (h : Interleaving ls xs)
    (p : α → Bool) (k : Nat) : ∀ l, ls[k]? = some l → (∀ x ∈ l, p x = true) →
    (∀ j m, j ≠ k → ls[j]? = some m → ∀ x ∈ m, p x = false) → xs.filter p = l := by
  -- on the interleaving: the element taken is of this list or of another
  induction h with
  | done h =>
    intro l hl _ _
    rw [h l (List.mem_of_getElem? hl)]
    rfl
  | @take ls i x rest xs hi _ ih =>
    intro l hl hp hothers
    have hilt := (List.getElem?_eq_some_iff.mp hi).1
    by_cases hik : i = k
    · subst hik
      obtain rfl : x :: rest = l := by simpa [hi] using hl
      rw [List.filter_cons_of_pos (hp x List.mem_cons_self)]
      congr 1
      apply ih rest (List.getElem?_set_self hilt) (fun y hy => hp y (List.mem_cons_of_mem _ hy))
      intro j m hj hm
      rw [List.getElem?_set_ne (Ne.symm hj)] at hm
      exact hothers j m hj hm
    · have hx : p x = false := hothers i _ hik hi x List.mem_cons_self
      rw [List.filter_cons_of_neg (by simp [hx])]
      apply ih l (by rw [List.getElem?_set_ne hik]; exact hl) hp
      intro j m hj hm y hy
      by_cases hij : i = j
      · subst hij
        rw [List.getElem?_set_self hilt] at hm
        obtain rfl : rest = m := by simpa using hm
        exact hothers i _ hj hi y (List.mem_cons_of_mem _ hy)
      · rw [List.getElem?_set_ne hij] at hm
        exact hothers j m hj hm y hy

/-- Entries at the same place are related, and to each there is the other. -/
theorem exists_right_of_forall₂ {β γ : Type} {r : β → γ → Prop} {bs : List β} {cs : List γ}
    (h : List.Forall₂ r bs cs) {i : Nat} {b : β} (hb : bs[i]? = some b) : ∃ c, cs[i]? = some c ∧ r b c := by
  obtain ⟨hib, rfl⟩ := List.getElem?_eq_some_iff.mp hb
  have hic : i < cs.length := h.length_eq ▸ hib
  exact ⟨cs.get ⟨i, hic⟩, List.getElem?_eq_getElem hic, (List.forall₂_iff_get.mp h).2 i hib hic⟩

/-- An element on the right has a partner on the left. -/
theorem exists_left_of_forall₂ {β γ : Type} {r : β → γ → Prop} {bs : List β} {cs : List γ}
    (h : List.Forall₂ r bs cs) {i : Nat} {c : γ} (hc : cs[i]? = some c) : ∃ b, bs[i]? = some b ∧ r b c := by
  obtain ⟨c', hc', hr⟩ := exists_right_of_forall₂ h.flip hc
  exact ⟨c', hc', hr⟩

/-- In a merge of sequences with pairwise different keys the elements with the key of a
sequence are that sequence. -/
theorem Interleaving.map_classOf {key : α → κ} {ks : List κ} {ls : List (List α)} {xs : List α}
    (h : Interleaving ls xs) (hks : ks.Nodup) (hkl : List.Forall₂ (fun k l => ∀ x ∈ l, key x = k) ks ls) :
    ks.map (classOf key xs) = ls := by
  have hlen := hkl.length_eq
  apply List.ext_getElem?
  intro i
  rw [List.getElem?_map]
  cases hi : ks[i]? with
  | none =>
    have : ls[i]? = none := by
      rw [List.getElem?_eq_none_iff] at hi ⊢
      omega
    simp [this]
  | some k =>
    obtain ⟨l, hl, hkey⟩ := exists_right_of_forall₂ hkl hi
    rw [hl, Option.map_some, Option.some.injEq]
    apply h.filter_eq _ i l hl
    · intro x hx
      simpa using hkey x hx
    · intro j m hj hm x hx
      obtain ⟨k', hk', hkey'⟩ := exists_left_of_forall₂ hkl hm
      have hxk := hkey' x hx
      have hne : k' ≠ k := by
        rintro rfl
        have hjk := (List.getElem?_eq_some_iff.mp hk').1
        exact hj ((List.getElem?_inj hjk hks).mp (hk'.trans hi.symm))
      simp [hxk, hne]

/-- Grouping a merge of non-empty sequences with pairwise different keys gives the
sequences back, in some order. -/
theorem Interleaving.groups_perm {key : α → κ} {ks : List κ} {ls : List (List α)} {xs : List α}
    (h : Interleaving ls xs) (hks : ks.Nodup)
    (hkl : List.Forall₂ (fun k l => l ≠ [] ∧ ∀ x ∈ l, key x = k) ks ls) :
    (groups key xs).Perm ls := by
  -- the elements with the key of a list are that list
  have hclass : ks.map (classOf key xs) = ls := h.map_classOf hks (hkl.imp fun k l hl => hl.2)
  -- and the keys that occur are those of the lists, since none of them is empty
  have hmem : ∀ k, k ∈ firstKeys key xs ↔ k ∈ ks := by
    intro k
    rw [mem_firstKeys]
    constructor
    · rintro ⟨x, hx, rfl⟩
      obtain ⟨l, hl, hxl⟩ := (h.mem_iff x).mp hx
      obtain ⟨i, hi⟩ := List.mem_iff_getElem?.mp hl
      obtain ⟨k', hk', -, hkey⟩ := exists_left_of_forall₂ hkl hi
      rw [hkey x hxl]
      exact List.mem_of_getElem? hk'
    · intro hk
      obtain ⟨i, hi⟩ := List.mem_iff_getElem?.mp hk
      obtain ⟨l, hl, hne, hkey⟩ := exists_right_of_forall₂ hkl hi
      obtain ⟨x, hx⟩ := List.exists_mem_of_ne_nil l hne
      exact ⟨x, (h.mem_iff x).mpr ⟨l, List.mem_of_getElem? hl, hx⟩, hkey x hx⟩
  have hperm : (firstKeys key xs).Perm ks :=
    (List.perm_ext_iff_of_nodup (nodup_firstKeys key xs) hks).mpr hmem
  rw [← hclass]
  exact hperm.map _

end Grouping
