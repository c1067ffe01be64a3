import Mathlib.Tactic.Common
import Hpav.Json.Reread

/-!
# Paths in a JSON value

What it means to change one field of a tree. `setAt path value` puts a value at a path of
names and leaves every path that goes another way (`valueAt_setAt_apart`). A tree with a
field changed is again one that the parser could have made (`Parsed.setAt`), and whether it
survives being written is a matter of its fields one by one (`reread_setAt`).
-/

namespace Hpav

/-! ## The place of a name -/

/-- Where a value of that name goes: between `pre` and `post`, over the one that is there or
behind all the others. -/
structure Place (members : Members) (name : List UInt8) (pre post : Members) : Prop where
  set : ∀ value, jsonObjectSetValue members name (some value) = some (pre ++ (name, value) :: post)
  fresh : ∀ m ∈ pre, m.1 ≠ name
  was : (∃ old, members = pre ++ (name, old) :: post) ∨
    (members = pre ∧ post = [] ∧ 2 * members.length ≤ objectMaxCapacity)

/-- Members with other names are passed over. -/
theorem find?_append_of_fresh {name : List UInt8} {pre : Members} (h : ∀ m ∈ pre, m.1 ≠ name)
    (post : Members) : (pre ++ post).find? (fun m => m.1 = name) = post.find? fun m => m.1 = name := by
  rw [List.find?_append, List.find?_eq_none.mpr (fun m hm => by simpa using h m hm), Option.none_or]

/-- The value behind members with other names is found. -/
theorem jsonObjectGetValue_splice {name : List UInt8} {pre : Members} (h : ∀ m ∈ pre, m.1 ≠ name)
    (value : Json) (post : Members) : jsonObjectGetValue (pre ++ (name, value) :: post) name = some value := by
  unfold jsonObjectGetValue
  rw [find?_append_of_fresh h, List.find?_cons_of_pos (by simp)]
  rfl

/-- The other names do not see which value it is. -/
theorem jsonObjectGetValue_splice_ne {name other : List UInt8} (hne : other ≠ name) (pre : Members)
    (value : Json) (post : Members) :
    jsonObjectGetValue (pre ++ (name, value) :: post) other = jsonObjectGetValue (pre ++ post) other := by
  unfold jsonObjectGetValue
  rw [List.find?_append, List.find?_append, List.find?_cons_of_neg (by simpa using hne.symm)]

/-- A value that is found is behind members with other names. -/
theorem jsonObjectGetValue_eq_some {members : Members} {name : List UInt8} {value : Json}
    (h : jsonObjectGetValue members name = some value) :
    ∃ pre post, members = pre ++ (name, value) :: post ∧ ∀ m ∈ pre, m.1 ≠ name := by
  unfold jsonObjectGetValue at h
  rw [Option.map_eq_some_iff] at h
  rcases h with ⟨⟨n, v⟩, hfind, rfl⟩
  rw [List.find?_eq_some_iff_append] at hfind
  rcases hfind with ⟨hname, pre, post, hsplit, hpre⟩
  obtain rfl : n = name := by simpa using hname
  exact ⟨pre, post, hsplit, fun m hm => by simpa using hpre m hm⟩

/-- The value is put at its place. -/
theorem overwrite_splice {name : List UInt8} {pre : Members} (h : ∀ m ∈ pre, m.1 ≠ name)
    (old value : Json) (post : Members) :
    overwrite name value (pre ++ (name, old) :: post) = pre ++ (name, value) :: post := by
  induction pre with
  | nil =>
    show overwrite name value ((name, old) :: post) = (name, value) :: post
    unfold overwrite
    rw [if_pos rfl]
  | cons m pre ih =>
    rw [List.cons_append, List.cons_append]
    unfold overwrite
    rw [if_neg (h m List.mem_cons_self), ih fun m' hm' => h m' (List.mem_cons_of_mem m hm')]

/-- Whatever is set goes to one place, which does not depend on the value. -/
theorem place_of_set {members members' : Members} {name : List UInt8} {value : Json}
    (h : jsonObjectSetValue members name (some value) = some members') :
    ∃ pre post, Place members name pre post ∧ members' = pre ++ (name, value) :: post := by
  rcases hget : jsonObjectGetValue members name with _ | old
  · -- the name is new: the table of the parser is full, so it grows
    have hsome : ¬ (jsonObjectGetValue members name).isSome = true := by
      rw [hget]
      exact Bool.false_ne_true
    have hnew : ∀ value, jsonObjectSetValue members name (some value) =
        (Table.add objectMaxCapacity (Table.trimmed members) (name, value)).map (·.entries) := by
      intro value
      unfold jsonObjectSetValue jsonObjectAdd
      simp only [if_neg hsome]
      rw [if_neg (show ¬ (jsonObjectGetValue (Table.trimmed members).entries name).isSome = true from hsome)]
    have hadd : ∀ value, Table.add objectMaxCapacity (Table.trimmed members) (name, value) =
        if objectMaxCapacity < Table.newCapacity members.length then none
        else some ⟨members ++ [(name, value)], Table.newCapacity members.length⟩ := by
      intro value
      exact if_pos (le_refl members.length)
    have hroom : ¬ objectMaxCapacity < Table.newCapacity members.length := by
      intro hfull
      rw [hnew, hadd, if_pos hfull] at h
      cases h
    have hset : ∀ value, jsonObjectSetValue members name (some value) = some (members ++ [(name, value)]) := by
      intro value
      rw [hnew, hadd, if_neg hroom]
      rfl
    rw [hset] at h
    cases h
    refine ⟨members, [], ⟨hset, ?_, Or.inr ⟨rfl, rfl, ?_⟩⟩, rfl⟩
    · intro m hm hname
      rw [jsonObjectGetValue_isSome] at hsome
      exact hsome (List.mem_map.mpr ⟨m, hm, hname⟩)
    · have hdouble : members.length * 2 ≤ Table.newCapacity members.length := le_max_left _ _
      omega
  · -- the name is there: its value is replaced in its place
    rcases jsonObjectGetValue_eq_some hget with ⟨pre, post, hsplit, hfresh⟩
    have hset : ∀ value, jsonObjectSetValue members name (some value) = some (pre ++ (name, value) :: post) := by
      intro value
      unfold jsonObjectSetValue
      simp only [hget, Option.isSome_some, if_true]
      rw [hsplit, overwrite_splice hfresh]
    rw [hset] at h
    cases h
    exact ⟨pre, post, ⟨hset, hfresh, Or.inl ⟨old, hsplit⟩⟩, rfl⟩

/-- The value at the place of a name is found. -/
theorem Place.get {members pre post : Members} {name : List UInt8} (h : Place members name pre post)
    (value : Json) : jsonObjectGetValue (pre ++ (name, value) :: post) name = some value :=
  jsonObjectGetValue_splice h.fresh value post

/-- Another name is found as before. -/
theorem Place.get_ne {members pre post : Members} {name other : List UInt8} (h : Place members name pre post)
    (hne : other ≠ name) (value : Json) :
    jsonObjectGetValue (pre ++ (name, value) :: post) other = jsonObjectGetValue members other := by
  rw [jsonObjectGetValue_splice_ne hne]
  rcases h.was with ⟨old, rfl⟩ | ⟨rfl, rfl, -⟩
  · rw [jsonObjectGetValue_splice_ne hne]
  · rw [List.append_nil]

/-! ## Reading and changing at a path -/

/-- The value at a path. -/
def valueAt : List (List UInt8) → Json → Option Json
  | [], v => some v
  | name :: path, .object members => (jsonObjectGetValue members name).bind (valueAt path)
  | _ :: _, _ => none

/-- The value with another one at a path. What leads there has to be an object; only the
last name may be missing, and then it is added. -/
def setAt : List (List UInt8) → Json → Option Json → Option Json
  | [], value, _ => some value
  | name :: path, value, some (.object members) =>
    (jsonObjectSetValue members name (setAt path value (jsonObjectGetValue members name))).map .object
  | _ :: _, _, _ => none

/-- A step of a change: the object, the place of the name, and the change below it. -/
theorem setAt_cons {name : List UInt8} {path : List (List UInt8)} {value t' : Json} {t : Option Json}
    (h : setAt (name :: path) value t = some t') :
    ∃ members pre post child, t = some (.object members) ∧ Place members name pre post ∧
      setAt path value (jsonObjectGetValue members name) = some child ∧
      t' = .object (pre ++ (name, child) :: post) := by
  rcases t with _ | t
  · cases h
  cases t with
  | object members =>
    unfold setAt at h
    rw [Option.map_eq_some_iff] at h
    rcases h with ⟨members', hset, rfl⟩
    rcases hchild : setAt path value (jsonObjectGetValue members name) with _ | child
    · rw [hchild] at hset
      cases hset
    · rw [hchild] at hset
      rcases place_of_set hset with ⟨pre, post, hplace, rfl⟩
      exact ⟨members, pre, post, child, rfl, hplace, hchild, rfl⟩
  | null | boolean | number | string | array => cases h

/-- Whether the change can be made does not depend on the value. -/
theorem setAt_isSome {path : List (List UInt8)} {value : Json} {t : Option Json} (value' : Json)
    (h : (setAt path value t).isSome) : (setAt path value' t).isSome := by
  induction path generalizing t with
  | nil => rfl
  | cons name path ih =>
    rcases Option.isSome_iff_exists.mp h with ⟨t', ht'⟩
    rcases setAt_cons ht' with ⟨members, pre, post, child, rfl, hplace, hchild, -⟩
    rcases Option.isSome_iff_exists.mp (ih (by rw [hchild]; rfl)) with ⟨child', hchild'⟩
    unfold setAt
    rw [hchild', hplace.set]
    rfl

/-- What was set is there. -/
theorem valueAt_setAt {path : List (List UInt8)} {value t' : Json} {t : Option Json}
    (h : setAt path value t = some t') : valueAt path t' = some value := by
  induction path generalizing t t' with
  | nil =>
    cases h
    rfl
  | cons name path ih =>
    rcases setAt_cons h with ⟨members, pre, post, child, rfl, hplace, hchild, rfl⟩
    unfold valueAt
    rw [hplace.get, Option.bind_some]
    exact ih hchild

/-- To set what is there changes nothing. -/
theorem setAt_valueAt {path : List (List UInt8)} {value t : Json} (h : valueAt path t = some value) :
    setAt path value (some t) = some t := by
  induction path generalizing t with
  | nil =>
    cases h
    rfl
  | cons name path ih =>
    cases t with
    | object members =>
      unfold valueAt at h
      rw [Option.bind_eq_some_iff] at h
      rcases h with ⟨child, hget, hchild⟩
      rcases jsonObjectGetValue_eq_some hget with ⟨pre, post, hsplit, hfresh⟩
      show (jsonObjectSetValue members name (setAt path value (jsonObjectGetValue members name))).map Json.object = _
      rw [hget, ih hchild]
      unfold jsonObjectSetValue
      simp only [hget, Option.isSome_some, if_true]
      rw [hsplit, overwrite_splice hfresh]
      rfl
    | null | boolean | number | string | array => cases h

/-- Two paths that part before either ends. -/
def Apart (p q : List (List UInt8)) : Prop :=
  ¬ p <+: q ∧ ¬ q <+: p

/-- Two paths are apart, or part further down. -/
theorem Apart.cons_iff {name name' : List UInt8} {p q : List (List UInt8)} :
    Apart (name :: p) (name' :: q) ↔ name = name' → Apart p q := by
  unfold Apart
  rw [List.cons_prefix_cons, List.cons_prefix_cons]
  constructor
  · rintro ⟨hpq, hqp⟩ rfl
    exact ⟨fun h => hpq ⟨rfl, h⟩, fun h => hqp ⟨rfl, h⟩⟩
  · intro h
    constructor
    · rintro ⟨rfl, hpq⟩
      exact (h rfl).1 hpq
    · rintro ⟨rfl, hqp⟩
      exact (h rfl).2 hqp

/-- Every path that goes another way leads where it led. -/
theorem valueAt_setAt_apart {p q : List (List UInt8)} {value t t' : Json}
    (h : setAt p value (some t) = some t') (hapart : Apart p q) : valueAt q t' = valueAt q t := by
  induction p generalizing q t t' with
  | nil => exact absurd List.nil_prefix hapart.1
  | cons name p ih =>
    cases q with
    | nil => exact absurd List.nil_prefix hapart.2
    | cons name' q =>
      rcases setAt_cons h with ⟨members, pre, post, child, ht, hplace, hchild, rfl⟩
      cases ht
      rw [Apart.cons_iff] at hapart
      unfold valueAt
      by_cases hname : name = name'
      · subst hname
        rw [hplace.get, Option.bind_some]
        rcases hold : jsonObjectGetValue members name with _ | old
        · -- behind a name that is new there is nothing the other path could lead to
          cases p with
          | nil => exact absurd List.nil_prefix (hapart rfl).1
          | cons name' p =>
            rw [hold] at hchild
            cases hchild
        · rw [hold] at hchild
          exact ih hchild (hapart rfl)
      · rw [hplace.get_ne (Ne.symm hname)]

/-! ## A tree the parser could have made -/

/-- What is inside a parsed tree could have been parsed, with so much less nesting. -/
theorem parsed_valueAt {n : Nat} {path : List (List UInt8)} {t v : Json} (ht : Parsed (n + path.length) t)
    (h : valueAt path t = some v) : Parsed n v := by
  induction path generalizing t with
  | nil =>
    cases h
    exact ht
  | cons name path ih =>
    unfold valueAt at h
    split at h
    · cases ‹name :: path = []›
    · rename_i members hpath
      cases hpath
      rw [Option.bind_eq_some_iff] at h
      rcases h with ⟨child, hget, hvalue⟩
      rcases jsonObjectGetValue_eq_some hget with ⟨pre, post, rfl, -⟩
      rw [List.length_cons] at ht
      rcases hm : pre ++ (name, child) :: post with _ | ⟨m, ms⟩
      · simp at hm
      · rw [hm] at ht
        cases ht with
        | object _ _ _ hvalues =>
          refine ih (hvalues (name, child) ?_) hvalue
          rw [← hm]
          exact List.mem_append_right pre List.mem_cons_self
    · cases h

/-- The members of an object that was parsed, whether it has any or not. -/
theorem Parsed.members {n : Nat} {members : Members} (h : Parsed (n + 1) (.object members)) :
    members.length ≤ objectMaxCapacity ∧ (members.map (·.1)).Nodup ∧ (∀ m ∈ members, 0 ∉ m.1) ∧
      ∀ m ∈ members, Parsed n m.2 := by
  cases h with
  | emptyObject => exact ⟨Nat.zero_le _, List.nodup_nil, (fun m hm => nomatch hm), fun m hm => nomatch hm⟩
  | object hlen hnames hnul hvalues => exact ⟨hlen, hnames, hnul, hvalues⟩

/-- A member that is set leaves an object that could have been parsed. -/
theorem Parsed.splice {n : Nat} {members pre post : Members} {name : List UInt8} {value : Json}
    (h : Parsed (n + 1) (.object members)) (hplace : Place members name pre post) (hname : 0 ∉ name)
    (hvalue : Parsed n value) : Parsed (n + 1) (.object (pre ++ (name, value) :: post)) := by
  rcases h.members with ⟨hlen, hnames, hnul, hvalues⟩
  have hothers : ∀ m ∈ pre ++ (name, value) :: post, m = (name, value) ∨ m ∈ members := by
    intro m hm
    rw [List.mem_append, List.mem_cons] at hm
    rcases hplace.was with ⟨old, rfl⟩ | ⟨rfl, rfl, -⟩
    · rcases hm with hm | rfl | hm
      · exact Or.inr (List.mem_append_left _ hm)
      · exact Or.inl rfl
      · exact Or.inr (List.mem_append_right _ (List.mem_cons_of_mem _ hm))
    · rcases hm with hm | rfl | hm
      · exact Or.inr hm
      · exact Or.inl rfl
      · cases hm
  refine Parsed.object ?_ ?_ ?_ ?_
  · -- as many members as before, or one more where there was room for it
    rcases hplace.was with ⟨old, rfl⟩ | ⟨rfl, rfl, hroom⟩
    · simpa using hlen
    · have hmax : objectMaxCapacity = 960 := rfl
      rw [List.length_append, List.length_singleton]
      omega
  · rcases hplace.was with ⟨old, rfl⟩ | ⟨rfl, rfl, -⟩
    · simpa using hnames
    · rw [List.map_append, List.map_singleton, List.nodup_append]
      refine ⟨hnames, List.nodup_singleton _, ?_⟩
      intro a ha b hb
      rw [List.mem_map] at ha
      rcases ha with ⟨m, hm, rfl⟩
      rw [List.mem_singleton] at hb
      subst hb
      exact hplace.fresh m hm
  · intro m hm
    rcases hothers m hm with rfl | hm
    · exact hname
    · exact hnul m hm
  · intro m hm
    rcases hothers m hm with rfl | hm
    · exact hvalue
    · exact hvalues m hm

/-- A tree stays one that could have been parsed if such a value is put inside. -/
theorem Parsed.setAt {n : Nat} {path : List (List UInt8)} {value t' : Json} {t : Json}
    (ht : Parsed (n + path.length) t) (hvalue : Parsed n value) (hpath : ∀ name ∈ path, 0 ∉ name)
    (h : setAt path value (some t) = some t') : Parsed (n + path.length) t' := by
  induction path generalizing t t' with
  | nil =>
    cases h
    exact hvalue
  | cons name path ih =>
    rcases setAt_cons h with ⟨members, pre, post, child, ht', hplace, hchild, rfl⟩
    cases ht'
    rw [List.length_cons] at ht ⊢
    refine Parsed.splice (n := n + path.length) ht hplace (hpath name List.mem_cons_self) ?_
    have hrest : ∀ name ∈ path, 0 ∉ name := fun name' h' => hpath name' (List.mem_cons_of_mem name h')
    rcases hold : jsonObjectGetValue members name with _ | old
    · rw [hold] at hchild
      cases path with
      | nil =>
        cases hchild
        exact hvalue
      | cons name' path => cases hchild
    · rw [hold] at hchild
      refine ih ?_ hrest hchild
      have hmember : valueAt [name] (.object members) = some old := by
        show (jsonObjectGetValue members name).bind some = some old
        rw [hold]
        rfl
      exact @parsed_valueAt _ [name] (.object members) _ ht hmember

/-! ## Writing a tree with a field changed -/

/-- An object is read back exactly if its other members and the value at the place are. -/
theorem restorable_splice_iff {pre post : Members} {name : List UInt8} {value : Json} :
    Restorable (.object (pre ++ (name, value) :: post)) ↔
      (Writable name ∧ (∀ m ∈ pre ++ post, Writable m.1) ∧ ∀ m ∈ pre ++ post, Restorable m.2) ∧
        Restorable value := by
  constructor
  · intro h
    cases h with
    | object hnames hvalues =>
      refine ⟨⟨hnames (name, value) (by simp), ?_, ?_⟩, hvalues (name, value) (by simp)⟩
      · intro m hm
        exact hnames m (by
          rw [List.mem_append] at hm ⊢
          exact hm.imp id (List.mem_cons_of_mem _))
      · intro m hm
        exact hvalues m (by
          rw [List.mem_append] at hm ⊢
          exact hm.imp id (List.mem_cons_of_mem _))
  · rintro ⟨⟨hname, hnames, hvalues⟩, hvalue⟩
    -- every member is the new one or one of the others
    have hcases : ∀ m ∈ pre ++ (name, value) :: post, m = (name, value) ∨ m ∈ pre ++ post := by
      intro m hm
      rw [List.mem_append, List.mem_cons] at hm
      rw [List.mem_append]
      tauto
    refine Restorable.object ?_ ?_
    · intro m hm
      rcases hcases m hm with rfl | hm
      · exact hname
      · exact hnames m hm
    · intro m hm
      rcases hcases m hm with rfl | hm
      · exact hvalue
      · exact hvalues m hm

/-- A member is read back exactly if its name is writable and its value read back. -/
theorem rereadMember_eq_some_iff {name : List UInt8} {value value' : Json} :
    rereadMember (name, value) = some (name, value') ↔ Writable name ∧ reread value = some value' := by
  unfold rereadMember
  by_cases hw : Writable name
  · simp [hw]
  · simp [hw]

/-- A list is mapped element by element. -/
theorem mapM_cons_eq_some_iff {α : Type} {f : α → Option α} {x y : α} {xs ys : List α} :
    (x :: xs).mapM f = some (y :: ys) ↔ f x = some y ∧ xs.mapM f = some ys := by
  rw [List.mapM_cons]
  simp only [Option.bind_eq_bind, Option.bind_eq_some_iff]
  constructor
  · rintro ⟨y', hy, ys', hys, h⟩
    cases h
    exact ⟨hy, hys⟩
  · rintro ⟨hy, hys⟩
    exact ⟨y, hy, ys, hys, rfl⟩

/-- A list is mapped to itself but for one element exactly if every other element is mapped to
itself. -/
theorem mapM_splice_iff {α : Type} {f : α → Option α} {x y : α} {pre post : List α} :
    (pre ++ x :: post).mapM f = some (pre ++ y :: post) ↔ (∀ z ∈ pre ++ post, f z = some z) ∧ f x = some y := by
  induction pre with
  | nil =>
    rw [List.nil_append, List.nil_append, List.nil_append, mapM_cons_eq_some_iff, mapM_eq_self_iff]
    exact and_comm
  | cons z pre ih =>
    rw [List.cons_append, List.cons_append, List.cons_append, mapM_cons_eq_some_iff, ih, List.forall_mem_cons,
      and_assoc]

/-- An object is read back but for one value exactly if its other members are. -/
theorem reread_splice_iff {pre post : Members} {name : List UInt8} {value value' : Json} :
    reread (.object (pre ++ (name, value) :: post)) = some (.object (pre ++ (name, value') :: post)) ↔
      (Writable name ∧ (∀ m ∈ pre ++ post, Writable m.1) ∧ ∀ m ∈ pre ++ post, Restorable m.2) ∧
        reread value = some value' := by
  have hself : ∀ m : List UInt8 × Json, rereadMember m = some m ↔ Writable m.1 ∧ Restorable m.2 := by
    rintro ⟨name, value⟩
    rw [rereadMember_eq_some_iff, reread_eq_self_iff]
  have hobject : ∀ ms ms' : Members, reread (.object ms) = some (.object ms') ↔ ms.mapM rereadMember = some ms' := by
    intro ms ms'
    rw [reread, rereadMembers_eq, Option.map_eq_some_iff]
    simp
  rw [hobject, mapM_splice_iff, rereadMember_eq_some_iff]
  simp only [hself, forall_and]
  tauto

/-- One value is written where another one was meant: the tree is read back as it was meant
exactly if the one is read back as the other, and all the rest as it is. -/
theorem reread_setAt {path : List (List UInt8)} {value value' t' r : Json} {t : Option Json}
    (hvalue : Restorable value') (ht' : setAt path value t = some t') (hr : setAt path value' t = some r) :
    reread t' = some r ↔ Restorable r ∧ reread value = some value' := by
  induction path generalizing t t' r with
  | nil =>
    cases ht'
    cases hr
    exact (and_iff_right hvalue).symm
  | cons name path ih =>
    rcases setAt_cons ht' with ⟨members, pre, post, child, rfl, hplace, hchild, rfl⟩
    have hchild' : ∃ child', setAt path value' (jsonObjectGetValue members name) = some child' :=
      Option.isSome_iff_exists.mp (setAt_isSome value' (by rw [hchild]; rfl))
    rcases hchild' with ⟨child', hchild'⟩
    have hr' : setAt (name :: path) value' (some (.object members)) =
        some (.object (pre ++ (name, child') :: post)) := by
      unfold setAt
      rw [hchild', hplace.set]
      rfl
    rw [hr'] at hr
    cases hr
    rw [reread_splice_iff, restorable_splice_iff, ih hchild hchild']
    tauto

/-! ## What is read back at a path -/

/-- A name is looked up member by member. -/
theorem jsonObjectGetValue_cons (name : List UInt8) (m : List UInt8 × Json) (ms : Members) :
    jsonObjectGetValue (m :: ms) name = if m.1 = name then some m.2 else jsonObjectGetValue ms name := by
  unfold jsonObjectGetValue
  by_cases hm : m.1 = name
  · rw [List.find?_cons_of_pos (by simpa using hm), if_pos hm]
    rfl
  · rw [List.find?_cons_of_neg (by simpa using hm), if_neg hm]

/-- Reading back changes neither the names nor their order, so a name leads to what was
read back of its value. -/
theorem jsonObjectGetValue_reread {members members' : Members}
    (h : members.mapM rereadMember = some members') (name : List UInt8) :
    (jsonObjectGetValue members name = none ∧ jsonObjectGetValue members' name = none) ∨
      ∃ v v', jsonObjectGetValue members name = some v ∧ reread v = some v' ∧
        jsonObjectGetValue members' name = some v' := by
  induction members generalizing members' with
  | nil =>
    cases h
    exact Or.inl ⟨rfl, rfl⟩
  | cons m ms ih =>
    rw [List.mapM_cons] at h
    simp only [Option.bind_eq_bind, Option.bind_eq_some_iff] at h
    rcases h with ⟨m', hm', ms', hms', h⟩
    cases h
    rcases m with ⟨n, v⟩
    unfold rereadMember at hm'
    split at hm'
    · rw [Option.map_eq_some_iff] at hm'
      rcases hm' with ⟨v', hv', rfl⟩
      rw [jsonObjectGetValue_cons, jsonObjectGetValue_cons]
      by_cases hname : n = name
      · rw [if_pos hname, if_pos hname]
        exact Or.inr ⟨v, v', rfl, hv', rfl⟩
      · rw [if_neg hname, if_neg hname]
        exact ih hms'
    · cases hm'

/-- An object is read back as one with the same members read back. -/
theorem reread_object {members : Members} {t' : Json} (h : reread (.object members) = some t') :
    ∃ members', members.mapM rereadMember = some members' ∧ t' = .object members' := by
  rw [reread, rereadMembers_eq, Option.map_eq_some_iff] at h
  rcases h with ⟨members', hmembers, rfl⟩
  exact ⟨members', hmembers, rfl⟩

/-- What is no object does not become one. -/
theorem reread_not_object {t t' : Json} (h : reread t = some t') (ht : ∀ members, t ≠ .object members) :
    ∀ members, t' ≠ .object members := by
  intro members hmembers
  subst hmembers
  cases t with
  | null | boolean => cases h
  | number =>
    rw [reread, Option.map_eq_some_iff] at h
    rcases h with ⟨x, -, hx⟩
    cases hx
  | string =>
    rw [reread] at h
    split at h <;> cases h
  | array =>
    rw [reread, Option.map_eq_some_iff] at h
    rcases h with ⟨x, -, hx⟩
    cases hx
  | object ms => exact ht ms rfl

/-- What is no object has nothing at a path. -/
theorem valueAt_cons_of_not_object {name : List UInt8} {path : List (List UInt8)} {t : Json}
    (h : ∀ members, t ≠ .object members) : valueAt (name :: path) t = none := by
  cases t with
  | object ms => exact absurd rfl (h ms)
  | null | boolean | number | string | array => rfl

/-- What is read back at a path is what was there, read back. -/
theorem valueAt_reread {path : List (List UInt8)} {t t' : Json} (h : reread t = some t') :
    valueAt path t' = (valueAt path t).bind reread := by
  induction path generalizing t t' with
  | nil => exact h.symm
  | cons name path ih =>
    by_cases hobject : ∃ members, t = .object members
    · rcases hobject with ⟨members, rfl⟩
      rcases reread_object h with ⟨members', hmembers, rfl⟩
      show (jsonObjectGetValue members' name).bind (valueAt path) =
        ((jsonObjectGetValue members name).bind (valueAt path)).bind reread
      rcases jsonObjectGetValue_reread hmembers name with ⟨hnone, hnone'⟩ | ⟨v, v', hv, hback, hv'⟩
      · rw [hnone, hnone']
        rfl
      · rw [hv, hv', Option.bind_some, Option.bind_some]
        exact ih hback
    · have hnot : ∀ members, t ≠ .object members := fun members hm => hobject ⟨members, hm⟩
      rw [valueAt_cons_of_not_object (reread_not_object h hnot), valueAt_cons_of_not_object hnot]
      rfl

/-- What is at a path is read back if the tree is. -/
theorem reread_of_valueAt {path : List (List UInt8)} {t t' v : Json} (h : reread t = some t')
    (hat : valueAt path t = some v) : ∃ v', reread v = some v' ∧ valueAt path t' = some v' := by
  induction path generalizing t t' with
  | nil =>
    injection hat with hat
    subst hat
    exact ⟨t', h, rfl⟩
  | cons name path ih =>
    cases t with
    | object members =>
      obtain ⟨members', hmembers, rfl⟩ := reread_object h
      unfold valueAt at hat
      obtain ⟨w, hget, hw⟩ := Option.bind_eq_some_iff.mp hat
      rcases jsonObjectGetValue_reread hmembers name with ⟨hnone, -⟩ | ⟨u, u', hu, hback, hu'⟩
      · rw [hnone] at hget
        cases hget
      · obtain rfl : u = w := Option.some.inj (hu.symm.trans hget)
        unfold valueAt
        rw [hu', Option.bind_some]
        exact ih hback hw
    | null | boolean | number | string | array => cases hat

end Hpav
