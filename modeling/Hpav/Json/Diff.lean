import Mathlib.Tactic.Common
import Hpav.Json.MergeOverride

/-!
# The difference of two trees

`json_value_diff` of the bundled parson takes out of a copy of the modified tree what the
original tree says as well. It is the counterpart of `json_value_merge`: what is left, merged
into the original, comes to the same tree as the whole of the modified one would
(`jsonValueMerge_diff`), and there is nothing in it that could be left out. None of the tools
calls it; the library has it for its users.
-/

namespace Hpav

/-! ## The function -/

/-- What is left of an object without a member; what is no object stays. -/
def removeFrom (diff : Option Json) (key : List UInt8) : Option Json :=
  match diff with
  | some (.object members) => some (.object (jsonObjectRemove (Table.trimmed members) key).entries)
  | diff => diff

/-- The value of a name, as `json_object_get_value` finds it if there is an object. -/
def itemOf (diff : Option Json) (key : List UInt8) : Option Json :=
  match diff with
  | some (.object members) => jsonObjectGetValue members key
  | _ => none

/-- A change of the value of a name, which the object leads to by a pointer. -/
def withItem (diff : Option Json) (key : List UInt8) (item : Option Json) : Option Json :=
  match diff, item with
  | some (.object members), some item => some (.object (overwrite key item members))
  | diff, _ => diff

mutual

/-- `json_value_diff`: whether it succeeded, and what it made of `diff`. Each of the values may be
missing further down; nothing is done to a `diff` that is. -/
def jsonValueDiff (origin : Option Json) (modified : Json) (diff : Option Json) : Bool × Option Json :=
  match modified with
  | .object bMembers =>
    match origin with
    | some (.object aMembers) => (true, diffMembers aMembers bMembers diff)
    | _ => (false, diff)
  | _ => (false, diff)

/-- The loop over the members of `modified`. -/
def diffMembers (aMembers : Members) (bMembers : List (List UInt8 × Json)) (diff : Option Json) : Option Json :=
  match bMembers with
  | [] => diff
  | m :: ms => diffMembers aMembers ms (diffMember aMembers m diff)

/-- One turn of it; the result of the call is dropped. -/
def diffMember (aMembers : Members) (m : List UInt8 × Json) (diff : Option Json) : Option Json :=
  match m with
  | (key, bItem) =>
    let aItem := jsonObjectGetValue aMembers key
    if aItem.any fun a => jsonValueEquals a bItem then removeFrom diff key
    else withItem diff key (jsonValueDiff aItem bItem (itemOf diff key)).2

end

/-! ## The difference name by name -/

/-- What is left of a member `b`, where the original has `a`. -/
def diffItem (a : Option Json) (b : Json) : Option Json :=
  if a.any fun a => jsonValueEquals a b then none else (jsonValueDiff a b (some b)).2

section Names

variable {aMembers bMembers members : Members} {key : List UInt8} {b : Json}

theorem jsonValueDiff_object (diff : Option Json) :
    jsonValueDiff (some (.object aMembers)) (.object bMembers) diff = (true, diffMembers aMembers bMembers diff) := by
  unfold jsonValueDiff
  rfl

theorem jsonValueDiff_absent (diff : Option Json) : jsonValueDiff none b diff = (false, diff) := by
  cases b with
  | object bMembers =>
    unfold jsonValueDiff
    rfl
  | null | boolean | number | string | array =>
    unfold jsonValueDiff
    rfl

/-- Where one of the two is no object, all is left. -/
theorem jsonValueDiff_other {a : Json} (h : (∀ members, a ≠ .object members) ∨ ∀ members, b ≠ .object members)
    (diff : Option Json) : jsonValueDiff (some a) b diff = (false, diff) := by
  cases b with
  | object bMembers =>
    cases a with
    | object aMembers =>
      rcases h with h | h
      · exact absurd rfl (h aMembers)
      · exact absurd rfl (h bMembers)
    | null | boolean | number | string | array =>
      unfold jsonValueDiff
      rfl
  | null | boolean | number | string | array =>
    unfold jsonValueDiff
    rfl

theorem diffMember_isSome (m : List UInt8 × Json) {diff : Option Json} (h : diff.isSome = true) :
    (diffMember aMembers m diff).isSome = true := by
  rcases m with ⟨key, bItem⟩
  rcases Option.isSome_iff_exists.mp h with ⟨d, rfl⟩
  unfold diffMember
  simp only
  split
  · unfold removeFrom
    split
    · rfl
    · rfl
  · unfold withItem
    split
    · rfl
    · rfl

theorem diffMembers_isSome (bMembers : Members) {diff : Option Json} (h : diff.isSome = true) :
    (diffMembers aMembers bMembers diff).isSome = true := by
  induction bMembers generalizing diff with
  | nil =>
    unfold diffMembers
    exact h
  | cons m ms ih =>
    unfold diffMembers
    exact ih (diffMember_isSome m h)

/-- Something is left of whatever is there. -/
theorem jsonValueDiff_isSome (a : Option Json) (b d : Json) : (jsonValueDiff a b (some d)).2.isSome = true := by
  unfold jsonValueDiff
  split
  · split
    · exact diffMembers_isSome _ rfl
    · rfl
  · rfl

/-- One turn leaves of its member what it should, and the others alone. -/
theorem getValue_diffMember (hnames : (members.map (·.1)).Nodup) (hget : jsonObjectGetValue members key = some b) :
    ∃ members', diffMember aMembers (key, b) (some (.object members)) = some (.object members') ∧
      (members'.map (·.1)).Nodup ∧ ∀ name, jsonObjectGetValue members' name =
        if key = name then diffItem (jsonObjectGetValue aMembers key) b else jsonObjectGetValue members name := by
  unfold diffMember
  simp only
  rcases hequals : (jsonObjectGetValue aMembers key).any fun a => jsonValueEquals a b with _ | _
  · rcases Option.isSome_iff_exists.mp (jsonValueDiff_isSome (jsonObjectGetValue aMembers key) b b) with ⟨d, hd⟩
    have hitem : itemOf (some (.object members)) key = some b := hget
    rw [if_neg Bool.false_ne_true, hitem, hd]
    refine ⟨overwrite key d members, rfl, by rw [map_fst_overwrite]; exact hnames, ?_⟩
    intro name
    rw [getValue_overwrite (by rw [hget]; rfl)]
    unfold diffItem
    rw [hequals, if_neg Bool.false_ne_true, hd]
  · rw [if_pos rfl]
    rcases @getValue_jsonObjectRemove (Table.trimmed members) key b hnames hget with ⟨hnames', hget'⟩
    refine ⟨_, rfl, hnames', ?_⟩
    intro name
    rw [hget' name]
    unfold diffItem
    rw [hequals, if_pos rfl]
    rfl

/-- The loop leaves of each member of `b` what it should. -/
theorem getValue_diffMembers (hnames : (members.map (·.1)).Nodup) (hbNames : (bMembers.map (·.1)).Nodup)
    (hget : ∀ m ∈ bMembers, jsonObjectGetValue members m.1 = some m.2) :
    ∃ members', diffMembers aMembers bMembers (some (.object members)) = some (.object members') ∧
      (members'.map (·.1)).Nodup ∧ ∀ name, jsonObjectGetValue members' name =
        match jsonObjectGetValue bMembers name with
        | some b => diffItem (jsonObjectGetValue aMembers name) b
        | none => jsonObjectGetValue members name := by
  induction bMembers generalizing members with
  | nil =>
    refine ⟨members, ?_, hnames, fun _ => rfl⟩
    unfold diffMembers
    rfl
  | cons m ms ih =>
    rcases m with ⟨key, b⟩
    rw [List.map_cons, List.nodup_cons] at hbNames
    rw [List.forall_mem_cons] at hget
    rcases @getValue_diffMember aMembers _ _ _ hnames hget.1 with ⟨members₁, hstep, hnames₁, hget₁⟩
    have hothers : ∀ m ∈ ms, jsonObjectGetValue members₁ m.1 = some m.2 := by
      intro m hm
      rw [hget₁, if_neg, hget.2 m hm]
      intro heq
      refine hbNames.1 ?_
      rw [heq]
      exact List.mem_map.mpr ⟨m, hm, rfl⟩
    rcases ih hnames₁ hbNames.2 hothers with ⟨members', hloop, hnames', hget'⟩
    refine ⟨members', ?_, hnames', ?_⟩
    · unfold diffMembers
      rw [hstep]
      exact hloop
    · intro name
      rw [hget' name, hget₁ name, jsonObjectGetValue_cons]
      by_cases heq : key = name
      · subst heq
        rw [if_pos rfl, if_pos rfl, getValue_eq_none_iff.mpr hbNames.1]
      · rw [if_neg heq, if_neg heq]

/-- Of a copy of the modified object there is left what differs from the original. -/
theorem jsonValueDiff_members (hbNames : (bMembers.map (·.1)).Nodup) :
    ∃ dMembers, jsonValueDiff (some (.object aMembers)) (.object bMembers) (some (.object bMembers)) =
        (true, some (.object dMembers)) ∧
      (dMembers.map (·.1)).Nodup ∧ ∀ name, jsonObjectGetValue dMembers name =
        (jsonObjectGetValue bMembers name).bind (diffItem (jsonObjectGetValue aMembers name)) := by
  have hget : ∀ m ∈ bMembers, jsonObjectGetValue bMembers m.1 = some m.2 :=
    fun m hm => (getValue_eq_some_iff hbNames).mpr hm
  rcases @getValue_diffMembers aMembers _ _ hbNames hbNames hget with ⟨dMembers, hloop, hnames, hgetD⟩
  refine ⟨dMembers, by rw [jsonValueDiff_object, hloop], hnames, ?_⟩
  intro name
  rw [hgetD name]
  rcases hb : jsonObjectGetValue bMembers name with _ | b
  · rfl
  · rfl

end Names

/-! ## What is left differs -/

section Equals

variable {a b d : Json} {aMembers bMembers : Members}

theorem equalMembers_iff {members members' : Members} : equalMembers members members' = true ↔
    ∀ m ∈ members, ∃ w, jsonObjectGetValue members' m.1 = some w ∧ jsonValueEquals m.2 w = true := by
  induction members with
  | nil =>
    unfold equalMembers
    exact iff_of_true rfl fun m hm => nomatch hm
  | cons m ms ih =>
    rcases m with ⟨name, v⟩
    unfold equalMembers equalMember
    rw [Bool.and_eq_true, ih, List.forall_mem_cons]
    refine and_congr_left fun _ => ?_
    simp only
    rcases jsonObjectGetValue members' name with _ | w
    · simp
    · simp

theorem equals_object_iff {members members' : Members} :
    jsonValueEquals (.object members) (.object members') = true ↔ members.length = members'.length ∧
      ∀ m ∈ members, ∃ w, jsonObjectGetValue members' m.1 = some w ∧ jsonValueEquals m.2 w = true := by
  have hdef : jsonValueEquals (.object members) (.object members') =
      (members.length = members'.length && equalMembers members members') := by
    unfold jsonValueEquals
    rfl
  rw [hdef, Bool.and_eq_true, decide_eq_true_eq, equalMembers_iff]

theorem diffItem_absent : diffItem none b = some b := by
  unfold diffItem
  rw [jsonValueDiff_absent]
  rfl

theorem diffItem_equal (h : jsonValueEquals a b = true) : diffItem (some a) b = none := by
  unfold diffItem
  rw [if_pos (by simpa using h)]

theorem diffItem_differs (h : jsonValueEquals a b = false) :
    diffItem (some a) b = (jsonValueDiff (some a) b (some b)).2 := by
  unfold diffItem
  rw [if_neg (by simp [h])]

/-- What is left of an object is empty only if there was nothing. -/
theorem diff_of_empty {dMembers : Members} (hget : ∀ name, jsonObjectGetValue dMembers name =
    (jsonObjectGetValue bMembers name).bind (diffItem (jsonObjectGetValue [] name)))
    (h : dMembers = []) : bMembers = [] := by
  rw [List.eq_nil_iff_forall_not_mem]
  rintro ⟨name, b⟩ hmem
  rcases hb : jsonObjectGetValue bMembers name with _ | b'
  · exact getValue_eq_none_iff.mp hb (List.mem_map.mpr ⟨_, hmem, rfl⟩)
  · have hleft := hget name
    have hnone : jsonObjectGetValue [] name = none := rfl
    rw [h, hb, hnone, Option.bind_some, diffItem_absent] at hleft
    cases hleft

/-- A difference is not taken for the original: if it were, there would be none. -/
theorem equals_of_diff (ha : UniqueKeys a) (hb : UniqueKeys b) (hd : (jsonValueDiff (some a) b (some b)).2 = some d)
    (h : jsonValueEquals a d = true) : jsonValueEquals a b = true := by
  induction a using Json.induct generalizing b d with
  | null | boolean | number | string | array =>
    rw [jsonValueDiff_other (Or.inl fun _ heq => Json.noConfusion heq)] at hd
    cases hd
    exact h
  | object aMembers ih =>
    by_cases hobject : ∃ bMembers, b = .object bMembers
    · rcases hobject with ⟨bMembers, rfl⟩
      cases ha with
      | object haNames haValues =>
      cases hb with
      | object hbNames hbValues =>
      rcases @jsonValueDiff_members aMembers bMembers hbNames with ⟨dMembers, hdiff, -, hget⟩
      rw [hdiff] at hd
      cases hd
      rcases equals_object_iff.mp h with ⟨hlength, hitems⟩
      -- a member of the original would have to be equal to what is left of it
      have hempty : aMembers = [] := by
        rw [List.eq_nil_iff_forall_not_mem]
        rintro ⟨name, v⟩ hmem
        rcases hitems _ hmem with ⟨w, hw, hequals⟩
        have hv : jsonObjectGetValue aMembers name = some v := (getValue_eq_some_iff haNames).mpr hmem
        rw [hget name, hv] at hw
        rcases Option.bind_eq_some_iff.mp hw with ⟨b, hb, hleft⟩
        rcases hvb : jsonValueEquals v b with _ | _
        · rw [diffItem_differs hvb] at hleft
          have hyes := ih _ hmem (haValues _ hmem) (hbValues _ (getValue_mem hb)) hleft hequals
          rw [hvb] at hyes
          cases hyes
        · rw [diffItem_equal hvb] at hleft
          cases hleft
      subst hempty
      have hnil : dMembers = [] := List.length_eq_zero_iff.mp hlength.symm
      rw [diff_of_empty hget hnil]
      exact equals_object_iff.mpr ⟨rfl, fun m hm => absurd hm List.not_mem_nil⟩
    · rw [jsonValueDiff_other (Or.inr fun members heq => hobject ⟨members, heq⟩)] at hd
      cases hd
      exact h

end Equals

/-! ## Merging what is left -/

/-- At every level a merge of `b` into `a` has the room it needs. -/
inductive Fits : Json → Json → Prop where
  | other {a b : Json} (h : (∀ members, a ≠ .object members) ∨ ∀ members, b ≠ .object members) : Fits a b
  | object {aMembers bMembers : Members}
      (hsuccess : (jsonValueMerge (.object aMembers) (.object bMembers)).1 = true)
      (hinside : ∀ name a b, jsonObjectGetValue aMembers name = some a → jsonObjectGetValue bMembers name = some b →
        jsonValueEquals a b = false → Fits a b) :
      Fits (.object aMembers) (.object bMembers)

/-- Nothing in `d` is taken for what `a` says already, at any level. -/
inductive Needed : Json → Json → Prop where
  | other {a d : Json} (h : (∀ members, a ≠ .object members) ∨ ∀ members, d ≠ .object members) : Needed a d
  | object {aMembers dMembers : Members}
      (hdiffers : ∀ name a d, jsonObjectGetValue aMembers name = some a → jsonObjectGetValue dMembers name = some d →
        jsonValueEquals a d = false)
      (hinside : ∀ name a d, jsonObjectGetValue aMembers name = some a → jsonObjectGetValue dMembers name = some d →
        Needed a d) :
      Needed (.object aMembers) (.object dMembers)

/-- What is to be shown of the difference `d` of `b` from `a`. -/
structure Differs (a b d : Json) : Prop where
  unique : UniqueKeys d
  needed : Needed a d
  fits : Fits a d
  same : Same (jsonValueMerge a d).2 (jsonValueMerge a b).2

section Left

variable {aMembers bMembers dMembers : Members}

/-- Objects in which a kind of names has the same values have the same members of that kind. -/
theorem perm_of_getValue {members members' : Members} (hnames : (members.map (·.1)).Nodup)
    (hnames' : (members'.map (·.1)).Nodup) {p : List UInt8 × Json → Bool}
    (h : ∀ m, p m = true →
      (jsonObjectGetValue members m.1 = some m.2 ↔ jsonObjectGetValue members' m.1 = some m.2)) :
    (members.filter p).Perm (members'.filter p) := by
  rw [List.perm_ext_iff_of_nodup (hnames.of_map.filter _) (hnames'.of_map.filter _)]
  rintro ⟨name, v⟩
  rw [List.mem_filter, List.mem_filter, ← getValue_eq_some_iff hnames, ← getValue_eq_some_iff hnames']
  exact and_congr_left fun hp => h ⟨name, v⟩ hp

/-- What is left under a name, where the whole of `b` has something else there. -/
theorem left_cases {a : Option Json} {b d : Json} (h : diffItem a b = some d) :
    (a = none ∧ d = b) ∨ ∃ v, a = some v ∧ jsonValueEquals v b = false ∧
      (jsonValueDiff (some v) b (some b)).2 = some d := by
  rcases a with _ | v
  · rw [diffItem_absent] at h
    injection h with h
    exact Or.inl ⟨rfl, h.symm⟩
  · rcases hequals : jsonValueEquals v b with _ | _
    · rw [diffItem_differs hequals] at h
      exact Or.inr ⟨v, rfl, hequals, h⟩
    · rw [diffItem_equal hequals] at h
      cases h

/-- Where the whole of `b` has room, what is left of it does. -/
theorem roomy_of_diff (hbNames : (bMembers.map (·.1)).Nodup) (hdNames : (dMembers.map (·.1)).Nodup)
    (hget : ∀ name, jsonObjectGetValue dMembers name =
      (jsonObjectGetValue bMembers name).bind (diffItem (jsonObjectGetValue aMembers name)))
    (h : Roomy (Table.trimmed aMembers) bMembers) : Roomy (Table.trimmed aMembers) dMembers := by
  have hnew : (newMembers aMembers dMembers).Perm (newMembers aMembers bMembers) := by
    refine perm_of_getValue hdNames hbNames ?_
    intro m hm
    rw [hget, Option.isNone_iff_eq_none.mp hm]
    rcases jsonObjectGetValue bMembers m.1 with _ | b
    · exact Iff.rfl
    · rw [Option.bind_some, diffItem_absent]
  refine ⟨?_, ?_⟩
  · show Table.CanGrow objectMaxCapacity (Table.trimmed aMembers) (newMembers aMembers dMembers).length
    rw [hnew.length_eq]
    exact h.room
  · rintro ⟨name, d⟩ hmem hcopied
    have hd := (getValue_eq_some_iff hdNames).mpr hmem
    rw [hget] at hd
    rcases Option.bind_eq_some_iff.mp hd with ⟨b, hb, hleft⟩
    have hcopyable := h.copyable (name, b) (getValue_mem hb)
    rcases left_cases hleft with ⟨hnone, rfl⟩ | ⟨a, ha, hequals, hleft⟩
    · refine hcopyable ?_
      intro a ha
      rw [show jsonObjectGetValue aMembers name = some a from ha] at hnone
      cases hnone
    · rcases hcopied a ha with ⟨-, hnot⟩
      rw [jsonValueDiff_other (Or.inl hnot)] at hleft
      injection hleft with hleft
      subst hleft
      refine hcopyable ?_
      intro a' ha'
      obtain rfl : a = a' := Option.some.inj (ha.symm.trans ha')
      exact ⟨hequals, hnot⟩

/-- The values of an object that was merged into. -/
theorem getValue_merge (haNames : (aMembers.map (·.1)).Nodup) (hbNames : (bMembers.map (·.1)).Nodup)
    (h : (jsonValueMerge (.object aMembers) (.object bMembers)).1 = true) :
    ∃ members, (jsonValueMerge (.object aMembers) (.object bMembers)).2 = .object members ∧
      ∀ name, jsonObjectGetValue members name =
        Option.merge mergeItem (jsonObjectGetValue aMembers name) (jsonObjectGetValue bMembers name) := by
  rw [jsonValueMerge_object] at h ⊢
  exact ⟨_, rfl, (@getValue_mergeMembers (Table.trimmed aMembers) _ bMembers haNames hbNames (Prod.ext h rfl)).2⟩

/-- A member that differs is merged or replaced in the same way. -/
theorem Differs.item {a b d : Json} (h : Differs a b d) (hd : (jsonValueDiff (some a) b (some b)).2 = some d)
    (hequals : jsonValueEquals a b = false) (hleft : jsonValueEquals a d = false) :
    Same (mergeItem a d) (mergeItem a b) := by
  by_cases hobject : ∃ members, a = .object members
  · rw [mergeItem_object hequals hobject, mergeItem_object hleft hobject]
    exact h.same
  · have hnot : ∀ members, a ≠ .object members := fun members heq => hobject ⟨members, heq⟩
    rw [jsonValueDiff_other (Or.inl hnot)] at hd
    injection hd with hd
    subst hd
    exact Same.refl _

/-- What is left of an object, given the same for the members of the original. -/
theorem differs_object {bMembers dMembers : Members} (haNames : (aMembers.map (·.1)).Nodup)
    (haValues : ∀ m ∈ aMembers, UniqueKeys m.2) (hbNames : (bMembers.map (·.1)).Nodup)
    (hbValues : ∀ m ∈ bMembers, UniqueKeys m.2) (hdNames : (dMembers.map (·.1)).Nodup)
    (hget : ∀ name, jsonObjectGetValue dMembers name =
      (jsonObjectGetValue bMembers name).bind (diffItem (jsonObjectGetValue aMembers name)))
    (hsuccess : (jsonValueMerge (.object aMembers) (.object bMembers)).1 = true)
    (ih : ∀ name a b d, jsonObjectGetValue aMembers name = some a → jsonObjectGetValue bMembers name = some b →
      jsonValueEquals a b = false → (jsonValueDiff (some a) b (some b)).2 = some d → Differs a b d) :
    Differs (.object aMembers) (.object bMembers) (.object dMembers) := by
  -- a name of the difference is new, or its value differs
  have hcases : ∀ name d, jsonObjectGetValue dMembers name = some d →
      ∃ b, jsonObjectGetValue bMembers name = some b ∧
        ((jsonObjectGetValue aMembers name = none ∧ d = b) ∨
          ∃ a, jsonObjectGetValue aMembers name = some a ∧ jsonValueEquals a b = false ∧
            (jsonValueDiff (some a) b (some b)).2 = some d) := by
    intro name d hd
    rw [hget] at hd
    rcases Option.bind_eq_some_iff.mp hd with ⟨b, hb, hleft⟩
    exact ⟨b, hb, left_cases hleft⟩
  have hboth : ∀ name a d, jsonObjectGetValue aMembers name = some a → jsonObjectGetValue dMembers name = some d →
      ∃ b, Differs a b d ∧ jsonObjectGetValue bMembers name = some b ∧ jsonValueEquals a b = false ∧
        (jsonValueDiff (some a) b (some b)).2 = some d ∧ jsonValueEquals a d = false := by
    intro name a d ha hd
    rcases hcases name d hd with ⟨b, hb, ⟨hnone, -⟩ | ⟨a', ha', hequals, hleft⟩⟩
    · rw [ha] at hnone
      cases hnone
    · obtain rfl : a' = a := Option.some.inj (ha'.symm.trans ha)
      refine ⟨b, ih name a' b d ha hb hequals hleft, hb, hequals, hleft, ?_⟩
      by_contra hyes
      rw [Bool.not_eq_false] at hyes
      have hsame := equals_of_diff (haValues _ (getValue_mem ha)) (hbValues _ (getValue_mem hb)) hleft hyes
      rw [hequals] at hsame
      cases hsame
  have hmerge : (jsonValueMerge (.object aMembers) (.object dMembers)).1 = true := by
    have hunique : ∀ m ∈ dMembers, UniqueKeys m.2 := by
      rintro ⟨name, d⟩ hm
      rcases hcases name d ((getValue_eq_some_iff hdNames).mpr hm) with ⟨b, hb, ⟨-, rfl⟩ | ⟨a, ha, hequals, hleft⟩⟩
      · exact hbValues _ (getValue_mem hb)
      · exact (ih name a b d ha hb hequals hleft).unique
    rw [jsonValueMerge_success_iff haNames hdNames hunique]
    exact roomy_of_diff hbNames hdNames hget ((jsonValueMerge_success_iff haNames hbNames hbValues).mp hsuccess)
  refine ⟨.object hdNames ?_, .object ?_ ?_, .object hmerge ?_, ?_⟩
  · rintro ⟨name, d⟩ hm
    rcases hcases name d ((getValue_eq_some_iff hdNames).mpr hm) with ⟨b, hb, ⟨-, rfl⟩ | ⟨a, ha, hequals, hleft⟩⟩
    · exact hbValues _ (getValue_mem hb)
    · exact (ih name a b d ha hb hequals hleft).unique
  · intro name a d ha hd
    rcases hboth name a d ha hd with ⟨b, -, -, -, -, hleft⟩
    exact hleft
  · intro name a d ha hd
    rcases hboth name a d ha hd with ⟨b, hdiffers, -⟩
    exact hdiffers.needed
  · intro name a d ha hd _
    rcases hboth name a d ha hd with ⟨b, hdiffers, -⟩
    exact hdiffers.fits
  · rcases getValue_merge haNames hdNames hmerge with ⟨members, hmembers, hgetD⟩
    rcases getValue_merge haNames hbNames hsuccess with ⟨members', hmembers', hgetB⟩
    rw [hmembers, hmembers', same_object_iff]
    intro name
    rw [hgetD name, hgetB name]
    rcases ha : jsonObjectGetValue aMembers name with _ | a
    · have hsame : jsonObjectGetValue dMembers name = jsonObjectGetValue bMembers name := by
        rw [hget name, ha]
        rcases jsonObjectGetValue bMembers name with _ | b
        · rfl
        · rw [Option.bind_some, diffItem_absent]
      rw [hsame]
      rcases jsonObjectGetValue bMembers name with _ | b
      · exact .none
      · exact .some (Same.refl b)
    · rcases hd : jsonObjectGetValue dMembers name with _ | d
      · -- what is not left is equal, or not there
        rw [hget name, ha] at hd
        rcases hb : jsonObjectGetValue bMembers name with _ | b
        · exact .some (Same.refl a)
        · rw [hb, Option.bind_some] at hd
          rcases hequals : jsonValueEquals a b with _ | _
          · rw [diffItem_differs hequals] at hd
            have hsome := jsonValueDiff_isSome (some a) b b
            rw [hd] at hsome
            cases hsome
          · show Option.Rel Same (some a) (some (mergeItem a b))
            rw [mergeItem_equal hequals]
            exact .some (Same.refl a)
      · rcases hboth name a d ha hd with ⟨b, hdiffers, hb, hequals, hdiff, hleft⟩
        rw [hb]
        exact .some (hdiffers.item hdiff hequals hleft)

/-- What is left of a tree, at every level. -/
theorem differs_of_diff {a b d : Json} (ha : UniqueKeys a) (hb : UniqueKeys b) (hfits : Fits a b)
    (hd : (jsonValueDiff (some a) b (some b)).2 = some d) : Differs a b d := by
  induction a using Json.induct generalizing b d with
  | null | boolean | number | string | array =>
    rw [jsonValueDiff_other (Or.inl fun _ heq => Json.noConfusion heq)] at hd
    cases hd
    exact ⟨hb, .other (Or.inl fun _ heq => Json.noConfusion heq), hfits, Same.refl _⟩
  | object aMembers ih =>
    cases ha with
    | object haNames haValues =>
    cases hfits with
    | other hnot =>
      rw [jsonValueDiff_other hnot] at hd
      cases hd
      exact ⟨hb, .other hnot, .other hnot, Same.refl _⟩
    | object hsuccess hinside =>
      rename_i bMembers
      cases hb with
      | object hbNames hbValues =>
      rcases @jsonValueDiff_members aMembers bMembers hbNames with ⟨dMembers, hdiff, hdNames, hget⟩
      rw [hdiff] at hd
      cases hd
      refine differs_object haNames haValues hbNames hbValues hdNames hget hsuccess ?_
      intro name a b d hA hB hequals hleft
      exact ih (name, a) (getValue_mem hA) (haValues _ (getValue_mem hA)) (hbValues _ (getValue_mem hB))
        (hinside name a b hA hB hequals) hleft

end Left

/-- The difference of two objects, taken out of a copy of the modified one, where the modified one
fits into the original at every level: merged into the original it comes to the tree that all of the
modified one comes to, it fits as well, and it says nothing the original says already. -/
theorem jsonValueMerge_diff {aMembers bMembers : Members} (ha : UniqueKeys (.object aMembers))
    (hb : UniqueKeys (.object bMembers)) (hfits : Fits (.object aMembers) (.object bMembers)) {copy : Json}
    (hcopy : jsonValueDeepCopy (.object bMembers) = some copy) :
    ∃ d, jsonValueDiff (some (.object aMembers)) (.object bMembers) (some copy) = (true, some d) ∧
      Differs (.object aMembers) (.object bMembers) d := by
  rw [jsonValueDeepCopy_eq hcopy]
  have hnames : (bMembers.map (·.1)).Nodup := by
    cases hb with
    | object hbNames => exact hbNames
  rcases @jsonValueDiff_members aMembers bMembers hnames with ⟨dMembers, hdiff, -⟩
  exact ⟨.object dMembers, hdiff, differs_of_diff ha hb hfits (by rw [hdiff])⟩

/-- `{"p": {"a": true, "b": true}}` -/
def nestedModified : Json :=
  .object [([112], .object [([97], .boolean true), ([98], .boolean true)])]

theorem uniqueKeys_nestedModified : UniqueKeys nestedModified := by
  refine .singleton (.object (by decide) ?_)
  intro m hm
  rcases List.mem_cons.mp hm with rfl | hm
  · exact .boolean true
  · rw [List.mem_singleton.mp hm]
    exact .boolean true

theorem fits_nestedModified : Fits nestedTree nestedModified := by
  refine .object (by decide +kernel) ?_
  intro name a b ha hb _
  cases List.mem_singleton.mp (getValue_mem ha)
  cases List.mem_singleton.mp (getValue_mem hb)
  refine .object (by decide +kernel) ?_
  intro name a b ha hb hequals
  cases List.mem_singleton.mp (getValue_mem ha)
  rcases List.mem_cons.mp (getValue_mem hb) with heq | hb
  · cases heq
    exact absurd hequals (by decide +kernel)
  · cases List.mem_singleton.mp hb

/-- What is left of it is the one member that is new, and it is merged to the whole. -/
theorem jsonValueMerge_diff_nested :
    jsonValueDiff (some nestedTree) nestedModified (some nestedModified) = (true, some nestedUpdate) ∧
      Same (jsonValueMerge nestedTree nestedUpdate).2 (jsonValueMerge nestedTree nestedModified).2 := by
  have hdiff : jsonValueDiff (some nestedTree) nestedModified (some nestedModified) = (true, some nestedUpdate) := by
    decide +kernel
  rcases jsonValueMerge_diff (.singleton (.singleton (.boolean true))) uniqueKeys_nestedModified fits_nestedModified
    (by decide +kernel : jsonValueDeepCopy nestedModified = some nestedModified) with ⟨d, hd, hdiffers⟩
  have hsame : some d = some nestedUpdate := congrArg Prod.snd (hd.symm.trans hdiff)
  injection hsame with hsame
  subst hsame
  exact ⟨hdiff, hdiffers.same⟩

end Hpav
