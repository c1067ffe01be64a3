import Mathlib.Tactic.Common
import Hpav.Json.MergeRoom

/-!
# When a merge overrides

`jsonValueMerge` and `override` part where two values are taken for equal that are not, where an
object meets something else, and where a merge further down fails, for nobody looks at its result:
`merge_iff` says that there is nothing else, for any relation that goes member by member through
objects.
-/

namespace Hpav

/-! ## Where the two are the same -/

/-- A relation that goes member by member through objects whose names are all of a kind. -/
structure Hereditary (R : Json → Json → Prop) (N : List UInt8 → Prop) : Prop where
  object : ∀ {members members'}, (members.map (·.1)).Nodup → (R (.object members) (.object members') ↔
    (∀ name, (jsonObjectGetValue members name).isSome = true → N name) ∧ NamesAgree R members members')
  kind : ∀ {members v}, R (.object members) v → ∃ members', v = .object members'

/-- Nothing of `b` gets lost in a merge into `a`: there is room for it, what is taken for equal is
so, and an object is met by an object, down to the last one. -/
inductive Merges (R : Json → Json → Prop) (N : List UInt8 → Prop) : Json → Json → Prop where
  | object {aMembers bMembers : Members}
      (hroom : Roomy (Table.trimmed aMembers) bMembers)
      (hnames : ∀ name, (jsonObjectGetValue aMembers name).isSome = true ∨
        (jsonObjectGetValue bMembers name).isSome = true → N name)
      (hkept : ∀ name a, jsonObjectGetValue aMembers name = some a → jsonObjectGetValue bMembers name = none → R a a)
      (hadded : ∀ name b, jsonObjectGetValue aMembers name = none → jsonObjectGetValue bMembers name = some b → R b b)
      (hequal : ∀ name a b, jsonObjectGetValue aMembers name = some a → jsonObjectGetValue bMembers name = some b →
        jsonValueEquals a b = true → R a (override a b))
      (hreplaced : ∀ name a b, jsonObjectGetValue aMembers name = some a → jsonObjectGetValue bMembers name = some b →
        jsonValueEquals a b = false → (∀ members, a ≠ .object members) → R b b)
      (hmerged : ∀ name a b, jsonObjectGetValue aMembers name = some a → jsonObjectGetValue bMembers name = some b →
        jsonValueEquals a b = false → (∃ members, a = .object members) → Merges R N a b) :
      Merges R N (.object aMembers) (.object bMembers)

theorem isSome_merge {f : Json → Json → Json} {a b : Option Json} :
    (Option.merge f a b).isSome = true ↔ a.isSome = true ∨ b.isSome = true := by
  cases a <;> cases b <;> simp [Option.merge]

theorem jsonValueMerge_object (aMembers bMembers : Members) :
    jsonValueMerge (.object aMembers) (.object bMembers) =
      ((mergeMembers (Table.trimmed aMembers) bMembers).1,
        .object (mergeMembers (Table.trimmed aMembers) bMembers).2.entries) := by
  unfold jsonValueMerge
  rfl

theorem jsonValueMerge_success_iff {aMembers bMembers : Members} (hnames : (aMembers.map (·.1)).Nodup)
    (hbNames : (bMembers.map (·.1)).Nodup) (hbValues : ∀ m ∈ bMembers, UniqueKeys m.2) :
    (jsonValueMerge (.object aMembers) (.object bMembers)).1 = true ↔ Roomy (Table.trimmed aMembers) bMembers := by
  rw [jsonValueMerge_object]
  exact mergeMembers_success_iff le_rfl hnames hbNames hbValues

section Iff

variable {R : Json → Json → Prop} {N : List UInt8 → Prop} {aMembers bMembers : Members}

/-- A merge that fails has not made the value it is for. -/
theorem Hereditary.not_of_failed (hR : Hereditary R N) (hnames : (aMembers.map (·.1)).Nodup)
    (hbNames : (bMembers.map (·.1)).Nodup)
    (h : (jsonValueMerge (.object aMembers) (.object bMembers)).1 = false) :
    ¬ R (jsonValueMerge (.object aMembers) (.object bMembers)).2 (override (.object aMembers) (.object bMembers)) := by
  rw [jsonValueMerge_object] at h ⊢
  obtain ⟨hnodup, key, hkey, hnone⟩ := mergeMembers_failed (show (Table.trimmed aMembers).entries.map _ |>.Nodup from hnames)
    (Prod.ext h rfl)
  intro hrel
  have hagree := ((hR.object hnodup).mp hrel).2 key
  rw [hnone, getValue_overrideMembers hbNames] at hagree
  have hsome : (Option.merge override (jsonObjectGetValue aMembers key) (jsonObjectGetValue bMembers key)).isSome = true := by
    rw [isSome_merge]
    right
    rw [Option.isSome_iff_ne_none]
    exact fun hn => getValue_eq_none_iff.mp hn hkey
  generalize Option.merge override (jsonObjectGetValue aMembers key) (jsonObjectGetValue bMembers key) = target at *
  cases hagree
  cases hsome

/-- Two ways to put the values of two objects together agree name by name. -/
theorem rel_merge_iff {f g : Json → Json → Json} {A B : List UInt8 → Option Json} :
    (∀ name, Option.Rel R (Option.merge f (A name) (B name)) (Option.merge g (A name) (B name))) ↔
      (∀ name a, A name = some a → B name = none → R a a) ∧ (∀ name b, A name = none → B name = some b → R b b) ∧
        ∀ name a b, A name = some a → B name = some b → R (f a b) (g a b) := by
  constructor
  · intro hagree
    refine ⟨?_, ?_, ?_⟩
    · intro name a ha hb
      have hrel := hagree name
      rw [ha, hb] at hrel
      cases hrel with
      | some hrel => exact hrel
    · intro name b ha hb
      have hrel := hagree name
      rw [ha, hb] at hrel
      cases hrel with
      | some hrel => exact hrel
    · intro name a b ha hb
      have hrel := hagree name
      rw [ha, hb] at hrel
      cases hrel with
      | some hrel => exact hrel
  · rintro ⟨hkept, hadded, hboth⟩ name
    -- a name in neither tree, in one of them, in both
    rcases ha : A name with _ | a
    · rcases hb : B name with _ | b
      · exact .none
      · exact .some (hadded name b ha hb)
    rcases hb : B name with _ | b
    · exact .some (hkept name a ha hb)
    · exact .some (hboth name a b ha hb)

/-- A merge of objects that succeeds, name by name. -/
theorem Hereditary.merged_iff (hR : Hereditary R N) (hnames : (aMembers.map (·.1)).Nodup)
    (hbNames : (bMembers.map (·.1)).Nodup)
    (h : (jsonValueMerge (.object aMembers) (.object bMembers)).1 = true) :
    R (jsonValueMerge (.object aMembers) (.object bMembers)).2 (override (.object aMembers) (.object bMembers)) ↔
      (∀ name, (jsonObjectGetValue aMembers name).isSome = true ∨ (jsonObjectGetValue bMembers name).isSome = true →
        N name) ∧
      ∀ name, Option.Rel R
        (Option.merge mergeItem (jsonObjectGetValue aMembers name) (jsonObjectGetValue bMembers name))
        (Option.merge override (jsonObjectGetValue aMembers name) (jsonObjectGetValue bMembers name)) := by
  rw [jsonValueMerge_object] at h ⊢
  obtain ⟨hnodup, hget⟩ := @getValue_mergeMembers (Table.trimmed aMembers) _ bMembers hnames hbNames (Prod.ext h rfl)
  refine (hR.object hnodup).trans (and_congr ?_ ?_)
  · refine forall_congr' fun name => ?_
    rw [hget, isSome_merge]
    rfl
  · unfold NamesAgree
    refine forall_congr' fun name => ?_
    rw [hget, getValue_overrideMembers hbNames]
    rfl

/-- The values of one name: what is made of them is what the merge is for exactly if it loses nothing. -/
theorem mergeItem_iff {a b : Json}
    (hitem : (∃ members, a = .object members) → (R (jsonValueMerge a b).2 (override a b) ↔ Merges R N a b)) :
    R (mergeItem a b) (override a b) ↔
      (jsonValueEquals a b = true → R a (override a b)) ∧
        (jsonValueEquals a b = false → (∀ members, a ≠ .object members) → R b b) ∧
        (jsonValueEquals a b = false → (∃ members, a = .object members) → Merges R N a b) := by
  rcases hequals : jsonValueEquals a b with _ | _
  · by_cases hyes : ∃ members, a = .object members
    · rw [mergeItem_object hequals hyes, hitem hyes]
      have hnot : ¬ ∀ members, a ≠ .object members := fun hno => hyes.elim hno
      simp [hyes, hnot]
    · have hno : ∀ members, a ≠ .object members := fun members heq => hyes ⟨members, heq⟩
      rw [mergeItem_of_not_object hequals hno, override_of_not_object hno]
      simp [hno]
  · rw [mergeItem_equal hequals]
    simp

/-- Where `b` is no object nothing happens to `a`. -/
theorem Hereditary.not_merged (hR : Hereditary R N) {b : Json} (hnot : ∀ members, b ≠ .object members) :
    ¬ R (jsonValueMerge (.object aMembers) b).2 (override (.object aMembers) b) := by
  intro hrel
  have hmerge : (jsonValueMerge (.object aMembers) b).2 = .object aMembers := by
    cases b with
    | object members => exact absurd rfl (hnot members)
    | _ => rfl
  have hoverride : override (.object aMembers) b = b := by
    cases b with
    | object members => exact absurd rfl (hnot members)
    | _ => rfl
  rw [hmerge, hoverride] at hrel
  exact (hR.kind hrel).elim hnot

/-- What a merge makes of `a` is what it is for exactly if it loses nothing of `b`. -/
theorem merge_iff (hR : Hereditary R N) {a b : Json} (ha : UniqueKeys a) (hb : UniqueKeys b)
    (hobject : ∃ members, a = .object members) :
    R (jsonValueMerge a b).2 (override a b) ↔ Merges R N a b := by
  -- on the base tree; only objects are ever merged
  induction a using Json.induct generalizing b with
  | null | boolean | number | string | array =>
    obtain ⟨members, hmembers⟩ := hobject
    cases hmembers
  | object aMembers ih =>
    by_cases hkind : ∃ members, b = .object members
    · obtain ⟨bMembers, rfl⟩ := hkind
      cases ha with
      | object hnames hvalues =>
      cases hb with
      | object hbNames hbValues =>
      have hroom := jsonValueMerge_success_iff hnames hbNames hbValues
      rcases hsuccess : (jsonValueMerge (.object aMembers) (.object bMembers)).1 with _ | _
      · refine iff_of_false (hR.not_of_failed hnames hbNames hsuccess) ?_
        rintro ⟨hyes, -, -, -, -, -, -⟩
        rw [hroom.mpr hyes] at hsuccess
        cases hsuccess
      -- below a common name the two results agree by induction
      have hitem : ∀ name a b, jsonObjectGetValue aMembers name = some a → jsonObjectGetValue bMembers name = some b →
          (∃ members, a = .object members) → (R (jsonValueMerge a b).2 (override a b) ↔ Merges R N a b) := by
        intro name a b hname hbName
        exact ih _ (getValue_mem hname) (hvalues _ (getValue_mem hname)) (hbValues _ (getValue_mem hbName))
      rw [hR.merged_iff hnames hbNames hsuccess, rel_merge_iff]
      constructor
      · rintro ⟨hN, hkept, hadded, hboth⟩
        have hvalue := fun name a b hname hbName =>
          (mergeItem_iff (hitem name a b hname hbName)).mp (hboth name a b hname hbName)
        refine .object (hroom.mp hsuccess) hN hkept hadded ?_ ?_ ?_
        · intro name a b hname hbName
          exact (hvalue name a b hname hbName).1
        · intro name a b hname hbName
          exact (hvalue name a b hname hbName).2.1
        · intro name a b hname hbName
          exact (hvalue name a b hname hbName).2.2
      · rintro ⟨-, hN, hkept, hadded, hequal, hreplaced, hmerged⟩
        refine ⟨hN, hkept, hadded, ?_⟩
        intro name a b hname hbName
        rw [mergeItem_iff (hitem name a b hname hbName)]
        exact ⟨hequal name a b hname hbName, hreplaced name a b hname hbName, hmerged name a b hname hbName⟩
    · -- an update that is no object leaves the base as it is
      have hnot : ∀ members, b ≠ .object members := fun members heq => hkind ⟨members, heq⟩
      refine iff_of_false (hR.not_merged hnot) ?_
      rintro ⟨⟩
      exact hnot _ rfl

/-! ## The merge of the configuration -/

theorem same_hereditary : Hereditary Same fun _ => True where
  object := by
    intro members members' _
    rw [same_object_iff]
    exact ⟨fun h => ⟨fun _ _ => trivial, h⟩, fun h => h.2⟩
  kind := by
    rintro members v (_ | _ | _ | _ | _ | @⟨_, members', _, _⟩)
    exact ⟨members', rfl⟩

/-- No merge fails that is made on the way. -/
inductive NoFailureInside : Json → Json → Prop where
  | object {aMembers bMembers : Members}
      (hsuccess : ∀ name a b, jsonObjectGetValue aMembers name = some a → jsonObjectGetValue bMembers name = some b →
        jsonValueEquals a b = false → (∃ members, a = .object members) → (jsonValueMerge a b).1 = true)
      (hinside : ∀ name a b, jsonObjectGetValue aMembers name = some a → jsonObjectGetValue bMembers name = some b →
        jsonValueEquals a b = false → (∃ members, a = .object members) → NoFailureInside a b) :
      NoFailureInside (.object aMembers) (.object bMembers)

/-- Where nothing gets lost, no merge fails. -/
theorem Merges.success {a b : Json} (ha : UniqueKeys a) (hb : UniqueKeys b) (h : Merges R N a b) :
    (jsonValueMerge a b).1 = true := by
  cases h with
  | object hroom =>
    cases ha with
    | object hnames =>
      cases hb with
      | object hbNames hbValues => exact (jsonValueMerge_success_iff hnames hbNames hbValues).mpr hroom

theorem Merges.noFailureInside {a b : Json} (ha : UniqueKeys a) (hb : UniqueKeys b) (h : Merges R N a b) :
    NoFailureInside a b := by
  induction h with
  | object hroom hN hkept hadded hequal hreplaced hmerged ih =>
    cases ha with
    | object hnames hvalues =>
    cases hb with
    | object hbNames hbValues =>
    refine .object ?_ ?_
    · intro name a b hname hbName hequals hyes
      exact (hmerged name a b hname hbName hequals hyes).success (hvalues _ (getValue_mem hname))
        (hbValues _ (getValue_mem hbName))
    · intro name a b hname hbName hequals hyes
      exact ih name a b hname hbName hequals hyes (hvalues _ (getValue_mem hname))
        (hbValues _ (getValue_mem hbName))

end Iff

/-- Only objects are merged. -/
theorem jsonValueMerge_success {a b : Json} (h : (jsonValueMerge a b).1 = true) : ∃ members, a = .object members := by
  cases b with
  | object bMembers =>
    cases a with
    | object aMembers => exact ⟨aMembers, rfl⟩
    | _ => cases h
  | _ => cases h

/-- A merge that reports success has overridden the tree, without a failure on its way, if and only if
it loses nothing. -/
theorem jsonValueMerge_override_iff {a b : Json} (ha : UniqueKeys a) (hb : UniqueKeys b)
    (h : (jsonValueMerge a b).1 = true) :
    (Same (jsonValueMerge a b).2 (override a b) ∧ NoFailureInside a b) ↔ Merges Same (fun _ => True) a b := by
  have hiff := merge_iff same_hereditary ha hb (jsonValueMerge_success h)
  constructor
  · rintro ⟨hsame, -⟩
    exact hiff.mp hsame
  · intro hmerges
    exact ⟨hiff.mpr hmerges, hmerges.noFailureInside ha hb⟩

/-- `{"p": {"a": true}}` -/
def nestedTree : Json :=
  .object [([112], .object [([97], .boolean true)])]

/-- `{"p": null}` -/
def flatTree : Json :=
  .object [([112], .null)]

/-- `{"p": {"b": true}}` -/
def nestedUpdate : Json :=
  .object [([112], .object [([98], .boolean true)])]

theorem UniqueKeys.singleton {name : List UInt8} {v : Json} (h : UniqueKeys v) : UniqueKeys (.object [(name, v)]) := by
  refine .object (List.nodup_singleton _) ?_
  intro m hm
  rw [List.mem_singleton.mp hm]
  exact h

theorem jsonValueMerge_override_iff_nested :
    (Same (jsonValueMerge nestedTree nestedUpdate).2 (override nestedTree nestedUpdate) ∧
      NoFailureInside nestedTree nestedUpdate) ↔ Merges Same (fun _ => True) nestedTree nestedUpdate :=
  jsonValueMerge_override_iff (.singleton (.singleton (.boolean true))) (.singleton (.singleton (.boolean true)))
    (by decide +kernel)

/-- The update takes an object away, and the merge says it did. -/
theorem jsonValueMerge_drops : ¬ ∀ a b : Json, UniqueKeys a → UniqueKeys b → (jsonValueMerge a b).1 = true →
    Same (jsonValueMerge a b).2 (override a b) ∧ NoFailureInside a b := by
  intro hall
  obtain ⟨hsame, -⟩ := hall nestedTree flatTree (.singleton (.singleton (.boolean true))) (.singleton .null)
    (by decide +kernel)
  have hmerge : (jsonValueMerge nestedTree flatTree).2 = nestedTree := by decide +kernel
  have hoverride : override nestedTree flatTree = flatTree := by decide +kernel
  rw [hmerge, hoverride] at hsame
  have hagree := same_object_iff.mp hsame [112]
  have hbase : jsonObjectGetValue [([112], Json.object [([97], .boolean true)])] [112] =
    some (.object [([97], .boolean true)]) := rfl
  have hupdate : jsonObjectGetValue [([112], Json.null)] [112] = some .null := rfl
  rw [hbase, hupdate] at hagree
  cases hagree with
  | some hrel => cases hrel

end Hpav
