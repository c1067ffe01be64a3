import Mathlib.Tactic.Common
import Hpav.Json.Merge
import Hpav.Json.Path

/-!
# What a merge is for

`override a b` is the tree `a` with what `b` says instead, and `jsonValueMerge` is to turn `a` into
it. Both are followed name by name: `getValue_overrideMembers`, `getValue_mergeMembers`.
-/

namespace Hpav

/-! ## Objects by their names -/

/-- The same names, with values that are related. -/
def NamesAgree (R : Json → Json → Prop) (members members' : Members) : Prop :=
  ∀ name, Option.Rel R (jsonObjectGetValue members name) (jsonObjectGetValue members' name)

/-- The values that differ in the order of members at most. -/
inductive Same : Json → Json → Prop where
  | null : Same .null .null
  | boolean (b : Bool) : Same (.boolean b) (.boolean b)
  | number (x : Binary64.Double) : Same (.number x) (.number x)
  | string (s : List UInt8) : Same (.string s) (.string s)
  | array {items items' : List Json} (hlength : items.length = items'.length)
      (hitems : ∀ (i : Nat) (v w : Json), items[i]? = some v → items'[i]? = some w → Same v w) :
      Same (.array items) (.array items')
  | object {members members' : Members}
      (hnames : ∀ name, (jsonObjectGetValue members name).isSome = (jsonObjectGetValue members' name).isSome)
      (hvalues : ∀ name v w, jsonObjectGetValue members name = some v →
        jsonObjectGetValue members' name = some w → Same v w) :
      Same (.object members) (.object members')

/-- No object of the tree has two members of one name. -/
inductive UniqueKeys : Json → Prop where
  | null : UniqueKeys .null
  | boolean (b : Bool) : UniqueKeys (.boolean b)
  | number (x : Binary64.Double) : UniqueKeys (.number x)
  | string (s : List UInt8) : UniqueKeys (.string s)
  | array {items : List Json} (hitems : ∀ v ∈ items, UniqueKeys v) : UniqueKeys (.array items)
  | object {members : Members} (hnames : (members.map (·.1)).Nodup) (hvalues : ∀ m ∈ members, UniqueKeys m.2) :
      UniqueKeys (.object members)

section Lookup

variable {members members' : Members} {name key : List UInt8} {value : Json}

/-- A value that is found is a member. -/
theorem getValue_mem (h : jsonObjectGetValue members name = some value) : (name, value) ∈ members := by
  obtain ⟨pre, post, rfl, -⟩ := jsonObjectGetValue_eq_some h
  exact List.mem_append_right pre List.mem_cons_self

/-- Nothing is found under a name exactly if no member has it. -/
theorem getValue_eq_none_iff : jsonObjectGetValue members name = none ↔ name ∉ members.map (·.1) := by
  unfold jsonObjectGetValue
  rw [Option.map_eq_none_iff, List.find?_eq_none]
  constructor
  · intro h hmem
    obtain ⟨m, hm, rfl⟩ := List.mem_map.mp hmem
    exact h m hm (by simp)
  · intro h m hm heq
    have hname : m.1 = name := by simpa using heq
    exact h (List.mem_map.mpr ⟨m, hm, hname⟩)

/-- Where the names are unique, a name leads to its member. -/
theorem getValue_eq_some_iff (hnames : (members.map (·.1)).Nodup) :
    jsonObjectGetValue members name = some value ↔ (name, value) ∈ members := by
  constructor
  · exact getValue_mem
  · intro hmem
    obtain ⟨pre, post, rfl⟩ := List.append_of_mem hmem
    refine jsonObjectGetValue_splice ?_ value post
    intro m hm heq
    rw [List.map_append, List.map_cons, List.nodup_append] at hnames
    exact hnames.2.2 m.1 (List.mem_map_of_mem hm) name List.mem_cons_self heq

/-- With different names the order of the members makes no difference. -/
theorem getValue_perm (hnames : (members.map (·.1)).Nodup) (h : members.Perm members') (name : List UInt8) :
    jsonObjectGetValue members' name = jsonObjectGetValue members name := by
  have hnames' : (members'.map (·.1)).Nodup := ((h.map (·.1)).nodup_iff).mp hnames
  ext value
  rw [getValue_eq_some_iff hnames, getValue_eq_some_iff hnames']
  exact h.symm.mem_iff

/-- A new member at the end is found under its name, and changes nothing else. -/
theorem getValue_concat (h : jsonObjectGetValue members key = none) (name : List UInt8) :
    jsonObjectGetValue (members ++ [(key, value)]) name =
      if key = name then some value else jsonObjectGetValue members name := by
  by_cases heq : key = name
  · subst heq
    rw [if_pos rfl]
    refine jsonObjectGetValue_splice ?_ value []
    intro m hm hname
    exact getValue_eq_none_iff.mp h (List.mem_map.mpr ⟨m, hm, hname⟩)
  · rw [if_neg heq, jsonObjectGetValue_splice_ne (fun h => heq h.symm), List.append_nil]

/-- Putting a value keeps the names, and their order. -/
theorem map_fst_overwrite : (overwrite key value members).map (·.1) = members.map (·.1) := by
  induction members with
  | nil => rfl
  | cons m ms ih =>
    unfold overwrite
    split
    · rfl
    · rw [List.map_cons, List.map_cons, ih]

/-- The value put is found under its name, and nothing else changes. -/
theorem getValue_overwrite (h : (jsonObjectGetValue members key).isSome = true) (name : List UInt8) :
    jsonObjectGetValue (overwrite key value members) name =
      if key = name then some value else jsonObjectGetValue members name := by
  -- the value is put between the members in front of the old one and those behind it
  obtain ⟨old, hold⟩ := Option.isSome_iff_exists.mp h
  obtain ⟨pre, post, rfl, hfresh⟩ := jsonObjectGetValue_eq_some hold
  rw [overwrite_splice hfresh]
  by_cases heq : key = name
  · subst heq
    rw [if_pos rfl, jsonObjectGetValue_splice hfresh]
  · rw [if_neg heq, jsonObjectGetValue_splice_ne (fun h => heq h.symm),
      jsonObjectGetValue_splice_ne (fun h => heq h.symm)]

end Lookup

/-- Two objects are the same if their members agree name by name. -/
theorem same_object_iff {members members' : Members} :
    Same (.object members) (.object members') ↔ NamesAgree Same members members' := by
  constructor
  · rintro (_ | _ | _ | _ | _ | ⟨hnames, hvalues⟩) name
    have hname := hnames name
    rcases hv : jsonObjectGetValue members name with _ | v
    · have hw : jsonObjectGetValue members' name = none := by
        rw [hv] at hname
        simpa using hname.symm
      rw [hw]
      exact .none
    · rw [hv] at hname
      obtain ⟨w, hw⟩ := Option.isSome_iff_exists.mp hname.symm
      rw [hw]
      exact .some (hvalues name v w hv hw)
  · intro h
    refine .object ?_ ?_
    · intro name
      have hrel := h name
      generalize jsonObjectGetValue members name = a, jsonObjectGetValue members' name = b at hrel ⊢
      cases hrel with
      | none => rfl
      | some => rfl
    · intro name v w hv hw
      have hrel := h name
      rw [hv, hw] at hrel
      cases hrel with
      | some hvw => exact hvw

/-- Every value is the same as itself. -/
theorem Same.refl (v : Json) : Same v v := by
  -- on the tree
  induction v using Json.induct with
  | null => exact .null
  | boolean b => exact .boolean b
  | number x => exact .number x
  | string s => exact .string s
  | array items ih =>
    refine .array rfl ?_
    intro i v w hv hw
    rw [hv] at hw
    injection hw with hw
    subst hw
    exact ih v (List.mem_of_getElem? hv)
  | object members ih =>
    refine .object (fun _ => rfl) ?_
    intro name v w hv hw
    rw [hv] at hw
    injection hw with hw
    subst hw
    exact ih _ (getValue_mem hv)

/-- Being the same goes both ways. -/
theorem Same.symm {v w : Json} (h : Same v w) : Same w v := by
  induction h with
  | null => exact .null
  | boolean b => exact .boolean b
  | number x => exact .number x
  | string s => exact .string s
  | array hlength _ ih => exact .array hlength.symm fun i v w hv hw => ih i w v hw hv
  | object hnames _ ih => exact .object (fun name => (hnames name).symm) fun name v w hv hw => ih name w v hw hv

/-- Being the same is handed on. -/
theorem Same.trans {u v w : Json} (h : Same u v) (h' : Same v w) : Same u w := by
  induction h generalizing w with
  | null => exact h'
  | boolean b => exact h'
  | number x => exact h'
  | string s => exact h'
  | @array items items' hlength _ ih =>
    cases h' with
    | array hlength' hitems' =>
      refine .array (hlength.trans hlength') ?_
      intro i v w hv hw
      -- the list between has an item there, for its length is the same
      obtain ⟨hi, -⟩ := List.getElem?_eq_some_iff.mp hv
      obtain ⟨middle, hmiddle⟩ : ∃ middle, items'[i]? = some middle := ⟨_, List.getElem?_eq_getElem (hlength ▸ hi)⟩
      exact ih i v middle hv hmiddle (hitems' i middle w hmiddle hw)
  | object hnames _ ih =>
    cases h' with
    | object hnames' hvalues' =>
      refine .object (fun name => (hnames name).trans (hnames' name)) ?_
      intro name v w hv hw
      -- the object between has a member with the name
      have hsome := hnames name
      rw [hv] at hsome
      obtain ⟨middle, hmiddle⟩ := Option.isSome_iff_exists.mp hsome.symm
      exact ih name v middle hv hmiddle (hvalues' name middle w hmiddle hw)

/-! ## Overriding -/

mutual

/-- `a` with what `b` says instead. -/
def override (a : Json) : Json → Json
  | .object bMembers =>
    match a with
    | .object aMembers => .object (overrideMembers aMembers bMembers)
    | _ => .object bMembers
  | b => b

def overrideMembers (members : Members) : List (List UInt8 × Json) → Members
  | [] => members
  | m :: ms => overrideMembers (overrideMember members m) ms

def overrideMember (members : Members) : List UInt8 × Json → Members
  | (name, b) =>
    match jsonObjectGetValue members name with
    | none => members ++ [(name, b)]
    | some a => overwrite name (override a b) members

end

/-- What is no object is replaced as a whole. -/
theorem override_of_not_object {a b : Json} (h : ∀ members, a ≠ .object members) : override a b = b := by
  cases b with
  | object bMembers =>
    cases a with
    | object aMembers => exact absurd rfl (h aMembers)
    | _ => rfl
  | _ => rfl

section Step

variable {f : Json → Json → Json} {members members' result rest : Members} {key : List UInt8} {b : Json}

/-- A step that sees to one name, followed by a loop that sees to all others. -/
theorem merge_cons (hfresh : jsonObjectGetValue rest key = none)
    (hstep : ∀ name, jsonObjectGetValue members' name =
      if key = name then Option.merge f (jsonObjectGetValue members name) (some b)
      else jsonObjectGetValue members name)
    (hrest : ∀ name, jsonObjectGetValue result name =
      Option.merge f (jsonObjectGetValue members' name) (jsonObjectGetValue rest name)) (name : List UInt8) :
    jsonObjectGetValue result name =
      Option.merge f (jsonObjectGetValue members name) (jsonObjectGetValue ((key, b) :: rest) name) := by
  rw [hrest, hstep, jsonObjectGetValue_cons]
  by_cases heq : key = name
  · subst heq
    rw [if_pos rfl, if_pos rfl, hfresh]
    cases jsonObjectGetValue members key <;> rfl
  · rw [if_neg heq, if_neg heq]

/-- One step changes the member with its name and no other. -/
theorem getValue_overrideMember (name : List UInt8) :
    jsonObjectGetValue (overrideMember members (key, b)) name =
      if key = name then Option.merge override (jsonObjectGetValue members name) (some b)
      else jsonObjectGetValue members name := by
  unfold overrideMember
  rcases hget : jsonObjectGetValue members key with _ | a
  · -- a new member at the end
    simp only
    rw [getValue_concat hget]
    by_cases heq : key = name
    · subst heq
      rw [if_pos rfl, if_pos rfl, hget]
      rfl
    · rw [if_neg heq, if_neg heq]
  · -- a value put in its place
    simp only
    rw [getValue_overwrite (by rw [hget]; rfl)]
    by_cases heq : key = name
    · subst heq
      rw [if_pos rfl, if_pos rfl, hget]
      rfl
    · rw [if_neg heq, if_neg heq]

/-- What the loop over the members of `b` comes to. -/
theorem getValue_overrideMembers {bMembers : Members} (hnames : (bMembers.map (·.1)).Nodup) (name : List UInt8) :
    jsonObjectGetValue (overrideMembers members bMembers) name =
      Option.merge override (jsonObjectGetValue members name) (jsonObjectGetValue bMembers name) := by
  -- on the members of `b`, for any object the steps before them have made
  induction bMembers generalizing members name with
  | nil =>
    show jsonObjectGetValue members name = Option.merge override (jsonObjectGetValue members name) none
    cases jsonObjectGetValue members name <;> rfl
  | cons m ms ih =>
    obtain ⟨key, b⟩ := m
    rw [List.map_cons, List.nodup_cons] at hnames
    unfold overrideMembers
    exact merge_cons (getValue_eq_none_iff.mpr hnames.1) getValue_overrideMember
      (fun name => ih hnames.2 name) name

end Step

/-! ## Copies -/

/-- The items that are copied are put behind those that were there. -/
theorem copyItems_eq {items : List Json} (hitems : ∀ v ∈ items, ∀ copy, jsonValueDeepCopy v = some copy → copy = v)
    {t t' : Table Json} (h : copyItems t items = some t') : t'.entries = t.entries ++ items := by
  induction items generalizing t with
  | nil =>
    injection h with h
    rw [← h, List.append_nil]
  | cons v vs ih =>
    unfold copyItems at h
    simp only [Option.bind_eq_bind, Option.bind_eq_some_iff] at h
    obtain ⟨copy, hcopy, t₁, hadd, hrest⟩ := h
    obtain rfl := hitems v List.mem_cons_self copy hcopy
    rw [ih (fun w hw => hitems w (List.mem_cons_of_mem _ hw)) hrest, Table.add_entries hadd, List.append_assoc]
    rfl

/-- A member is added under a new name, at the end. -/
theorem jsonObjectAdd_eq {object object' : Table (List UInt8 × Json)} {name : List UInt8} {value : Json}
    (h : jsonObjectAdd object name value = some object') :
    jsonObjectGetValue object.entries name = none ∧ object'.entries = object.entries ++ [(name, value)] := by
  unfold jsonObjectAdd at h
  split at h
  · cases h
  · rename_i hnone
    exact ⟨by simpa using hnone, Table.add_entries h⟩

/-- The members that are copied are put behind those that were there. -/
theorem copyMembers_eq {members : Members}
    (hmembers : ∀ m ∈ members, ∀ copy, jsonValueDeepCopy m.2 = some copy → copy = m.2)
    {t t' : Table (List UInt8 × Json)} (h : copyMembers t members = some t') : t'.entries = t.entries ++ members := by
  induction members generalizing t with
  | nil =>
    injection h with h
    rw [← h, List.append_nil]
  | cons m ms ih =>
    obtain ⟨name, v⟩ := m
    unfold copyMembers copyMember at h
    simp only [Option.bind_eq_bind, Option.bind_eq_some_iff] at h
    obtain ⟨t₁, ⟨copy, hcopy, hadd⟩, hrest⟩ := h
    obtain rfl := hmembers _ List.mem_cons_self copy hcopy
    rw [ih (fun m hm => hmembers m (List.mem_cons_of_mem _ hm)) hrest, (jsonObjectAdd_eq hadd).2, List.append_assoc]
    rfl

/-- A copy that succeeds is the value. -/
theorem jsonValueDeepCopy_eq {v copy : Json} (h : jsonValueDeepCopy v = some copy) : copy = v := by
  -- on the value: what is inside is copied first
  induction v using Json.induct generalizing copy with
  | null | boolean | number | string =>
    injection h with h
    exact h.symm
  | array items ih =>
    unfold jsonValueDeepCopy at h
    rw [Option.map_eq_some_iff] at h
    obtain ⟨t, ht, rfl⟩ := h
    rw [copyItems_eq (fun v hv copy => ih v hv) ht]
    rfl
  | object members ih =>
    unfold jsonValueDeepCopy at h
    rw [Option.map_eq_some_iff] at h
    obtain ⟨t, ht, rfl⟩ := h
    rw [copyMembers_eq (fun m hm copy => ih m hm) ht]
    rfl

/-! ## Removing -/

/-- The index of a name is the number of members in front of it. -/
theorem findIdx?_splice {pre post : Members} {name : List UInt8} (h : ∀ m ∈ pre, m.1 ≠ name) (value : Json) :
    (pre ++ (name, value) :: post).findIdx? (fun m => m.1 = name) = some pre.length := by
  induction pre with
  | nil => simp [List.findIdx?_cons]
  | cons m ms ih =>
    have hm : ¬ m.1 = name := h m List.mem_cons_self
    rw [List.cons_append, List.findIdx?_cons, ih fun m' hm' => h m' (List.mem_cons_of_mem _ hm')]
    simp [hm]

/-- The member goes, and the order of the others changes. -/
theorem jsonObjectRemove_perm {object : Table (List UInt8 × Json)} {pre post : Members} {name : List UInt8}
    {value : Json} (h : ∀ m ∈ pre, m.1 ≠ name) (hentries : object.entries = pre ++ (name, value) :: post) :
    (pre ++ post).Perm (jsonObjectRemove object name).entries := by
  unfold jsonObjectRemove
  rw [hentries, findIdx?_splice h]
  rcases List.eq_nil_or_concat' post with rfl | ⟨front, last, rfl⟩
  · -- the member is the last one
    rw [List.getLast?_concat]
    simp
  · -- the last member takes its place
    have hlast : (pre ++ (name, value) :: (front ++ [last])).getLast? = some last := by
      rw [← List.cons_append, ← List.append_assoc, List.getLast?_concat]
    rw [hlast]
    simp only
    have hset : (pre ++ (name, value) :: (front ++ [last])).set pre.length last =
        (pre ++ last :: front) ++ [last] := by
      rw [List.set_append_right _ _ le_rfl, Nat.sub_self, List.set_cons_zero]
      simp
    rw [hset, List.dropLast_concat]
    refine List.Perm.append_left pre ?_
    exact List.perm_append_singleton last front

/-- A member that is removed is gone, and the others are found as before. -/
theorem getValue_jsonObjectRemove {object : Table (List UInt8 × Json)} {key : List UInt8} {old : Json}
    (hnames : (object.entries.map (·.1)).Nodup) (hold : jsonObjectGetValue object.entries key = some old) :
    ((jsonObjectRemove object key).entries.map (·.1)).Nodup ∧
    ∀ name, jsonObjectGetValue (jsonObjectRemove object key).entries name =
      if key = name then none else jsonObjectGetValue object.entries name := by
  -- the order that changes does not matter, for the names are different
  obtain ⟨pre, post, hentries, hfresh⟩ := jsonObjectGetValue_eq_some hold
  have hperm := jsonObjectRemove_perm hfresh hentries
  rw [hentries] at hnames
  have hmiddle : ((key, old) :: (pre ++ post)).Perm (pre ++ (key, old) :: post) := List.perm_middle.symm
  have hcons : (((key, old) :: (pre ++ post)).map (·.1)).Nodup := ((hmiddle.map (·.1)).nodup_iff).mpr hnames
  rw [List.map_cons, List.nodup_cons] at hcons
  refine ⟨((hperm.map (·.1)).nodup_iff).mp hcons.2, ?_⟩
  intro name
  rw [getValue_perm hcons.2 hperm, hentries]
  by_cases heq : key = name
  · subst heq
    rw [if_pos rfl]
    exact getValue_eq_none_iff.mpr hcons.1
  · rw [if_neg heq, jsonObjectGetValue_splice_ne (fun h => heq h.symm)]

/-! ## Merging -/

/-- What takes the place of a member that both objects have. -/
def mergeItem (a b : Json) : Json :=
  if jsonValueEquals a b then a
  else
    match a with
    | .object _ => (jsonValueMerge a b).2
    | _ => b

/-- What is equal is left as it is. -/
theorem mergeItem_equal {a b : Json} (hequals : jsonValueEquals a b = true) : mergeItem a b = a := by
  unfold mergeItem
  rw [if_pos hequals]

/-- Into an object the other value is merged. -/
theorem mergeItem_object {a b : Json} (hequals : jsonValueEquals a b = false) (h : ∃ members, a = .object members) :
    mergeItem a b = (jsonValueMerge a b).2 := by
  obtain ⟨members, rfl⟩ := h
  unfold mergeItem
  rw [hequals]
  rfl

/-- Anything else is replaced by the other value. -/
theorem mergeItem_of_not_object {a b : Json} (hequals : jsonValueEquals a b = false)
    (h : ∀ members, a ≠ .object members) : mergeItem a b = b := by
  unfold mergeItem
  rw [hequals]
  cases a with
  | object members => exact absurd rfl (h members)
  | _ => rfl

section Merge

variable {object object' : Table (List UInt8 × Json)} {key : List UInt8} {b : Json}

/-- The copy is put behind the others, if there is room. -/
def addCopy (object : Table (List UInt8 × Json)) (key : List UInt8) (b : Json) :
    Bool × Table (List UInt8 × Json) :=
  match (jsonValueDeepCopy b).bind (jsonObjectAdd object key) with
  | none => (false, object)
  | some object => (true, object)

/-- A copy is added under a new name. -/
theorem addCopy_eq (h : addCopy object key b = (true, object')) :
    jsonObjectGetValue object.entries key = none ∧ object'.entries = object.entries ++ [(key, b)] := by
  unfold addCopy at h
  rcases hadd : (jsonValueDeepCopy b).bind (jsonObjectAdd object key) with _ | added
  · rw [hadd] at h
    cases h
  · rw [hadd] at h
    injection h with _ h
    subst h
    rw [Option.bind_eq_some_iff] at hadd
    -- what is added is the copy, which is the value
    obtain ⟨copy, hcopy, hadd⟩ := hadd
    obtain rfl := jsonValueDeepCopy_eq hcopy
    exact jsonObjectAdd_eq hadd

/-- A copy that is not added changes nothing. -/
theorem addCopy_failed (h : addCopy object key b = (false, object')) : object' = object := by
  unfold addCopy at h
  split at h
  · injection h with _ h
    exact h.symm
  · cases h

/-- A member the first object does not have is copied into it. -/
theorem mergeMember_absent (hget : jsonObjectGetValue object.entries key = none) :
    mergeMember object (key, b) = addCopy object key b := by
  unfold mergeMember
  rw [hget]
  rfl

/-- A member that is equal is left as it is. -/
theorem mergeMember_equal {a : Json} (hget : jsonObjectGetValue object.entries key = some a)
    (hequals : jsonValueEquals a b = true) : mergeMember object (key, b) = (true, object) := by
  unfold mergeMember
  rw [hget]
  exact if_pos hequals

/-- A member that is an object is merged in its place. -/
theorem mergeMember_object {a : Json} (hget : jsonObjectGetValue object.entries key = some a)
    (hequals : jsonValueEquals a b = false) (hobject : ∃ members, a = .object members) :
    mergeMember object (key, b) =
      (true, { object with entries := overwrite key (jsonValueMerge a b).2 object.entries }) := by
  obtain ⟨members, rfl⟩ := hobject
  unfold mergeMember
  simp only [hget, hequals]
  rfl

/-- Any other member is removed, and its successor put at the end. -/
theorem mergeMember_replace {a : Json} (hget : jsonObjectGetValue object.entries key = some a)
    (hequals : jsonValueEquals a b = false) (hnot : ∀ members, a ≠ .object members) :
    mergeMember object (key, b) = addCopy (jsonObjectRemove object key) key b := by
  unfold mergeMember
  simp only [hget, hequals]
  cases a with
  | object members => exact absurd rfl (hnot members)
  | _ => rfl

/-- A new name keeps the names different. -/
theorem nodup_concat {members : Members} (hnames : (members.map (·.1)).Nodup)
    (hnone : jsonObjectGetValue members key = none) : ((members ++ [(key, b)]).map (·.1)).Nodup := by
  rw [List.map_append, List.map_singleton, List.nodup_append]
  refine ⟨hnames, List.nodup_singleton _, ?_⟩
  rintro name hname other hother rfl
  rw [List.mem_singleton] at hother
  subst hother
  exact getValue_eq_none_iff.mp hnone hname

/-- One turn that succeeds sees to its name and leaves the others alone. -/
theorem getValue_mergeMember (hnames : (object.entries.map (·.1)).Nodup)
    (h : mergeMember object (key, b) = (true, object')) : (object'.entries.map (·.1)).Nodup ∧
    ∀ name, jsonObjectGetValue object'.entries name =
      if key = name then Option.merge mergeItem (jsonObjectGetValue object.entries name) (some b)
      else jsonObjectGetValue object.entries name := by
  -- the name is new, or its values are equal, or one is put in the place of the other,
  -- or the base value is an object and merged
  rcases hget : jsonObjectGetValue object.entries key with _ | a
  · rw [mergeMember_absent hget] at h
    obtain ⟨-, hentries⟩ := addCopy_eq h
    rw [hentries]
    refine ⟨nodup_concat hnames hget, ?_⟩
    intro name
    rw [getValue_concat hget]
    by_cases heq : key = name
    · rw [if_pos heq, if_pos heq, ← heq, hget]
      rfl
    · rw [if_neg heq, if_neg heq]
  have hmerged : ∀ name, key = name → Option.merge mergeItem (jsonObjectGetValue object.entries name) (some b) =
      some (mergeItem a b) := by
    intro name heq
    rw [← heq, hget]
    rfl
  rcases hequals : jsonValueEquals a b with _ | _
  · by_cases hobject : ∃ members, a = .object members
    · rw [mergeMember_object hget hequals hobject] at h
      injection h with _ h
      subst h
      refine ⟨by rw [map_fst_overwrite]; exact hnames, ?_⟩
      intro name
      rw [getValue_overwrite (by rw [hget]; rfl)]
      by_cases heq : key = name
      · rw [if_pos heq, if_pos heq, hmerged name heq, mergeItem_object hequals hobject]
      · rw [if_neg heq, if_neg heq]
    · have hnot : ∀ members, a ≠ .object members := fun members heq => hobject ⟨members, heq⟩
      rw [mergeMember_replace hget hequals hnot] at h
      obtain ⟨hremoved, hothers⟩ := getValue_jsonObjectRemove hnames hget
      obtain ⟨hnone, hentries⟩ := addCopy_eq h
      rw [hentries]
      refine ⟨nodup_concat hremoved hnone, ?_⟩
      intro name
      rw [getValue_concat hnone]
      by_cases heq : key = name
      · rw [if_pos heq, if_pos heq, hmerged name heq, mergeItem_of_not_object hequals hnot]
      · rw [if_neg heq, if_neg heq, hothers, if_neg heq]
  · rw [mergeMember_equal hget hequals] at h
    injection h with _ h
    subst h
    refine ⟨hnames, ?_⟩
    intro name
    by_cases heq : key = name
    · rw [if_pos heq, hmerged name heq, ← heq, hget, mergeItem_equal hequals]
    · rw [if_neg heq]

/-- A turn that fails leaves its name out. -/
theorem mergeMember_failed (hnames : (object.entries.map (·.1)).Nodup)
    (h : mergeMember object (key, b) = (false, object')) :
    (object'.entries.map (·.1)).Nodup ∧ jsonObjectGetValue object'.entries key = none := by
  rcases hget : jsonObjectGetValue object.entries key with _ | a
  · rw [mergeMember_absent hget] at h
    rw [addCopy_failed h]
    exact ⟨hnames, hget⟩
  rcases hequals : jsonValueEquals a b with _ | _
  · by_cases hobject : ∃ members, a = .object members
    · rw [mergeMember_object hget hequals hobject] at h
      cases h
    · have hnot : ∀ members, a ≠ .object members := fun members heq => hobject ⟨members, heq⟩
      rw [mergeMember_replace hget hequals hnot] at h
      obtain ⟨hremoved, hothers⟩ := getValue_jsonObjectRemove hnames hget
      -- the old value is gone, and the new one was not added
      rw [addCopy_failed h, hothers, if_pos rfl]
      exact ⟨hremoved, rfl⟩
  · rw [mergeMember_equal hget hequals] at h
    cases h

/-- What a loop over the members of `b` comes to that succeeds. -/
theorem getValue_mergeMembers {bMembers : Members} (hnames : (object.entries.map (·.1)).Nodup)
    (hbNames : (bMembers.map (·.1)).Nodup) (h : mergeMembers object bMembers = (true, object')) :
    (object'.entries.map (·.1)).Nodup ∧ ∀ name, jsonObjectGetValue object'.entries name =
      Option.merge mergeItem (jsonObjectGetValue object.entries name) (jsonObjectGetValue bMembers name) := by
  -- on the members of `b`: every turn keeps the names of the table different
  induction bMembers generalizing object with
  | nil =>
    injection h with _ h
    subst h
    refine ⟨hnames, ?_⟩
    intro name
    show jsonObjectGetValue object.entries name = Option.merge mergeItem (jsonObjectGetValue object.entries name) none
    cases jsonObjectGetValue object.entries name <;> rfl
  | cons m ms ih =>
    obtain ⟨key, b⟩ := m
    rw [List.map_cons, List.nodup_cons] at hbNames
    unfold mergeMembers at h
    rcases hstep : mergeMember object (key, b) with ⟨success, object₁⟩
    rw [hstep] at h
    cases success with
    | false => cases h
    | true =>
      obtain ⟨hnames₁, hget₁⟩ := getValue_mergeMember hnames hstep
      obtain ⟨hnames', hget'⟩ := ih hnames₁ hbNames.2 h
      exact ⟨hnames', merge_cons (getValue_eq_none_iff.mpr hbNames.1) hget₁ hget'⟩

/-- A loop that fails has left a name of `b` out. -/
theorem mergeMembers_failed {bMembers : Members} (hnames : (object.entries.map (·.1)).Nodup)
    (h : mergeMembers object bMembers = (false, object')) :
    (object'.entries.map (·.1)).Nodup ∧
      ∃ key ∈ bMembers.map (·.1), jsonObjectGetValue object'.entries key = none := by
  induction bMembers generalizing object with
  | nil => cases h
  | cons m ms ih =>
    obtain ⟨key, b⟩ := m
    unfold mergeMembers at h
    rcases hstep : mergeMember object (key, b) with ⟨success, object₁⟩
    rw [hstep] at h
    cases success with
    | false =>
      injection h with _ h
      subst h
      obtain ⟨hnames', hnone⟩ := mergeMember_failed hnames hstep
      exact ⟨hnames', key, List.mem_cons_self, hnone⟩
    | true =>
      obtain ⟨hnames', name, hname, hnone⟩ := ih (getValue_mergeMember hnames hstep).1 h
      exact ⟨hnames', name, List.mem_cons_of_mem _ hname, hnone⟩

end Merge

end Hpav
