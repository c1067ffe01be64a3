import Mathlib.Tactic.Common
import Hpav.Json.Override

/-!
# When a merge succeeds

An object has room for what its capacity can double to, and a copy of a value has room for what a
table can grow to from nothing. A merge succeeds exactly if the object has room for the members it
does not have, and what is taken over can be copied (`mergeMembers_success_iff`); what comes of
the merges further down plays no part in it.
-/

namespace Hpav

/-! ## Copies that succeed -/

/-- The value has nowhere more items or members than a copy of it can be given. -/
inductive Copyable : Json → Prop where
  | null : Copyable .null
  | boolean (b : Bool) : Copyable (.boolean b)
  | number (x : Binary64.Double) : Copyable (.number x)
  | string (s : List UInt8) : Copyable (.string s)
  | array {items : List Json} (hlength : items.length ≤ arrayMaxCapacity) (hitems : ∀ v ∈ items, Copyable v) :
      Copyable (.array items)
  | object {members : Members} (hlength : members.length ≤ objectMaxCapacity)
      (hvalues : ∀ m ∈ members, Copyable m.2) : Copyable (.object members)

/-- A table that has grown from nothing takes one more exactly if it is below the limit. -/
theorem Table.Grown.add_iff {α : Type} {m : Nat} {t : Table α} (h : t.Grown m) (x : α) :
    (t.add (startingCapacity * 2 ^ m) x).isSome = true ↔ t.entries.length < startingCapacity * 2 ^ m := by
  constructor
  · intro hsome
    obtain ⟨t', hadd⟩ := Option.isSome_iff_exists.mp hsome
    have hlen := (h.of_add hadd).length_le
    rw [Table.add_entries hadd, List.length_append, List.length_singleton] at hlen
    omega
  · intro hlt
    obtain ⟨t', hadd, _⟩ := h.add hlt x
    rw [hadd]
    rfl

/-- Items are copied if there is room for all of them, and each of them is copied. -/
theorem copyItems_isSome_iff {items : List Json} {t : Table Json} (ht : t.Grown 13) :
    (copyItems t items).isSome = true ↔
      (items = [] ∨ t.entries.length + items.length ≤ arrayMaxCapacity) ∧
        ∀ v ∈ items, (jsonValueDeepCopy v).isSome = true := by
  -- item by item: each has to be copied, and the table has to take it
  induction items generalizing t with
  | nil => simp [copyItems]
  | cons v vs ih =>
    have hlimit : startingCapacity * 2 ^ 13 = arrayMaxCapacity := rfl
    unfold copyItems jsonArrayAdd
    rw [List.forall_mem_cons, List.length_cons]
    rcases hcopy : jsonValueDeepCopy v with _ | copy
    · simp
    simp only [Option.bind_eq_bind, Option.bind_some, Option.isSome_some, true_and, List.cons_ne_nil, false_or]
    have hadd := ht.add_iff copy
    rw [hlimit] at hadd
    rcases hadded : t.add arrayMaxCapacity copy with _ | t'
    · rw [hadded] at hadd
      have hfull : ¬ t.entries.length < arrayMaxCapacity := fun h => by simpa using hadd.mpr h
      refine iff_of_false (by simp) ?_
      rintro ⟨hle, _⟩
      omega
    · rw [hadded] at hadd
      have hlt := hadd.mp rfl
      rw [Option.bind_some, ih (ht.of_add (hlimit ▸ hadded)), Table.add_entries hadded, List.length_append,
        List.length_singleton]
      refine and_congr_left fun _ => ?_
      constructor
      · rintro (rfl | hle)
        · rw [List.length_nil]
          omega
        · omega
      · intro hle
        right
        omega


/-- Under a new name adding is a matter of the table. -/
theorem jsonObjectAdd_absent {object : Table (List UInt8 × Json)} {name : List UInt8} {value : Json}
    (h : jsonObjectGetValue object.entries name = none) :
    jsonObjectAdd object name value = object.add objectMaxCapacity (name, value) := by
  unfold jsonObjectAdd
  rw [h]
  rfl

/-- Members are copied if there is room for all of them, and each of them is copied. -/
theorem copyMembers_isSome_iff {members : Members} {t : Table (List UInt8 × Json)} (ht : t.Grown 6)
    (hnames : ((t.entries ++ members).map (·.1)).Nodup) :
    (copyMembers t members).isSome = true ↔
      (members = [] ∨ t.entries.length + members.length ≤ objectMaxCapacity) ∧
        ∀ m ∈ members, (jsonValueDeepCopy m.2).isSome = true := by
  induction members generalizing t with
  | nil => simp [copyMembers]
  | cons m ms ih =>
    obtain ⟨name, v⟩ := m
    have hlimit : startingCapacity * 2 ^ 6 = objectMaxCapacity := rfl
    -- the names differ, so none of them is refused as a duplicate
    have hfresh : jsonObjectGetValue t.entries name = none := by
      rw [getValue_eq_none_iff]
      intro hmem
      rw [List.map_append, List.map_cons, List.nodup_append] at hnames
      exact hnames.2.2 name hmem name List.mem_cons_self rfl
    unfold copyMembers copyMember
    rw [List.forall_mem_cons, List.length_cons]
    rcases hcopy : jsonValueDeepCopy v with _ | copy
    · simp
    simp only [Option.bind_eq_bind, Option.bind_some, Option.isSome_some, true_and, List.cons_ne_nil, false_or]
    rw [jsonObjectAdd_absent hfresh]
    have hadd := ht.add_iff (name, copy)
    rw [hlimit] at hadd
    rcases hadded : t.add objectMaxCapacity (name, copy) with _ | t'
    · rw [hadded] at hadd
      have hfull : ¬ t.entries.length < objectMaxCapacity := fun h => by simpa using hadd.mpr h
      refine iff_of_false (by simp) ?_
      rintro ⟨hle, _⟩
      omega
    · rw [hadded] at hadd
      have hlt := hadd.mp rfl
      have hentries := Table.add_entries hadded
      have hnames' : ((t'.entries ++ ms).map (·.1)).Nodup := by
        rw [hentries, List.append_assoc]
        simpa using hnames
      rw [Option.bind_some, ih (ht.of_add (hlimit ▸ hadded)) hnames', hentries, List.length_append,
        List.length_singleton]
      refine and_congr_left fun _ => ?_
      constructor
      · rintro (rfl | hle)
        · rw [List.length_nil]
          omega
        · omega
      · intro hle
        right
        omega

/-- A value is copied exactly if it is within the limits. -/
theorem deepCopy_isSome_iff {v : Json} (h : UniqueKeys v) : (jsonValueDeepCopy v).isSome = true ↔ Copyable v := by
  induction v using Json.induct with
  | null => exact iff_of_true rfl .null
  | boolean b => exact iff_of_true rfl (.boolean b)
  | number x => exact iff_of_true rfl (.number x)
  | string s => exact iff_of_true rfl (.string s)
  | array items ih =>
    cases h with
    | array hitems =>
      unfold jsonValueDeepCopy
      rw [Option.isSome_map, copyItems_isSome_iff (Table.grown_empty 13)]
      constructor
      · rintro ⟨hlength, hcopies⟩
        refine .array ?_ fun v hv => (ih v hv (hitems v hv)).mp (hcopies v hv)
        rcases hlength with rfl | hle
        · exact Nat.zero_le _
        · simpa [Table.empty] using hle
      · rintro (_ | _ | _ | _ | ⟨hlength, hcopies⟩)
        refine ⟨Or.inr (by simpa [Table.empty] using hlength), fun v hv => (ih v hv (hitems v hv)).mpr (hcopies v hv)⟩
  | object members ih =>
    cases h with
    | object hnames hvalues =>
      unfold jsonValueDeepCopy
      rw [Option.isSome_map, copyMembers_isSome_iff (Table.grown_empty 6) (by simpa [Table.empty] using hnames)]
      constructor
      · rintro ⟨hlength, hcopies⟩
        refine .object ?_ fun m hm => (ih m hm (hvalues m hm)).mp (hcopies m hm)
        rcases hlength with rfl | hle
        · exact Nat.zero_le _
        · simpa [Table.empty] using hle
      · rintro (_ | _ | _ | _ | _ | ⟨hlength, hcopies⟩)
        refine ⟨Or.inr (by simpa [Table.empty] using hlength), fun m hm => (ih m hm (hvalues m hm)).mpr (hcopies m hm)⟩

/-! ## Merges that succeed -/

/-- The members of `b` whose names `a` does not have. -/
def newMembers (aMembers bMembers : Members) : Members :=
  bMembers.filter fun m => (jsonObjectGetValue aMembers m.1).isNone

/-- The value is copied into the object: it is new there, or takes the place of one that is no
object. -/
def IsCopied (aMembers : Members) (m : List UInt8 × Json) : Prop :=
  ∀ a, jsonObjectGetValue aMembers m.1 = some a → jsonValueEquals a m.2 = false ∧ ∀ members, a ≠ .object members

/-- The object has room for the members it does not have, and what is taken over can be copied. -/
structure Roomy (object : Table (List UInt8 × Json)) (bMembers : Members) : Prop where
  room : object.CanGrow objectMaxCapacity (newMembers object.entries bMembers).length
  copyable : ∀ m ∈ bMembers, IsCopied object.entries m → Copyable m.2

section Success

variable {object object' : Table (List UInt8 × Json)} {key : List UInt8} {b : Json} {ms : Members}

/-- Which members are new is decided by what is found under their names. -/
theorem newMembers_congr {aMembers aMembers' : Members}
    (h : ∀ m ∈ ms, jsonObjectGetValue aMembers' m.1 = jsonObjectGetValue aMembers m.1) :
    newMembers aMembers' ms = newMembers aMembers ms := by
  refine List.filter_congr fun m hm => ?_
  rw [h m hm]

/-- So is which members are copied. -/
theorem isCopied_congr {aMembers aMembers' : Members} {m : List UInt8 × Json}
    (h : jsonObjectGetValue aMembers' m.1 = jsonObjectGetValue aMembers m.1) :
    IsCopied aMembers' m ↔ IsCopied aMembers m := by
  unfold IsCopied
  rw [h]

/-- A turn that has done its own part leaves the others theirs. -/
theorem roomy_cons_iff {need : Nat} (hnew : (newMembers object.entries ((key, b) :: ms)).length =
      (newMembers object.entries ms).length + need)
    (hget : ∀ m ∈ ms, jsonObjectGetValue object'.entries m.1 = jsonObjectGetValue object.entries m.1)
    (hcopied : IsCopied object.entries (key, b) → Copyable b)
    (hgrow : ∀ count, object.CanGrow objectMaxCapacity (count + need) ↔ object'.CanGrow objectMaxCapacity count) :
    Roomy object ((key, b) :: ms) ↔ Roomy object' ms := by
  constructor
  · rintro ⟨hroom, hcopyable⟩
    rw [List.forall_mem_cons] at hcopyable
    rw [hnew, hgrow] at hroom
    refine ⟨by rw [newMembers_congr hget]; exact hroom, ?_⟩
    intro m hm hcopy
    exact hcopyable.2 m hm ((isCopied_congr (hget m hm)).mp hcopy)
  · rintro ⟨hroom, hcopyable⟩
    rw [newMembers_congr hget, ← hgrow, ← hnew] at hroom
    refine ⟨hroom, List.forall_mem_cons.mpr ⟨hcopied, ?_⟩⟩
    intro m hm hcopy
    exact hcopyable m hm ((isCopied_congr (hget m hm)).mpr hcopy)

/-- A member the first object does not have is one more new member. -/
theorem newMembers_cons_absent (h : jsonObjectGetValue object.entries key = none) :
    (newMembers object.entries ((key, b) :: ms)).length = (newMembers object.entries ms).length + 1 := by
  unfold newMembers
  rw [List.filter_cons_of_pos (by rw [h]; rfl), List.length_cons]

/-- A member it has is none. -/
theorem newMembers_cons_present {a : Json} (h : jsonObjectGetValue object.entries key = some a) :
    (newMembers object.entries ((key, b) :: ms)).length = (newMembers object.entries ms).length + 0 := by
  unfold newMembers
  rw [List.filter_cons_of_neg (by rw [h]; simp), Nat.add_zero]

/-- A table of as many entries, in as much capacity. -/
theorem canGrow_congr {α : Type} {t t' : Table α} (hlength : t'.entries.length = t.entries.length)
    (hcapacity : t'.capacity = t.capacity) (maxCapacity count : Nat) :
    t.CanGrow maxCapacity (count + 0) ↔ t'.CanGrow maxCapacity count := by
  unfold Table.CanGrow
  rw [hlength, hcapacity, Nat.add_zero]

/-- A value that is copied and finds room is added. -/
theorem addCopy_success (hnone : jsonObjectGetValue object.entries key = none)
    (hcopy : jsonValueDeepCopy b = some b) (hadd : object.add objectMaxCapacity (key, b) = some object') :
    addCopy object key b = (true, object') := by
  unfold addCopy
  rw [hcopy, Option.bind_some, jsonObjectAdd_absent hnone, hadd]

/-- A value that is not copied is not added. -/
theorem addCopy_uncopied (hcopy : jsonValueDeepCopy b = none) : (addCopy object key b).1 = false := by
  unfold addCopy
  rw [hcopy]
  rfl

/-- A value that finds no room is not added. -/
theorem addCopy_full (hnone : jsonObjectGetValue object.entries key = none)
    (hadd : object.add objectMaxCapacity (key, b) = none) : (addCopy object key b).1 = false := by
  unfold addCopy
  rcases hcopy : jsonValueDeepCopy b with _ | copy
  · rfl
  · rw [Option.bind_some, jsonObjectAdd_absent hnone, jsonValueDeepCopy_eq hcopy, hadd]

/-- A value is copied as it is, or not at all. -/
theorem deepCopy_cases (hb : UniqueKeys b) :
    (Copyable b ∧ jsonValueDeepCopy b = some b) ∨ (¬ Copyable b ∧ jsonValueDeepCopy b = none) := by
  have hiff := deepCopy_isSome_iff hb
  rcases hcopy : jsonValueDeepCopy b with _ | copy
  · rw [hcopy] at hiff
    exact Or.inr ⟨fun h => by simpa using hiff.mpr h, rfl⟩
  · rw [hcopy] at hiff
    exact Or.inl ⟨hiff.mp rfl, by rw [jsonValueDeepCopy_eq hcopy]⟩

/-- Removing a member leaves one less in the same table. -/
theorem length_jsonObjectRemove {a : Json} (h : jsonObjectGetValue object.entries key = some a) :
    (jsonObjectRemove object key).entries.length + 1 = object.entries.length ∧
      (jsonObjectRemove object key).capacity = object.capacity := by
  obtain ⟨pre, post, hentries, hfresh⟩ := jsonObjectGetValue_eq_some h
  refine ⟨?_, ?_⟩
  · rw [← (jsonObjectRemove_perm hfresh hentries).length_eq, hentries]
    simp only [List.length_append, List.length_cons]
    omega
  · unfold jsonObjectRemove
    split <;> rfl

/-- What a turn comes to: it fails, and there was no room, or the others have the room they had. -/
def TurnLeaves (object : Table (List UInt8 × Json)) (m : List UInt8 × Json) (ms : Members) : Prop :=
  ((mergeMember object m).1 = false ∧ ¬ Roomy object (m :: ms)) ∨
    ∃ object', mergeMember object m = (true, object') ∧ object'.entries.length ≤ object'.capacity ∧
      (Roomy object (m :: ms) ↔ Roomy object' ms)

/-- A turn that succeeds changes nothing for the other names. -/
theorem turnLeaves_of_success (hnames : (object.entries.map (·.1)).Nodup) (hkey : key ∉ ms.map (·.1)) (need : Nat)
    (hstep : mergeMember object (key, b) = (true, object')) (hfits' : object'.entries.length ≤ object'.capacity)
    (hnew : (newMembers object.entries ((key, b) :: ms)).length = (newMembers object.entries ms).length + need)
    (hcopied : IsCopied object.entries (key, b) → Copyable b)
    (hgrow : ∀ count, object.CanGrow objectMaxCapacity (count + need) ↔ object'.CanGrow objectMaxCapacity count) :
    TurnLeaves object (key, b) ms := by
  obtain ⟨-, hget'⟩ := getValue_mergeMember hnames hstep
  have hget : ∀ m ∈ ms, jsonObjectGetValue object'.entries m.1 = jsonObjectGetValue object.entries m.1 := by
    intro m hm
    rw [hget', if_neg]
    intro heq
    refine hkey ?_
    rw [heq]
    exact List.mem_map.mpr ⟨m, hm, rfl⟩
  exact Or.inr ⟨object', hstep, hfits', roomy_cons_iff hnew hget hcopied hgrow⟩

/-- A turn fails whose value cannot be copied. -/
theorem turnLeaves_of_uncopied (hcopied : IsCopied object.entries (key, b)) (hnot : ¬ Copyable b)
    (hfailed : (mergeMember object (key, b)).1 = false) : TurnLeaves object (key, b) ms := by
  refine Or.inl ⟨hfailed, ?_⟩
  rintro ⟨-, hcopyable⟩
  exact hnot (hcopyable _ List.mem_cons_self hcopied)

/-- A turn over a new member leaves what is said. -/
theorem turnLeaves_absent (hfits : object.entries.length ≤ object.capacity) (hnames : (object.entries.map (·.1)).Nodup)
    (hkey : key ∉ ms.map (·.1)) (hb : UniqueKeys b) (hget : jsonObjectGetValue object.entries key = none) :
    TurnLeaves object (key, b) ms := by
  have hcopied : IsCopied object.entries (key, b) := by
    intro a ha
    rw [hget] at ha
    cases ha
  have hstep := @mergeMember_absent object key b hget
  rcases deepCopy_cases hb with ⟨hcopyable, hcopy⟩ | ⟨hnot, hcopy⟩
  · rcases hadd : object.add objectMaxCapacity (key, b) with _ | object'
    · refine Or.inl ⟨by rw [hstep]; exact addCopy_full hget hadd, ?_⟩
      rintro ⟨hroom, -⟩
      rw [newMembers_cons_absent hget] at hroom
      obtain ⟨_, hsome, -⟩ := (Table.canGrow_succ_iff hfits (key, b) _).mp hroom
      rw [hadd] at hsome
      cases hsome
    · refine turnLeaves_of_success hnames hkey 1 (by rw [hstep]; exact addCopy_success hget hcopy hadd)
        (Table.add_fits hfits hadd) (newMembers_cons_absent hget) (fun _ => hcopyable) ?_
      intro count
      rw [Table.canGrow_succ_iff hfits (key, b), hadd]
      simp
  · refine turnLeaves_of_uncopied hcopied hnot ?_
    rw [hstep]
    exact addCopy_uncopied hcopy

/-- Where an object is met the merge further down does not count. -/
theorem turnLeaves_object {a : Json} (hfits : object.entries.length ≤ object.capacity)
    (hnames : (object.entries.map (·.1)).Nodup) (hkey : key ∉ ms.map (·.1))
    (hget : jsonObjectGetValue object.entries key = some a) (hequals : jsonValueEquals a b = false)
    (hobject : ∃ members, a = .object members) : TurnLeaves object (key, b) ms := by
  have hlength : ∀ v, (overwrite key v object.entries).length = object.entries.length := by
    intro v
    rw [← List.length_map (·.1), map_fst_overwrite, List.length_map]
  refine turnLeaves_of_success hnames hkey 0 (mergeMember_object hget hequals hobject) ?_
    (newMembers_cons_present hget) ?_ ?_
  · show (overwrite _ _ _).length ≤ object.capacity
    rw [hlength]
    exact hfits
  · intro hcopied
    obtain ⟨members, rfl⟩ := hobject
    exact absurd rfl ((hcopied _ hget).2 members)
  · intro count
    refine canGrow_congr ?_ ?_ objectMaxCapacity count
    · exact hlength _
    · rfl

/-- A value that is replaced is removed first, and that makes room for the new one. -/
theorem turnLeaves_replace {a : Json} (hfits : object.entries.length ≤ object.capacity)
    (hnames : (object.entries.map (·.1)).Nodup) (hkey : key ∉ ms.map (·.1)) (hb : UniqueKeys b)
    (hget : jsonObjectGetValue object.entries key = some a) (hequals : jsonValueEquals a b = false)
    (hno : ∀ members, a ≠ .object members) : TurnLeaves object (key, b) ms := by
  have hcopied : IsCopied object.entries (key, b) := by
    intro a' ha'
    rw [hget] at ha'
    cases ha'
    exact ⟨hequals, hno⟩
  have hstep := mergeMember_replace hget hequals hno
  rcases deepCopy_cases hb with ⟨hcopyable, hcopy⟩ | ⟨hnot, hcopy⟩
  · obtain ⟨hlength, hcapacity⟩ := length_jsonObjectRemove hget
    obtain ⟨-, hremoved⟩ := getValue_jsonObjectRemove hnames hget
    have hnone : jsonObjectGetValue (jsonObjectRemove object key).entries key = none := by
      rw [hremoved, if_pos rfl]
    -- what was removed leaves room for what is added
    have hadd : (jsonObjectRemove object key).add objectMaxCapacity (key, b) =
        some ⟨(jsonObjectRemove object key).entries ++ [(key, b)], (jsonObjectRemove object key).capacity⟩ := by
      unfold Table.add
      rw [if_neg (by omega)]
    have hlength' : ((jsonObjectRemove object key).entries ++ [(key, b)]).length = object.entries.length := by
      rw [List.length_append, List.length_singleton]
      exact hlength
    refine turnLeaves_of_success hnames hkey 0 (by rw [hstep]; exact addCopy_success hnone hcopy hadd) ?_
      (newMembers_cons_present hget) (fun _ => hcopyable) ?_
    · show ((jsonObjectRemove object key).entries ++ [(key, b)]).length ≤ (jsonObjectRemove object key).capacity
      omega
    · intro count
      refine canGrow_congr ?_ ?_ objectMaxCapacity count
      · exact hlength'
      · exact hcapacity
  · refine turnLeaves_of_uncopied hcopied hnot ?_
    rw [hstep]
    exact addCopy_uncopied hcopy

/-- A turn over an equal member leaves what is said. -/
theorem turnLeaves_equal {a : Json} (hfits : object.entries.length ≤ object.capacity)
    (hnames : (object.entries.map (·.1)).Nodup) (hkey : key ∉ ms.map (·.1))
    (hget : jsonObjectGetValue object.entries key = some a) (hequals : jsonValueEquals a b = true) :
    TurnLeaves object (key, b) ms := by
  refine turnLeaves_of_success hnames hkey 0 (mergeMember_equal hget hequals) hfits (newMembers_cons_present hget) ?_ ?_
  · intro hcopied
    rw [(hcopied a hget).1] at hequals
    cases hequals
  · exact fun count => canGrow_congr rfl rfl objectMaxCapacity count

/-- Every turn of the loop leaves what is said. -/
theorem turnLeaves (hfits : object.entries.length ≤ object.capacity) (hnames : (object.entries.map (·.1)).Nodup)
    (hkey : key ∉ ms.map (·.1)) (hb : UniqueKeys b) : TurnLeaves object (key, b) ms := by
  rcases hget : jsonObjectGetValue object.entries key with _ | a
  · exact turnLeaves_absent hfits hnames hkey hb hget
  rcases hequals : jsonValueEquals a b with _ | _
  · by_cases hobject : ∃ members, a = .object members
    · exact turnLeaves_object hfits hnames hkey hget hequals hobject
    · exact turnLeaves_replace hfits hnames hkey hb hget hequals fun members heq => hobject ⟨members, heq⟩
  · exact turnLeaves_equal hfits hnames hkey hget hequals

/-- A loop over the members of `b` succeeds exactly if there is room. -/
theorem mergeMembers_success_iff (hfits : object.entries.length ≤ object.capacity)
    (hnames : (object.entries.map (·.1)).Nodup) (hbNames : (ms.map (·.1)).Nodup)
    (hbValues : ∀ m ∈ ms, UniqueKeys m.2) : (mergeMembers object ms).1 = true ↔ Roomy object ms := by
  induction ms generalizing object with
  | nil => exact iff_of_true rfl ⟨.of_le hfits, fun m hm => nomatch hm⟩
  | cons m ms ih =>
    obtain ⟨key, b⟩ := m
    rw [List.map_cons, List.nodup_cons] at hbNames
    rw [List.forall_mem_cons] at hbValues
    unfold mergeMembers
    rcases turnLeaves hfits hnames hbNames.1 hbValues.1 with ⟨hfailed, hnot⟩ | ⟨object', hstep, hfits', hroom⟩
    · rcases hturn : mergeMember object (key, b) with ⟨success, object₁⟩
      rw [hturn] at hfailed
      simp only at hfailed
      subst hfailed
      exact iff_of_false Bool.false_ne_true hnot
    · obtain ⟨hnames', -⟩ := getValue_mergeMember hnames hstep
      rw [hstep, hroom]
      exact ih hfits' hnames' hbNames.2 hbValues.2

end Success

end Hpav
