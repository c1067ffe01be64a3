import Mathlib.Tactic.Common
import Hpav.Json.MergeOverride
import Hpav.Json.Reread

/-!
# A merged tree in a file

`Prints x y`: the text of `x` is read as `y`. It goes member by member through objects, so
`merge_iff` says when the text of a merged tree is read as the tree the merge is for. A merge of
trees the parser has made is one that it could have made.
-/

namespace Hpav

/-- The text of the first value is read as the second one. -/
def Prints (x y : Json) : Prop :=
  ∃ v, reread x = some v ∧ Same v y

theorem writable_of_mapM {members members' : Members} (h : members.mapM rereadMember = some members')
    {m : List UInt8 × Json} (hm : m ∈ members) : Writable m.1 := by
  induction members generalizing members' with
  | nil => exact absurd hm List.not_mem_nil
  | cons first rest ih =>
    rw [List.mapM_cons] at h
    simp only [Option.bind_eq_bind, Option.bind_eq_some_iff] at h
    obtain ⟨first', hfirst, rest', hrest, -⟩ := h
    rcases List.mem_cons.mp hm with rfl | hm
    · obtain ⟨name, v⟩ := m
      unfold rereadMember at hfirst
      split at hfirst
      · assumption
      · cases hfirst
    · exact ih hrest hm

theorem mapM_isSome {α β : Type} {f : α → Option β} {xs : List α} (h : ∀ x ∈ xs, (f x).isSome = true) :
    ∃ ys, xs.mapM f = some ys := by
  induction xs with
  | nil => exact ⟨[], rfl⟩
  | cons x xs ih =>
    obtain ⟨y, hy⟩ := Option.isSome_iff_exists.mp (h x List.mem_cons_self)
    obtain ⟨ys, hys⟩ := ih fun x hx => h x (List.mem_cons_of_mem _ hx)
    exact ⟨y :: ys, by rw [List.mapM_cons, hy, hys]; rfl⟩

/-- The members of an object whose text is read as another one. -/
theorem Prints.members {members members' : Members} (h : Prints (.object members) (.object members')) :
    (∀ name, (jsonObjectGetValue members name).isSome = true → Writable name) ∧ NamesAgree Prints members members' := by
  obtain ⟨v, hreread, hsame⟩ := h
  obtain ⟨read, hread, rfl⟩ := reread_object hreread
  constructor
  · intro name hname
    obtain ⟨value, hvalue⟩ := Option.isSome_iff_exists.mp hname
    exact writable_of_mapM hread (getValue_mem hvalue)
  · intro name
    have hagree := same_object_iff.mp hsame name
    rcases jsonObjectGetValue_reread hread name with ⟨hnone, hnone'⟩ | ⟨w, w', hw, hreread', hw'⟩
    · rw [hnone'] at hagree
      rw [hnone]
      generalize jsonObjectGetValue members' name = target at hagree ⊢
      cases hagree
      exact .none
    · rw [hw'] at hagree
      rw [hw]
      generalize jsonObjectGetValue members' name = target at hagree ⊢
      cases hagree with
      | some hrel => exact .some ⟨w', hreread', hrel⟩

/-- Every member of it is read again. -/
theorem exists_read {members members' : Members} (hnames : (members.map (·.1)).Nodup)
    (hwritable : ∀ name, (jsonObjectGetValue members name).isSome = true → Writable name)
    (hagree : NamesAgree Prints members members') : ∃ read, members.mapM rereadMember = some read := by
  refine mapM_isSome ?_
  rintro ⟨name, value⟩ hm
  have hget := (getValue_eq_some_iff hnames).mpr hm
  have hrel := hagree name
  rw [hget] at hrel
  generalize jsonObjectGetValue members' name = target at hrel
  cases hrel with
  | some hprints =>
    obtain ⟨v, hv, -⟩ := hprints
    unfold rereadMember
    rw [if_pos (hwritable name (by rw [hget]; rfl)), hv]
    rfl

theorem prints_of_members {members members' : Members} (hnames : (members.map (·.1)).Nodup)
    (hwritable : ∀ name, (jsonObjectGetValue members name).isSome = true → Writable name)
    (hagree : NamesAgree Prints members members') : Prints (.object members) (.object members') := by
  obtain ⟨read, hread⟩ := exists_read hnames hwritable hagree
  refine ⟨.object read, ?_, ?_⟩
  · rw [reread, rereadMembers_eq, hread]
    rfl
  · rw [same_object_iff]
    intro name
    have hrel := hagree name
    rcases jsonObjectGetValue_reread hread name with ⟨hnone, hnone'⟩ | ⟨w, w', hw, hreread', hw'⟩
    · rw [hnone] at hrel
      rw [hnone']
      generalize jsonObjectGetValue members' name = target at hrel ⊢
      cases hrel
      exact .none
    · rw [hw] at hrel
      rw [hw']
      generalize jsonObjectGetValue members' name = target at hrel ⊢
      cases hrel with
      | some hprints =>
        obtain ⟨v, hv, hsame⟩ := hprints
        rw [hreread'] at hv
        injection hv with hv
        exact .some (hv ▸ hsame)

theorem prints_hereditary : Hereditary Prints Writable where
  object := by
    intro members members' hnames
    constructor
    · intro h
      exact h.members
    · rintro ⟨hwritable, hagree⟩
      exact prints_of_members hnames hwritable hagree
  kind := by
    rintro members v ⟨read, hread, hsame⟩
    obtain ⟨members', -, rfl⟩ := reread_object hread
    exact same_hereditary.kind hsame

/-! ## The parser could have made it -/

theorem Parsed.uniqueKeys {n : Nat} {v : Json} (h : Parsed n v) : UniqueKeys v := by
  induction h with
  | null => exact .null
  | boolean => exact .boolean _
  | number => exact .number _
  | string => exact .string _
  | emptyArray => exact .array fun v hv => absurd hv List.not_mem_nil
  | emptyObject => exact .object List.nodup_nil fun m hm => absurd hm List.not_mem_nil
  | array _ _ ih => exact .array ih
  | object _ hnames _ _ ih => exact .object hnames ih

/-- What holds of a table of members that are values of a parser with `n` levels to go. -/
structure ParsedTable (n : Nat) (t : Table (List UInt8 × Json)) : Prop where
  names : (t.entries.map (·.1)).Nodup
  fits : t.entries.length ≤ t.capacity
  limit : t.capacity ≤ objectMaxCapacity
  nul : ∀ m ∈ t.entries, 0 ∉ m.1
  values : ∀ m ∈ t.entries, Parsed n m.2

section Parsed

variable {n : Nat} {object object' : Table (List UInt8 × Json)} {key : List UInt8} {b : Json}

theorem ParsedTable.add (h : ParsedTable n object) (hkey : 0 ∉ key) (hb : Parsed n b)
    (hadd : addCopy object key b = (true, object')) : ParsedTable n object' := by
  obtain ⟨hnone, hentries⟩ := addCopy_eq hadd
  have hcapacity : object'.entries.length ≤ object'.capacity ∧ object'.capacity ≤ objectMaxCapacity := by
    unfold addCopy jsonObjectAdd Table.add at hadd
    split at hadd
    · cases hadd
    · rename_i added hbind
      injection hadd with _ hadd
      subst hadd
      rw [Option.bind_eq_some_iff] at hbind
      obtain ⟨copy, -, hbind⟩ := hbind
      have hfits := h.fits
      have hlimit := h.limit
      split at hbind
      · cases hbind
      · split at hbind
        · split at hbind
          · cases hbind
          · rename_i hfull hroom
            injection hbind with hbind
            subst hbind
            -- the table was full and has grown
            have hgrows : object.capacity < Table.newCapacity object.capacity := by
              have hfifteen : startingCapacity = 15 := rfl
              unfold Table.newCapacity
              rw [lt_max_iff]
              omega
            refine ⟨?_, by simpa using hroom⟩
            simp only [List.length_append, List.length_singleton]
            omega
        · injection hbind with hbind
          subst hbind
          refine ⟨?_, hlimit⟩
          simp only [List.length_append, List.length_singleton]
          omega
  refine ⟨?_, hcapacity.1, hcapacity.2, ?_, ?_⟩
  · rw [hentries]
    exact nodup_concat h.names hnone
  · intro m hm
    rw [hentries, List.mem_append, List.mem_singleton] at hm
    rcases hm with hm | rfl
    · exact h.nul m hm
    · exact hkey
  · intro m hm
    rw [hentries, List.mem_append, List.mem_singleton] at hm
    rcases hm with hm | rfl
    · exact h.values m hm
    · exact hb

theorem ParsedTable.remove {old : Json} (h : ParsedTable n object)
    (hold : jsonObjectGetValue object.entries key = some old) : ParsedTable n (jsonObjectRemove object key) := by
  obtain ⟨pre, post, hentries, hfresh⟩ := jsonObjectGetValue_eq_some hold
  have hperm := jsonObjectRemove_perm hfresh hentries
  have hsub : ∀ m ∈ (jsonObjectRemove object key).entries, m ∈ object.entries := by
    intro m hm
    have hm := hperm.symm.mem_iff.mp hm
    rw [hentries]
    rcases List.mem_append.mp hm with hm | hm
    · exact List.mem_append_left _ hm
    · exact List.mem_append_right _ (List.mem_cons_of_mem _ hm)
  have hcapacity : (jsonObjectRemove object key).capacity = object.capacity := by
    unfold jsonObjectRemove
    split <;> rfl
  have hfits := h.fits
  have hlength := hperm.length_eq
  rw [hentries, List.length_append, List.length_cons] at hfits
  rw [List.length_append] at hlength
  refine ⟨(getValue_jsonObjectRemove h.names hold).1, by omega, hcapacity ▸ h.limit, ?_, ?_⟩
  · exact fun m hm => h.nul m (hsub m hm)
  · exact fun m hm => h.values m (hsub m hm)

theorem ParsedTable.overwrite {old v : Json} (h : ParsedTable n object)
    (hold : jsonObjectGetValue object.entries key = some old) (hv : Parsed n v) :
    ParsedTable n { object with entries := overwrite key v object.entries } := by
  -- one member is changed where it stands, and keeps its name
  obtain ⟨pre, post, hentries, hfresh⟩ := jsonObjectGetValue_eq_some hold
  have hfits := h.fits
  have hnul := h.nul
  have hvalues := h.values
  refine ⟨?_, ?_, h.limit, ?_, ?_⟩
  · simp only [map_fst_overwrite]
    exact h.names
  · simp only
    rw [hentries, overwrite_splice hfresh]
    rw [hentries] at hfits
    simpa using hfits
  · intro m hm
    simp only at hm
    have hname : m.1 ∈ (Hpav.overwrite key v object.entries).map (·.1) := List.mem_map_of_mem hm
    rw [map_fst_overwrite] at hname
    obtain ⟨m', hm', heq⟩ := List.mem_map.mp hname
    rw [← heq]
    exact hnul m' hm'
  · intro m hm
    simp only at hm
    rw [hentries, overwrite_splice hfresh] at hm
    rw [hentries] at hvalues
    rcases List.mem_append.mp hm with hm | hm
    · exact hvalues m (List.mem_append_left _ hm)
    · rcases List.mem_cons.mp hm with rfl | hm
      · exact hv
      · exact hvalues m (List.mem_append_right _ (List.mem_cons_of_mem _ hm))

theorem ParsedTable.addCopy (h : ParsedTable n object) (hkey : 0 ∉ key) (hb : Parsed n b) :
    ParsedTable n (Hpav.addCopy object key b).2 := by
  rcases hadd : Hpav.addCopy object key b with ⟨success, object'⟩
  cases success with
  | false =>
    obtain rfl := addCopy_failed hadd
    exact h
  | true => exact h.add hkey hb hadd

/-- One turn of a merge. -/
theorem ParsedTable.mergeMember (h : ParsedTable n object) (hkey : 0 ∉ key) (hb : Parsed n b)
    (hmerge : ∀ a, Parsed n a → Parsed n (jsonValueMerge a b).2) :
    ParsedTable n (Hpav.mergeMember object (key, b)).2 := by
  rcases hget : jsonObjectGetValue object.entries key with _ | a
  · rw [mergeMember_absent hget]
    exact h.addCopy hkey hb
  have ha : Parsed n a := h.values _ (getValue_mem hget)
  rcases hequals : jsonValueEquals a b with _ | _
  · by_cases hobject : ∃ members, a = .object members
    · rw [mergeMember_object hget hequals hobject]
      exact h.overwrite hget (hmerge a ha)
    · have hnot : ∀ members, a ≠ .object members := fun members heq => hobject ⟨members, heq⟩
      rw [mergeMember_replace hget hequals hnot]
      exact (h.remove hget).addCopy hkey hb
  · rw [mergeMember_equal hget hequals]
    exact h

theorem ParsedTable.mergeMembers {bMembers : Members} (h : ParsedTable n object) (hnul : ∀ m ∈ bMembers, 0 ∉ m.1)
    (hvalues : ∀ m ∈ bMembers, Parsed n m.2)
    (hmerge : ∀ m ∈ bMembers, ∀ a, Parsed n a → Parsed n (jsonValueMerge a m.2).2) :
    ParsedTable n (Hpav.mergeMembers object bMembers).2 := by
  induction bMembers generalizing object with
  | nil => exact h
  | cons m ms ih =>
    obtain ⟨key, b⟩ := m
    have hstep := h.mergeMember (hnul _ List.mem_cons_self) (hvalues _ List.mem_cons_self) (hmerge _ List.mem_cons_self)
    unfold Hpav.mergeMembers
    rcases hresult : Hpav.mergeMember object (key, b) with ⟨success, object₁⟩
    rw [hresult] at hstep
    cases success with
    | false => exact hstep
    | true =>
      exact ih hstep (fun m hm => hnul m (List.mem_cons_of_mem _ hm)) (fun m hm => hvalues m (List.mem_cons_of_mem _ hm))
        (fun m hm => hmerge m (List.mem_cons_of_mem _ hm))

/-- A merge keeps to the limits of the parser. -/
theorem Parsed.merge {a : Json} (ha : Parsed n a) (hb : Parsed n b) : Parsed n (jsonValueMerge a b).2 := by
  induction b using Json.induct generalizing n a with
  | null | boolean | number | string | array => exact ha
  | object bMembers ih =>
    by_cases hobject : ∃ members, a = .object members
    · obtain ⟨aMembers, rfl⟩ := hobject
      rw [jsonValueMerge_object]
      cases n with
      | zero =>
        cases hb with
        | emptyObject => exact ha
      | succ n =>
        obtain ⟨haLength, haNames, haNul, haValues⟩ := ha.members
        obtain ⟨-, -, hbNul, hbValues⟩ := hb.members
        have htable : ParsedTable n (Table.trimmed aMembers) := ⟨haNames, le_rfl, haLength, haNul, haValues⟩
        have hmerged := htable.mergeMembers hbNul hbValues fun m hm a ha => ih m hm ha (hbValues m hm)
        exact .object (hmerged.fits.trans hmerged.limit) hmerged.names hmerged.nul hmerged.values
    · have hmerge : (jsonValueMerge a (.object bMembers)).2 = a := by
        cases a with
        | object aMembers => exact absurd ⟨aMembers, rfl⟩ hobject
        | _ => rfl
      rw [hmerge]
      exact ha

end Parsed

/-- The text of a merged tree is read as the tree the merge is for, if and only if nothing is lost. -/
theorem prints_merge_iff {n m : Nat} {a b : Json} (ha : Parsed n a) (hb : Parsed m b)
    (h : (jsonValueMerge a b).1 = true) :
    Prints (jsonValueMerge a b).2 (override a b) ↔ Merges Prints Writable a b :=
  merge_iff prints_hereditary ha.uniqueKeys hb.uniqueKeys (jsonValueMerge_success h)

end Hpav
