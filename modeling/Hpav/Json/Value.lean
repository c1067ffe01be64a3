import Mathlib.Tactic.Common
import Hpav.Lib.Binary64

/-!
# JSON values

The values of the bundled parson (`parson.c`), and the part of its interface that reads
and changes objects and arrays. Objects and arrays are tables that grow by doubling up to
a limit. The parser trims every table to its entries, so a value does not carry the
capacities: a change of an object starts with `trimmed`.
-/

namespace Hpav

open Binary64

/-! ## Tables -/

/-- `STARTING_CAPACITY` -/
abbrev startingCapacity : Nat := 15

/-- `ARRAY_MAX_CAPACITY` -/
abbrev arrayMaxCapacity : Nat := 122880

/-- `OBJECT_MAX_CAPACITY` -/
abbrev objectMaxCapacity : Nat := 960

/-- The entries of `struct json_object_t` or `struct json_array_t`, and its capacity. -/
structure Table (α : Type) where
  entries : List α
  capacity : Nat

namespace Table

variable {α : Type}

/-- A table without entries, as `json_object_init` and `json_array_init` return it. -/
def empty : Table α :=
  ⟨[], 0⟩

/-- A table that was resized to its entries. -/
def trimmed (entries : List α) : Table α :=
  ⟨entries, entries.length⟩

/-- The capacity a full table grows to. -/
def newCapacity (capacity : Nat) : Nat :=
  max (capacity * 2) startingCapacity

/-- The end of `json_object_add` and of `json_array_add`. -/
def add (maxCapacity : Nat) (t : Table α) (x : α) : Option (Table α) :=
  if t.capacity ≤ t.entries.length then
    if maxCapacity < newCapacity t.capacity then none
    else some ⟨t.entries ++ [x], newCapacity t.capacity⟩
  else some ⟨t.entries ++ [x], t.capacity⟩

theorem add_entries {maxCapacity : Nat} {t t' : Table α} {x : α}
    (h : t.add maxCapacity x = some t') : t'.entries = t.entries ++ [x] := by
  unfold add at h
  split at h
  · split at h
    · cases h
    · cases h
      rfl
  · cases h
    rfl

/-- A table that has grown from nothing, with a limit of `15 * 2 ^ m`. -/
structure Grown (m : Nat) (t : Table α) : Prop where
  fits : t.entries.length ≤ t.capacity
  doubled : t.capacity = 0 ∨ ∃ k ≤ m, t.capacity = startingCapacity * 2 ^ k

theorem grown_empty (m : Nat) : Grown m (empty : Table α) :=
  ⟨le_rfl, Or.inl rfl⟩

theorem capacity_le {k m : Nat} (hkm : k ≤ m) : startingCapacity * 2 ^ k ≤ startingCapacity * 2 ^ m :=
  Nat.mul_le_mul_left _ (Nat.pow_le_pow_right (by decide) hkm)

theorem Grown.length_le {m : Nat} {t : Table α} (h : Grown m t) :
    t.entries.length ≤ startingCapacity * 2 ^ m := by
  have hfits := h.fits
  rcases h.doubled with hzero | ⟨k, hk, hcap⟩
  · omega
  · have hle := capacity_le hk
    omega

/-- A full table below the limit doubles. -/
theorem Grown.newCapacity_eq {m : Nat} {t : Table α} (h : Grown m t)
    (hlt : t.capacity < startingCapacity * 2 ^ m) :
    ∃ k ≤ m, newCapacity t.capacity = startingCapacity * 2 ^ k ∧ t.capacity < newCapacity t.capacity := by
  rcases h.doubled with hzero | ⟨k, hk, hcap⟩
  · refine ⟨0, Nat.zero_le m, ?_, ?_⟩
    · rw [hzero]
      rfl
    · rw [hzero]
      decide
  · have hstart := capacity_le (Nat.zero_le k)
    have hfifteen : startingCapacity = 15 := rfl
    have hnew : newCapacity t.capacity = t.capacity * 2 := max_eq_left (by omega)
    refine ⟨k + 1, ?_, ?_, by omega⟩
    · by_contra hge
      obtain rfl : k = m := by omega
      omega
    · rw [hnew, hcap, pow_succ, Nat.mul_assoc]

/-- Growth goes on as long as the limit is not reached. -/
theorem Grown.add {m : Nat} {t : Table α} (h : Grown m t)
    (hlt : t.entries.length < startingCapacity * 2 ^ m) (x : α) :
    ∃ t', t.add (startingCapacity * 2 ^ m) x = some t' ∧ t'.entries = t.entries ++ [x] ∧ Grown m t' := by
  have hlen : (t.entries ++ [x]).length = t.entries.length + 1 := by simp
  have hfits := h.fits
  unfold Table.add
  by_cases hfull : t.capacity ≤ t.entries.length
  · rcases h.newCapacity_eq (by omega) with ⟨k, hk, hnew, hgrows⟩
    have hle := capacity_le hk
    rw [if_pos hfull, if_neg (by omega)]
    refine ⟨_, rfl, rfl, ?_, Or.inr ⟨k, hk, hnew⟩⟩
    show (t.entries ++ [x]).length ≤ newCapacity t.capacity
    omega
  · rw [if_neg hfull]
    refine ⟨_, rfl, rfl, ?_, h.doubled⟩
    show (t.entries ++ [x]).length ≤ t.capacity
    omega

/-- What was added to a grown table leaves it grown. -/
theorem Grown.of_add {m : Nat} {t t' : Table α} {x : α} (h : Grown m t)
    (hadd : t.add (startingCapacity * 2 ^ m) x = some t') : Grown m t' := by
  by_cases hlt : t.entries.length < startingCapacity * 2 ^ m
  · rcases h.add hlt x with ⟨t'', hadd', -, hgrown⟩
    rw [hadd] at hadd'
    cases hadd'
    exact hgrown
  · -- a table of that many entries has the largest capacity there is
    exfalso
    have hfits := h.fits
    have hpos : startingCapacity ≤ startingCapacity * 2 ^ m := capacity_le (Nat.zero_le m)
    have hfifteen : startingCapacity = 15 := rfl
    have hcap : t.capacity = startingCapacity * 2 ^ m := by
      rcases h.doubled with hzero | ⟨k, hk, hcap⟩
      · omega
      · have hle := capacity_le hk
        omega
    have hlen := h.length_le
    have hnew : startingCapacity * 2 ^ m < newCapacity t.capacity := by
      unfold newCapacity
      rw [lt_max_iff]
      omega
    unfold Table.add at hadd
    rw [if_pos (by omega), if_pos hnew] at hadd
    cases hadd

/-- There is room for that many entries more, in the capacity there is or in one it doubles to. -/
def CanGrow (maxCapacity : Nat) (t : Table α) (count : Nat) : Prop :=
  t.entries.length + count ≤ t.capacity ∨
    ∃ k, t.entries.length + count ≤ newCapacity^[k] t.capacity ∧ newCapacity^[k] t.capacity ≤ maxCapacity

theorem lt_newCapacity (capacity : Nat) : capacity < newCapacity capacity := by
  unfold newCapacity
  rw [lt_max_iff]
  have hfifteen : startingCapacity = 15 := rfl
  omega

theorem le_iterate_newCapacity (k capacity : Nat) : capacity ≤ newCapacity^[k] capacity := by
  induction k generalizing capacity with
  | zero => exact le_rfl
  | succ k ih =>
    rw [Function.iterate_succ_apply]
    exact (lt_newCapacity capacity).le.trans (ih _)

/-- There is room for one more and the others exactly if that one can be added and leaves room
for the others. -/
theorem canGrow_succ_iff {maxCapacity : Nat} {t : Table α} (h : t.entries.length ≤ t.capacity) (x : α) (count : Nat) :
    t.CanGrow maxCapacity (count + 1) ↔ ∃ t', t.add maxCapacity x = some t' ∧ t'.CanGrow maxCapacity count := by
  unfold add
  -- a full table doubles first; one that may not fails
  by_cases hfull : t.capacity ≤ t.entries.length
  · rw [if_pos hfull]
    by_cases hmax : maxCapacity < newCapacity t.capacity
    · rw [if_pos hmax]
      refine iff_of_false ?_ (by simp)
      rintro (hle | ⟨k, hle, hk⟩)
      · omega
      · cases k with
        | zero =>
          rw [Function.iterate_zero_apply] at hle
          omega
        | succ k =>
          rw [Function.iterate_succ_apply] at hk
          have hge := le_iterate_newCapacity k (newCapacity t.capacity)
          omega
    · rw [if_neg hmax]
      simp only [Option.some.injEq, exists_eq_left', CanGrow, List.length_append, List.length_singleton]
      constructor
      · rintro (hle | ⟨k, hle, hk⟩)
        · omega
        · cases k with
          | zero =>
            rw [Function.iterate_zero_apply] at hle
            omega
          | succ k =>
            rw [Function.iterate_succ_apply] at hle hk
            exact Or.inr ⟨k, by omega, hk⟩
      · rintro (hle | ⟨k, hle, hk⟩)
        · exact Or.inr ⟨1, by rw [Function.iterate_one]; omega, by rw [Function.iterate_one]; omega⟩
        · exact Or.inr ⟨k + 1, by rw [Function.iterate_succ_apply]; omega, by
            rw [Function.iterate_succ_apply]; exact hk⟩
  · rw [if_neg hfull]
    simp only [Option.some.injEq, exists_eq_left', CanGrow, List.length_append, List.length_singleton]
    have hassoc : t.entries.length + (count + 1) = t.entries.length + 1 + count := by omega
    rw [hassoc]

theorem CanGrow.of_le {maxCapacity : Nat} {t : Table α} (h : t.entries.length ≤ t.capacity) : t.CanGrow maxCapacity 0 :=
  Or.inl h

theorem add_fits {maxCapacity : Nat} {t t' : Table α} {x : α} (h : t.entries.length ≤ t.capacity)
    (hadd : t.add maxCapacity x = some t') : t'.entries.length ≤ t'.capacity := by
  have hgrows := lt_newCapacity t.capacity
  unfold add at hadd
  split at hadd
  · split at hadd
    · cases hadd
    · cases hadd
      rw [List.length_append, List.length_singleton]
      show t.entries.length + 1 ≤ newCapacity t.capacity
      omega
  · cases hadd
    rw [List.length_append, List.length_singleton]
    show t.entries.length + 1 ≤ t.capacity
    omega

end Table

/-! ## Values -/

/-- `struct json_value_t`, without the values of type `JSONError`: their place is `none`.
A string is a C string without its NUL. -/
inductive Json where
  | null
  | boolean (b : Bool)
  | number (x : Double)
  | string (s : List UInt8)
  | array (items : List Json)
  | object (members : List (List UInt8 × Json))

/-- The names and values of an object. -/
abbrev Members := List (List UInt8 × Json)

namespace Json

mutual

def decEq : (a b : Json) → Decidable (a = b)
  | .null, b => match b with
    | .null => isTrue rfl
    | .boolean _ | .number _ | .string _ | .array _ | .object _ => isFalse nofun
  | .boolean x, b => match b with
    | .boolean y => decidable_of_iff (x = y) (by simp)
    | .null | .number _ | .string _ | .array _ | .object _ => isFalse nofun
  | .number x, b => match b with
    | .number y => decidable_of_iff (x = y) (by simp)
    | .null | .boolean _ | .string _ | .array _ | .object _ => isFalse nofun
  | .string s, b => match b with
    | .string t => decidable_of_iff (s = t) (by simp)
    | .null | .boolean _ | .number _ | .array _ | .object _ => isFalse nofun
  | .array vs, b => match b with
    | .array ws => match decEqItems vs ws with
      | isTrue h => isTrue (congrArg Json.array h)
      | isFalse h => isFalse fun e => h (Json.array.inj e)
    | .null | .boolean _ | .number _ | .string _ | .object _ => isFalse nofun
  | .object ms, b => match b with
    | .object ns => match decEqMembers ms ns with
      | isTrue h => isTrue (congrArg Json.object h)
      | isFalse h => isFalse fun e => h (Json.object.inj e)
    | .null | .boolean _ | .number _ | .string _ | .array _ => isFalse nofun

def decEqItems : (vs ws : List Json) → Decidable (vs = ws)
  | [], [] => isTrue rfl
  | [], _ :: _ => isFalse nofun
  | _ :: _, [] => isFalse nofun
  | v :: vs, w :: ws => match decEq v w, decEqItems vs ws with
    | isTrue h, isTrue hs => isTrue (congrArg₂ List.cons h hs)
    | isFalse h, _ => isFalse fun e => h (List.cons.inj e).1
    | _, isFalse hs => isFalse fun e => hs (List.cons.inj e).2

def decEqMembers : (ms ns : List (List UInt8 × Json)) → Decidable (ms = ns)
  | [], [] => isTrue rfl
  | [], _ :: _ => isFalse nofun
  | _ :: _, [] => isFalse nofun
  | m :: ms, n :: ns => match decEqMember m n, decEqMembers ms ns with
    | isTrue h, isTrue hs => isTrue (congrArg₂ List.cons h hs)
    | isFalse h, _ => isFalse fun e => h (List.cons.inj e).1
    | _, isFalse hs => isFalse fun e => hs (List.cons.inj e).2

def decEqMember : (m n : List UInt8 × Json) → Decidable (m = n)
  | (k, v), (l, w) => match decEq v w with
    | isTrue h => decidable_of_iff (k = l) (by simp [h])
    | isFalse h => isFalse fun e => h (Prod.mk.inj e).2

end

instance : DecidableEq Json :=
  decEq

/-- Induction over a value: an array by its items, an object by the values of its members. -/
@[elab_as_elim]
theorem induct {motive : Json → Prop} (null : motive .null) (boolean : ∀ b, motive (.boolean b))
    (number : ∀ x, motive (.number x)) (string : ∀ s, motive (.string s))
    (array : ∀ items, (∀ v ∈ items, motive v) → motive (.array items))
    (object : ∀ members, (∀ m ∈ members, motive m.2) → motive (.object members))
    (value : Json) : motive value :=
  Json.rec (motive_1 := motive) (motive_2 := fun items => ∀ v ∈ items, motive v)
    (motive_3 := fun members => ∀ m ∈ members, motive m.2) (motive_4 := fun m => motive m.2)
    null boolean number string array object (fun _ h => nomatch h)
    (fun _ _ hv hvs => List.forall_mem_cons.mpr ⟨hv, hvs⟩) (fun _ h => nomatch h)
    (fun _ _ hm hms => List.forall_mem_cons.mpr ⟨hm, hms⟩) (fun _ _ hv => hv) value

end Json

/-! ## Reading -/

/-- `json_object_get_value` -/
def jsonObjectGetValue (object : Members) (name : List UInt8) : Option Json :=
  (object.find? fun m => m.1 = name).map (·.2)

/-- `json_value_get_object` -/
def jsonValueGetObject : Json → Option Members
  | .object members => some members
  | _ => none

/-- `json_value_get_array` -/
def jsonValueGetArray : Json → Option (List Json)
  | .array items => some items
  | _ => none

/-- `json_value_get_number`; 0 when there is no value or it is no number. -/
def jsonValueGetNumber : Option Json → Double
  | some (.number x) => x
  | _ => Double.ofInt 0

/-- `json_object_get_number` -/
def jsonObjectGetNumber (object : Members) (name : List UInt8) : Double :=
  jsonValueGetNumber (jsonObjectGetValue object name)

/-- `json_object_get_object` -/
def jsonObjectGetObject (object : Members) (name : List UInt8) : Option Members :=
  (jsonObjectGetValue object name).bind jsonValueGetObject

/-- `json_object_get_array` -/
def jsonObjectGetArray (object : Members) (name : List UInt8) : Option (List Json) :=
  (jsonObjectGetValue object name).bind jsonValueGetArray

/-! ## Changing -/

/-- `json_object_add` -/
def jsonObjectAdd (object : Table (List UInt8 × Json)) (name : List UInt8) (value : Json) :
    Option (Table (List UInt8 × Json)) :=
  if (jsonObjectGetValue object.entries name).isSome then none
  else object.add objectMaxCapacity (name, value)

/-- `json_array_add` -/
def jsonArrayAdd (array : Table Json) (value : Json) : Option (Table Json) :=
  array.add arrayMaxCapacity value

/-- The first member of that name gets another value. -/
def overwrite (name : List UInt8) (value : Json) : Members → Members
  | [] => []
  | m :: ms => if m.1 = name then (m.1, value) :: ms else m :: overwrite name value ms

/-- `json_object_set_value` on an object the parser has made. -/
def jsonObjectSetValue (object : Members) (name : List UInt8) : Option Json → Option Members
  | none => none
  | some value =>
    if (jsonObjectGetValue object name).isSome then some (overwrite name value object)
    else (jsonObjectAdd (Table.trimmed object) name value).map (·.entries)

/-- `json_array_replace_value` -/
def jsonArrayReplaceValue (array : Option (List Json)) (ix : Nat) (value : Json) : Option (List Json) :=
  match array with
  | none => none
  | some items => if items.length ≤ ix then none else some (items.set ix value)

/-! ## Strings of a value -/

/-- `IS_CONT` -/
def isCont (b : UInt8) : Bool :=
  b &&& 0xC0 = 0x80

/-- `num_bytes_in_utf8_sequence` -/
def numBytesInUtf8Sequence (c : UInt8) : Nat :=
  if c = 0xC0 || c = 0xC1 || 0xF4 < c || isCont c then 0
  else if c &&& 0x80 = 0 then 1
  else if c &&& 0xE0 = 0xC0 then 2
  else if c &&& 0xF0 = 0xE0 then 3
  else if c &&& 0xF8 = 0xF0 then 4
  else 0

/-- The code point of a sequence: `bits` of its first byte, six of each other one. -/
def codePoint (bits : UInt8) (first : UInt8) (others : List UInt8) : Nat :=
  others.foldl (fun cp b => cp * 64 + (b &&& 0x3F).toNat) (first &&& bits).toNat

/-- `verify_utf8_sequence` on a string that is not empty; the length of the sequence. -/
def verifyUtf8Sequence (c : UInt8) (rest : List UInt8) : Option Nat :=
  let len := numBytesInUtf8Sequence c
  let others := rest.take (len - 1)
  if len = 0 ∨ others.length ≠ len - 1 ∨ ¬ others.all isCont then none
  else
    let cp := codePoint (if len = 1 then 0xFF else if len = 2 then 0x1F else if len = 3 then 0x0F else 0x07)
      c others
    -- longer than it has to be
    if (cp < 0x80 ∧ 1 < len) ∨ (cp < 0x800 ∧ 2 < len) ∨ (cp < 0x10000 ∧ 3 < len) then none
    else if 0x10FFFF < cp then none
    -- half of a surrogate pair
    else if 0xD800 ≤ cp ∧ cp ≤ 0xDFFF then none
    else some len

/-- The loop of `is_valid_utf8`; every turn consumes a byte at least. -/
def validUtf8Loop : Nat → List UInt8 → Bool
  | _, [] => true
  | 0, _ :: _ => false
  | fuel + 1, c :: rest =>
    match verifyUtf8Sequence c rest with
    | none => false
    | some len => validUtf8Loop fuel ((c :: rest).drop len)

/-- `is_valid_utf8` -/
def isValidUtf8 (string : List UInt8) : Bool :=
  validUtf8Loop string.length string

/-- `json_value_init_string` -/
def jsonValueInitString (string : List UInt8) : Option Json :=
  if isValidUtf8 string then some (.string string) else none

end Hpav
