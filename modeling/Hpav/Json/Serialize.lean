import Mathlib.Tactic.Common
import Hpav.Json.Parse

/-!
# Writing JSON

`json_serialize_to_buffer_r` without indentation (`parson.c`), and what the parser makes
of its numbers and strings. A number that is not whole keeps six decimals. A string is
written with eight characters escaped; the control characters that are not among them go
out as they are, and the parser refuses them: `Writable`.
-/

namespace Hpav

open Binary64 CNumeral Decimal

/-! ## Serialization -/

/-- What `json_serialize_string` writes for a character. -/
def escape (c : UInt8) : List UInt8 :=
  if c = 34 then [92, 34]           -- '"'
  else if c = 92 then [92, 92]      -- '\\'
  else if c = 47 then [92, 47]      -- '/'
  else if c = 8 then [92, 98]       -- '\b'
  else if c = 12 then [92, 102]     -- '\f'
  else if c = 10 then [92, 110]     -- '\n'
  else if c = 13 then [92, 114]     -- '\r'
  else if c = 9 then [92, 116]      -- '\t'
  else [c]

/-- `json_serialize_string` -/
def jsonSerializeString (s : List UInt8) : List UInt8 :=
  34 :: (s.flatMap escape ++ [34])

/-- The text of a number: `%lld` if it is equal to itself as a `long long`, else `%f`. -/
def numberText (x : Double) : List UInt8 :=
  if x.beq (Double.ofInt (x.toSigned 64)) then formatInt (x.toSigned 64) else formatFixed x

/-- The texts with a comma between them. -/
def commaSeparated : List (List UInt8) → List UInt8
  | [] => []
  | [x] => x
  | x :: y :: xs => x ++ 44 :: commaSeparated (y :: xs)

mutual

/-- `json_serialize_to_buffer_r` with `is_pretty` 0. -/
def jsonSerialize : Json → List UInt8
  | .null => [110, 117, 108, 108]
  | .boolean b => if b then [116, 114, 117, 101] else [102, 97, 108, 115, 101]
  | .number x => numberText x
  | .string s => jsonSerializeString s
  | .array items => 91 :: (commaSeparated (serializeItems items) ++ [93])
  | .object members => 123 :: (commaSeparated (serializeMembers members) ++ [125])

def serializeItems : List Json → List (List UInt8)
  | [] => []
  | v :: vs => jsonSerialize v :: serializeItems vs

def serializeMembers : List (List UInt8 × Json) → List (List UInt8)
  | [] => []
  | m :: ms => serializeMember m :: serializeMembers ms

def serializeMember : List UInt8 × Json → List UInt8
  | (name, value) => jsonSerializeString name ++ 58 :: jsonSerialize value

end

theorem serializeItems_eq (items : List Json) : serializeItems items = items.map jsonSerialize := by
  induction items with
  | nil => rfl
  | cons v vs ih => rw [serializeItems, ih, List.map_cons]

theorem serializeMembers_eq (members : Members) : serializeMembers members = members.map serializeMember := by
  induction members with
  | nil => rfl
  | cons m ms ih => rw [serializeMembers, ih, List.map_cons]

/-! ## Numbers read back -/

/-- A sign, digits, and more behind them that makes no octal or hexadecimal constant. -/
theorem isDecimal_digits {b : UInt8} {t s : List UInt8} (negative : Bool) (hb : isDigit b = true)
    (hzero : b = 48 → t = [] ∨ t.head? = some 46) (ht : ∀ c ∈ t, c ≠ 120 ∧ c ≠ 88) :
    isDecimal (((if negative then [45] else []) ++ b :: t) ++ s)
      ((if negative then [45] else []) ++ b :: t).length = true := by
  have hb' := hb
  rw [isDigit_iff] at hb'
  have h45 : b ≠ 45 := by
    rintro rfl
    exact absurd hb'.1 (by decide)
  -- no `x` in it: a sign, digits and what follows them
  have hall : ((if negative then [45] else []) ++ b :: t).all (fun c => c ≠ 120 && c ≠ 88) = true := by
    rw [List.all_eq_true]
    intro c hc
    have hne : c ≠ 120 ∧ c ≠ 88 := by
      rw [List.mem_append, List.mem_cons] at hc
      rcases hc with hc | rfl | hc
      · obtain rfl : c = 45 := by
          split at hc
          · simpa using hc
          · cases hc
        decide
      · constructor
        · rintro rfl
          exact absurd hb'.2 (by decide)
        · rintro rfl
          exact absurd hb'.2 (by decide)
      · exact ht c hc
    simpa using hne
  unfold isDecimal
  simp only [List.take_left, hall]
  -- `parson` looks for a leading zero behind the sign as well
  cases negative with
  | false =>
    simp only [Bool.false_eq_true, if_false, List.nil_append, List.cons_append]
    rw [if_neg, if_neg]
    · rintro ⟨-, htake, -⟩
      exact h45 (List.cons.inj htake).1
    · rintro ⟨hlen, hfirst, hpoint⟩
      obtain rfl : b = 48 := by simpa using hfirst
      rcases hzero rfl with rfl | hhead
      · simp at hlen
      · cases t with
        | nil => cases hhead
        | cons c t => exact hpoint (by simpa using hhead)
  | true =>
    simp only [if_true, List.cons_append]
    rw [if_neg, if_neg]
    · rintro ⟨hlen, htake, hpoint⟩
      obtain rfl : b = 48 := by simpa using htake
      rcases hzero rfl with rfl | hhead
      · simp at hlen
      · cases t with
        | nil => cases hhead
        | cons c t => exact hpoint (by simpa using hhead)
    · rintro ⟨-, hfirst, -⟩
      simp at hfirst

theorem digit_ne_x {c : UInt8} (hc : isDigit c = true) : c ≠ 120 ∧ c ≠ 88 := by
  rw [isDigit_iff] at hc
  constructor
  · rintro rfl
    exact absurd hc.2 (by decide)
  · rintro rfl
    exact absurd hc.2 (by decide)

theorem isDecimal_formatInt (i : Int) (s : List UInt8) :
    isDecimal (formatInt i ++ s) (formatInt i).length = true := by
  rcases numeral_cons i.natAbs with ⟨b, t, hnum, hb⟩
  have htext : formatInt i = (if decide (i < 0) then [45] else []) ++ b :: t := by
    unfold formatInt
    by_cases hneg : i < 0 <;> simp [hneg, hnum]
  have hdigits : ∀ c ∈ t, isDigit c = true := fun c hc =>
    isDigit_of_mem_numeral (by rw [hnum]; exact List.mem_cons_of_mem b hc)
  rw [htext]
  refine isDecimal_digits _ hb ?_ fun c hc => digit_ne_x (hdigits c hc)
  rintro rfl
  have hzero := head_numeral hnum
  rw [hzero, numeral_zero] at hnum
  exact Or.inl (List.cons.inj hnum).2.symm

theorem isDecimal_formatFixed {units : Int} (h : Representable units.natAbs) (s : List UInt8) :
    isDecimal (formatFixed (.finite units h) ++ s) (formatFixed (.finite units h)).length = true := by
  generalize hm : millionths units = m
  rcases numeral_cons (m / 10 ^ 6) with ⟨b, t, hnum, hb⟩
  have htext : formatFixed (.finite units h) =
      (if decide (units < 0) then [45] else []) ++ b :: (t ++ 46 :: padded 6 m) := by
    unfold formatFixed
    simp only [hm, hnum]
    by_cases hneg : units < 0 <;> simp [hneg]
  rw [htext]
  refine isDecimal_digits _ hb ?_ ?_
  · rintro rfl
    have hzero := head_numeral hnum
    rw [hzero, numeral_zero] at hnum
    obtain rfl : t = [] := (List.cons.inj hnum).2.symm
    exact Or.inr rfl
  · intro c hc
    rw [List.mem_append, List.mem_cons] at hc
    rcases hc with hc | rfl | hc
    · exact digit_ne_x (isDigit_of_mem_numeral (by rw [hnum]; exact List.mem_cons_of_mem b hc))
    · decide
    · exact digit_ne_x (isDigit_of_mem_padded hc)

/-- What becomes of a number that is written and read again: infinity and NaN without a
sign cannot be read. -/
def rereadNumber : Double → Option Double
  | .infinite false => none
  | .nan false => none
  | x => some (strtod (numberText x)).1

theorem rereadNumber_finite {units : Int} (h : Representable units.natAbs) :
    rereadNumber (.finite units h) = some (strtod (numberText (.finite units h))).1 := rfl

/-- The parser takes the text of a number as a whole. -/
theorem strtod_numberText {x : Double} (hx : rereadNumber x ≠ none) {s : List UInt8} (hs : Stops s) :
    strtod (numberText x ++ s) = ((strtod (numberText x)).1, (numberText x).length) ∧
      isDecimal (numberText x ++ s) (numberText x).length = true := by
  have hnil : Stops [] := fun b hb => nomatch hb
  have hsame : ∀ {text : List UInt8} {y : Double},
      (∀ s, Stops s → strtod (text ++ s) = (y, text.length)) →
      strtod (text ++ s) = ((strtod text).1, text.length) := by
    intro text y h
    have hempty := h [] hnil
    rw [List.append_nil] at hempty
    rw [h s hs, hempty]
  unfold numberText
  split
  · exact ⟨hsame fun s hs => strtod_formatInt _ hs, isDecimal_formatInt _ s⟩
  · cases x with
    | finite units h => exact ⟨hsame fun s hs => strtod_formatFixed_finite h hs, isDecimal_formatFixed h s⟩
    | infinite negative =>
      cases negative with
      | false => exact absurd rfl hx
      | true => exact ⟨hsame fun s hs => strtod_formatFixed_infinite hs, rfl⟩
    | nan negative =>
      cases negative with
      | false => exact absurd rfl hx
      | true => exact ⟨hsame fun s hs => strtod_formatFixed_nan hs, rfl⟩

theorem parseNumberValue_numberText {x y : Double} (hx : rereadNumber x = some y) {s : List UInt8}
    (hs : Stops s) : parseNumberValue (numberText x ++ s) = some (.number y, s) := by
  rcases strtod_numberText (x := x) (by rw [hx]; simp) hs with ⟨hread, hdecimal⟩
  have hy : (strtod (numberText x)).1 = y := by
    unfold rereadNumber at hx
    split at hx
    · cases hx
    · cases hx
    · exact Option.some.inj hx
  unfold parseNumberValue
  simp only [hread, hdecimal, if_true, hy, List.drop_left]

/-- A whole number of at most 2 ^ 53 in magnitude is written exactly. -/
theorem rereadNumber_ofInt {i : Int} (hi : i.natAbs ≤ 2 ^ 53) :
    rereadNumber (Double.ofInt i) = some (Double.ofInt i) := by
  have hrange : -2 ^ (64 - 1) ≤ i ∧ i < 2 ^ (64 - 1) := by omega
  have hto : (Double.ofInt i).toSigned 64 = i := Double.toSigned_eq (Double.trunc_ofInt hi) hrange
  have htext : numberText (Double.ofInt i) = formatInt i := by
    unfold numberText
    rcases Double.ofInt_small hi with ⟨h, heq⟩
    rw [hto, heq]
    exact if_pos (Double.beq_self _ h)
  have hread := strtod_formatInt i (s := []) (fun b hb => nomatch hb)
  rw [List.append_nil] at hread
  have hdef : rereadNumber (Double.ofInt i) = some (strtod (numberText (Double.ofInt i))).1 := by
    rcases Double.ofInt_small hi with ⟨h, heq⟩
    rw [heq, rereadNumber_finite]
  rw [hdef, htext, hread]

/-- A whole number is written exactly however large it is: beyond the range of `%lld` the
six decimals of `%f` are zero. -/
theorem rereadNumber_whole {units : Int} {h : Representable units.natAbs} (hwhole : (one : Int) ∣ units) :
    rereadNumber (.finite units h) = some (.finite units h) := by
  have hnil : Stops [] := fun b hb => nomatch hb
  rw [rereadNumber_finite]
  unfold numberText
  split
  · rename_i hsame
    have hint : Double.finite units h = Double.ofInt ((Double.finite units h).toSigned 64) := by
      simpa [Double.beq, Double.isNan] using hsame
    have hread := strtod_formatInt ((Double.finite units h).toSigned 64) hnil
    rw [List.append_nil] at hread
    rw [hread, ← hint]
  · obtain ⟨k, hk⟩ : one ∣ units.natAbs := Int.natCast_dvd.mp hwhole
    have hmillionths : millionths units = k * 10 ^ 6 := by
      unfold millionths
      rw [hk, show one * k * 10 ^ 6 = k * 10 ^ 6 * one by ring, roundHalfEven_exact Binary64.one_pos]
    have hread := strtod_formatFixed_finite h hnil
    rw [List.append_nil] at hread
    have hunits : (if decide (units < 0) then -(units.natAbs : Int) else units.natAbs) = units := by
      by_cases hneg : units < 0
      · rw [if_pos (by simpa using hneg)]
        omega
      · rw [if_neg (by simpa using hneg)]
        omega
    rw [hread, hmillionths, Double.ofRatio_exact (n := units.natAbs) (by positivity) (by rw [hk]; ring) h]
    simp only [hunits]

/-! ## Strings read back -/

/-- The parser takes the character back as it is written. -/
def writableChar (c : UInt8) : Bool :=
  0x20 ≤ c || c = 8 || c = 9 || c = 10 || c = 12 || c = 13

def Writable (s : List UInt8) : Prop :=
  ∀ c ∈ s, writableChar c = true

instance (s : List UInt8) : Decidable (Writable s) :=
  inferInstanceAs (Decidable (∀ c ∈ s, writableChar c = true))

/-- A character is escaped in a way that is undone, or written as it is. -/
theorem escape_cases (c : UInt8) :
    (∃ e, escape c = [92, e] ∧ e ≠ 117 ∧ unescape e = some c ∧ writableChar c = true) ∨
      (escape c = [c] ∧ c ≠ 34 ∧ c ≠ 92 ∧ (c < 0x20 → writableChar c = false)) := by
  unfold escape
  split
  · subst_vars; exact Or.inl ⟨34, rfl, by decide, rfl, rfl⟩
  split
  · subst_vars; exact Or.inl ⟨92, rfl, by decide, rfl, rfl⟩
  split
  · subst_vars; exact Or.inl ⟨47, rfl, by decide, rfl, rfl⟩
  split
  · subst_vars; exact Or.inl ⟨98, rfl, by decide, rfl, rfl⟩
  split
  · subst_vars; exact Or.inl ⟨102, rfl, by decide, rfl, rfl⟩
  split
  · subst_vars; exact Or.inl ⟨110, rfl, by decide, rfl, rfl⟩
  split
  · subst_vars; exact Or.inl ⟨114, rfl, by decide, rfl, rfl⟩
  split
  · subst_vars; exact Or.inl ⟨116, rfl, by decide, rfl, rfl⟩
  · rename_i h34 h92 _ h8 h12 h10 h13 h9
    refine Or.inr ⟨rfl, h34, h92, ?_⟩
    intro hlt
    have hge : ¬ (0x20 ≤ c) := UInt8.not_le.mpr hlt
    simp [writableChar, hge, h8, h9, h10, h12, h13]

theorem skipQuotesLoop_escape (s rest : List UInt8) :
    skipQuotesLoop (s.flatMap escape ++ 34 :: rest) = rest := by
  induction s with
  | nil =>
    rw [List.flatMap_nil, List.nil_append]
    unfold skipQuotesLoop
    rw [if_pos rfl]
  | cons c s ih =>
    rw [List.flatMap_cons, List.append_assoc]
    rcases escape_cases c with ⟨e, he, -⟩ | ⟨he, h34, h92, -⟩
    · rw [he]
      exact ih
    · rw [he, List.singleton_append]
      unfold skipQuotesLoop
      rw [if_neg h34, if_neg h92]
      exact ih

theorem processStringLoop_escape (s rest : List UInt8) {turns : Nat}
    (hturns : (s.flatMap escape).length ≤ turns) :
    processStringLoop turns (s.flatMap escape ++ 34 :: rest) (s.flatMap escape).length =
      if Writable s then some s else none := by
  -- one character of the string is one or two of the text
  induction s generalizing turns with
  | nil =>
    have hnil : Writable [] := fun c hc => nomatch hc
    rw [if_pos hnil]
    cases turns with
    | zero => rfl
    | succ turns => rfl
  | cons c s ih =>
    rw [List.flatMap_cons] at hturns ⊢
    rw [List.append_assoc]
    have hcons : Writable (c :: s) ↔ writableChar c = true ∧ Writable s := List.forall_mem_cons
    rcases escape_cases c with ⟨e, he, hu, hback, hw⟩ | ⟨he, h34, h92, hcontrol⟩
    · rw [he] at hturns ⊢
      simp only [List.length_append, List.length_cons, List.length_nil] at hturns ⊢
      obtain ⟨turns, rfl⟩ : ∃ k, turns = k + 1 := ⟨turns - 1, by omega⟩
      rw [List.cons_append, List.singleton_append]
      unfold processStringLoop
      rw [if_neg (by omega), if_pos rfl]
      simp only [if_neg hu, hback, Option.bind_eq_bind, Option.bind_some]
      rw [show 0 + 1 + 1 + (s.flatMap escape).length - 2 = (s.flatMap escape).length by omega,
        ih (by omega)]
      by_cases hs : Writable s
      · rw [if_pos hs, if_pos (hcons.mpr ⟨hw, hs⟩)]
        rfl
      · rw [if_neg hs, if_neg fun h => hs (hcons.mp h).2]
        rfl
    · rw [he] at hturns ⊢
      simp only [List.length_append, List.length_cons, List.length_nil] at hturns ⊢
      obtain ⟨turns, rfl⟩ : ∃ k, turns = k + 1 := ⟨turns - 1, by omega⟩
      rw [List.singleton_append]
      unfold processStringLoop
      rw [if_neg (by omega), if_neg h92]
      -- a control character that has no escape is refused when it is read
      by_cases hlt : c < 0x20
      · rw [if_pos hlt, if_neg]
        intro h
        have hw := (hcons.mp h).1
        rw [hcontrol hlt] at hw
        cases hw
      · have hw : writableChar c = true := by
          simp [writableChar, UInt8.not_lt.mp hlt]
        rw [if_neg hlt, show 0 + 1 + (s.flatMap escape).length - 1 = (s.flatMap escape).length by omega,
          ih (by omega)]
        by_cases hs : Writable s
        · rw [if_pos hs, if_pos (hcons.mpr ⟨hw, hs⟩)]
          rfl
        · rw [if_neg hs, if_neg fun h => hs (hcons.mp h).2]
          rfl

/-- What becomes of a string that is written and read again. -/
theorem getQuotedString_serialize {s : List UInt8} (hs : 0 ∉ s) (rest : List UInt8) :
    getQuotedString (jsonSerializeString s ++ rest) = (if Writable s then some s else none, rest) := by
  have htext : jsonSerializeString s ++ rest = 34 :: (s.flatMap escape ++ 34 :: rest) := by
    simp [jsonSerializeString]
  have hskip : skipQuotes (34 :: (s.flatMap escape ++ 34 :: rest)) = rest := skipQuotesLoop_escape s rest
  have hlen : (34 :: (s.flatMap escape ++ 34 :: rest)).length - rest.length - 2 =
      (s.flatMap escape).length := by
    simp only [List.length_cons, List.length_append]
    omega
  rw [htext]
  unfold getQuotedString
  simp only [hskip, hlen, List.tail_cons]
  unfold processString
  rw [processStringLoop_escape s rest le_rfl]
  by_cases hw : Writable s
  · rw [if_pos hw, Option.map_some, cString_of_not_mem hs]
  · rw [if_neg hw]
    rfl

end Hpav
