import Mathlib.Tactic.Common
import Mathlib.Data.List.TakeWhile
import Hpav.Lib.CNumeral
import Hpav.Json.Value

/-!
# Reading JSON

`json_parse_string` and the functions under it (`parson.c`). A text is a list of
characters up to the NUL; every function returns the text that is left. Arrays and objects
are read by one loop, which differs in the element it reads. `Parsed n v` says what a value
is like that was read with `n` levels of nesting to go.
-/

namespace Hpav

open Binary64 CNumeral Decimal

/-- `MAX_NESTING` -/
abbrev maxNesting : Nat := 19

/-- `SKIP_WHITESPACES` -/
def skipWhitespaces (s : List UInt8) : List UInt8 :=
  s.dropWhile isSpace

/-- What the bytes are as a C string. -/
def cString (bytes : List UInt8) : List UInt8 :=
  bytes.takeWhile (· ≠ 0)

/-! ## Strings -/

/-- The loop of `skip_quotes`. -/
def skipQuotesLoop : List UInt8 → List UInt8
  | [] => []
  | b :: s =>
    if b = 34 then s
    else if b = 92 then
      match s with
      | [] => []
      | _ :: s => skipQuotesLoop s
    else skipQuotesLoop s

/-- `skip_quotes`; the first character is skipped whatever it is. -/
def skipQuotes (s : List UInt8) : List UInt8 :=
  skipQuotesLoop s.tail

/-- `is_utf16_hex` -/
def isUtf16Hex (s : List UInt8) : Bool :=
  (s.take 4).length = 4 && (s.take 4).all isHexDigit

/-- A byte of a sequence: six bits or fewer of the code point, and its mark. -/
def utf8Byte (cp shift mask mark : Nat) : UInt8 :=
  UInt8.ofNat (((cp >>> shift) &&& mask) ||| mark)

/-- `parse_utf_16` behind its `u`: the bytes it writes, and how many characters it takes. -/
def parseUtf16 (s : List UInt8) : Option (List UInt8 × Nat) :=
  if ¬ isUtf16Hex s then none
  else
    let cp := hexValue (s.take 4)
    if cp < 0x80 then some ([UInt8.ofNat cp], 4)
    else if cp < 0x800 then some ([utf8Byte cp 6 0x1F 0xC0, utf8Byte cp 0 0x3F 0x80], 4)
    else if cp < 0xD800 ∨ 0xDFFF < cp then
      some ([utf8Byte cp 12 0x0F 0xE0, utf8Byte cp 6 0x3F 0x80, utf8Byte cp 0 0x3F 0x80], 4)
    else if cp ≤ 0xDBFF then
      -- a lead surrogate, behind which `\u` and a trail surrogate must stand
      let trail := hexValue ((s.drop 6).take 4)
      if (s.drop 4).take 2 ≠ [92, 117] ∨ ¬ isUtf16Hex (s.drop 6) ∨ trail < 0xDC00 ∨ 0xDFFF < trail then
        none
      else
        let cp := ((((cp - 0xD800) &&& 0x3FF) <<< 10) ||| ((trail - 0xDC00) &&& 0x3FF)) + 0x10000
        some ([utf8Byte cp 18 0x07 0xF0, utf8Byte cp 12 0x3F 0x80, utf8Byte cp 6 0x3F 0x80,
          utf8Byte cp 0 0x3F 0x80], 10)
    else none

/-- The characters that stand for another one behind a backslash. -/
def unescape (c : UInt8) : Option UInt8 :=
  if c = 34 then some 34          -- '"'
  else if c = 92 then some 92     -- '\\'
  else if c = 47 then some 47     -- '/'
  else if c = 98 then some 8      -- 'b'
  else if c = 102 then some 12    -- 'f'
  else if c = 110 then some 10    -- 'n'
  else if c = 114 then some 13    -- 'r'
  else if c = 116 then some 9     -- 't'
  else none

/-- The loop of `process_string` with `len` characters to go; every turn takes one of them
at least, so `len` turns are enough. -/
def processStringLoop : Nat → List UInt8 → Nat → Option (List UInt8)
  | 0, _, _ => some []
  | _ + 1, [], _ => some []
  | turns + 1, b :: s, len =>
    if len = 0 then some []
    else if b = 92 then
      match s with
      | [] => none
      | c :: s =>
        if c = 117 then do
          let (bytes, n) ← parseUtf16 s
          let rest ← processStringLoop turns (s.drop n) (len - (2 + n))
          some (bytes ++ rest)
        else do
          let e ← unescape c
          let rest ← processStringLoop turns s (len - 2)
          some (e :: rest)
    else if b < 0x20 then none
    else do
      let rest ← processStringLoop turns s (len - 1)
      some (b :: rest)

/-- `process_string` -/
def processString (input : List UInt8) (len : Nat) : Option (List UInt8) :=
  (processStringLoop len input len).map cString

/-- `get_quoted_string`. When there is nothing behind the opening quote the length is
negative, but then the input is empty as well. -/
def getQuotedString (s : List UInt8) : Option (List UInt8) × List UInt8 :=
  let rest := skipQuotes s
  (processString s.tail (s.length - rest.length - 2), rest)

/-! ## Values -/

/-- A function that reads a value from the start of a text. -/
abbrev Parser := List UInt8 → Option (Json × List UInt8)

/-- `parse_string_value` -/
def parseStringValue : Parser := fun s =>
  match getQuotedString s with
  | (some string, rest) => some (.string string, rest)
  | (none, _) => none

/-- `parse_boolean_value` -/
def parseBooleanValue : Parser := fun s =>
  if s.take 4 = [116, 114, 117, 101] then some (.boolean true, s.drop 4)
  else if s.take 5 = [102, 97, 108, 115, 101] then some (.boolean false, s.drop 5)
  else none

/-- `parse_null_value` -/
def parseNullValue : Parser := fun s =>
  if s.take 4 = [110, 117, 108, 108] then some (.null, s.drop 4) else none

/-- `is_decimal` on the first `length` characters. -/
def isDecimal (s : List UInt8) (length : Nat) : Bool :=
  let point : Option UInt8 := some 46
  if 1 < length ∧ s[0]? = some 48 ∧ s[1]? ≠ point then false
  else if 2 < length ∧ s.take 2 = [45, 48] ∧ s[2]? ≠ point then false
  else (s.take length).all fun b => b ≠ 120 && b ≠ 88

/-- `parse_number_value` -/
def parseNumberValue : Parser := fun s =>
  let (number, length) := strtod s
  if isDecimal s length then some (.number number, s.drop length) else none

/-- The loop of `parse_array_value` and `parse_object_value`, which read an element and add
it to the table. A turn takes a character at least, so the length of the text is enough. -/
def parseElements {α : Type} (element : Table α → List UInt8 → Option (Table α × List UInt8)) :
    Nat → Table α → List UInt8 → Option (Table α × List UInt8)
  | 0, t, s => some (t, s)
  | _ + 1, t, [] => some (t, [])
  | turns + 1, t, b :: s => do
    let (t, s) ← element t (b :: s)
    match skipWhitespaces s with
    | [] => some (t, [])
    | c :: s =>
      if c = 44 then parseElements element turns t (skipWhitespaces s)    -- ','
      else some (t, c :: s)

/-- `parse_array_value` and `parse_object_value` with their closing bracket. -/
def parseSequence {α : Type} (close : UInt8)
    (element : Table α → List UInt8 → Option (Table α × List UInt8)) (s : List UInt8) :
    Option (List α × List UInt8) :=
  let s := skipWhitespaces s.tail
  if s.head? = some close then some ([], s.tail)
  else do
    let (t, s) ← parseElements element s.length Table.empty s
    let s := skipWhitespaces s
    if s.head? = some close ∧ t.entries ≠ [] then some (t.entries, s.tail) else none

/-- An element of `parse_array_value`. -/
def parseItem (parse : Parser) (t : Table Json) (s : List UInt8) : Option (Table Json × List UInt8) := do
  let (value, s) ← parse s
  let t ← jsonArrayAdd t value
  some (t, s)

/-- An element of `parse_object_value`. That a name begins with a quote is not checked. -/
def parseMember (parse : Parser) (t : Table (List UInt8 × Json)) (s : List UInt8) :
    Option (Table (List UInt8 × Json) × List UInt8) := do
  let (name, s) := getQuotedString s
  let name ← name
  match skipWhitespaces s with
  | [] => none
  | b :: s =>
    if b = 58 then do                                                    -- ':'
      let (value, s) ← parse s
      let t ← jsonObjectAdd t name value
      some (t, s)
    else none

/-- `parse_array_value` -/
def parseArrayValue (parse : Parser) : Parser := fun s =>
  (parseSequence 93 (parseItem parse) s).map fun (items, s) => (.array items, s)

/-- `parse_object_value` -/
def parseObjectValue (parse : Parser) : Parser := fun s =>
  (parseSequence 125 (parseMember parse) s).map fun (members, s) => (.object members, s)

/-- `parse_value`, where so many more levels may be entered. -/
def parseValue : Nat → Parser
  | 0, _ => none
  | levels + 1, s =>
    let s := skipWhitespaces s
    match s.head? with
    | none => none
    | some b =>
      if b = 123 then parseObjectValue (parseValue levels) s              -- '{'
      else if b = 91 then parseArrayValue (parseValue levels) s           -- '['
      else if b = 34 then parseStringValue s                              -- '"'
      else if b = 102 ∨ b = 116 then parseBooleanValue s                  -- 'f', 't'
      else if b = 45 ∨ isDigit b then parseNumberValue s                  -- '-', '0' .. '9'
      else if b = 110 then parseNullValue s                               -- 'n'
      else none

/-- `json_parse_string`; what follows the value is not looked at. -/
def jsonParseString (string : List UInt8) : Option Json :=
  (parseValue (maxNesting + 1) string).map (·.1)

/-- `json_parse_file` on what the file holds. -/
def jsonParseContents (bytes : List UInt8) : Option Json :=
  jsonParseString (cString bytes)

/-! ## The text that is left -/

/-- The cases of `parse_value`. -/
theorem parseValue_cases {n : Nat} {s s' : List UInt8} {v : Json} (h : parseValue (n + 1) s = some (v, s')) :
    (parseObjectValue (parseValue n) (skipWhitespaces s) = some (v, s') ∨
      parseArrayValue (parseValue n) (skipWhitespaces s) = some (v, s')) ∨
    (parseStringValue (skipWhitespaces s) = some (v, s') ∨
      parseBooleanValue (skipWhitespaces s) = some (v, s') ∨
      parseNumberValue (skipWhitespaces s) = some (v, s') ∨
      parseNullValue (skipWhitespaces s) = some (v, s')) := by
  unfold parseValue at h
  simp only at h
  split at h
  · cases h
  · split at h
    · exact Or.inl (Or.inl h)
    split at h
    · exact Or.inl (Or.inr h)
    split at h
    · exact Or.inr (Or.inl h)
    split at h
    · exact Or.inr (Or.inr (Or.inl h))
    split at h
    · exact Or.inr (Or.inr (Or.inr (Or.inl h)))
    split at h
    · exact Or.inr (Or.inr (Or.inr (Or.inr h)))
    · cases h

/-- Skipping blanks leaves no more text. -/
theorem length_skipWhitespaces (s : List UInt8) : (skipWhitespaces s).length ≤ s.length :=
  List.length_dropWhile_le _ s

/-- Skipping a string leaves no more text. -/
theorem length_skipQuotesLoop (s : List UInt8) : (skipQuotesLoop s).length ≤ s.length := by
  fun_induction skipQuotesLoop s <;> grind

/-- Reading a string leaves no more text. -/
theorem length_getQuotedString (s : List UInt8) : (getQuotedString s).2.length ≤ s.length := by
  have hloop := length_skipQuotesLoop s.tail
  have htail : s.tail.length ≤ s.length := by simp
  exact le_trans hloop htail

/-- An element never adds to the text, so the loop does not either. -/
theorem length_parseElements {α : Type} {element : Table α → List UInt8 → Option (Table α × List UInt8)}
    (helement : ∀ t s t' s', element t s = some (t', s') → s'.length ≤ s.length) {turns : Nat}
    {t t' : Table α} {s s' : List UInt8} (h : parseElements element turns t s = some (t', s')) :
    s'.length ≤ s.length := by
  -- each turn reads an element and perhaps a comma, and gives nothing back
  induction turns generalizing t s with
  | zero =>
    cases h
    exact le_rfl
  | succ turns ih =>
    cases s with
    | nil =>
      cases h
      exact le_rfl
    | cons b s =>
      unfold parseElements at h
      simp only [Option.bind_eq_bind, Option.bind_eq_some_iff] at h
      rcases h with ⟨⟨t₁, s₁⟩, hfirst, h⟩
      have hlen := helement t _ t₁ s₁ hfirst
      have hskip := length_skipWhitespaces s₁
      simp only at h
      split at h
      · cases h
        exact Nat.zero_le _
      · rename_i c s₂ hs₂
        rw [hs₂] at hskip
        split at h
        · have hrest := ih h
          have hskip₂ := length_skipWhitespaces s₂
          simp only [List.length_cons] at hlen hskip ⊢
          omega
        · cases h
          omega

section Turn

variable {α : Type} {element : Table α → List UInt8 → Option (Table α × List UInt8)} {turns : Nat}
  {t t' : Table α} {s s' s'' : List UInt8}

/-- A turn ends with an element that is refused. -/
theorem parseElements_refused (hne : s ≠ []) (h : element t s = none) :
    parseElements element (turns + 1) t s = none := by
  cases s with
  | nil => exact absurd rfl hne
  | cons b s =>
    unfold parseElements
    rw [h]
    rfl

/-- It goes on behind a comma. -/
theorem parseElements_next (hne : s ≠ []) (h : element t s = some (t', s'))
    (hskip : skipWhitespaces s' = 44 :: s'') :
    parseElements element (turns + 1) t s = parseElements element turns t' (skipWhitespaces s'') := by
  cases s with
  | nil => exact absurd rfl hne
  | cons b s =>
    conv_lhs => unfold parseElements
    rw [h]
    simp only [Option.bind_eq_bind, Option.bind_some, hskip, if_true]

/-- It ends at any other character. -/
theorem parseElements_last (hne : s ≠ []) (h : element t s = some (t', s')) {c : UInt8}
    (hskip : skipWhitespaces s' = c :: s'') (hc : c ≠ 44) :
    parseElements element (turns + 1) t s = some (t', c :: s'') := by
  cases s with
  | nil => exact absurd rfl hne
  | cons b s =>
    unfold parseElements
    rw [h]
    simp only [Option.bind_eq_bind, Option.bind_some, hskip, if_neg hc]

end Turn

/-- More turns than the text has characters change nothing. -/
theorem parseElements_turns {α : Type} {element : Table α → List UInt8 → Option (Table α × List UInt8)}
    (helement : ∀ t s t' s', element t s = some (t', s') → s'.length ≤ s.length) (turns : Nat)
    (t : Table α) {s : List UInt8} (hs : s.length ≤ turns) :
    parseElements element (turns + 1) t s = parseElements element turns t s := by
  induction turns generalizing t s with
  | zero =>
    obtain rfl : s = [] := List.length_eq_zero_iff.mp (Nat.le_zero.mp hs)
    rfl
  | succ turns ih =>
    cases s with
    | nil => rfl
    | cons b s =>
      unfold parseElements
      rcases hfirst : element t (b :: s) with _ | ⟨t₁, s₁⟩
      · rfl
      · have hlen := helement t _ t₁ s₁ hfirst
        have hskip := length_skipWhitespaces s₁
        simp only [Option.bind_eq_bind, Option.bind_some]
        split
        · rfl
        · rename_i c s₂ hs₂
          rw [hs₂] at hskip
          split
          · have hskip₂ := length_skipWhitespaces s₂
            simp only [List.length_cons] at hlen hskip hs
            exact ih t₁ (by omega)
          · rfl

/-- Reading a sequence leaves no more text, if its elements do not. -/
theorem length_parseSequence {α : Type} {close : UInt8}
    {element : Table α → List UInt8 → Option (Table α × List UInt8)}
    (helement : ∀ t s t' s', element t s = some (t', s') → s'.length ≤ s.length) {s s' : List UInt8}
    {entries : List α} (h : parseSequence close element s = some (entries, s')) : s'.length ≤ s.length := by
  have hskip := length_skipWhitespaces s.tail
  have htail : s.tail.length ≤ s.length := by simp
  unfold parseSequence at h
  simp only at h
  split at h
  · cases h
    rw [List.length_tail]
    omega
  · simp only [Option.bind_eq_bind, Option.bind_eq_some_iff] at h
    rcases h with ⟨⟨t, s₁⟩, hloop, h⟩
    have hlen := length_parseElements helement hloop
    have hskip₁ := length_skipWhitespaces s₁
    simp only at h
    split at h
    · cases h
      rw [List.length_tail]
      omega
    · cases h

/-- Reading an item leaves no more text, if its value does not. -/
theorem length_parseItem {parse : Parser} (hparse : ∀ s v s', parse s = some (v, s') → s'.length ≤ s.length)
    (t : Table Json) (s : List UInt8) (t' : Table Json) (s' : List UInt8)
    (h : parseItem parse t s = some (t', s')) : s'.length ≤ s.length := by
  unfold parseItem at h
  simp only [Option.bind_eq_bind, Option.bind_eq_some_iff] at h
  rcases h with ⟨⟨v, s₁⟩, hv, t₁, -, h⟩
  cases h
  exact hparse _ _ _ hv

/-- Reading a member leaves no more text, if its value does not. -/
theorem length_parseMember {parse : Parser} (hparse : ∀ s v s', parse s = some (v, s') → s'.length ≤ s.length)
    (t : Table (List UInt8 × Json)) (s : List UInt8) (t' : Table (List UInt8 × Json)) (s' : List UInt8)
    (h : parseMember parse t s = some (t', s')) : s'.length ≤ s.length := by
  unfold parseMember at h
  have hquoted := length_getQuotedString s
  rcases hq : getQuotedString s with ⟨quoted, s₀⟩
  rw [hq] at h hquoted
  simp only [Option.bind_eq_bind, Option.bind_eq_some_iff] at h
  rcases h with ⟨name, rfl, h⟩
  have hskip := length_skipWhitespaces s₀
  split at h
  · cases h
  · rename_i b s₁ hs₁
    rw [hs₁, List.length_cons] at hskip
    split at h
    · simp only [Option.bind_eq_some_iff] at h
      rcases h with ⟨⟨v, s₂⟩, hv, t₁, -, h⟩
      cases h
      have hlen : s₂.length ≤ s₁.length := hparse _ _ _ hv
      simp only at hquoted
      show s₂.length ≤ s.length
      omega
    · cases h

/-- The text a value leaves is no longer than the one it was read from. -/
theorem length_parseValue {n : Nat} {s s' : List UInt8} {v : Json} (h : parseValue n s = some (v, s')) :
    s'.length ≤ s.length := by
  -- on the depth that is left; one case for each kind of value
  induction n generalizing s s' v with
  | zero => cases h
  | succ n ih =>
    refine le_trans ?_ (length_skipWhitespaces s)
    rcases parseValue_cases h with (h | h) | h | h | h | h
    · unfold parseObjectValue at h
      rw [Option.map_eq_some_iff] at h
      rcases h with ⟨⟨members, s₁⟩, hseq, h⟩
      cases h
      exact length_parseSequence (length_parseMember fun _ _ _ => ih) hseq
    · unfold parseArrayValue at h
      rw [Option.map_eq_some_iff] at h
      rcases h with ⟨⟨items, s₁⟩, hseq, h⟩
      cases h
      exact length_parseSequence (length_parseItem fun _ _ _ => ih) hseq
    · unfold parseStringValue at h
      have hquoted := length_getQuotedString (skipWhitespaces s)
      split at h
      · rename_i hq
        cases h
        rw [hq] at hquoted
        exact hquoted
      · cases h
    · unfold parseBooleanValue at h
      split at h
      · cases h
        simp
      · split at h
        · cases h
          simp
        · cases h
    · unfold parseNumberValue at h
      simp only at h
      split at h
      · cases h
        simp
      · cases h
    · unfold parseNullValue at h
      split at h
      · cases h
        simp
      · cases h

/-! ## What was parsed -/

/-- What a value is like that was read with `n` levels to go. -/
inductive Parsed : Nat → Json → Prop where
  | null {n : Nat} : Parsed n .null
  | boolean {n : Nat} {b : Bool} : Parsed n (.boolean b)
  | number {n : Nat} {x : Double} : Parsed n (.number x)
  | string {n : Nat} {s : List UInt8} (hs : 0 ∉ s) : Parsed n (.string s)
  | emptyArray {n : Nat} : Parsed n (.array [])
  | emptyObject {n : Nat} : Parsed n (.object [])
  | array {n : Nat} {items : List Json} (hlen : items.length ≤ arrayMaxCapacity)
      (hitems : ∀ v ∈ items, Parsed n v) : Parsed (n + 1) (.array items)
  | object {n : Nat} {members : Members} (hlen : members.length ≤ objectMaxCapacity)
      (hnames : (members.map (·.1)).Nodup) (hnul : ∀ m ∈ members, 0 ∉ m.1)
      (hvalues : ∀ m ∈ members, Parsed n m.2) : Parsed (n + 1) (.object members)

/-- A C string contains no NUL. -/
theorem not_mem_cString (bytes : List UInt8) : 0 ∉ cString bytes := by
  intro h
  have hall := List.all_takeWhile (p := fun b : UInt8 => decide (b ≠ 0)) (l := bytes)
  rw [List.all_eq_true] at hall
  exact absurd (hall 0 h) (by decide)

/-- A text without NUL is all of its C string. -/
theorem cString_of_not_mem {bytes : List UInt8} (h : 0 ∉ bytes) : cString bytes = bytes := by
  unfold cString
  rw [List.takeWhile_eq_self_iff]
  intro b hb
  have hne : b ≠ 0 := by
    rintro rfl
    exact h hb
  simpa using hne

/-- A string that is read contains no NUL. -/
theorem not_mem_getQuotedString {s name rest : List UInt8}
    (h : getQuotedString s = (some name, rest)) : 0 ∉ name := by
  unfold getQuotedString processString at h
  have hname := congrArg Prod.fst h
  simp only [Option.map_eq_some_iff] at hname
  rcases hname with ⟨bytes, -, rfl⟩
  exact not_mem_cString bytes

/-- What every element keeps holds at the end of the loop. -/
theorem parseElements_invariant {α : Type}
    {element : Table α → List UInt8 → Option (Table α × List UInt8)} {Inv : Table α → Prop}
    (hstep : ∀ t s t' s', Inv t → element t s = some (t', s') → Inv t') {turns : Nat} {t t' : Table α}
    {s s' : List UInt8} (ht : Inv t) (h : parseElements element turns t s = some (t', s')) : Inv t' := by
  induction turns generalizing t s with
  | zero =>
    cases h
    exact ht
  | succ turns ih =>
    cases s with
    | nil =>
      cases h
      exact ht
    | cons b s =>
      unfold parseElements at h
      simp only [Option.bind_eq_bind, Option.bind_eq_some_iff] at h
      rcases h with ⟨⟨t₁, s₁⟩, helement, h⟩
      have ht₁ := hstep t _ t₁ s₁ ht helement
      simp only at h
      split at h
      · cases h
        exact ht₁
      · split at h
        · exact ih ht₁ h
        · cases h
          exact ht₁

/-- What every element keeps holds of the table of a sequence. -/
theorem parseSequence_invariant {α : Type} {close : UInt8}
    {element : Table α → List UInt8 → Option (Table α × List UInt8)} {Inv : Table α → Prop}
    (hstep : ∀ t s t' s', Inv t → element t s = some (t', s') → Inv t') (hempty : Inv Table.empty)
    {s s' : List UInt8} {entries : List α} (h : parseSequence close element s = some (entries, s')) :
    entries = [] ∨ ∃ t, Inv t ∧ t.entries = entries := by
  unfold parseSequence at h
  simp only at h
  split at h
  · cases h
    exact Or.inl rfl
  · simp only [Option.bind_eq_bind, Option.bind_eq_some_iff] at h
    rcases h with ⟨⟨t, s₁⟩, hloop, h⟩
    simp only at h
    split at h
    · cases h
      exact Or.inr ⟨t, parseElements_invariant hstep hempty hloop, rfl⟩
    · cases h

/-- The table of an array while it is read. -/
structure ItemsInv (n : Nat) (t : Table Json) : Prop where
  grown : Table.Grown 13 t
  items : ∀ v ∈ t.entries, Parsed n v

/-- An item that is read keeps the invariant of items. -/
theorem parseItem_invariant {n : Nat} {parse : Parser}
    (hparse : ∀ s v s', parse s = some (v, s') → Parsed n v) (t : Table Json) (s : List UInt8)
    (t' : Table Json) (s' : List UInt8) (ht : ItemsInv n t) (h : parseItem parse t s = some (t', s')) :
    ItemsInv n t' := by
  unfold parseItem at h
  simp only [Option.bind_eq_bind, Option.bind_eq_some_iff] at h
  rcases h with ⟨⟨v, s₁⟩, hv, t₁, hadd, h⟩
  cases h
  refine ⟨ht.grown.of_add hadd, ?_⟩
  rw [Table.add_entries hadd]
  intro w hw
  rw [List.mem_append, List.mem_singleton] at hw
  rcases hw with hw | rfl
  · exact ht.items w hw
  · exact hparse s w _ hv

/-- The table of an object while it is read. -/
structure MembersInv (n : Nat) (t : Table (List UInt8 × Json)) : Prop where
  grown : Table.Grown 6 t
  names : (t.entries.map (·.1)).Nodup
  nul : ∀ m ∈ t.entries, 0 ∉ m.1
  values : ∀ m ∈ t.entries, Parsed n m.2

/-- A name is found exactly if a member has it. -/
theorem jsonObjectGetValue_isSome {object : Members} {name : List UInt8} :
    (jsonObjectGetValue object name).isSome ↔ name ∈ object.map (·.1) := by
  unfold jsonObjectGetValue
  rw [Option.isSome_map, List.find?_isSome]
  simp only [List.mem_map, decide_eq_true_eq]

/-- What is added has a new name. -/
theorem jsonObjectAdd_eq_some {t t' : Table (List UInt8 × Json)} {name : List UInt8} {value : Json}
    (h : jsonObjectAdd t name value = some t') :
    name ∉ t.entries.map (·.1) ∧ t.add objectMaxCapacity (name, value) = some t' := by
  unfold jsonObjectAdd at h
  split at h
  · cases h
  · rename_i hsome
    rw [jsonObjectGetValue_isSome] at hsome
    exact ⟨hsome, h⟩

/-- A member that is read keeps the invariant of members. -/
theorem parseMember_invariant {n : Nat} {parse : Parser}
    (hparse : ∀ s v s', parse s = some (v, s') → Parsed n v) (t : Table (List UInt8 × Json))
    (s : List UInt8) (t' : Table (List UInt8 × Json)) (s' : List UInt8) (ht : MembersInv n t)
    (h : parseMember parse t s = some (t', s')) : MembersInv n t' := by
  unfold parseMember at h
  rcases hq : getQuotedString s with ⟨quoted, s₀⟩
  rw [hq] at h
  simp only [Option.bind_eq_bind, Option.bind_eq_some_iff] at h
  rcases h with ⟨name, rfl, h⟩
  split at h
  · cases h
  · split at h
    · simp only [Option.bind_eq_some_iff] at h
      rcases h with ⟨⟨v, s₂⟩, hv, t₁, hadd, h⟩
      cases h
      -- a member comes in behind the others, under a name that is new
      rcases jsonObjectAdd_eq_some hadd with ⟨hfresh, hadd⟩
      refine ⟨ht.grown.of_add hadd, ?_, ?_, ?_⟩
      all_goals rw [Table.add_entries hadd]
      · rw [List.map_append, List.map_singleton, List.nodup_append]
        refine ⟨ht.names, List.nodup_singleton _, ?_⟩
        intro a ha b hb
        rw [List.mem_singleton] at hb
        subst hb
        rintro rfl
        exact hfresh ha
      · intro m hm
        rw [List.mem_append, List.mem_singleton] at hm
        rcases hm with hm | rfl
        · exact ht.nul m hm
        · exact not_mem_getQuotedString hq
      · intro m hm
        rw [List.mem_append, List.mem_singleton] at hm
        rcases hm with hm | rfl
        · exact ht.values m hm
        · exact hparse _ _ _ hv
    · cases h

/-- An array that is read could have been parsed. -/
theorem parsed_array {n : Nat} {parse : Parser} (hparse : ∀ s v s', parse s = some (v, s') → Parsed n v)
    {s s' : List UInt8} {v : Json} (h : parseArrayValue parse s = some (v, s')) : Parsed (n + 1) v := by
  unfold parseArrayValue at h
  rw [Option.map_eq_some_iff] at h
  rcases h with ⟨⟨items, s₁⟩, hseq, h⟩
  cases h
  rcases parseSequence_invariant (parseItem_invariant hparse)
    ⟨Table.grown_empty 13, fun _ hv => nomatch hv⟩ hseq with rfl | ⟨t, ht, rfl⟩
  · exact Parsed.emptyArray
  · exact Parsed.array ht.grown.length_le ht.items

/-- An object that is read could have been parsed. -/
theorem parsed_object {n : Nat} {parse : Parser} (hparse : ∀ s v s', parse s = some (v, s') → Parsed n v)
    {s s' : List UInt8} {v : Json} (h : parseObjectValue parse s = some (v, s')) : Parsed (n + 1) v := by
  unfold parseObjectValue at h
  rw [Option.map_eq_some_iff] at h
  rcases h with ⟨⟨members, s₁⟩, hseq, h⟩
  cases h
  rcases parseSequence_invariant (parseMember_invariant hparse)
    ⟨Table.grown_empty 6, List.nodup_nil, (fun _ hm => nomatch hm), fun _ hm => nomatch hm⟩ hseq with
    rfl | ⟨t, ht, rfl⟩
  · exact Parsed.emptyObject
  · exact Parsed.object ht.grown.length_le ht.names ht.nul ht.values

/-- Any other value that is read could have been parsed. -/
theorem parsed_scalar {s s' : List UInt8} {v : Json} {n : Nat} (h : parseStringValue s = some (v, s') ∨
    parseBooleanValue s = some (v, s') ∨ parseNumberValue s = some (v, s') ∨
    parseNullValue s = some (v, s')) : Parsed n v := by
  rcases h with h | h | h | h
  · unfold parseStringValue at h
    split at h
    · rename_i hq
      cases h
      exact Parsed.string (not_mem_getQuotedString hq)
    · cases h
  · unfold parseBooleanValue at h
    split at h
    · cases h
      exact Parsed.boolean
    · split at h
      · cases h
        exact Parsed.boolean
      · cases h
  · unfold parseNumberValue at h
    simp only at h
    split at h
    · cases h
      exact Parsed.number
    · cases h
  · unfold parseNullValue at h
    split at h
    · cases h
      exact Parsed.null
    · cases h

/-- When no element can be read the sequence is empty. -/
theorem parseSequence_nothing {α : Type} {close : UInt8}
    {element : Table α → List UInt8 → Option (Table α × List UInt8)}
    (hnone : ∀ t s, element t s = none) {s s' : List UInt8} {entries : List α}
    (h : parseSequence close element s = some (entries, s')) : entries = [] := by
  have hstep : ∀ t s t' s', t.entries = [] → element t s = some (t', s') → t'.entries = [] := by
    intro t s t' s' _ helement
    rw [hnone] at helement
    cases helement
  rcases parseSequence_invariant hstep rfl h with hnil | ⟨t, hnil, rfl⟩
  · exact hnil
  · exact hnil

/-- On the last level an array or an object has no elements. -/
theorem parsed_last {s s' : List UInt8} {v : Json} {n : Nat}
    (h : parseObjectValue (parseValue 0) s = some (v, s') ∨ parseArrayValue (parseValue 0) s = some (v, s')) :
    Parsed n v := by
  rcases h with h | h
  · unfold parseObjectValue at h
    rw [Option.map_eq_some_iff] at h
    rcases h with ⟨⟨members, s₁⟩, hseq, h⟩
    cases h
    obtain rfl : members = [] := by
      refine parseSequence_nothing ?_ hseq
      intro t s
      unfold parseMember
      rcases getQuotedString s with ⟨_ | name, s₀⟩
      · rfl
      · rcases hskip : skipWhitespaces s₀ with _ | ⟨b, s₁⟩
        · simp [hskip]
        · simp [hskip, parseValue]
    exact Parsed.emptyObject
  · unfold parseArrayValue at h
    rw [Option.map_eq_some_iff] at h
    rcases h with ⟨⟨items, s₁⟩, hseq, h⟩
    cases h
    obtain rfl : items = [] := parseSequence_nothing (fun _ _ => rfl) hseq
    exact Parsed.emptyArray

/-- Every value that is read could have been parsed: on the nesting left. -/
theorem parsed_of_parseValue (n : Nat) {s s' : List UInt8} {v : Json}
    (h : parseValue (n + 1) s = some (v, s')) : Parsed n v := by
  induction n generalizing s s' v with
  | zero =>
    rcases parseValue_cases h with h | h
    · exact parsed_last h
    · exact parsed_scalar h
  | succ n ih =>
    rcases parseValue_cases h with (h | h) | h
    · exact parsed_object (fun _ _ _ h => ih h) h
    · exact parsed_array (fun _ _ _ h => ih h) h
    · exact parsed_scalar h

/-- Whatever `json_parse_file` returns has unique names, strings without a NUL and tables
within their limits, nested no deeper than the parser goes. -/
theorem parsed_of_jsonParseContents {bytes : List UInt8} {v : Json}
    (h : jsonParseContents bytes = some v) : Parsed maxNesting v := by
  unfold jsonParseContents jsonParseString at h
  rw [Option.map_eq_some_iff] at h
  rcases h with ⟨⟨w, s'⟩, h, rfl⟩
  exact parsed_of_parseValue maxNesting h

end Hpav
