import Mathlib.Tactic.Common
import Mathlib.Data.List.TakeWhile
import Hpav.Lib.CNumeral

/-!
# Reading text in C

The conversions `%x` and `%d` of `sscanf`, `atoi`, the lines of `fgets` and the tokens of
`strtok`. A conversion takes the longest prefix that can still become a number and fails if
it does not become one, so a sign or `0x` without digits is no match. A line that does not
fit into the buffer of `fgets` comes in pieces, and no piece goes over the end of a line
(`fgetsLines_eq`).
-/

namespace CScan

open Decimal CNumeral

/-! ## Conversions -/

/-- The characters a conversion may look at. -/
def field (width : Option Nat) (s : List UInt8) : List UInt8 :=
  match width with
  | none => s
  | some w => s.take w

/-- `strtoul`: what is too large becomes the largest value, a sign wraps around. -/
def toUnsignedLong (negative : Bool) (n : Nat) : Nat :=
  if 2 ^ 64 ≤ n then 2 ^ 64 - 1 else if negative then (2 ^ 64 - n) % 2 ^ 64 else n

/-- `%x`: the number and the text behind it. -/
def scanHex (width : Option Nat) (s : List UInt8) : Option (Nat × List UInt8) :=
  let s := s.dropWhile isSpace
  let (negative, sign, digits) := takeSign (field width s)
  let mark := if startsWith [48, 120] digits then 2 else 0
  let ds := (digits.drop mark).takeWhile isHexDigit
  if ds = [] then none
  else some (toUnsignedLong negative (hexValue ds), s.drop (sign + mark + ds.length))

/-- `%hhx:%hhx:...` with `n` conversions: the bytes that were stored. -/
def scanColonHex (width : Option Nat) : Nat → List UInt8 → List UInt8
  | 0, _ => []
  | n + 1, s =>
    match scanHex width s with
    | none => []
    | some (v, []) => [UInt8.ofNat v]
    | some (v, b :: s) =>
      if b = 58 then UInt8.ofNat v :: scanColonHex width n s else [UInt8.ofNat v]

/-- `strtol` with base 10, and nothing if there is no number. -/
def scanLong (s : List UInt8) : Option Int :=
  let (negative, _, digits) := takeSign (s.dropWhile isSpace)
  let ds := digits.takeWhile isDigit
  if ds = [] then none
  else if negative then some (max (-(value ds : Int)) (-2 ^ 63))
  else some (min (value ds : Int) (2 ^ 63 - 1))

/-- `%d` -/
def scanInt (s : List UInt8) : Option Int :=
  (scanLong s).map fun v => v.bmod (2 ^ 32)

def atoi (s : List UInt8) : Int :=
  (scanInt s).getD 0

/-- `%u` -/
def scanUnsigned (s : List UInt8) : Option UInt32 :=
  let (negative, _, digits) := takeSign (s.dropWhile isSpace)
  let ds := digits.takeWhile isDigit
  if ds = [] then none else some (UInt32.ofNat (toUnsignedLong negative (value ds)))

/-- `%2hhx%2hhx...` with `n` conversions: the bytes that were stored. -/
def scanHexPairs : Nat → List UInt8 → List UInt8
  | 0, _ => []
  | n + 1, s =>
    match scanHex (some 2) s with
    | none => []
    | some (v, s) => UInt8.ofNat v :: scanHexPairs n s

/-! ## Hexadecimal bytes -/

/-- One or two hexadecimal digits. -/
structure HexByte (ds : List UInt8) : Prop where
  short : ds.length = 1 ∨ ds.length = 2
  digits : ∀ b ∈ ds, isHexDigit b = true

/-- Hexadecimal bytes with colons between them. -/
inductive ColonHex : List UInt8 → List UInt8 → Prop where
  | last {ds : List UInt8} (hds : HexByte ds) : ColonHex ds [UInt8.ofNat (hexValue ds)]
  | more {ds s bytes : List UInt8} (hds : HexByte ds) (hs : ColonHex s bytes) :
      ColonHex (ds ++ 58 :: s) (UInt8.ofNat (hexValue ds) :: bytes)

theorem toNat_toLower (b : UInt8) :
    (toLower b).toNat = if 65 ≤ b.toNat ∧ b.toNat ≤ 90 then b.toNat + 32 else b.toNat := by
  have hb := b.toNat_lt
  unfold toLower
  simp only [Bool.and_eq_true, decide_eq_true_eq, UInt8.le_iff_toNat_le]
  show (if 65 ≤ b.toNat ∧ b.toNat ≤ 90 then b + 32 else b).toNat = _
  split
  · rw [UInt8.toNat_add]
    show (b.toNat + 32) % 256 = b.toNat + 32
    omega
  · rfl

theorem isHexDigit_iff {b : UInt8} : isHexDigit b = true ↔
    (48 ≤ b.toNat ∧ b.toNat ≤ 57) ∨ (65 ≤ b.toNat ∧ b.toNat ≤ 70) ∨ (97 ≤ b.toNat ∧ b.toNat ≤ 102) := by
  unfold isHexDigit
  rw [Bool.or_eq_true, isDigit_iff, Bool.and_eq_true, decide_eq_true_iff, decide_eq_true_iff,
    UInt8.le_iff_toNat_le, UInt8.le_iff_toNat_le, toNat_toLower]
  show _ ∨ (97 ≤ _ ∧ _ ≤ 102) ↔ _
  split <;> omega

/-- A digit neither starts a mark nor ends a number. -/
theorem not_special_of_isHexDigit {b : UInt8} (h : isHexDigit b = true) :
    isSpace b = false ∧ b ≠ 45 ∧ b ≠ 43 ∧ toLower b ≠ 120 := by
  have hb := isHexDigit_iff.mp h
  refine ⟨?_, ?_, ?_, ?_⟩
  · by_contra hspace
    have hspace : isSpace b = true := Bool.not_eq_false _ ▸ hspace
    unfold isSpace at hspace
    simp only [Bool.or_eq_true, Bool.and_eq_true, decide_eq_true_eq, UInt8.le_iff_toNat_le] at hspace
    rcases hspace with hspace | hspace
    · rw [hspace] at hb
      revert hb
      decide
    · have hle : b.toNat ≤ 13 := hspace.2
      omega
  · rintro rfl
    revert hb
    decide
  · rintro rfl
    revert hb
    decide
  · intro hx
    have hx := congrArg UInt8.toNat hx
    rw [toNat_toLower] at hx
    have hx : (if 65 ≤ b.toNat ∧ b.toNat ≤ 90 then b.toNat + 32 else b.toNat) = 120 := hx
    split at hx <;> omega

theorem hexDigitValue_lt {b : UInt8} (h : isHexDigit b = true) : hexDigitValue b < 16 := by
  have hb := isHexDigit_iff.mp h
  unfold hexDigitValue
  rw [toNat_toLower]
  by_cases hdigit : isDigit b = true
  · rw [if_pos hdigit]
    have := isDigit_iff.mp hdigit
    omega
  · rw [if_neg hdigit]
    rw [isDigit_iff] at hdigit
    split <;> omega

theorem HexByte.hexValue_lt {ds : List UInt8} (h : HexByte ds) : hexValue ds < 256 := by
  match ds, h.short, h.digits with
  | [a], _, hdigits =>
    have ha := hexDigitValue_lt (hdigits a List.mem_cons_self)
    show 16 * 0 + hexDigitValue a < 256
    omega
  | [a, b], _, hdigits =>
    have ha := hexDigitValue_lt (hdigits a List.mem_cons_self)
    have hb := hexDigitValue_lt (hdigits b (List.mem_cons_of_mem _ List.mem_cons_self))
    show 16 * (16 * 0 + hexDigitValue a) + hexDigitValue b < 256
    omega

/-- `%x` reads a byte up to the colon behind it, whatever else its field has room for. -/
theorem scanHex_field {width : Option Nat} {ds rest rest' : List UInt8} (h : HexByte ds)
    (hfield : field width (ds ++ rest) = ds ++ rest') (hrest : rest' = [] ∨ ∃ s, rest' = 58 :: s) :
    scanHex width (ds ++ rest) = some (hexValue ds, rest) := by
  obtain ⟨a, ds', rfl⟩ : ∃ a ds', ds = a :: ds' := by
    cases ds with
    | nil => rcases h.short with h | h <;> cases h
    | cons a ds' => exact ⟨a, ds', rfl⟩
  obtain ⟨hspace, hminus, hplus, -⟩ := not_special_of_isHexDigit (h.digits a List.mem_cons_self)
  have hskip : (a :: ds' ++ rest).dropWhile isSpace = a :: ds' ++ rest := by
    rw [List.cons_append, List.dropWhile_cons_of_neg (by rw [hspace]; decide)]
  have hsign : takeSign (field width (a :: ds' ++ rest)) = (false, 0, a :: ds' ++ rest') := by
    rw [hfield]
    show (if a = 45 then _ else if a = 43 then _ else _) = _
    rw [if_neg hminus, if_neg hplus]
    rfl
  have hmark : startsWith [48, 120] (a :: ds' ++ rest') = false := by
    -- the second character is a digit, a colon or not there
    unfold startsWith
    rw [decide_eq_false_iff_not]
    intro hmark
    cases ds' with
    | nil =>
      rcases hrest with rfl | ⟨s, rfl⟩
      · have hlength := congrArg List.length hmark
        rw [List.length_map] at hlength
        cases hlength
      · injection hmark with _ hmark
        injection hmark with hmark _
        exact absurd hmark (by decide)
    | cons b ds' =>
      injection hmark with _ hmark
      injection hmark with hmark _
      exact (not_special_of_isHexDigit (h.digits b (by simp))).2.2.2 hmark
  have htake : (a :: ds' ++ rest').takeWhile isHexDigit = a :: ds' := by
    rw [List.takeWhile_append_of_pos h.digits]
    rcases hrest with rfl | ⟨s, rfl⟩
    · exact List.append_nil _
    · rw [List.takeWhile_cons_of_neg (by decide), List.append_nil]
  have hvalue := h.hexValue_lt
  unfold scanHex
  simp only [hskip, hsign, hmark, Bool.false_eq_true, if_false, List.drop_zero, htake, reduceCtorEq,
    Nat.zero_add, List.drop_left]
  unfold toUnsignedLong
  rw [if_neg (by omega)]
  rfl

/-- The field of a byte may be as wide as it takes or have two characters. -/
theorem scanHex_hexByte {width : Option Nat} (hwidth : width = none ∨ width = some 2) {ds rest : List UInt8}
    (h : HexByte ds) (hrest : rest = [] ∨ ∃ s, rest = 58 :: s) :
    scanHex width (ds ++ rest) = some (hexValue ds, rest) := by
  rcases hwidth with rfl | rfl
  · exact scanHex_field h rfl hrest
  · rcases h.short with hone | htwo
    · -- the field of a single digit has room for the colon
      obtain ⟨a, rfl⟩ := List.length_eq_one_iff.mp hone
      refine @scanHex_field (some 2) [a] rest (rest.take 1) h rfl ?_
      rcases hrest with rfl | ⟨s, rfl⟩
      · exact Or.inl rfl
      · exact Or.inr ⟨[], rfl⟩
    · refine @scanHex_field (some 2) ds rest [] h ?_ (Or.inl rfl)
      rw [List.append_nil]
      exact List.take_left' htwo

/-- The conversions read what stands between the colons. -/
theorem ColonHex.scanColonHex_width {width : Option Nat} (hwidth : width = none ∨ width = some 2)
    {s bytes : List UInt8} (h : ColonHex s bytes) : scanColonHex width bytes.length s = bytes := by
  induction h with
  | @last ds hds =>
    have hscan := scanHex_hexByte hwidth hds (Or.inl rfl)
    rw [List.append_nil] at hscan
    show scanColonHex width 1 ds = _
    unfold scanColonHex
    rw [hscan]
  | @more ds s bytes hds hs ih =>
    have hscan := scanHex_hexByte hwidth hds (Or.inr ⟨s, rfl⟩)
    show scanColonHex width (bytes.length + 1) (ds ++ 58 :: s) = _
    unfold scanColonHex
    rw [hscan]
    simp only [if_true]
    rw [ih]

theorem ColonHex.scanColonHex_eq {s bytes : List UInt8} (h : ColonHex s bytes) :
    scanColonHex none bytes.length s = bytes :=
  h.scanColonHex_width (Or.inl rfl)

/-! ## Lines and tokens -/

/-- How many characters `fgets` with a buffer of `size` takes. -/
def lineLength (size : Nat) (s : List UInt8) : Nat :=
  let line := s.take (size - 1)
  let body := line.takeWhile (· ≠ 10)
  if body.length < line.length then body.length + 1 else body.length

/-- What `fgets` stores until the end of the file. Every line has a character at least, so
the length of the text is enough. -/
def fgetsLines (size : Nat) : Nat → List UInt8 → List (List UInt8)
  | 0, _ => []
  | _ + 1, [] => []
  | turns + 1, b :: s =>
    (b :: s).take (lineLength size (b :: s)) ::
      fgetsLines size turns ((b :: s).drop (lineLength size (b :: s)))

/-- The tokens `strtok` returns one after the other. -/
def strtok (delim : UInt8) (s : List UInt8) : List (List UInt8) :=
  (s.splitOn delim).filter fun token => token ≠ []

/-! ## The lines of a file -/

/-- The lines of a text, each with its newline; the last one may have none. -/
def fileLines : List UInt8 → List (List UInt8)
  | [] => []
  | b :: s =>
    if b = 10 then [b] :: fileLines s
    else
      match fileLines s with
      | [] => [[b]]
      | line :: lines => (b :: line) :: lines

/-- The pieces in which `fgets` takes a line. -/
def linePieces (size : Nat) (line : List UInt8) : List (List UInt8) :=
  fgetsLines size line.length line

theorem fileLines_cons (b : UInt8) (s : List UInt8) : fileLines (b :: s) =
    if b = 10 then [b] :: fileLines s
    else
      match fileLines s with
      | [] => [[b]]
      | line :: lines => (b :: line) :: lines := rfl

/-- The first line of a text and the rest of it, or a text without newline. -/
theorem fileLines_cases (s : List UInt8) :
    s = [] ∨ (∃ body rest, 10 ∉ body ∧ s = (body ++ [10]) ++ rest ∧ fileLines s = (body ++ [10]) :: fileLines rest) ∨
      (s ≠ [] ∧ 10 ∉ s ∧ fileLines s = [s]) := by
  induction s with
  | nil => exact Or.inl rfl
  | cons b s ih =>
    refine Or.inr ?_
    by_cases hb : b = 10
    · refine Or.inl ⟨[], s, List.not_mem_nil, ?_, ?_⟩
      · rw [hb]
        rfl
      · rw [fileLines_cons, if_pos hb, hb]
        rfl
    · have hnew : ∀ body : List UInt8, 10 ∉ body → 10 ∉ b :: body := by
        intro body hbody hin
        rcases List.mem_cons.mp hin with h | h
        · exact hb h.symm
        · exact hbody h
      rw [fileLines_cons, if_neg hb]
      rcases ih with rfl | ⟨body, rest, hbody, hs, hlines⟩ | ⟨-, hnone, hlines⟩
      · exact Or.inr ⟨List.cons_ne_nil b [], hnew [] List.not_mem_nil, rfl⟩
      · refine Or.inl ⟨b :: body, rest, hnew body hbody, ?_, ?_⟩
        · rw [hs]
          rfl
        · rw [hlines]
          rfl
      · refine Or.inr ⟨List.cons_ne_nil b s, hnew s hnone, ?_⟩
        rw [hlines]

theorem takeWhile_of_no_newline {body : List UInt8} (h : 10 ∉ body) : body.takeWhile (· ≠ 10) = body := by
  rw [List.takeWhile_eq_self_iff]
  intro b hb
  simp only [decide_eq_true_eq]
  rintro rfl
  exact h hb

theorem lineLength_of_no_newline (size : Nat) {s : List UInt8} (h : 10 ∉ s) :
    lineLength size s = min (size - 1) s.length := by
  have htake : 10 ∉ s.take (size - 1) := fun hin => h (List.mem_of_mem_take hin)
  unfold lineLength
  simp only [takeWhile_of_no_newline htake, lt_irrefl, if_false, List.length_take]

theorem lineLength_of_newline (size : Nat) {body : List UInt8} (h : 10 ∉ body) (rest : List UInt8) :
    lineLength size ((body ++ [10]) ++ rest) = min (size - 1) (body ++ [10]).length := by
  rw [List.append_assoc, List.length_append, List.length_singleton]
  by_cases hlong : size - 1 ≤ body.length
  · have htake : 10 ∉ body.take (size - 1) := fun hin => h (List.mem_of_mem_take hin)
    unfold lineLength
    simp only [List.take_append_of_le_length hlong, takeWhile_of_no_newline htake, lt_irrefl, if_false,
      List.length_take]
    omega
  · obtain ⟨k, hk⟩ : ∃ k, size - 1 = body.length + (k + 1) := ⟨size - 1 - body.length - 1, by omega⟩
    have htake : (body ++ ([10] ++ rest)).take (size - 1) = body ++ 10 :: rest.take k := by
      rw [hk, List.take_length_add_append]
      rfl
    have hwhile : (body ++ 10 :: rest.take k).takeWhile (· ≠ 10) = body := by
      rw [List.takeWhile_append, takeWhile_of_no_newline h, if_pos rfl, List.takeWhile_cons_of_neg (by simp),
        List.append_nil]
    unfold lineLength
    simp only [htake, hwhile, List.length_append, List.length_cons]
    rw [if_pos (by omega)]
    omega

theorem lineLength_pos {size : Nat} (hsize : 2 ≤ size) {s : List UInt8} (h : s ≠ []) : 0 < lineLength size s := by
  have hlength := List.length_pos_of_ne_nil h
  rcases fileLines_cases s with rfl | ⟨body, rest, hbody, rfl, -⟩ | ⟨-, hnone, -⟩
  · exact absurd rfl h
  · rw [lineLength_of_newline size hbody, List.length_append, List.length_singleton]
    omega
  · rw [lineLength_of_no_newline size hnone]
    omega

theorem fgetsLines_succ (size turns : Nat) {s : List UInt8} (h : s ≠ []) :
    fgetsLines size (turns + 1) s =
      s.take (lineLength size s) :: fgetsLines size turns (s.drop (lineLength size s)) := by
  cases s with
  | nil => exact absurd rfl h
  | cons b s => rfl

/-- More turns than characters change nothing. -/
theorem fgetsLines_turns {size : Nat} (hsize : 2 ≤ size) (s : List UInt8) (turns : Nat) (h : s.length ≤ turns) :
    fgetsLines size turns s = fgetsLines size s.length s := by
  induction hlen : s.length using Nat.strong_induction_on generalizing s turns with
  | _ k ih =>
    rcases s.eq_nil_or_concat with rfl | ⟨_, _, hs⟩
    · cases turns <;> cases k <;> rfl
    · have hne : s ≠ [] := by
        rw [hs, List.concat_eq_append]
        exact List.append_ne_nil_of_right_ne_nil _ (List.cons_ne_nil _ _)
      have hpos := lineLength_pos hsize hne
      have hlength := List.length_pos_of_ne_nil hne
      obtain ⟨turns, rfl⟩ : ∃ t, turns = t + 1 := ⟨turns - 1, by omega⟩
      obtain ⟨k, rfl⟩ : ∃ j, k = j + 1 := ⟨k - 1, by omega⟩
      have hdrop : (s.drop (lineLength size s)).length ≤ k := by
        rw [List.length_drop]
        omega
      rw [fgetsLines_succ _ _ hne, fgetsLines_succ _ _ hne, ih _ (by omega) _ turns (by omega) rfl,
        ih _ (by omega) _ k hdrop rfl]

/-- The pieces of the first line come first, then those of the rest. -/
theorem fgetsLines_line {size : Nat} (hsize : 2 ≤ size) {body : List UInt8} (h : 10 ∉ body) (rest : List UInt8) :
    fgetsLines size ((body ++ [10]) ++ rest).length ((body ++ [10]) ++ rest) =
      linePieces size (body ++ [10]) ++ fgetsLines size rest.length rest := by
  -- on the length of the line: each call takes at most `size - 1` of it
  induction hlen : body.length using Nat.strong_induction_on generalizing body with
  | _ k ih =>
    have hne : (body ++ [10]) ≠ [] := List.append_ne_nil_of_right_ne_nil _ (List.cons_ne_nil _ _)
    have hne' : (body ++ [10]) ++ rest ≠ [] := List.append_ne_nil_of_left_ne_nil hne _
    have hwhole := lineLength_of_newline size h rest
    have halone := lineLength_of_newline size h []
    rw [List.append_nil] at halone
    have hlength : (body ++ [10]).length = k + 1 := by
      rw [List.length_append, hlen, List.length_singleton]
    unfold linePieces
    rw [hlength] at hwhole halone ⊢
    rw [List.length_append, hlength, Nat.add_right_comm, fgetsLines_succ _ _ hne', fgetsLines_succ _ _ hne,
      hwhole, halone]
    by_cases hfits : k + 1 ≤ size - 1
    · -- the line is one piece
      rw [Nat.min_eq_right hfits, List.take_append_of_le_length hlength.ge, List.drop_append_of_le_length hlength.ge,
        ← hlength, List.take_length, List.drop_length, List.nil_append]
      have hempty : fgetsLines size k [] = [] := by cases k <;> rfl
      rw [hempty, fgetsLines_turns hsize _ _ (by omega)]
      rfl
    · -- a piece of it, and a shorter line is left
      have hcut : size - 1 ≤ body.length := by omega
      have hshort : 10 ∉ body.drop (size - 1) := fun hin => h (List.mem_of_mem_drop hin)
      have hless : (body.drop (size - 1)).length < k := by
        rw [List.length_drop]
        omega
      have hrest := ih _ hless hshort rfl
      unfold linePieces at hrest
      rw [Nat.min_eq_left (by omega), List.append_assoc, List.take_append_of_le_length hcut,
        List.drop_append_of_le_length hcut, List.take_append_of_le_length hcut, List.drop_append_of_le_length hcut,
        ← List.append_assoc, List.cons_append]
      rw [fgetsLines_turns hsize _ _ (by
          simp only [List.length_append, List.length_drop, List.length_singleton]
          omega), hrest, ← fgetsLines_turns hsize (body.drop (size - 1) ++ [10]) k (by
          simp only [List.length_append, List.length_drop, List.length_singleton]
          omega)]

/-- What `fgets` stores of a file are the pieces of its lines. -/
theorem fgetsLines_eq {size : Nat} (hsize : 2 ≤ size) (content : List UInt8) :
    fgetsLines size content.length content = (fileLines content).flatMap (linePieces size) := by
  induction hlen : content.length using Nat.strong_induction_on generalizing content with
  | _ k ih =>
    rw [← hlen]
    rcases fileLines_cases content with rfl | ⟨body, rest, hbody, hcontent, hlines⟩ | ⟨-, -, hlines⟩
    · rfl
    · have hless : rest.length < k := by
        rw [← hlen, hcontent]
        simp only [List.length_append, List.length_singleton]
        omega
      rw [hlines, List.flatMap_cons, hcontent, fgetsLines_line hsize hbody, ih _ hless rest rfl]
    · rw [hlines, List.flatMap_cons, List.flatMap_nil, List.append_nil]
      rfl

end CScan
