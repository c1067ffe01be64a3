import Mathlib.Tactic.Common
import Hpav.Lib.CScan

/-!
# What the hexadecimal conversions accept

`%x` takes more than digits: it skips blanks, it takes a sign and the mark of the base, and it
takes digits as long as there are any. `HexNumber` is this language as a grammar, `LooseColonHex`
the texts from which `%x:%x:...` fills all its variables (`scanColonHex_iff`). Texts of digits
only, two for each byte, are read by `%2x%2x...` as they stand (`HexPairs.scanHexPairs_eq`).
-/

namespace CScan

open Decimal CNumeral

/-! ## One number -/

/-- A sign, or none. -/
def Sign (sign : List UInt8) : Prop :=
  sign = [] ∨ sign = [45] ∨ sign = [43]

/-- `0x`, `0X`, or nothing. -/
def BaseMark (mark : List UInt8) : Prop :=
  mark = [] ∨ mark = [48, 120] ∨ mark = [48, 88]

/-- A text that begins with a number as `%x` takes it, and what is behind the number. -/
inductive HexNumber : List UInt8 → List UInt8 → Prop where
  | mk {blanks sign mark ds rest : List UInt8} (hblanks : ∀ b ∈ blanks, isSpace b = true) (hsign : Sign sign)
      (hmark : BaseMark mark) (hne : ds ≠ []) (hdigits : ∀ b ∈ ds, isHexDigit b = true)
      (hend : ∀ b ∈ rest.head?, isHexDigit b = false)
      (hplain : mark = [] → startsWith [48, 120] (ds ++ rest) = false) :
      HexNumber (blanks ++ (sign ++ (mark ++ (ds ++ rest)))) rest

theorem takeWhile_digits {ds rest : List UInt8} (hdigits : ∀ b ∈ ds, isHexDigit b = true)
    (hend : ∀ b ∈ rest.head?, isHexDigit b = false) : (ds ++ rest).takeWhile isHexDigit = ds := by
  rw [List.takeWhile_append_of_pos hdigits]
  cases rest with
  | nil => exact List.append_nil _
  | cons b rest =>
    have hb := hend b rfl
    rw [List.takeWhile_cons_of_neg (by rw [hb]; decide), List.append_nil]

/-- In front of the digits stands no blank and no sign. -/
theorem head_of_marked {mark ds rest : List UInt8} (hmark : BaseMark mark) (hne : ds ≠ [])
    (hdigits : ∀ b ∈ ds, isHexDigit b = true) :
    ∃ a s, mark ++ (ds ++ rest) = a :: s ∧ isSpace a = false ∧ a ≠ 45 ∧ a ≠ 43 := by
  rcases hmark with rfl | rfl | rfl
  · cases ds with
    | nil => exact absurd rfl hne
    | cons a ds =>
      obtain ⟨hspace, hminus, hplus, -⟩ := not_special_of_isHexDigit (hdigits a List.mem_cons_self)
      exact ⟨a, ds ++ rest, rfl, hspace, hminus, hplus⟩
  · exact ⟨48, 120 :: (ds ++ rest), rfl, by decide, by decide, by decide⟩
  · exact ⟨48, 88 :: (ds ++ rest), rfl, by decide, by decide, by decide⟩

/-- `%x` takes a number up to its last digit. -/
theorem HexNumber.scanHex {s rest : List UInt8} (h : HexNumber s rest) :
    ∃ v, CScan.scanHex none s = some (v, rest) := by
  obtain ⟨hblanks, hsign, hmark, hne, hdigits, hend, hplain⟩ := h
  rename_i blanks sign mark ds
  obtain ⟨a, t, hhead, hspace, hminus, hplus⟩ := @head_of_marked _ _ rest hmark hne hdigits
  have htake := takeWhile_digits hdigits hend
  -- the blanks go, and the sign is told from what follows
  have hskip : (blanks ++ (sign ++ (mark ++ (ds ++ rest)))).dropWhile isSpace = sign ++ (mark ++ (ds ++ rest)) := by
    rw [List.dropWhile_append_of_pos hblanks]
    rcases hsign with rfl | rfl | rfl
    · rw [List.nil_append, hhead, List.dropWhile_cons_of_neg (by rw [hspace]; decide)]
    · rfl
    · rfl
  have htakeSign : ∃ negative, takeSign (sign ++ (mark ++ (ds ++ rest))) =
      (negative, sign.length, mark ++ (ds ++ rest)) := by
    rcases hsign with rfl | rfl | rfl
    · refine ⟨false, ?_⟩
      rw [List.nil_append, hhead]
      exact (if_neg hminus).trans (if_neg hplus)
    · exact ⟨true, rfl⟩
    · exact ⟨false, rfl⟩
  have hmarked : (if startsWith [48, 120] (mark ++ (ds ++ rest)) then 2 else 0) = mark.length := by
    rcases hmark with rfl | rfl | rfl
    · rw [List.nil_append, hplain rfl]
      rfl
    · rfl
    · rfl
  obtain ⟨negative, htakeSign⟩ := htakeSign
  refine ⟨toUnsignedLong negative (hexValue ds), ?_⟩
  have hdrop : (sign ++ (mark ++ (ds ++ rest))).drop (sign.length + mark.length + ds.length) = rest := by
    rw [← List.append_assoc, ← List.append_assoc]
    exact List.drop_left' (by simp only [List.length_append])
  unfold CScan.scanHex field
  simp only [hskip, htakeSign, hmarked, List.drop_left, htake, if_neg hne, hdrop]

/-! ## The parts of a text -/

theorem takeSign_cases (s : List UInt8) : ∃ sign body, Sign sign ∧ s = sign ++ body ∧
    ∃ negative, takeSign s = (negative, sign.length, body) := by
  cases s with
  | nil => exact ⟨[], [], Or.inl rfl, rfl, false, rfl⟩
  | cons b s =>
    by_cases hminus : b = 45
    · refine ⟨[45], s, Or.inr (Or.inl rfl), ?_, true, if_pos hminus⟩
      rw [hminus]
      rfl
    · by_cases hplus : b = 43
      · refine ⟨[43], s, Or.inr (Or.inr rfl), ?_, false, (if_neg hminus).trans (if_pos hplus)⟩
        rw [hplus]
        rfl
      · exact ⟨[], b :: s, Or.inl rfl, rfl, false, (if_neg hminus).trans (if_neg hplus)⟩

theorem toLower_eq_zero {b : UInt8} (h : toLower b = 48) : b = 48 := by
  have h := congrArg UInt8.toNat h
  rw [toNat_toLower] at h
  have h : (if 65 ≤ b.toNat ∧ b.toNat ≤ 90 then b.toNat + 32 else b.toNat) = 48 := h
  apply UInt8.toNat.inj
  show b.toNat = 48
  split at h <;> omega

theorem toLower_eq_x {b : UInt8} (h : toLower b = 120) : b = 120 ∨ b = 88 := by
  have h := congrArg UInt8.toNat h
  rw [toNat_toLower] at h
  have h : (if 65 ≤ b.toNat ∧ b.toNat ≤ 90 then b.toNat + 32 else b.toNat) = 120 := h
  split at h
  · refine Or.inr (UInt8.toNat.inj ?_)
    show b.toNat = 88
    omega
  · exact Or.inl (UInt8.toNat.inj h)

theorem mark_of_startsWith {s : List UInt8} (h : startsWith [48, 120] s = true) :
    ∃ mark tail, BaseMark mark ∧ mark.length = 2 ∧ s = mark ++ tail := by
  unfold startsWith at h
  rw [decide_eq_true_iff] at h
  match s, h with
  | [], h => exact absurd (congrArg List.length h) (by decide)
  | [_], h => exact absurd (congrArg List.length h) (by simp)
  | b :: x :: tail, h =>
    simp only [List.length_cons, List.length_nil, List.take_succ_cons, List.take_zero, List.map_cons, List.map_nil,
      List.cons.injEq, and_true] at h
    obtain rfl := toLower_eq_zero h.1
    rcases toLower_eq_x h.2 with rfl | rfl
    · exact ⟨[48, 120], tail, Or.inr (Or.inl rfl), rfl, rfl⟩
    · exact ⟨[48, 88], tail, Or.inr (Or.inr rfl), rfl, rfl⟩

/-- The mark is taken wherever it stands. -/
theorem mark_cases (s : List UInt8) : ∃ mark tail, BaseMark mark ∧ s = mark ++ tail ∧
    (if startsWith [48, 120] s then 2 else 0) = mark.length ∧ (mark = [] → startsWith [48, 120] tail = false) := by
  by_cases hstarts : startsWith [48, 120] s = true
  · obtain ⟨mark, tail, hmark, hlength, rfl⟩ := mark_of_startsWith hstarts
    refine ⟨mark, tail, hmark, rfl, ?_, ?_⟩
    · rw [if_pos hstarts, hlength]
    · rintro rfl
      cases hlength
  · refine ⟨[], s, Or.inl rfl, rfl, if_neg hstarts, ?_⟩
    intro _
    exact Bool.not_eq_true _ ▸ hstarts

/-- What `%x` takes is a number. -/
theorem hexNumber_of_scanHex {s rest : List UInt8} {v : Nat} (h : scanHex none s = some (v, rest)) :
    HexNumber s rest := by
  obtain ⟨sign, body, hsign, hbody, negative, htakeSign⟩ := takeSign_cases (s.dropWhile isSpace)
  obtain ⟨mark, tail, hmark, rfl, hlength, hplain⟩ := mark_cases body
  unfold scanHex field at h
  simp only [htakeSign, hlength, List.drop_left] at h
  split at h
  · cases h
  next hne =>
    injection h with h
    injection h with _ hrest
    have htail := List.takeWhile_append_dropWhile (p := isHexDigit) (l := tail)
    have hdigits : ∀ b ∈ tail.takeWhile isHexDigit, isHexDigit b = true := by
      intro b hb
      exact List.mem_takeWhile_imp hb
    -- behind the digits is what the conversion leaves
    have hbehind : tail.dropWhile isHexDigit = rest := by
      have hcut : s.dropWhile isSpace =
          ((sign ++ mark) ++ tail.takeWhile isHexDigit) ++ tail.dropWhile isHexDigit := by
        rw [List.append_assoc, htail, List.append_assoc, hbody]
      rw [← hrest, hcut]
      exact (List.drop_left' (by simp only [List.length_append])).symm
    have hend : ∀ b ∈ rest.head?, isHexDigit b = false := by
      intro b hb
      rw [← hbehind] at hb
      have := List.head?_dropWhile_not isHexDigit tail
      rw [Option.mem_def.mp hb] at this
      simpa using this
    have hs : s = s.takeWhile isSpace ++ (sign ++ (mark ++ (tail.takeWhile isHexDigit ++ rest))) := by
      rw [← hbehind, htail, ← hbody, List.takeWhile_append_dropWhile]
    rw [hs]
    refine .mk ?_ hsign hmark hne hdigits hend ?_
    · intro b hb
      exact List.mem_takeWhile_imp hb
    · rw [← hbehind, htail]
      exact hplain

theorem not_hexNumber {s rest : List UInt8} (h : scanHex none s = none) : ¬ HexNumber s rest := by
  intro hnumber
  obtain ⟨v, hv⟩ := hnumber.scanHex
  rw [h] at hv
  cases hv

/-- What is left behind a number is what the scan leaves. -/
theorem rest_of_scanHex {s rest rest' : List UInt8} {v : Nat} (h : HexNumber s rest)
    (hscan : scanHex none s = some (v, rest')) : rest' = rest := by
  obtain ⟨v', hv'⟩ := h.scanHex
  rw [hscan] at hv'
  injection hv' with hv'
  injection hv'

/-! ## Numbers with colons -/

/-- Numbers with colons right behind them, and anything behind the last one. -/
inductive LooseColonHex : Nat → List UInt8 → Prop where
  | last {s rest : List UInt8} (h : HexNumber s rest) : LooseColonHex 1 s
  | more {s t : List UInt8} {n : Nat} (h : HexNumber s (58 :: t)) (ht : LooseColonHex n t) : LooseColonHex (n + 1) s

theorem scanColonHex_none {s : List UInt8} (h : scanHex none s = none) (n : Nat) : scanColonHex none n s = [] := by
  cases n with
  | zero => rfl
  | succ n => simp only [scanColonHex, h]

theorem scanColonHex_last {s rest : List UInt8} {v : Nat} (h : scanHex none s = some (v, rest))
    (hrest : rest.head? ≠ some 58) (n : Nat) : scanColonHex none (n + 1) s = [UInt8.ofNat v] := by
  cases rest with
  | nil => simp only [scanColonHex, h]
  | cons b t =>
    have hb : b ≠ 58 := by simpa using hrest
    simp only [scanColonHex, h, if_neg hb]

theorem scanColonHex_more {s t : List UInt8} {v : Nat} (h : scanHex none s = some (v, 58 :: t)) (n : Nat) :
    scanColonHex none (n + 1) s = UInt8.ofNat v :: scanColonHex none n t := by
  simp only [scanColonHex, h, if_true]

/-- All the variables are filled exactly from the texts of the grammar. -/
theorem scanColonHex_iff {n : Nat} (hn : 0 < n) {s : List UInt8} :
    (scanColonHex none n s).length = n ↔ LooseColonHex n s := by
  -- on the conversions that are left: the last one does not look at what follows
  induction n generalizing s with
  | zero => exact absurd hn (by decide)
  | succ n ih =>
    cases hscan : scanHex none s with
    | none =>
      rw [scanColonHex_none hscan]
      refine iff_of_false (by simp) ?_
      intro h
      cases h with
      | last h => exact not_hexNumber hscan h
      | more h _ => exact not_hexNumber hscan h
    | some taken =>
      obtain ⟨v, rest⟩ := taken
      have hnumber := hexNumber_of_scanHex hscan
      by_cases hcolon : rest.head? = some 58
      · obtain ⟨t, rfl⟩ : ∃ t, rest = 58 :: t := List.head?_eq_some_iff.mp hcolon
        rw [scanColonHex_more hscan, List.length_cons, Nat.add_right_cancel_iff]
        cases n with
        | zero => exact iff_of_true rfl (.last hnumber)
        | succ n =>
          rw [ih (Nat.succ_pos n)]
          constructor
          · intro ht
            exact .more hnumber ht
          · intro h
            cases h with
            | more h ht =>
              have hrest := List.tail_eq_of_cons_eq (rest_of_scanHex h hscan)
              rwa [hrest]
      · rw [scanColonHex_last hscan hcolon, List.length_singleton]
        cases n with
        | zero => exact iff_of_true rfl (.last hnumber)
        | succ n =>
          refine iff_of_false (by omega) ?_
          intro h
          cases h with
          | more h _ =>
            rw [rest_of_scanHex h hscan] at hcolon
            exact hcolon rfl

/-- Nothing else stands in them. -/
theorem ColonHex.mem {s bytes : List UInt8} (h : ColonHex s bytes) : ∀ b ∈ s, isHexDigit b = true ∨ b = 58 := by
  induction h with
  | last hds =>
    intro b hb
    exact Or.inl (hds.digits b hb)
  | more hds _ ih =>
    intro b hb
    rcases List.mem_append.mp hb with hb | hb
    · exact Or.inl (hds.digits b hb)
    · rcases List.mem_cons.mp hb with rfl | hb
      · exact Or.inr rfl
      · exact ih b hb

/-! ## Printed bytes -/

section

variable {digit : Nat → UInt8}

/-- A byte in two digits. -/
def byteText (digit : Nat → UInt8) (b : UInt8) : List UInt8 :=
  [digit (b.toNat / 16), digit (b.toNat % 16)]

/-- The bytes in their order, with colons between them. -/
def colonText (digit : Nat → UInt8) (bytes : List UInt8) : List UInt8 :=
  ((bytes.map (byteText digit)).intersperse [58]).flatten

theorem colonText_cons_cons (a b : UInt8) (bytes : List UInt8) :
    colonText digit (a :: b :: bytes) = byteText digit a ++ 58 :: colonText digit (b :: bytes) := rfl

/-- The two digits of a byte say which one it is. -/
theorem hexByte_byteText (hdigit : ∀ n < 16, isHexDigit (digit n) = true ∧ hexDigitValue (digit n) = n) (b : UInt8) :
    HexByte (byteText digit b) ∧ UInt8.ofNat (hexValue (byteText digit b)) = b := by
  have hb := b.toNat_lt
  obtain ⟨hhigh, hhighValue⟩ := hdigit (b.toNat / 16) (by omega)
  obtain ⟨hlow, hlowValue⟩ := hdigit (b.toNat % 16) (by omega)
  constructor
  · refine ⟨Or.inr rfl, ?_⟩
    intro d hd
    rcases List.mem_cons.mp hd with rfl | hd
    · exact hhigh
    · rw [List.mem_singleton.mp hd]
      exact hlow
  · have hvalue : hexValue (byteText digit b) = b.toNat := by
      show 16 * (16 * 0 + hexDigitValue _) + hexDigitValue _ = _
      rw [hhighValue, hlowValue]
      omega
    rw [hvalue, UInt8.ofNat_toNat]

/-- What is printed is in the format that is read. -/
theorem colonHex_colonText (hdigit : ∀ n < 16, isHexDigit (digit n) = true ∧ hexDigitValue (digit n) = n)
    {bytes : List UInt8} (h : bytes ≠ []) : ColonHex (colonText digit bytes) bytes := by
  induction bytes with
  | nil => exact absurd rfl h
  | cons a bytes ih =>
    obtain ⟨hbyte, hvalue⟩ := hexByte_byteText hdigit a
    cases bytes with
    | nil =>
      have hlast := ColonHex.last hbyte
      rw [hvalue] at hlast
      exact hlast
    | cons b bytes =>
      have hmore := ColonHex.more hbyte (ih (List.cons_ne_nil b bytes))
      rw [hvalue] at hmore
      rw [colonText_cons_cons]
      exact hmore

end

/-! ## Two digits for a byte -/

/-- Hexadecimal digits, and the bytes of which two of them are one. -/
inductive HexPairs : List UInt8 → List UInt8 → Prop where
  | nil : HexPairs [] []
  | cons {a b : UInt8} {s bytes : List UInt8} (ha : isHexDigit a = true) (hb : isHexDigit b = true)
      (hs : HexPairs s bytes) :
      HexPairs (a :: b :: s) (UInt8.ofNat (16 * hexDigitValue a + hexDigitValue b) :: bytes)

theorem scanHex_pair {a b : UInt8} (ha : isHexDigit a = true) (hb : isHexDigit b = true) (s : List UInt8) :
    scanHex (some 2) (a :: b :: s) = some (16 * hexDigitValue a + hexDigitValue b, s) := by
  have hbyte : HexByte [a, b] := by
    refine ⟨Or.inr rfl, ?_⟩
    intro c hc
    rcases List.mem_cons.mp hc with rfl | hc
    · exact ha
    · rw [List.mem_singleton.mp hc]
      exact hb
  have hvalue : hexValue [a, b] = 16 * hexDigitValue a + hexDigitValue b := by
    show 16 * (16 * 0 + hexDigitValue a) + hexDigitValue b = _
    omega
  rw [← hvalue]
  exact @scanHex_field (some 2) [a, b] s [] hbyte rfl (Or.inl rfl)

/-- The conversions read two digits each. -/
theorem HexPairs.scanHexPairs_eq {s bytes : List UInt8} (h : HexPairs s bytes) :
    scanHexPairs bytes.length s = bytes := by
  induction h with
  | nil => rfl
  | @cons a b s bytes ha hb hs ih =>
    show scanHexPairs (bytes.length + 1) (a :: b :: s) = _
    unfold scanHexPairs
    rw [scanHex_pair ha hb]
    simp only [ih]

/-- Two digits for each byte are in the format that is read. -/
theorem hexPairs_byteText {digit : Nat → UInt8}
    (hdigit : ∀ n < 16, isHexDigit (digit n) = true ∧ hexDigitValue (digit n) = n) (bytes : List UInt8) :
    HexPairs (bytes.flatMap (byteText digit)) bytes := by
  induction bytes with
  | nil => exact HexPairs.nil
  | cons b bytes ih =>
    have hb := b.toNat_lt
    obtain ⟨hhigh, hhighValue⟩ := hdigit (b.toNat / 16) (by omega)
    obtain ⟨hlow, hlowValue⟩ := hdigit (b.toNat % 16) (by omega)
    have hpair := HexPairs.cons hhigh hlow ih
    have hvalue : 16 * (b.toNat / 16) + b.toNat % 16 = b.toNat := by omega
    rw [hhighValue, hlowValue, hvalue, UInt8.ofNat_toNat] at hpair
    exact hpair

/-- All of it are digits. -/
theorem HexPairs.mem {s bytes : List UInt8} (h : HexPairs s bytes) : ∀ b ∈ s, isHexDigit b = true := by
  induction h with
  | nil =>
    intro b hb
    cases hb
  | cons ha hb _ ih =>
    intro d hd
    rcases List.mem_cons.mp hd with rfl | hd
    · exact ha
    · rcases List.mem_cons.mp hd with rfl | hd
      · exact hb
      · exact ih d hd

end CScan
