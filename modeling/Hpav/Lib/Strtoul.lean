import Mathlib.Tactic.Common
import Hpav.Lib.HexText

/-!
# strtoul

`strtoul` with base 10, and the texts it takes to their end: blanks, a sign and digits, or
nothing at all. The empty text has no number, but `endptr` is at its end all the same.
-/

namespace CScan

open Decimal CNumeral

/-- `strtoul(s, &endptr, 10)`: the value, and the text at `endptr`. -/
def strtoul (s : List UInt8) : Nat × List UInt8 :=
  let (negative, _, body) := takeSign (s.dropWhile isSpace)
  let ds := body.takeWhile isDigit
  if ds = [] then (0, s) else (toUnsignedLong negative (value ds), body.drop ds.length)

/-- The texts of which `strtoul` leaves nothing, and their values. -/
inductive UnsignedText : List UInt8 → Nat → Prop where
  | empty : UnsignedText [] 0
  | number {blanks sign ds : List UInt8} (hblanks : ∀ b ∈ blanks, isSpace b = true) (hsign : Sign sign)
      (hne : ds ≠ []) (hdigits : ∀ b ∈ ds, isDigit b = true) :
      UnsignedText (blanks ++ (sign ++ ds)) (toUnsignedLong (decide (sign = [45])) (value ds))

/-- Digits and nothing else: a decimal numeral, and its value. -/
structure Numeral (s : List UInt8) (n : Nat) : Prop where
  ne_nil : s ≠ []
  digits : ∀ b ∈ s, isDigit b = true
  value_eq : value s = n

theorem takeWhile_all_digits {ds : List UInt8} (h : ∀ b ∈ ds, isDigit b = true) : ds.takeWhile isDigit = ds := by
  rw [List.takeWhile_eq_self_iff]
  exact h

theorem not_space_of_isDigit {b : UInt8} (h : isDigit b = true) : isSpace b = false ∧ b ≠ 45 ∧ b ≠ 43 := by
  have hhex : isHexDigit b = true := by
    unfold isHexDigit
    rw [h]
    rfl
  obtain ⟨hspace, hminus, hplus, -⟩ := not_special_of_isHexDigit hhex
  exact ⟨hspace, hminus, hplus⟩

/-- `takeSign` on a sign in front of digits. -/
theorem takeSign_sign {sign ds : List UInt8} (hsign : Sign sign) (hne : ds ≠ [])
    (hdigits : ∀ b ∈ ds, isDigit b = true) :
    takeSign (sign ++ ds) = (decide (sign = [45]), sign.length, ds) := by
  rcases hsign with rfl | rfl | rfl
  · cases ds with
    | nil => exact absurd rfl hne
    | cons b ds =>
      obtain ⟨-, hminus, hplus⟩ := not_space_of_isDigit (hdigits b List.mem_cons_self)
      exact (if_neg hminus).trans (if_neg hplus)
  · rfl
  · rfl

theorem dropWhile_blanks {blanks sign ds : List UInt8} (hblanks : ∀ b ∈ blanks, isSpace b = true) (hsign : Sign sign)
    (hne : ds ≠ []) (hdigits : ∀ b ∈ ds, isDigit b = true) :
    (blanks ++ (sign ++ ds)).dropWhile isSpace = sign ++ ds := by
  rw [List.dropWhile_append_of_pos hblanks]
  rcases hsign with rfl | rfl | rfl
  · cases ds with
    | nil => exact absurd rfl hne
    | cons b ds =>
      obtain ⟨hspace, -, -⟩ := not_space_of_isDigit (hdigits b List.mem_cons_self)
      rw [List.nil_append, List.dropWhile_cons_of_neg (by rw [hspace]; decide)]
  · rfl
  · rfl

/-- `strtoul` comes to the end of exactly these texts. -/
theorem strtoul_iff {s : List UInt8} {v : Nat} : strtoul s = (v, []) ↔ UnsignedText s v := by
  constructor
  · intro h
    obtain ⟨sign, body, hsign, hbody, negative, htakeSign⟩ := takeSign_cases (s.dropWhile isSpace)
    unfold strtoul at h
    simp only [htakeSign] at h
    split at h
    · injection h with hv hs
      rw [← hv, hs]
      exact .empty
    next hne =>
      injection h with hv hend
      have hsplit := List.takeWhile_append_dropWhile (p := isDigit) (l := body)
      have hall : body.takeWhile isDigit = body := by
        have hdrop : body.drop (body.takeWhile isDigit).length = body.dropWhile isDigit := by
          conv_lhs => rw [← hsplit]
          exact List.drop_left' (by rw [hsplit])
        rw [hdrop] at hend
        rw [hend, List.append_nil] at hsplit
        exact hsplit
      have hdigits : ∀ b ∈ body, isDigit b = true := by
        intro b hb
        rw [← hall] at hb
        exact List.mem_takeWhile_imp hb
      rw [hall] at hne hv
      have hnegative : negative = decide (sign = [45]) := by
        rw [hbody, takeSign_sign hsign hne hdigits] at htakeSign
        exact (congrArg Prod.fst htakeSign).symm
      have hs : s = s.takeWhile isSpace ++ (sign ++ body) := by
        rw [← hbody, List.takeWhile_append_dropWhile]
      rw [hs, ← hv, hnegative]
      refine .number ?_ hsign hne hdigits
      intro b hb
      exact List.mem_takeWhile_imp hb
  · intro h
    cases h with
    | empty => rfl
    | number hblanks hsign hne hdigits =>
      unfold strtoul
      simp only [dropWhile_blanks hblanks hsign hne hdigits, takeSign_sign hsign hne hdigits,
        takeWhile_all_digits hdigits, if_neg hne, List.drop_length]

/-- A numeral is one of them. What is too large for an `unsigned long` becomes the largest one. -/
theorem Numeral.unsignedText {s : List UInt8} {n : Nat} (h : Numeral s n) :
    UnsignedText s (min n (2 ^ 64 - 1)) := by
  have htext := @UnsignedText.number [] [] s (by simp) (Or.inl rfl) h.ne_nil h.digits
  have hvalue : toUnsignedLong (decide (([] : List UInt8) = [45])) (value s) = min n (2 ^ 64 - 1) := by
    rw [h.value_eq]
    unfold toUnsignedLong
    by_cases hlarge : 2 ^ 64 ≤ n
    · rw [if_pos hlarge]
      omega
    · rw [if_neg hlarge, if_neg (by decide)]
      omega
  rw [hvalue] at htext
  exact htext

end CScan
