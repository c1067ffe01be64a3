import Mathlib.Tactic.Common
import Mathlib.Tactic.Ring
import Mathlib.Data.Nat.Digits.Lemmas
import Mathlib.Data.List.Induction

/-!
# Decimal numerals in ASCII

`numeral n` is the text of `n` without leading zeros, `padded k n` its last `k` digits,
and `value` reads digits back. A reader that takes digits as long as there are some
stops behind them when no other digit follows: `takeWhile_digits`.
-/

namespace Decimal

/-- The character of the digit `d`. -/
def digit (d : Nat) : UInt8 :=
  UInt8.ofNat (48 + d)

def isDigit (b : UInt8) : Bool :=
  48 ≤ b && b ≤ 57

/-- The digits of `n`, the most significant one first. -/
def numeral (n : Nat) : List UInt8 :=
  if n = 0 then [digit 0] else (Nat.digits 10 n).reverse.map digit

/-- The last `k` digits of `n`. -/
def padded : Nat → Nat → List UInt8
  | 0, _ => []
  | k + 1, n => padded k (n / 10) ++ [digit (n % 10)]

/-- The number that a sequence of digits stands for. -/
def value (ds : List UInt8) : Nat :=
  ds.foldl (fun n b => 10 * n + (b.toNat - 48)) 0

/-! ## Digits -/

/-- A digit is its value behind `0`. -/
theorem toNat_digit {d : Nat} (hd : d < 10) : (digit d).toNat = 48 + d := by
  show (48 + d) % 256 = 48 + d
  omega

/-- The digits are the bytes from `0` to `9`. -/
theorem isDigit_iff {b : UInt8} : isDigit b = true ↔ 48 ≤ b.toNat ∧ b.toNat ≤ 57 := by
  simp [isDigit, UInt8.le_iff_toNat_le]

/-- A digit is one. -/
theorem isDigit_digit {d : Nat} (hd : d < 10) : isDigit (digit d) = true := by
  rw [isDigit_iff, toNat_digit hd]
  omega

/-- A numeral has digits only. -/
theorem isDigit_of_mem_numeral {n : Nat} {b : UInt8} (hb : b ∈ numeral n) : isDigit b = true := by
  unfold numeral at hb
  split at hb
  · rw [List.mem_singleton] at hb
    rw [hb]
    exact isDigit_digit (by decide)
  · rw [List.mem_map] at hb
    rcases hb with ⟨d, hd, rfl⟩
    exact isDigit_digit (Nat.digits_lt_base (by decide) (List.mem_reverse.mp hd))

/-- So has a numeral with leading zeros. -/
theorem isDigit_of_mem_padded {k n : Nat} {b : UInt8} (hb : b ∈ padded k n) : isDigit b = true := by
  induction k generalizing n with
  | zero => cases hb
  | succ k ih =>
    rw [padded, List.mem_append, List.mem_singleton] at hb
    rcases hb with hb | rfl
    · exact ih hb
    · exact isDigit_digit (Nat.mod_lt n (by decide))

/-- A numeral with leading zeros has the width asked for. -/
theorem length_padded (k n : Nat) : (padded k n).length = k := by
  induction k generalizing n with
  | zero => rfl
  | succ k ih => rw [padded, List.length_append, ih, List.length_singleton]

/-- A numeral has a digit. -/
theorem numeral_ne_nil (n : Nat) : numeral n ≠ [] := by
  unfold numeral
  split
  · simp
  · rename_i hn
    simpa [Nat.digits_ne_nil_iff_ne_zero] using hn

/-- Zero is one digit. -/
theorem numeral_zero : numeral 0 = [digit 0] := rfl

/-- A number below a power of ten has no more digits than that. -/
theorem length_numeral_le {n k : Nat} (hk : 0 < k) (h : n < 10 ^ k) : (numeral n).length ≤ k := by
  unfold numeral
  split
  · exact hk
  · rw [List.length_map, List.length_reverse]
    exact (Nat.digits_length_le_iff (by decide) n).mpr h

/-- Only the numeral of zero begins with a zero. -/
theorem head_numeral {n : Nat} {t : List UInt8} (h : numeral n = digit 0 :: t) : n = 0 := by
  by_contra hn
  unfold numeral at h
  rw [if_neg hn] at h
  have hne : Nat.digits 10 n ≠ [] := Nat.digits_ne_nil_iff_ne_zero.mpr hn
  have hlast := Nat.getLast_digit_ne_zero 10 hn
  have hlt : (Nat.digits 10 n).getLast hne < 10 :=
    Nat.digits_lt_base (by decide) (List.getLast_mem hne)
  have hhead : ((Nat.digits 10 n).reverse.map digit).head? =
      some (digit ((Nat.digits 10 n).getLast hne)) := by
    rw [List.head?_map, List.head?_reverse, List.getLast?_eq_getLast_of_ne_nil hne]
    rfl
  rw [h, List.head?_cons, Option.some.injEq] at hhead
  have hnat := congrArg UInt8.toNat hhead
  rw [toNat_digit (by decide), toNat_digit hlt] at hnat
  omega

/-! ## The value of digits -/

/-- A digit more multiplies by ten. -/
theorem value_snoc (ds : List UInt8) (b : UInt8) : value (ds ++ [b]) = 10 * value ds + (b.toNat - 48) := by
  simp [value]

/-- Digits in front are multiplied by a power of ten. -/
theorem value_append (as bs : List UInt8) : value (as ++ bs) = value as * 10 ^ bs.length + value bs := by
  induction bs using List.reverseRecOn with
  | nil => simp [value]
  | append_singleton bs b ih =>
    rw [← List.append_assoc, value_snoc, ih, value_snoc, List.length_append, List.length_singleton,
      pow_succ]
    ring

/-- The digits of a number have its value. -/
theorem value_digits (ds : List Nat) (hds : ∀ d ∈ ds, d < 10) :
    value (ds.reverse.map digit) = Nat.ofDigits 10 ds := by
  induction ds with
  | nil => rfl
  | cons d ds ih =>
    rw [List.reverse_cons, List.map_append, List.map_singleton, value_snoc,
      ih fun e he => hds e (List.mem_cons_of_mem d he), toNat_digit (hds d List.mem_cons_self),
      Nat.ofDigits_cons]
    omega

/-- Reading a numeral gives the number back. -/
theorem value_numeral (n : Nat) : value (numeral n) = n := by
  unfold numeral
  split
  · rename_i hn
    rw [hn]
    rfl
  · rw [value_digits _ fun d hd => Nat.digits_lt_base (by decide) hd, Nat.ofDigits_digits]

/-- The last digits of a number have its value modulo a power of ten. -/
theorem value_padded (k n : Nat) : value (padded k n) = n % 10 ^ k := by
  induction k generalizing n with
  | zero => simp [padded, value, Nat.mod_one]
  | succ k ih =>
    rw [padded, value_snoc, ih, toNat_digit (Nat.mod_lt n (by decide)), pow_succ, Nat.mul_comm,
      Nat.mul_comm (10 ^ k) 10, Nat.mod_mul]
    omega

/-! ## Reading digits from a text -/

/-- The text does not begin with a digit. -/
def NoDigit (s : List UInt8) : Prop :=
  ∀ b ∈ s.head?, isDigit b = false

/-- Digits are taken as long as there are any. -/
theorem takeWhile_digits {ds s : List UInt8} (hds : ∀ b ∈ ds, isDigit b = true) (hs : NoDigit s) :
    (ds ++ s).takeWhile isDigit = ds := by
  rw [List.takeWhile_append_of_pos hds]
  cases s with
  | nil => simp
  | cons b s => simp [hs b rfl]

end Decimal
