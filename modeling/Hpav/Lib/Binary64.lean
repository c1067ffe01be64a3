import Mathlib.Tactic.Common
import Mathlib.Tactic.Ring
import Mathlib.Tactic.Positivity

/-!
# Double precision numbers

A finite double is a whole number of units of `2 ^ (-1074)` with at most 53 significant
bits, below `2 ^ 1024`. `ofRatio` is the double next to a fraction, ties to even; what is
representable is its own rounding (`ofRatio_exact`), so whole numbers that a double holds
come back from any exact notation of them.
-/

namespace Binary64

/-- The distance of neighbouring doubles at a magnitude of `n` units. -/
def ulp (n : Nat) : Nat :=
  2 ^ (n.log2 - 52)

def Representable (n : Nat) : Prop :=
  n < 2 ^ 2098 ∧ ulp n ∣ n

instance (n : Nat) : Decidable (Representable n) :=
  inferInstanceAs (Decidable (_ ∧ _))

/-- A double; the two zeros are one. -/
inductive Double where
  | finite (units : Int) (representable : Representable units.natAbs)
  | infinite (negative : Bool)
  | nan (negative : Bool)
  deriving DecidableEq

/-- The units of one. -/
def one : Nat :=
  2 ^ 1074

/-- One is 2^1074 units. -/
theorem one_eq : one = 2 ^ 1074 := rfl

/-- A power of two is one shifted. -/
theorem two_pow_mul_one (k : Nat) : 2 ^ k * one = 2 ^ (k + 1074) := by
  rw [one_eq, Nat.pow_add]

/-- A double is less than two to the 1024th. -/
theorem lt_of_representable {n : Nat} (h : Representable n) : n < 2 ^ 1024 * one := by
  obtain ⟨hlt, -⟩ := h
  have hexponent : 1024 + 1074 = 2098 := rfl
  rw [two_pow_mul_one, hexponent]
  exact hlt

/-- Larger powers of two are whole numbers. -/
theorem one_dvd_two_pow {k : Nat} (hk : 1074 ≤ k) : one ∣ 2 ^ k := by
  rw [one_eq]
  exact Nat.pow_dvd_pow 2 hk

/-- One is positive. -/
theorem one_pos : 0 < one := by
  rw [one_eq]
  positivity

/-- The whole number next to `a / b`, ties to even. -/
def roundHalfEven (a b : Nat) : Nat :=
  if 2 * (a % b) < b then a / b
  else if b < 2 * (a % b) then a / b + 1
  else if a / b % 2 = 0 then a / b
  else a / b + 1

/-- The magnitude next to `a / b` units. -/
def roundUnits (a b : Nat) : Nat :=
  roundHalfEven a (b * ulp (a / b)) * ulp (a / b)

/-- Rounding adds at most one to the quotient. -/
theorem roundHalfEven_le (a b : Nat) : roundHalfEven a b ≤ a / b + 1 := by
  unfold roundHalfEven
  split <;> [skip; (split <;> [skip; split])] <;> omega

/-- A quotient without a remainder is not rounded. -/
theorem roundHalfEven_exact {b : Nat} (hb : 0 < b) (k : Nat) : roundHalfEven (k * b) b = k := by
  unfold roundHalfEven
  rw [Nat.mul_mod_left, Nat.mul_div_cancel k hb, if_pos (by omega)]

/-- At most 53 bits, shifted: a multiple of its own distance. -/
theorem ulp_dvd {k : Nat} (hk : k ≤ 2 ^ 53) (e : Nat) : ulp (k * 2 ^ e) ∣ k * 2 ^ e := by
  rcases Nat.eq_zero_or_pos k with rfl | hpos
  · rw [Nat.zero_mul]
    exact Nat.dvd_zero _
  · rcases Nat.lt_or_eq_of_le hk with hlt | rfl
    · have hne : k * 2 ^ e ≠ 0 := Nat.mul_ne_zero hpos.ne' (Nat.two_pow_pos e).ne'
      have hlog : (k * 2 ^ e).log2 < 53 + e := by
        rw [Nat.log2_lt hne, Nat.pow_add]
        exact Nat.mul_lt_mul_of_pos_right hlt (Nat.two_pow_pos e)
      exact Dvd.dvd.mul_left (Nat.pow_dvd_pow 2 (by omega)) k
    · rw [← Nat.pow_add, ulp, Nat.log2_two_pow]
      exact Nat.pow_dvd_pow 2 (by omega)

/-- A rounded number is a multiple of its last place. -/
theorem ulp_dvd_roundUnits (a b : Nat) : ulp (roundUnits a b) ∣ roundUnits a b := by
  unfold roundUnits
  refine ulp_dvd ?_ _
  have hq : a / b < 2 ^ 53 * 2 ^ ((a / b).log2 - 52) := by
    rw [← Nat.pow_add]
    calc a / b < 2 ^ ((a / b).log2 + 1) := Nat.lt_log2_self
      _ ≤ 2 ^ (53 + ((a / b).log2 - 52)) := Nat.pow_le_pow_right (by decide) (by omega)
  have hk : a / (b * ulp (a / b)) < 2 ^ 53 := by
    rw [← Nat.div_div_eq_div_mul]
    exact (Nat.div_lt_iff_lt_mul (Nat.two_pow_pos _)).mpr hq
  exact le_trans (roundHalfEven_le _ _) hk

/-- What can be represented is rounded to itself. -/
theorem roundUnits_exact {n b : Nat} (hb : 0 < b) (hn : ulp n ∣ n) : roundUnits (n * b) b = n := by
  unfold roundUnits
  rw [Nat.mul_div_cancel n hb]
  rcases hn with ⟨k, hk⟩
  have hsplit : n * b = k * (b * ulp n) := by
    calc n * b = ulp n * k * b := by rw [← hk]
      _ = k * (b * ulp n) := by ring
  have hpos : 0 < b * ulp n := Nat.mul_pos hb (Nat.two_pow_pos _)
  rw [hsplit, roundHalfEven_exact hpos, Nat.mul_comm, ← hk]

/-- Rounding is not below the quotient. -/
theorem le_roundHalfEven (a b : Nat) : a / b ≤ roundHalfEven a b := by
  unfold roundHalfEven
  split
  · exact le_rfl
  · split
    · exact Nat.le_succ _
    · split
      · exact le_rfl
      · exact Nat.le_succ _

/-- Rounding does not go below a power of two. -/
theorem le_roundUnits {a b k : Nat} (h : 2 ^ k ≤ a / b) : 2 ^ k ≤ roundUnits a b := by
  have hne : a / b ≠ 0 := by
    have hpos := Nat.two_pow_pos k
    omega
  have hk : k ≤ (a / b).log2 := (Nat.le_log2 hne).mpr h
  have hlog : 2 ^ (a / b).log2 ≤ a / b := Nat.log2_self_le hne
  have hdvd : ulp (a / b) ∣ 2 ^ (a / b).log2 := Nat.pow_dvd_pow 2 (Nat.sub_le _ _)
  calc 2 ^ k ≤ 2 ^ (a / b).log2 := Nat.pow_le_pow_right (by decide) hk
    _ = 2 ^ (a / b).log2 / ulp (a / b) * ulp (a / b) := (Nat.div_mul_cancel hdvd).symm
    _ ≤ a / b / ulp (a / b) * ulp (a / b) := Nat.mul_le_mul_right _ (Nat.div_le_div_right hlog)
    _ = a / (b * ulp (a / b)) * ulp (a / b) := by rw [Nat.div_div_eq_div_mul]
    _ ≤ roundUnits a b := Nat.mul_le_mul_right _ (le_roundHalfEven _ _)

/-- Nor above one. -/
theorem roundUnits_le {a b k : Nat} (h : a / b < 2 ^ k) : roundUnits a b ≤ 2 ^ k := by
  have hexp : (a / b).log2 - 52 ≤ k := by
    rcases Nat.eq_zero_or_pos (a / b) with hzero | hpos
    · rw [hzero]
      exact Nat.zero_le k
    · have hlog := (Nat.log2_lt hpos.ne').mpr h
      omega
  have hdvd : ulp (a / b) ∣ 2 ^ k := Nat.pow_dvd_pow 2 hexp
  have hlt : a / b / ulp (a / b) < 2 ^ k / ulp (a / b) := Nat.div_lt_div_of_lt_of_dvd hdvd h
  calc roundUnits a b ≤ (a / (b * ulp (a / b)) + 1) * ulp (a / b) :=
        Nat.mul_le_mul_right _ (roundHalfEven_le _ _)
    _ = (a / b / ulp (a / b) + 1) * ulp (a / b) := by rw [Nat.div_div_eq_div_mul]
    _ ≤ 2 ^ k / ulp (a / b) * ulp (a / b) := Nat.mul_le_mul_right _ hlt
    _ = 2 ^ k := Nat.div_mul_cancel hdvd

namespace Double

/-- A magnitude with its sign; what is too large is infinite. -/
def ofUnits (negative : Bool) (n : Nat) (hn : ulp n ∣ n) : Double :=
  if h : n < 2 ^ 2098 then
    .finite (if negative then -(n : Int) else n) (by split <;> simpa using ⟨h, hn⟩)
  else .infinite negative

/-- The double next to `num / den`. -/
def ofRatio (negative : Bool) (num den : Nat) : Double :=
  ofUnits negative (roundUnits (num * one) den) (ulp_dvd_roundUnits _ _)

/-- The double next to a whole number. -/
def ofInt (i : Int) : Double :=
  ofRatio (i < 0) i.natAbs 1

/-- A ratio that is representable is exact. -/
theorem ofRatio_exact {negative : Bool} {num den n : Nat} (hden : 0 < den)
    (hvalue : num * one = n * den) (hn : Representable n) :
    ofRatio negative num den =
      .finite (if negative then -(n : Int) else n) (by split <;> simpa using hn) := by
  have hround : roundUnits (num * one) den = n := by rw [hvalue, roundUnits_exact hden hn.2]
  unfold ofRatio ofUnits
  simp only [hround]
  rw [dif_pos hn.1]

/-- Exponents below a bound multiply below it. -/
theorem two_pow_mul_lt {a b c : Nat} (h : a + b < c) : 2 ^ a * 2 ^ b < 2 ^ c := by
  rw [← Nat.pow_add]
  exact Nat.pow_lt_pow_right (by decide) h

/-- Whole numbers of up to 53 bits are representable. -/
theorem representable_ofNat {n : Nat} (hn : n ≤ 2 ^ 53) : Representable (n * one) := by
  refine ⟨?_, ulp_dvd hn 1074⟩
  have hmul : n * one ≤ 2 ^ 53 * one := Nat.mul_le_mul_right one hn
  have hlt : 2 ^ 53 * one < 2 ^ 2098 := by
    rw [one_eq]
    apply two_pow_mul_lt
    decide
  exact lt_of_le_of_lt hmul hlt

/-- A whole number whose units can be represented is not rounded. -/
theorem ofInt_exact {i : Int} (hi : Representable (i * one).natAbs) : ofInt i = .finite (i * one) hi := by
  have hnat : (i * one).natAbs = i.natAbs * one := by rw [Int.natAbs_mul, Int.natAbs_natCast]
  unfold ofInt
  rw [ofRatio_exact (n := i.natAbs * one) Nat.one_pos (Nat.mul_one _).symm (hnat ▸ hi)]
  congr 1
  by_cases hneg : i < 0
  · rw [if_pos (by simpa using hneg), Nat.cast_mul, Int.natCast_natAbs, abs_of_neg hneg]
    ring
  · rw [if_neg (by simpa using hneg), Nat.cast_mul, Int.natCast_natAbs, abs_of_nonneg (not_lt.mp hneg)]

/-- An integer of up to 53 bits is exact. -/
theorem ofInt_small {i : Int} (hi : i.natAbs ≤ 2 ^ 53) :
    ∃ h, ofInt i = .finite (i * one) h := by
  have hnat : (i * one).natAbs = i.natAbs * one := by rw [Int.natAbs_mul, Int.natAbs_natCast]
  have hrep : Representable (i * one).natAbs := by
    rw [hnat]
    exact representable_ofNat hi
  exact ⟨hrep, ofInt_exact hrep⟩

/-- A natural number is rounded as one. -/
theorem ofInt_natCast (n : Nat) :
    ofInt n = ofUnits false (roundUnits (n * one) 1) (ulp_dvd_roundUnits _ _) := by
  have hneg : ¬ ((n : Int) < 0) := not_lt.mpr (Int.natCast_nonneg n)
  unfold ofInt ofRatio
  simp only [hneg, decide_false, Int.natAbs_natCast]

/-- A natural number of 64 bits becomes a whole number. -/
theorem whole_ofInt {n : Nat} (hn : n < 2 ^ 64) :
    ∃ units h, ofInt n = .finite units h ∧ (one : Int) ∣ units := by
  by_cases hsmall : n ≤ 2 ^ 53
  · rcases ofInt_small (i := n) (by simpa using hsmall) with ⟨h, heq⟩
    exact ⟨_, h, heq, Dvd.intro_left _ rfl⟩
  · have hbound : roundUnits (n * one) 1 < 2 ^ 2098 := by
      have hlt : n * one / 1 < 2 ^ (64 + 1074) := by
        rw [Nat.div_one, ← two_pow_mul_one]
        exact Nat.mul_lt_mul_of_pos_right hn one_pos
      exact lt_of_le_of_lt (roundUnits_le hlt) (Nat.pow_lt_pow_right (by decide) (by decide))
    have hdvd : one ∣ roundUnits (n * one) 1 := by
      have hge : 2 ^ (52 + 1074) ≤ n * one / 1 := by
        rw [Nat.div_one, ← two_pow_mul_one]
        exact Nat.mul_le_mul_right one (by omega)
      unfold roundUnits
      generalize n * one / 1 = q at hge ⊢
      have hlog : 52 + 1074 ≤ q.log2 := by
        refine (Nat.le_log2 ?_).mpr hge
        have hpos := Nat.two_pow_pos (52 + 1074)
        exact (lt_of_lt_of_le hpos hge).ne'
      exact Dvd.dvd.mul_left (one_dvd_two_pow (by omega)) _
    rw [ofInt_natCast]
    unfold ofUnits
    rw [dif_pos hbound]
    refine ⟨_, _, rfl, ?_⟩
    simp only [Bool.false_eq_true, if_false]
    exact Int.natCast_dvd_natCast.mpr hdvd

/-- No natural number is rounded to a small one but that one. -/
theorem ofInt_injective {m n : Nat} (hn : n < 2 ^ 53) (h : ofInt m = ofInt n) : m = n := by
  rcases ofInt_small (i := n) (by simpa using hn.le) with ⟨hrep, hn'⟩
  rw [hn'] at h
  by_cases hm : m ≤ 2 ^ 53
  · rcases ofInt_small (i := m) (by simpa using hm) with ⟨hrep', hm'⟩
    rw [hm'] at h
    have hunits : (m : Int) * one = n * one := by
      injection h
    have hcancel := Int.eq_of_mul_eq_mul_right (Int.natCast_ne_zero.mpr one_pos.ne') hunits
    exact_mod_cast hcancel
  · exfalso
    have hge : 2 ^ (53 + 1074) ≤ m * one / 1 := by
      rw [Nat.div_one, ← two_pow_mul_one]
      exact Nat.mul_le_mul_right one (by omega)
    have hround := le_roundUnits hge
    rw [ofInt_natCast] at h
    unfold ofUnits at h
    split at h
    · have hunits : ((roundUnits (m * one) 1 : Nat) : Int) = n * one := by
        injection h
      have hnat : roundUnits (m * one) 1 = n * one := by exact_mod_cast hunits
      have hlt : n * one < 2 ^ 53 * one := Nat.mul_lt_mul_of_pos_right hn one_pos
      rw [hnat, ← two_pow_mul_one] at hround
      exact absurd hlt (not_lt.mpr hround)
    · cases h

/-! ## Conversions to whole numbers -/

/-- The number without its fraction; there is none of what is not finite. -/
def trunc : Double → Option Int
  | .finite units _ => some (units.tdiv one)
  | _ => none

/-- The conversion to a signed type of `w` bits. Out of its range the result is the least
value, which is what the hardware returns. -/
def toSigned (w : Nat) (x : Double) : Int :=
  match x.trunc with
  | some t => if -2 ^ (w - 1) ≤ t ∧ t < 2 ^ (w - 1) then t else -2 ^ (w - 1)
  | none => -2 ^ (w - 1)

/-- The conversion to an unsigned type of 64 bits; a negative number wraps around, and of
what fits neither way only the top bit is left. -/
def toUnsigned64 (x : Double) : Nat :=
  match x.trunc with
  | some t => if -2 ^ 63 ≤ t ∧ t < 2 ^ 64 then (t % 2 ^ 64).toNat else 2 ^ 63
  | none => 2 ^ 63

/-- The conversion to an unsigned type of 32 bits: the low half of the one to 64 bits with a
sign, which is what the hardware does. -/
def toUnsigned32 (x : Double) : Nat :=
  (x.toSigned 64 % 2 ^ 32).toNat

def isNan : Double → Bool
  | .nan _ => true
  | _ => false

/-- The comparison `==`. -/
def beq (x y : Double) : Bool :=
  !x.isNan && x = y

/-- A finite number is equal to itself. -/
theorem beq_self (units : Int) (h : Representable units.natAbs) :
    (Double.finite units h).beq (.finite units h) = true := by
  unfold beq
  rw [decide_eq_true rfl]
  rfl

/-- An integer of up to 53 bits is truncated to itself. -/
theorem trunc_ofInt {i : Int} (hi : i.natAbs ≤ 2 ^ 53) : (ofInt i).trunc = some i := by
  rcases ofInt_small hi with ⟨h, heq⟩
  rw [heq]
  show some ((i * one).tdiv one) = some i
  rw [Int.mul_tdiv_cancel i (Int.natCast_ne_zero.mpr one_pos.ne')]

/-- A truncated value that fits is the signed integer. -/
theorem toSigned_eq {w : Nat} {x : Double} {t : Int} (hx : x.trunc = some t)
    (ht : -2 ^ (w - 1) ≤ t ∧ t < 2 ^ (w - 1)) : x.toSigned w = t := by
  unfold toSigned
  rw [hx]
  simp only
  rw [if_pos ht]

/-- A truncated value that fits 64 bits is the unsigned one. -/
theorem toUnsigned64_eq {x : Double} {t : Int} (hx : x.trunc = some t) (hpos : 0 ≤ t) (ht : t < 2 ^ 64) :
    (x.toUnsigned64 : Int) = t := by
  have hrange : -2 ^ 63 ≤ t ∧ t < 2 ^ 64 := ⟨by omega, ht⟩
  unfold toUnsigned64
  rw [hx]
  simp only
  rw [if_pos hrange]
  omega

/-- A truncated value that fits 32 bits is the unsigned one. -/
theorem toUnsigned32_eq {x : Double} {n : Nat} (hx : x.trunc = some n) (hn : n < 2 ^ 32) : x.toUnsigned32 = n := by
  have hsigned : x.toSigned 64 = n := toSigned_eq hx (by omega)
  unfold toUnsigned32
  rw [hsigned]
  omega

end Double

end Binary64
