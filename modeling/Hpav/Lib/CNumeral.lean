import Hpav.Lib.Decimal
import Hpav.Lib.Binary64

/-!
# Numbers as text in C

`strtod`, and what `printf` writes for `%lld` and `%f`. Behind a text that one of the two
formats wrote, `strtod` stops as long as no character follows that could continue a
constant; for a whole number it finds the double next to it.
-/

namespace CNumeral

open Decimal Binary64

/-- `isspace` in the C locale -/
def isSpace (b : UInt8) : Bool :=
  b = 32 || (9 ≤ b && b ≤ 13)

/-- `tolower` in the C locale -/
def toLower (b : UInt8) : UInt8 :=
  if 65 ≤ b && b ≤ 90 then b + 32 else b

/-- The text begins with a word, in upper or lower case. -/
def startsWith (word s : List UInt8) : Bool :=
  (s.take word.length).map toLower = word

/-! ## strtod -/

/-- The sign, the number of its characters and the text behind it. -/
def takeSign : List UInt8 → Bool × Nat × List UInt8
  | [] => (false, 0, [])
  | b :: s => if b = 45 then (true, 1, s) else if b = 43 then (false, 1, s) else (false, 0, b :: s)

/-- The exponent behind `mark`, and the number of its characters; none without a digit. -/
def exponentPart (mark : UInt8) : List UInt8 → Int × Nat
  | [] => (0, 0)
  | b :: s =>
    let (negative, k, s) := takeSign s
    let ds := s.takeWhile isDigit
    if toLower b = mark ∧ ds ≠ [] then
      (if negative then -(value ds : Int) else value ds, 1 + k + ds.length)
    else (0, 0)

/-- The characters of the fraction behind the point, and whether there is a point. -/
def fractionPart (p : UInt8 → Bool) : List UInt8 → List UInt8 × Nat
  | [] => ([], 0)
  | b :: s => if b = 46 then (s.takeWhile p, 1) else ([], 0)

/-- The double next to `mant * base ^ e`. -/
def scaled (negative : Bool) (mant base : Nat) (e : Int) : Double :=
  if 0 ≤ e then Double.ofRatio negative (mant * base ^ e.toNat) 1
  else Double.ofRatio negative mant (base ^ (-e).toNat)

/-- A decimal constant without its sign; no characters if there is none. -/
def decimalConstant (negative : Bool) (s : List UInt8) : Double × Nat :=
  let whole := s.takeWhile isDigit
  let (fraction, point) := fractionPart isDigit (s.drop whole.length)
  let n := whole.length + point + fraction.length
  let (e, k) := exponentPart 101 (s.drop n)
  if whole = [] ∧ fraction = [] then (Double.ofInt 0, 0)
  else (scaled negative (value (whole ++ fraction)) 10 (e - fraction.length), n + k)

def isHexDigit (b : UInt8) : Bool :=
  isDigit b || (97 ≤ toLower b && toLower b ≤ 102)

def hexDigitValue (b : UInt8) : Nat :=
  if isDigit b then b.toNat - 48 else (toLower b).toNat - 87

def hexValue (ds : List UInt8) : Nat :=
  ds.foldl (fun n b => 16 * n + hexDigitValue b) 0

/-- The digits of a hexadecimal constant, behind its `0x`. -/
def hexConstant (negative : Bool) (s : List UInt8) : Double × Nat :=
  let whole := s.takeWhile isHexDigit
  let (fraction, point) := fractionPart isHexDigit (s.drop whole.length)
  let n := whole.length + point + fraction.length
  let (e, k) := exponentPart 112 (s.drop n)
  if whole = [] ∧ fraction = [] then (Double.ofInt 0, 0)
  else (scaled negative (hexValue (whole ++ fraction)) 2 (e - 4 * fraction.length), n + k)

/-- The characters in brackets that may follow `nan`. -/
def nanPayload : List UInt8 → Nat
  | [] => 0
  | b :: s =>
    let word := s.takeWhile fun c => isDigit c || c = 95 || (97 ≤ toLower c && toLower c ≤ 122)
    if b = 40 ∧ (s.drop word.length).head? = some 41 then word.length + 2 else 0

/-- A constant behind its sign: what it stands for, and the number of its characters. -/
def unsignedConstant (negative : Bool) (s : List UInt8) : Double × Nat :=
  if startsWith [105, 110, 102, 105, 110, 105, 116, 121] s then (.infinite negative, 8)
  else if startsWith [105, 110, 102] s then (.infinite negative, 3)
  else if startsWith [110, 97, 110] s then (.nan negative, 3 + nanPayload (s.drop 3))
  else if startsWith [48, 120] s ∧ (hexConstant negative (s.drop 2)).2 ≠ 0 then
    ((hexConstant negative (s.drop 2)).1, 2 + (hexConstant negative (s.drop 2)).2)
  else decimalConstant negative s

/-- The number at the start of the text and how many characters it takes; none at all when
there is no number. -/
def strtod (s : List UInt8) : Double × Nat :=
  let spaces := (s.takeWhile isSpace).length
  let (negative, k, digits) := takeSign (s.drop spaces)
  let (x, n) := unsignedConstant negative digits
  if n = 0 then (Double.ofInt 0, 0) else (x, spaces + k + n)

/-! ## printf -/

/-- `%lld` -/
def formatInt (i : Int) : List UInt8 :=
  if i < 0 then 45 :: numeral i.natAbs else numeral i.natAbs

/-- The magnitude in millionths. -/
def millionths (units : Int) : Nat :=
  roundHalfEven (units.natAbs * 10 ^ 6) one

/-- `%f` -/
def formatFixed : Double → List UInt8
  | .finite units _ =>
    (if units < 0 then [45] else []) ++
      numeral (millionths units / 10 ^ 6) ++ 46 :: padded 6 (millionths units)
  | .infinite negative => if negative then [45, 105, 110, 102] else [105, 110, 102]
  | .nan negative => if negative then [45, 110, 97, 110] else [110, 97, 110]

theorem formatFixed_finite {units : Int} (h : Representable units.natAbs) :
    formatFixed (.finite units h) = (if units < 0 then [45] else []) ++
      numeral (millionths units / 10 ^ 6) ++ 46 :: padded 6 (millionths units) := rfl

/-! ## Reading back -/

/-- A character that may continue a constant. -/
def continues (b : UInt8) : Bool :=
  isDigit b || b = 46 || b = 40 || (97 ≤ toLower b && toLower b ≤ 122)

/-- No constant goes on with the text. -/
def Stops (s : List UInt8) : Prop :=
  ∀ b ∈ s.head?, continues b = false

theorem Stops.noDigit {s : List UInt8} (hs : Stops s) : NoDigit s := by
  intro b hb
  have h := hs b hb
  unfold continues at h
  simp only [Bool.or_eq_false_iff] at h
  exact h.1.1.1

theorem Stops.not_letter {s : List UInt8} (hs : Stops s) {c : UInt8}
    (hc : (97 ≤ c && c ≤ 122) = true) : ∀ b ∈ s.head?, toLower b ≠ c := by
  intro b hb he
  have h := hs b hb
  unfold continues at h
  rw [he, hc] at h
  simp at h

theorem Stops.fractionPart {s : List UInt8} (hs : Stops s) (p : UInt8 → Bool) :
    fractionPart p s = ([], 0) := by
  cases s with
  | nil => rfl
  | cons b s =>
    have hb : b ≠ 46 := by
      rintro rfl
      exact absurd (hs 46 rfl) (by decide)
    simp [CNumeral.fractionPart, hb]

theorem Stops.exponentPart {s : List UInt8} (hs : Stops s) : exponentPart 101 s = (0, 0) := by
  cases s with
  | nil => rfl
  | cons b s =>
    have hb : toLower b ≠ 101 := hs.not_letter (by decide) b rfl
    simp [CNumeral.exponentPart, hb]

/-- Digits alone are a whole number. -/
theorem decimalConstant_digits {ds s : List UInt8} (negative : Bool)
    (hds : ∀ b ∈ ds, isDigit b = true) (hne : ds ≠ []) (hs : Stops s) :
    decimalConstant negative (ds ++ s) = (Double.ofRatio negative (value ds) 1, ds.length) := by
  unfold decimalConstant
  simp only [takeWhile_digits hds hs.noDigit, List.drop_left, hs.fractionPart, Nat.add_zero,
    List.length_nil, hs.exponentPart, hne, false_and, if_false, List.append_nil]
  simp [scaled]

theorem noDigit_point (s : List UInt8) : NoDigit (46 :: s) := by
  intro b hb
  obtain rfl : 46 = b := by simpa using hb
  decide

/-- Digits with a point between them: so many parts of a power of ten. -/
theorem decimalConstant_point {ds fs s : List UInt8} (negative : Bool)
    (hds : ∀ b ∈ ds, isDigit b = true) (hne : ds ≠ []) (hfs : ∀ b ∈ fs, isDigit b = true)
    (hfne : fs ≠ []) (hs : Stops s) :
    decimalConstant negative (ds ++ 46 :: (fs ++ s)) =
      (Double.ofRatio negative (value (ds ++ fs)) (10 ^ fs.length), ds.length + 1 + fs.length) := by
  have hfraction : fractionPart isDigit (46 :: (fs ++ s)) = (fs, 1) := by
    unfold fractionPart
    simp only [if_true, takeWhile_digits hfs hs.noDigit]
  have hdrop : (ds ++ 46 :: (fs ++ s)).drop (ds.length + 1 + fs.length) = s := by
    have happend : ds ++ 46 :: (fs ++ s) = (ds ++ 46 :: fs) ++ s := by simp
    rw [happend]
    exact List.drop_left' (by simp; omega)
  have hlen : ¬ (0 ≤ (0 : Int) - fs.length) := by
    have hpos := List.length_pos_of_ne_nil hfne
    omega
  unfold decimalConstant
  simp only [takeWhile_digits hds (noDigit_point _), List.drop_left, hfraction, hdrop,
    hs.exponentPart, hne, false_and, if_false, Nat.add_zero]
  unfold scaled
  rw [if_neg hlen]
  congr 2
  simp

/-- The first character of a number in one of the formats is a digit or its sign. -/
theorem numeral_cons (n : Nat) : ∃ b t, numeral n = b :: t ∧ isDigit b = true := by
  rcases hn : numeral n with _ | ⟨b, t⟩
  · exact absurd hn (numeral_ne_nil n)
  · exact ⟨b, t, rfl, isDigit_of_mem_numeral (by rw [hn]; exact List.mem_cons_self)⟩

theorem toLower_digit {b : UInt8} (hb : isDigit b = true) : toLower b = b := by
  rw [isDigit_iff] at hb
  unfold toLower
  have h65 : ¬ (65 ≤ b) := by
    rw [UInt8.le_iff_toNat_le]
    show ¬ (65 ≤ b.toNat)
    omega
  simp [h65]

theorem startsWith_digit {b : UInt8} (hb : isDigit b = true) (c : UInt8) (hc : isDigit c = false)
    (word s : List UInt8) : startsWith (c :: word) (b :: s) = false := by
  unfold startsWith
  simp only [List.length_cons, List.take_succ_cons, List.map_cons, toLower_digit hb]
  have hne : b ≠ c := by
    rintro rfl
    rw [hb] at hc
    cases hc
  simp [hne]

/-- A digit that is not the zero of `0x` begins a decimal constant. -/
theorem unsignedConstant_digit {b : UInt8} {s : List UInt8} (negative : Bool) (hb : isDigit b = true)
    (hx : startsWith [48, 120] (b :: s) = false) :
    unsignedConstant negative (b :: s) = decimalConstant negative (b :: s) := by
  unfold unsignedConstant
  rw [if_neg (by rw [startsWith_digit hb _ (by decide)]; decide),
    if_neg (by rw [startsWith_digit hb _ (by decide)]; decide),
    if_neg (by rw [startsWith_digit hb _ (by decide)]; decide), if_neg (by rw [hx]; simp)]

theorem takeSign_digit {b : UInt8} {s : List UInt8} (hb : isDigit b = true) :
    takeSign (b :: s) = (false, 0, b :: s) := by
  rw [isDigit_iff] at hb
  have h45 : b ≠ 45 := by
    rintro rfl
    exact absurd hb.1 (by decide)
  have h43 : b ≠ 43 := by
    rintro rfl
    exact absurd hb.1 (by decide)
  simp [takeSign, h45, h43]

theorem isSpace_digit {b : UInt8} (hb : isDigit b = true) : isSpace b = false := by
  rw [isDigit_iff] at hb
  unfold isSpace
  have h32 : b ≠ 32 := by
    rintro rfl
    exact absurd hb.1 (by decide)
  have h13 : ¬ (b ≤ 13) := by
    rw [UInt8.le_iff_toNat_le]
    show ¬ (b.toNat ≤ 13)
    omega
  simp [h32, h13]

/-- The text of a number behind its sign: digits, then what does not make a `0x` of them. -/
theorem strtod_signed {b : UInt8} {s : List UInt8} (negative : Bool) (hb : isDigit b = true)
    (hx : startsWith [48, 120] (b :: s) = false) {x : Double} {n : Nat}
    (h : decimalConstant negative (b :: s) = (x, n)) (hn : n ≠ 0) :
    strtod ((if negative then [45] else []) ++ b :: s) = (x, (if negative then 1 else 0) + n) := by
  have hconst := unsignedConstant_digit negative hb hx
  unfold strtod
  cases negative with
  | false =>
    rw [if_neg Bool.false_ne_true, if_neg Bool.false_ne_true, List.nil_append,
      List.takeWhile_cons_of_neg (by simp [isSpace_digit hb])]
    simp only [List.length_nil, List.drop_zero, takeSign_digit hb, hconst, h, if_neg hn]
  | true =>
    rw [if_pos rfl, if_pos rfl, List.singleton_append, List.takeWhile_cons_of_neg (by decide)]
    simp only [List.length_nil, List.drop_zero]
    simp only [takeSign, if_true, hconst, h, if_neg hn, Nat.zero_add]

theorem not_hex_numeral {n : Nat} {b : UInt8} {t s : List UInt8} (hn : numeral n = b :: t)
    (hs : ∀ c ∈ s.head?, toLower c ≠ 120) : startsWith [48, 120] (b :: (t ++ s)) = false := by
  have hb : isDigit b = true := isDigit_of_mem_numeral (by rw [hn]; exact List.mem_cons_self)
  by_cases hzero : b = 48
  · subst hzero
    have h0 : n = 0 := head_numeral hn
    subst h0
    obtain rfl : t = [] := by
      rw [numeral_zero] at hn
      exact (List.cons.inj hn).2.symm
    cases s with
    | nil => rfl
    | cons c s =>
      have hc := hs c rfl
      simp [startsWith, hc]
  · simp [startsWith, toLower_digit hb, hzero]

/-- What `%lld` writes is read back as the double next to the number. -/
theorem strtod_formatInt (i : Int) {s : List UInt8} (hs : Stops s) :
    strtod (formatInt i ++ s) = (Double.ofInt i, (formatInt i).length) := by
  rcases numeral_cons i.natAbs with ⟨b, t, hnum, hb⟩
  have hconst := @decimalConstant_digits (numeral i.natAbs) s (decide (i < 0))
    (fun _ h => isDigit_of_mem_numeral h) (numeral_ne_nil _) hs
  rw [value_numeral] at hconst
  have hx := not_hex_numeral (s := s) hnum (hs.not_letter (by decide))
  rw [hnum, List.cons_append] at hconst
  have hread := strtod_signed (decide (i < 0)) hb hx hconst (by simp)
  have htext : formatInt i ++ s = (if decide (i < 0) then [45] else []) ++ b :: (t ++ s) := by
    unfold formatInt
    by_cases hneg : i < 0 <;> simp [hneg, hnum]
  have hlen : (formatInt i).length = (if decide (i < 0) then 1 else 0) + (b :: t).length := by
    unfold formatInt
    by_cases hneg : i < 0 <;> simp [hneg, hnum]
    omega
  rw [htext, hread, hlen]
  rfl

/-- What `%f` writes is read back as the double next to so many millionths. -/
theorem strtod_formatFixed_finite {units : Int} (h : Representable units.natAbs) {s : List UInt8}
    (hs : Stops s) :
    strtod (formatFixed (.finite units h) ++ s) =
      (Double.ofRatio (units < 0) (millionths units) (10 ^ 6), (formatFixed (.finite units h)).length) := by
  generalize hm : millionths units = m
  rcases numeral_cons (m / 10 ^ 6) with ⟨b, t, hnum, hb⟩
  have hconst := @decimalConstant_point (numeral (m / 10 ^ 6)) (padded 6 m) s (decide (units < 0))
    (fun _ h => isDigit_of_mem_numeral h) (numeral_ne_nil _)
    (fun _ h => isDigit_of_mem_padded h) (by rw [← List.length_pos_iff, length_padded]; decide) hs
  -- the digits before and behind the point are those of the millionths
  have hvalue : value (numeral (m / 10 ^ 6) ++ padded 6 m) = m := by
    rw [value_append, value_numeral, value_padded, length_padded]
    exact Nat.div_add_mod' m (10 ^ 6)
  rw [hvalue, length_padded] at hconst
  have hx := not_hex_numeral (s := 46 :: (padded 6 m ++ s)) hnum (by
    intro c hc
    obtain rfl : 46 = c := by simpa using hc
    decide)
  rw [hnum, List.cons_append] at hconst
  have hread := strtod_signed (decide (units < 0)) hb hx hconst (by simp)
  have htext : formatFixed (.finite units h) ++ s =
      (if decide (units < 0) then [45] else []) ++ b :: (t ++ 46 :: (padded 6 m ++ s)) := by
    unfold formatFixed
    simp only [hm, hnum]
    by_cases hneg : units < 0 <;> simp [hneg]
  -- a sign, the digits before the point, the point and six digits
  have hlen : (formatFixed (.finite units h)).length =
      (if decide (units < 0) then 1 else 0) + ((b :: t).length + 1 + 6) := by
    unfold formatFixed
    simp only [hm, hnum, List.length_append, List.length_cons, length_padded]
    by_cases hneg : units < 0
    · simp only [hneg, decide_true, if_true, List.length_singleton]
      omega
    · simp only [hneg, decide_false, List.length_nil, Bool.false_eq_true, if_false]
      omega
  rw [htext, hread, hlen]

/-- Minus infinity is read back. -/
theorem strtod_formatFixed_infinite {s : List UInt8} (hs : Stops s) :
    strtod (formatFixed (.infinite true) ++ s) =
      (.infinite true, (formatFixed (.infinite true)).length) := by
  have hword : startsWith [105, 110, 102, 105, 110, 105, 116, 121] (105 :: 110 :: 102 :: s) = false := by
    cases s with
    | nil => rfl
    | cons c s =>
      have hc : toLower c ≠ 105 := hs.not_letter (by decide) c rfl
      simp [startsWith, hc]
  have hinf : startsWith [105, 110, 102] (105 :: 110 :: 102 :: s) = true := rfl
  have hconst : unsignedConstant true (105 :: 110 :: 102 :: s) = (.infinite true, 3) := by
    unfold unsignedConstant
    rw [hword, if_neg Bool.false_ne_true, if_pos hinf]
  show strtod (45 :: 105 :: 110 :: 102 :: s) = (.infinite true, 4)
  unfold strtod
  rw [List.takeWhile_cons_of_neg (by decide)]
  simp only [List.length_nil, List.drop_zero, takeSign, if_true, hconst]
  rfl

/-- So is the NaN with a sign. -/
theorem strtod_formatFixed_nan {s : List UInt8} (hs : Stops s) :
    strtod (formatFixed (.nan true) ++ s) = (.nan true, (formatFixed (.nan true)).length) := by
  have hpayload : nanPayload s = 0 := by
    cases s with
    | nil => rfl
    | cons c s =>
      have hc : c ≠ 40 := by
        rintro rfl
        exact absurd (hs 40 rfl) (by decide)
      simp [nanPayload, hc]
  have hinf : startsWith [105, 110, 102] (110 :: 97 :: 110 :: s) = false := rfl
  have hword : startsWith [105, 110, 102, 105, 110, 105, 116, 121] (110 :: 97 :: 110 :: s) = false := by
    simp [startsWith, toLower]
  have hnan : startsWith [110, 97, 110] (110 :: 97 :: 110 :: s) = true := rfl
  have hconst : unsignedConstant true (110 :: 97 :: 110 :: s) = (.nan true, 3) := by
    unfold unsignedConstant
    rw [hword, hinf, if_neg Bool.false_ne_true, if_neg Bool.false_ne_true, if_pos hnan]
    simp only [List.drop_succ_cons, List.drop_zero, hpayload]
  show strtod (45 :: 110 :: 97 :: 110 :: s) = (.nan true, 4)
  unfold strtod
  rw [List.takeWhile_cons_of_neg (by decide)]
  simp only [List.length_nil, List.drop_zero, takeSign, if_true, hconst]
  rfl

end CNumeral
