import Mathlib.Data.List.GetD
import Mathlib.Tactic.Common
import Hpav.Lib.MemTrace
import Hpav.Tonemap

/-!
# The digits of a tonemap dump

A dump shows each nibble as one hexadecimal digit, in the order of the carriers. Run-length
encoded, that is so for every list of nibbles the decoder comes up with. Not encoded, the
nibble of a half byte is printed only behind lines that are all full, and the whole byte
that holds it is printed.
-/

namespace Hpav

open MemTrace

/-! ## One byte -/

theorem getHighNibble_eq (x : UInt8) : x >>> 4 = getHighNibble x := by
  apply UInt8.toNat_inj.mp
  rw [toNat_getHighNibble]
  simp [Nat.shiftRight_eq_div_pow]

/-- Two nibbles put together. -/
theorem toNat_swap {x y : UInt8} (hy : y.toNat < 16) :
    (x <<< 4 ||| y).toNat = x.toNat % 16 * 16 + y.toNat := by
  have hshift : (x <<< 4).toNat = (x.toNat % 16) <<< 4 := by
    simp [Nat.shiftLeft_eq]
    omega
  rw [UInt8.toNat_or, hshift, ← Nat.shiftLeft_add_eq_or_of_lt (by simpa using hy),
    Nat.shiftLeft_eq]

theorem digits_swap {x y : UInt8} (hy : y.toNat < 16) :
    (Printed.byte (x <<< 4 ||| y)).digits = [getLowNibble x, y] := by
  have hhigh : (x <<< 4 ||| y) >>> 4 = getLowNibble x := by
    rw [getHighNibble_eq]
    apply UInt8.toNat_inj.mp
    rw [toNat_getHighNibble, toNat_swap hy, toNat_getLowNibble]
    omega
  have hlow : getLowNibble (x <<< 4 ||| y) = y := by
    apply UInt8.toNat_inj.mp
    rw [toNat_getLowNibble, toNat_swap hy]
    omega
  change [(x <<< 4 ||| y) >>> 4, getLowNibble (x <<< 4 ||| y)] = _
  rw [hhigh, hlow]

/-- A byte whose nibbles are printed in the order of the carriers. -/
theorem digits_byte (x : UInt8) :
    (Printed.byte (x <<< 4 ||| x >>> 4)).digits = [getLowNibble x, getHighNibble x] := by
  have hlt : (x >>> 4).toNat < 16 := by
    rw [getHighNibble_eq, toNat_getHighNibble]
    have h := x.toNat_lt
    omega
  rw [digits_swap hlt, getHighNibble_eq]

/-- `"%x "` prints one digit only of a byte without a high nibble. -/
theorem digits_hex_iff (x : UInt8) :
    (Printed.hex x).digits = [getLowNibble x] ↔ getHighNibble x = 0 := by
  have hiff : x < 16 ↔ getHighNibble x = 0 := by
    rw [UInt8.lt_iff_toNat_lt, ← UInt8.toNat_inj, toNat_getHighNibble]
    change x.toNat < 16 ↔ x.toNat / 16 = 0
    omega
  change (if x < 16 then [x] else [x >>> 4, x &&& 0x0F]) = _ ↔ _
  by_cases hlt : x < 16
  · rw [if_pos hlt, ← hiff]
    refine iff_of_true ?_ hlt
    rw [List.singleton_inj, ← UInt8.toNat_inj, toNat_getLowNibble]
    have h := UInt8.lt_iff_toNat_lt.mp hlt
    exact (Nat.mod_eq_of_lt h).symm
  · rw [if_neg hlt, ← hiff]
    refine iff_of_false ?_ hlt
    intro h
    exact absurd (congrArg List.length h) (by simp)

@[simp] theorem printedDigits_nil : printedDigits [] = [] := rfl

@[simp] theorem printedDigits_append (printed printed' : List Printed) :
    printedDigits (printed ++ printed') = printedDigits printed ++ printedDigits printed' := by
  simp [printedDigits]

/-! ## The decoded list -/

/-- A pair is printed as its two modulations. -/
theorem printedDigits_printPair {ms : List UInt8} (hms : ∀ x ∈ ms, x.toNat < 16) {i : Nat}
    (hi : 2 * i + 1 < ms.length) :
    printedDigits (printPair ms i) = [ms[2 * i], ms[2 * i + 1]] := by
  have hx : ms.getD (i * 2) 0 = ms[2 * i] := by
    rw [Nat.mul_comm, List.getD_eq_getElem ms 0 (by omega)]
  have hy : ms.getD (i * 2 + 1) 0 = ms[2 * i + 1] := by
    rw [Nat.mul_comm, List.getD_eq_getElem ms 0 hi]
  have hlow : getLowNibble ms[2 * i] = ms[2 * i] := by
    apply UInt8.toNat_inj.mp
    rw [toNat_getLowNibble, Nat.mod_eq_of_lt (hms _ (List.getElem_mem _))]
  unfold printPair
  rw [hx, hy, printedDigits_append, printedDigits_append]
  have haddress : printedDigits (if i % 16 = 0 then [.address i] else []) = [] := by
    split <;> rfl
  have hnewline : printedDigits (if (i + 1) % 16 = 0 then [.newline] else []) = [] := by
    split <;> rfl
  have hbyte := digits_swap (x := ms[2 * i]) (hms _ (List.getElem_mem hi))
  rw [hlow] at hbyte
  rw [haddress, hnewline, List.nil_append, List.append_nil]
  simp only [printedDigits, List.flatMap_singleton, hbyte]

theorem printedDigits_pairs {ms : List UInt8} (hms : ∀ x ∈ ms, x.toNat < 16) {k : Nat}
    (hk : 2 * k ≤ ms.length) :
    printedDigits ((List.range k).flatMap (printPair ms)) = ms.take (2 * k) := by
  induction k with
  | zero => rfl
  | succ k ih =>
    rw [List.range_succ, List.flatMap_append, List.flatMap_singleton, printedDigits_append,
      ih (by omega), printedDigits_printPair hms (by omega),
      show 2 * (k + 1) = 2 * k + 1 + 1 by omega, List.take_add_one, List.take_add_one,
      List.getElem?_eq_getElem (by omega), List.getElem?_eq_getElem (by omega), List.append_assoc]
    rfl

/-- Decoded modulations are printed one digit each, in order. -/
theorem printedDigits_printModulationList {ms : List UInt8} (hms : ∀ x ∈ ms, x.toNat < 16) :
    printedDigits (printModulationList ms) = ms := by
  unfold printModulationList
  simp only
  rw [printedDigits_append, printedDigits_pairs hms (by omega)]
  by_cases hodd : ms.length % 2 ≠ 0
  · have hlast : ms.length - 1 < ms.length := by omega
    have hdigit : (Printed.hex ms[ms.length - 1]).digits = [ms[ms.length - 1]] := by
      have h := hms _ (List.getElem_mem hlast)
      change (if ms[ms.length - 1] < 16 then _ else _) = _
      rw [if_pos (UInt8.lt_iff_toNat_lt.mpr h)]
    have haddress : printedDigits
        (if ms.length / 2 % 16 = 0 then [.address (ms.length / 2)] else []) = [] := by
      split <;> rfl
    rw [if_pos hodd, printedDigits_append, haddress, List.nil_append,
      List.getD_eq_getElem ms 0 hlast]
    simp only [printedDigits, List.flatMap_singleton, hdigit]
    rw [show 2 * (ms.length / 2) = ms.length - 1 by omega, List.take_append_getElem hlast,
      List.take_of_length_le (by omega)]
  · rw [if_neg hodd, printedDigits_nil, List.append_nil, List.take_of_length_le (by omega)]

/-! ## The lines of bytes -/

/-- The nibbles of one byte. -/
def byteNibbles (x : UInt8) : List UInt8 :=
  [getLowNibble x, getHighNibble x]

theorem tonemapNibbles_eq_bytes (bitfield : Nat → UInt8) (k : Nat) :
    tonemapNibbles bitfield (2 * k) = (List.range k).flatMap fun j => byteNibbles (bitfield j) := by
  induction k with
  | zero => rfl
  | succ k ih =>
    rw [tonemapNibbles_byte, ih, List.range_succ, List.flatMap_append, List.flatMap_singleton]
    rfl

theorem printedDigits_dumpLine (bitfield : Nat → UInt8) (off lineBytes : Nat) :
    printedDigits (dumpLine bitfield off lineBytes).val =
      (List.range lineBytes).flatMap fun j => byteNibbles (bitfield (off + j)) := by
  unfold dumpLine
  rw [val_foldlM]
  induction lineBytes with
  | zero => rfl
  | succ lineBytes ih =>
    rw [List.range_succ, List.foldl_append, List.flatMap_append, List.flatMap_singleton, ← ih]
    have hbyte := digits_byte (bitfield (off + lineBytes))
    change printedDigits (_ ++ [Printed.byte _]) = _
    rw [printedDigits_append]
    simp only [printedDigits, List.flatMap_singleton, byteNibbles, ← hbyte]
    rfl

/-- What is printed of a half byte behind `left` bytes more. -/
def trailingDigits (bitfield : Nat → UInt8) (numBits left : Nat) : List UInt8 :=
  if 0 < left ∧ left % 16 = 0 ∧ numBits % 8 ≠ 0 then (Printed.hex (bitfield (numBits / 8))).digits
  else []

theorem printedDigits_dumpTrailing (bitfield : Nat → UInt8) (numBits left lineBytes i : Nat) :
    printedDigits (dumpTrailing bitfield numBits left lineBytes i).val =
      if left = 0 ∧ numBits % 8 ≠ 0 then (Printed.hex (bitfield (numBits / 8))).digits else [] := by
  unfold dumpTrailing
  by_cases hhalf : left = 0 ∧ numBits % 8 ≠ 0
  · rw [if_pos hhalf, if_pos ⟨by omega, hhalf.2⟩]
    have haddress : printedDigits (if lineBytes = bytesPerLine then [.address i] else []) = [] := by
      split <;> rfl
    change printedDigits (_ ++ _) = _
    rw [printedDigits_append, haddress, List.nil_append]
    exact List.flatMap_singleton _ _
  · rw [if_neg hhalf, if_neg (by omega)]
    rfl

/-- The lines still to come print their bytes, and behind full lines the half byte. -/
theorem printedDigits_dumpLines (bitfield : Nat → UInt8) (numBits left i : Nat)
    (h : left ≤ numBits / 8) :
    printedDigits (dumpLines bitfield numBits left i).val =
      (List.range left).flatMap (fun j => byteNibbles (bitfield (numBits / 8 - left + j))) ++
        trailingDigits bitfield numBits left := by
  unfold trailingDigits
  -- sixteen bytes a line: the last line is short, or it is full and nothing is left
  induction left using Nat.strong_induction_on generalizing i with
  | _ left ih =>
    rcases Nat.eq_zero_or_pos left with rfl | hpos
    · rw [dumpLines_nonpos bitfield numBits i (show ((0 : Nat) : Int) ≤ 0 by omega)]
      rfl
    rcases Nat.lt_or_ge left 16 with hlt | hge
    · rw [dumpLines_short bitfield numBits i hpos hlt, val_bind, val_pure, printedDigits_append,
        printedDigits_append, printedDigits_dumpLine, if_neg (by omega)]
      rfl
    obtain ⟨left, rfl⟩ := Nat.exists_eq_add_of_le' hge
    rw [dumpLines_full, val_bind, val_bind, val_bind, val_pure, printedDigits_append,
      printedDigits_append, printedDigits_append, printedDigits_append, printedDigits_dumpLine,
      printedDigits_dumpTrailing, ih left (by omega) (i + 16) (by omega), Nat.add_comm left 16,
      List.range_add, List.flatMap_append, List.flatMap_map]
    have hshift : ∀ j, numBits / 8 - (16 + left) + (16 + j) = numBits / 8 - left + j := by
      intro j
      omega
    have hnone : printedDigits [.address i] = [] ∧ printedDigits [.newline] = [] := ⟨rfl, rfl⟩
    rw [hnone.1, hnone.2, List.nil_append, List.append_nil, List.append_assoc, List.append_assoc]
    simp only [hshift]
    rcases Nat.eq_zero_or_pos left with rfl | hpos'
    · simp
    · -- the trailing digit is printed behind full lines only, so not on this one
      have hiff : (0 < 16 + left ∧ (16 + left) % 16 = 0 ∧ numBits % 8 ≠ 0) ↔
          0 < left ∧ left % 16 = 0 ∧ numBits % 8 ≠ 0 := by
        omega
      rw [if_neg (show ¬ (left = 0 ∧ numBits % 8 ≠ 0) by omega), List.nil_append]
      simp only [hiff]

/-- What the dump of a bitfield prints. -/
theorem printedDigits_dumpTonemap {bitfield : Nat → UInt8} {numBits : Nat} {rleEnc : Int}
    (h : rleEnc ≠ 0xFF) : printedDigits (dumpTonemap bitfield numBits rleEnc).val =
      tonemapNibbles bitfield (2 * (numBits / 8)) ++ trailingDigits bitfield numBits (numBits / 8) := by
  unfold dumpTonemap
  rw [if_neg h, printedDigits_dumpLines bitfield numBits _ 0 le_rfl, tonemapNibbles_eq_bytes]
  simp only [Nat.sub_self, Nat.zero_add]

/-- The dump shows every nibble of the bitfield once and in order, and so does the dump of
any encoded form of them, exactly if there is no half byte, or the half byte stands behind
full lines and its high nibble is 0. -/
theorem dumpTonemap_digits_iff (bitfield : Nat → UInt8) {numBits : Nat} {rleEnc : Int}
    (hbits : numBits % 4 = 0) (henc : rleEnc ≠ 0xFF) :
    (printedDigits (dumpTonemap bitfield numBits rleEnc).val = tonemapNibbles bitfield (numBits / 4) ∧
      ∀ encoded encodedBits,
        (rleDecode encoded encodedBits).val.modulationList = tonemapNibbles bitfield (numBits / 4) →
        printedDigits (dumpTonemap encoded encodedBits 0xFF).val =
          printedDigits (dumpTonemap bitfield numBits rleEnc).val) ↔
    numBits % 8 = 0 ∨
      (0 < numBits / 8 ∧ numBits / 8 % 16 = 0 ∧ getHighNibble (bitfield (numBits / 8)) = 0) := by
  -- the encoded form shows the nibbles whatever they are
  have hencoded : ∀ encoded encodedBits,
      (rleDecode encoded encodedBits).val.modulationList = tonemapNibbles bitfield (numBits / 4) →
      printedDigits (dumpTonemap encoded encodedBits 0xFF).val = tonemapNibbles bitfield (numBits / 4) := by
    intro encoded encodedBits heq
    unfold dumpTonemap
    rw [if_pos rfl, val_bind, val_pure, heq]
    exact printedDigits_printModulationList tonemapNibbles_lt
  have hone : (printedDigits (dumpTonemap bitfield numBits rleEnc).val =
      tonemapNibbles bitfield (numBits / 4)) ↔ numBits % 8 = 0 ∨ (0 < numBits / 8 ∧ numBits / 8 % 16 = 0 ∧
        getHighNibble (bitfield (numBits / 8)) = 0) := by
    rw [printedDigits_dumpTonemap henc]
    by_cases hhalf : numBits % 8 = 0
    · have hnone : trailingDigits bitfield numBits (numBits / 8) = [] := by
        unfold trailingDigits
        rw [if_neg (by omega)]
      rw [hnone, List.append_nil, show numBits / 4 = 2 * (numBits / 8) by omega]
      exact iff_of_true rfl (Or.inl hhalf)
    · rw [show numBits / 4 = 2 * (numBits / 8) + 1 by omega, tonemapNibbles_succ, nibbleAt_low,
        List.append_cancel_left_eq]
      unfold trailingDigits
      by_cases hfull : 0 < numBits / 8 ∧ numBits / 8 % 16 = 0 ∧ numBits % 8 ≠ 0
      · rw [if_pos hfull, digits_hex_iff]
        exact ⟨fun h => Or.inr ⟨hfull.1, hfull.2.1, h⟩, fun h => (h.resolve_left hhalf).2.2⟩
      · rw [if_neg hfull]
        refine iff_of_false (List.cons_ne_nil _ []).symm ?_
        rintro (h | ⟨hpos, hmod, _⟩)
        · exact hhalf h
        · exact hfull ⟨hpos, hmod, hhalf⟩
  constructor
  · rintro ⟨hprinted, _⟩
    exact hone.mp hprinted
  · intro h
    have hprinted := hone.mpr h
    exact ⟨hprinted, fun encoded encodedBits heq => (hencoded encoded encodedBits heq).trans
      hprinted.symm⟩

/-- A full line of `21` and the half byte `3`. -/
def fullLine (i : Nat) : UInt8 := if i < 16 then 0x21 else 0x03

theorem dumpTonemap_digits_iff_fullLine :
    (printedDigits (dumpTonemap fullLine 132 0).val = tonemapNibbles fullLine (132 / 4) ∧
      ∀ encoded encodedBits,
        (rleDecode encoded encodedBits).val.modulationList = tonemapNibbles fullLine (132 / 4) →
        printedDigits (dumpTonemap encoded encodedBits 0xFF).val =
          printedDigits (dumpTonemap fullLine 132 0).val) ↔
    132 % 8 = 0 ∨ (0 < 132 / 8 ∧ 132 / 8 % 16 = 0 ∧ getHighNibble (fullLine (132 / 8)) = 0) :=
  dumpTonemap_digits_iff fullLine (by decide) (by decide)

/-- The nibble behind one byte is not printed. -/
theorem dumpTonemap_loses_trailing : ¬ ∀ (bitfield : Nat → UInt8) (numBits : Nat) (rleEnc : Int),
    numBits % 4 = 0 → rleEnc ≠ 0xFF →
    printedDigits (dumpTonemap bitfield numBits rleEnc).val = tonemapNibbles bitfield (numBits / 4) := by
  intro h
  have hprinted := h (fun _ => 0x21) 12 0 (by decide) (by decide)
  rw [printedDigits_dumpTonemap (by decide)] at hprinted
  exact absurd hprinted (by decide)

end Hpav
