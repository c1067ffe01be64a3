import Mathlib.Tactic.Common
import Hpav.Lib.MemTrace

/-!
# Printing a tonemap

`hpav_dump_tonemap` of `hpav_utils.c`. A tonemap has one modulation in each nibble, the
low nibble of a byte first; a run-length encoded one has run digits among the modulations
as well and is decoded first. A dump reads the bitfield it is handed, so it is a program
that reads foreign memory, and its result is the list of its `printf` calls.
`char` is signed.
-/

namespace Hpav

open MemTrace

/-- `MTK_POSSIBLE_CARRIERS_MAX` -/
abbrev mtkPossibleCarriersMax : Nat := 4096

/-- `BYTES_PER_LINE` -/
abbrev bytesPerLine : Nat := 16

/-- `IS_MODULATION_FIELD` -/
def isModulationField (x : UInt8) : Bool := x ≤ 0x8

/-- `IS_NIBBLE_FIELD` -/
def isNibbleField (x : UInt8) : Bool := 9 ≤ x && x ≤ 0xF

/-- `GET_RLE_LEN` -/
def getRleLen (x y : Int) : Int := (x - 8) * 7 + ((y - 9) + 3)

/-- `GET_HIGH_NIBBLE` -/
def getHighNibble (x : UInt8) : UInt8 := (x &&& 0xF0) >>> 4

/-- `GET_LOW_NIBBLE` -/
def getLowNibble (x : UInt8) : UInt8 := x &&& 0x0F

/-! ## What is printed -/

/-- The calls of `printf`. -/
inductive Printed where
  /-- `"0x%04X: "` -/
  | address (i : Nat)
  /-- `"%02x "` -/
  | byte (x : UInt8)
  /-- `"%x "` -/
  | hex (x : UInt8)
  /-- `"\n"` -/
  | newline
  deriving DecidableEq, Repr

/-- The hexadecimal digits a call prints of the tonemap. -/
def Printed.digits : Printed → List UInt8
  | .address _ => []
  | .byte x => [x >>> 4, x &&& 0x0F]
  | .hex x => if x < 16 then [x] else [x >>> 4, x &&& 0x0F]
  | .newline => []

/-- The digits of a whole dump. -/
def printedDigits (printed : List Printed) : List UInt8 :=
  printed.flatMap Printed.digits

/-! ## Run-length encoded -/

/-- The variables of the decoding loop: `m` is the length of `modulationList`. What the
loops over `k` store is kept in `runs` as well, with the modulation stored. -/
structure RleDecoder where
  modulation : Int := -1
  rle : Int := -1
  modulationList : List UInt8 := []
  runs : List (Int × Nat) := []
  deriving DecidableEq, Repr

/-- `modulation_list[m] = ..; m++` -/
def RleDecoder.store (s : RleDecoder) (modulation : Int) : RleDecoder :=
  { s with modulationList := s.modulationList ++ [UInt8.ofInt modulation] }

/-- `for (k = 0; (int)k < rle; k++, m++) modulation_list[m] = modulation;` -/
def RleDecoder.storeRun (s : RleDecoder) (rle : Int) : RleDecoder :=
  { s with
    modulationList := s.modulationList ++ List.replicate rle.toNat (UInt8.ofInt s.modulation)
    runs := s.runs ++ [(s.modulation, rle.toNat)] }

/-- What a modulation does to a pending one: `if (modulation != -1) { .. }`. -/
def RleDecoder.endRun (s : RleDecoder) : RleDecoder :=
  if s.modulation ≠ -1 then
    if s.rle = -1 then
      { s.store s.modulation with modulation := -1 }
    else
      { s.storeRun (getRleLen 8 s.rle) with rle := -1, modulation := -1 }
  else s

/-- The body of the loop over `j`, for `tmp[j]`. -/
def RleDecoder.nibble (s : RleDecoder) (tmp : UInt8) : RleDecoder :=
  if isModulationField tmp then
    { s.endRun with modulation := tmp.toNat }
  else if isNibbleField tmp then
    if s.rle = -1 then
      { s with rle := tmp.toNat }
    else
      { s.storeRun (getRleLen tmp.toNat s.rle) with rle := -1, modulation := -1 }
  else s

/-- The nibble of a last half byte. -/
def RleDecoder.lastNibble (s : RleDecoder) (tmp : UInt8) : RleDecoder :=
  if isModulationField tmp then
    s.store tmp.toNat
  else if isNibbleField tmp then
    if s.rle = -1 then
      s.storeRun (getRleLen 8 tmp.toNat)
    else
      s.storeRun (getRleLen tmp.toNat s.rle)
  else s

/-- `hpav_dump_tonemap` with `rle_enc == 0xFF`, up to the printing. -/
def rleDecode (bitfield : Nat → UInt8) (numBits : Nat) : Trace RleDecoder := do
  let s ← (List.range (numBits / 8)).foldlM (fun s i => do
    let x ← byteAt bitfield i
    return (s.nibble (getLowNibble x)).nibble (getHighNibble x)) ({} : RleDecoder)
  if numBits % 8 ≠ 0 then
    let x ← byteAt bitfield (numBits / 8)
    return s.lastNibble (getLowNibble x)
  else
    return s

/-- The loop that prints the decoded list, two modulations at a time. -/
def printPair (modulationList : List UInt8) (i : Nat) : List Printed :=
  let swap := modulationList.getD (i * 2) 0 <<< 4 ||| modulationList.getD (i * 2 + 1) 0
  (if i % 16 = 0 then [.address i] else []) ++ [.byte swap] ++
    (if (i + 1) % 16 = 0 then [.newline] else [])

def printModulationList (modulationList : List UInt8) : List Printed :=
  let m := modulationList.length
  (List.range (m / 2)).flatMap (printPair modulationList) ++
    if m % 2 ≠ 0 then
      (if m / 2 % 16 = 0 then [.address (m / 2)] else []) ++ [.hex (modulationList.getD (m - 1) 0)]
    else []

/-! ## Not encoded -/

/-- The loop over `byte_index`. -/
def dumpLine (bitfield : Nat → UInt8) (off lineBytes : Nat) : Trace (List Printed) :=
  (List.range lineBytes).foldlM (fun printed byteIndex => do
    let x ← byteAt bitfield (off + byteIndex)
    return printed ++ [.byte (x <<< 4 ||| x >>> 4)]) []

/-- What a line is followed by: the trailing nibble, if `num_bytes_left` has come down to 0. -/
def dumpTrailing (bitfield : Nat → UInt8) (numBits : Nat) (numBytesLeft : Int) (lineBytes i : Nat) :
    Trace (List Printed) :=
  if numBytesLeft = 0 ∧ numBits % 8 ≠ 0 then do
    let x ← byteAt bitfield (numBits / 8)
    return (if lineBytes = bytesPerLine then [.address i] else []) ++ [.hex x]
  else
    return []

/-- The loop over the lines. -/
def dumpLines (bitfield : Nat → UInt8) (numBits : Nat) (numBytesLeft : Int) (i : Nat) :
    Trace (List Printed) :=
  if numBytesLeft > 0 then do
    let lineBytes := if numBytesLeft ≥ bytesPerLine then bytesPerLine else numBytesLeft.toNat
    let line ← dumpLine bitfield (numBits / 8 - numBytesLeft.toNat) lineBytes
    let trailing ← dumpTrailing bitfield numBits (numBytesLeft - bytesPerLine) lineBytes (i + 16)
    let rest ← dumpLines bitfield numBits (numBytesLeft - bytesPerLine) (i + 16)
    return [.address i] ++ line ++ [.newline] ++ trailing ++ rest
  else
    return []
termination_by numBytesLeft.toNat
decreasing_by simp only [bytesPerLine]; omega

/-- `hpav_dump_tonemap` -/
def dumpTonemap (bitfield : Nat → UInt8) (numBits : Nat) (rleEnc : Int) : Trace (List Printed) :=
  if rleEnc = 0xFF then do
    let s ← rleDecode bitfield numBits
    return printModulationList s.modulationList
  else
    dumpLines bitfield numBits (numBits / 8 : Nat) 0

/-! ## The lines -/

theorem dumpLines_nonpos (bitfield : Nat → UInt8) (numBits : Nat) {numBytesLeft : Int} (i : Nat)
    (h : numBytesLeft ≤ 0) : dumpLines bitfield numBits numBytesLeft i = return [] := by
  unfold dumpLines
  rw [if_neg (by omega)]

/-- A full line, and what is left. -/
theorem dumpLines_full (bitfield : Nat → UInt8) (numBits left i : Nat) :
    dumpLines bitfield numBits (left + 16 : Nat) i = do
      let line ← dumpLine bitfield (numBits / 8 - (left + 16)) 16
      let trailing ← dumpTrailing bitfield numBits left 16 (i + 16)
      let rest ← dumpLines bitfield numBits left (i + 16)
      return [.address i] ++ line ++ [.newline] ++ trailing ++ rest := by
  have hleft : ((left + 16 : Nat) : Int) - bytesPerLine = left := by
    simp only [bytesPerLine]
    omega
  rw [dumpLines, if_pos (by omega), if_pos (by simp only [bytesPerLine]; omega), hleft,
    Int.toNat_natCast]

/-- A last line that is not full is not followed by anything. -/
theorem dumpLines_short (bitfield : Nat → UInt8) (numBits : Nat) {left : Nat} (i : Nat)
    (hpos : 0 < left) (hlt : left < 16) :
    dumpLines bitfield numBits left i = do
      let line ← dumpLine bitfield (numBits / 8 - left) left
      return [.address i] ++ line ++ [.newline] := by
  have hneg : (left : Int) - bytesPerLine < 0 := by
    simp only [bytesPerLine]
    omega
  have htrailing : dumpTrailing bitfield numBits (left - bytesPerLine) left (i + 16) = pure [] := by
    unfold dumpTrailing
    rw [if_neg (by omega)]
  rw [dumpLines, if_pos (by omega), if_neg (by simp only [bytesPerLine]; omega),
    dumpLines_nonpos _ _ _ (by omega), Int.toNat_natCast]
  simp only [htrailing, pure_bind, List.append_nil]

/-! ## Nibbles -/

/-- The nibbles of a bitfield, the low one of a byte first. -/
def nibbleAt (bitfield : Nat → UInt8) (i : Nat) : UInt8 :=
  if i % 2 = 0 then getLowNibble (bitfield (i / 2)) else getHighNibble (bitfield (i / 2))

def tonemapNibbles (bitfield : Nat → UInt8) (n : Nat) : List UInt8 :=
  (List.range n).map (nibbleAt bitfield)

@[simp] theorem length_tonemapNibbles (bitfield : Nat → UInt8) (n : Nat) :
    (tonemapNibbles bitfield n).length = n := by
  simp [tonemapNibbles]

theorem tonemapNibbles_succ (bitfield : Nat → UInt8) (n : Nat) :
    tonemapNibbles bitfield (n + 1) = tonemapNibbles bitfield n ++ [nibbleAt bitfield n] := by
  simp [tonemapNibbles, List.range_succ]

theorem nibbleAt_low (bitfield : Nat → UInt8) (k : Nat) :
    nibbleAt bitfield (2 * k) = getLowNibble (bitfield k) := by
  unfold nibbleAt
  rw [if_pos (by omega), Nat.mul_div_cancel_left k Nat.two_pos]

theorem nibbleAt_high (bitfield : Nat → UInt8) (k : Nat) :
    nibbleAt bitfield (2 * k + 1) = getHighNibble (bitfield k) := by
  unfold nibbleAt
  rw [if_neg (by omega), show (2 * k + 1) / 2 = k by omega]

/-- One more byte is two more nibbles. -/
theorem tonemapNibbles_byte (bitfield : Nat → UInt8) (k : Nat) :
    tonemapNibbles bitfield (2 * (k + 1)) =
      tonemapNibbles bitfield (2 * k) ++ [getLowNibble (bitfield k), getHighNibble (bitfield k)] := by
  rw [show 2 * (k + 1) = 2 * k + 1 + 1 by omega, tonemapNibbles_succ, tonemapNibbles_succ, nibbleAt_low,
    nibbleAt_high, List.append_assoc]
  rfl

theorem toNat_getLowNibble (x : UInt8) : (getLowNibble x).toNat = x.toNat % 16 := by
  simp [getLowNibble, Nat.and_two_pow_sub_one_eq_mod x.toNat 4]

theorem toNat_getHighNibble (x : UInt8) : (getHighNibble x).toNat = x.toNat / 16 := by
  have hlt := x.toNat_lt
  have hand : (x.toNat &&& 240) >>> 4 = x.toNat / 16 := by
    rw [Nat.shiftRight_and_distrib, Nat.shiftRight_eq_div_pow]
    change x.toNat / 16 &&& 2 ^ 4 - 1 = x.toNat / 16
    rw [Nat.and_two_pow_sub_one_eq_mod]
    omega
  simpa [getHighNibble] using hand

theorem nibbleAt_lt (bitfield : Nat → UInt8) (i : Nat) : (nibbleAt bitfield i).toNat < 16 := by
  unfold nibbleAt
  split
  · rw [toNat_getLowNibble]
    omega
  · rw [toNat_getHighNibble]
    have hlt := (bitfield (i / 2)).toNat_lt
    omega

theorem tonemapNibbles_lt {bitfield : Nat → UInt8} {n : Nat} : ∀ t ∈ tonemapNibbles bitfield n, t.toNat < 16 := by
  intro t ht
  obtain ⟨i, _, rfl⟩ := List.mem_map.mp ht
  exact nibbleAt_lt bitfield i

/-- A nibble is a modulation or a run digit. -/
theorem isModulationField_iff (t : UInt8) : isModulationField t = true ↔ t.toNat ≤ 8 := by
  simp [isModulationField, UInt8.le_iff_toNat_le]

theorem isNibbleField_iff (t : UInt8) : isNibbleField t = true ↔ 9 ≤ t.toNat ∧ t.toNat ≤ 15 := by
  simp [isNibbleField, UInt8.le_iff_toNat_le]

end Hpav
