import Mathlib.Tactic.Common
import Mathlib.Tactic.Ring
import Mathlib.Data.List.Induction
import Hpav.Lib.CMem
import Hpav.Lib.CScan
import Hpav.Json.Parse

/-!
# Calibration of the amplitude map

`conf_file_modify_psd_cali` and the functions under it (`conf_file.c`). The calibration
file is read line by line into two tables; every word of `am_infile` is taken apart into
eight nibbles, the lines are applied to them, and the nibbles are packed again. Where C
leaves undefined what happens the run ends in a `Fault`. The variable the words are packed
in is not initialized: what it holds at first is a parameter.
-/

namespace Hpav

open Binary64 CMem CScan

/-! ## The calibration file -/

/-- `removeChar` -/
def removeChar (str : List UInt8) (garbage : UInt8) : List UInt8 :=
  str.filter fun c => c ≠ garbage

/-- A line of `carrier_range_array` and `compensate_value_array`; `none` is what was never
stored. -/
structure CalibrationLine where
  carrierRange : Option (List UInt8)
  compensateValue : Option (List UInt8)
  deriving DecidableEq, Repr

/-- The tokens of a line: the first, third and so on are stored as the range, the others as
the value, each over the one before. -/
def storeTokens : List (List UInt8) → CalibrationLine → CalibrationLine
  | [], line => line
  | [pch], line => { line with carrierRange := some pch }
  | pch :: pch' :: tokens, _ => storeTokens tokens ⟨some pch, some pch'⟩

/-- What is kept of a line of the file. -/
def parseCalibrationLine (str : List UInt8) : CalibrationLine :=
  let str := removeChar (removeChar (cString str) 40) 41       -- '(' and ')'
  storeTokens (strtok 44 str) ⟨none, none⟩                     -- ','

/-- The lines of the two tables. -/
abbrev calibrationTableSize : Nat := 4096

/-- The loop over the lines of the file; nothing is stored beyond the tables. -/
def readCalibration (content : List UInt8) : Except Fault (List CalibrationLine) :=
  let lines := (fgetsLines 20 content.length content).map parseCalibrationLine
  if (lines.drop calibrationTableSize).any fun line => line.carrierRange ≠ none then .error .outOfBounds
  else .ok lines

/-! ## Carriers -/

/-- `PSD_Notched` -/
abbrev psdNotched : Nat := 15

/-- `arrayOfNotchedArrays` -/
def arrayOfNotchedArrays : List (Int × Int) :=
  [(0, 85), (140, 167), (215, 225), (283, 302), (410, 419), (570, 591), (737, 748), (857, 882),
    (1016, 1027), (1144, 1228), (3529, 4095)]

/-- `Is_notched_carrier`; the loop looks at six of the ranges. -/
def isNotchedCarrier (idx : Int) (backoff : Nat) : Bool :=
  backoff = psdNotched || (arrayOfNotchedArrays.take 6).any fun (first, last) => first ≤ idx ∧ idx ≤ last

/-- What a line does to a carrier within its range. -/
def calibrateCarrier (compensateValue idx : Int) (backoff : Nat) : Nat :=
  if isNotchedCarrier idx backoff then backoff
  else
    let powerBackoff := (backoff : Int) - compensateValue.tdiv 2
    if powerBackoff < 0 then 0 else if 15 ≤ powerBackoff then 14 else powerBackoff.toNat

/-- The loop over `turns` carriers from `j` on. -/
def calibrateRange (compensateValue : Int) : Nat → Int → List Nat → Except Fault (List Nat)
  | 0, _, backoffs => .ok backoffs
  | turns + 1, j, backoffs =>
    if j < 0 then .error .outOfBounds
    else
      match backoffs[j.toNat]? with
      | none => .error .outOfBounds
      | some b =>
        calibrateRange compensateValue turns (j + 1)
          (backoffs.set j.toNat (calibrateCarrier compensateValue j b))

/-- A variable or a string that is used. -/
def initialized {α : Type} : Option α → Except Fault α
  | none => .error .uninitialized
  | some x => .ok x

/-- A token that is copied. -/
def copied {α : Type} : Option α → Except Fault α
  | none => .error .nullDeref
  | some x => .ok x

/-- The variables the lines are read into; `none` is what was never stored. -/
structure Scanned where
  firstIdx : Option Int
  secondIdx : Option Int
  compensateValue : Option Int
  deriving DecidableEq, Repr

def Scanned.start : Scanned :=
  ⟨none, none, none⟩

/-- What a line asks for: a change of the carriers from `first` to `last`. -/
structure Adjustment where
  first : Int
  last : Int
  value : Int
  deriving DecidableEq, Repr

/-- The first half of a turn of the loop over the lines. What cannot be read leaves the
variable as it is; a value that is not permitted asks for nothing. -/
def scanLine (vars : Scanned) (line : CalibrationLine) : Except Fault (Scanned × Option Adjustment) := do
  let range ← initialized line.carrierRange
  let first ← copied (strtok 45 range)[0]?                     -- '-'
  let second ← copied (strtok 45 range)[1]?
  let text ← initialized line.compensateValue
  let vars : Scanned := ⟨(scanInt first).or vars.firstIdx, (scanInt second).or vars.secondIdx,
    (scanInt text).or vars.compensateValue⟩
  let value ← initialized vars.compensateValue
  if value % 2 = 0 ∧ (-28 ≤ value ∧ value ≤ 28) ∧ value ≠ 0 then do
    let first ← initialized vars.firstIdx
    let last ← initialized vars.secondIdx
    .ok (vars, some ⟨first, last, value⟩)
  else .ok (vars, none)

/-- A turn of the loop over the lines. -/
def calibrateLine (c : Scanned × List Nat) (line : CalibrationLine) : Except Fault (Scanned × List Nat) := do
  let (vars, adjustment) ← scanLine c.1 line
  match adjustment with
  | none => .ok (vars, c.2)
  | some a => do
    let backoffs ← calibrateRange a.value (a.last - a.first + 1).toNat a.first c.2
    .ok (vars, backoffs)

/-- The loop over the lines; those beyond the tables are not there. -/
def calibrateLines (c : Scanned × List Nat) (lines : List CalibrationLine) :
    Except Fault (Scanned × List Nat) :=
  if calibrationTableSize < lines.length then .error .outOfBounds else lines.foldlM calibrateLine c

/-! ## Words -/

/-- The nibbles of a word, the most significant one first. -/
def nibbles (ampMap : Nat) : List Nat :=
  (List.range 8).map fun n => (ampMap >>> (4 * (7 - n))) &&& 0xF

/-- `backoff_array` -/
def backoffArray (amInfile : List Json) : List Nat :=
  amInfile.flatMap fun value => nibbles (jsonValueGetNumber (some value)).toUnsigned64

/-- An `int` as an `unsigned long`. -/
def signExtend (x : Nat) : Nat :=
  if x < 2 ^ 31 then x else x + (2 ^ 64 - 2 ^ 32)

/-- The loop that saves the words: the accumulator, the position of the nibble in its word,
the words so far. -/
def packLoop : List Nat → Nat → Nat → List Nat → List Nat
  | [], _, _, words => words
  | b :: backoffs, ampMap, n, words =>
    let ampMap := ampMap ||| signExtend ((b <<< ((7 - n) * 4)) % 2 ^ 32)
    if n = 7 then packLoop backoffs 0 0 (words ++ [ampMap])
    else packLoop backoffs ampMap (n + 1) words

/-- The nibbles of an `am_infile` behind a calibration file. -/
def calibrated (amInfile : List Json) (content : List UInt8) : Except Fault (List Nat) := do
  let lines ← readCalibration content
  let c ← calibrateLines (Scanned.start, backoffArray amInfile) lines
  .ok c.2

/-- `json_array_append_number` for one word after the other. -/
def appendNumbers (t : Table Json) (words : List Nat) : Option (Table Json) :=
  words.foldlM (fun t (word : Nat) => jsonArrayAdd t (.number (Double.ofInt word))) t

/-- The end of `conf_file_modify_psd_cali`: the words are appended to the array, which has
been cleared and keeps its capacity. -/
def savedItems (ampMap : Nat) (amInfile : List Json) (backoffs : List Nat) : Option (List Json) :=
  (appendNumbers ⟨[], amInfile.length⟩ (packLoop backoffs ampMap 0 [])).map (·.entries)

/-! ## Nibbles stay nibbles -/

/-- So many carriers, each with a backoff of four bits. -/
structure Nibbles (count : Nat) (backoffs : List Nat) : Prop where
  length : backoffs.length = count
  lt : ∀ b ∈ backoffs, b < 16

/-- A nibble is below 16. -/
theorem nibbles_lt {ampMap b : Nat} (hb : b ∈ nibbles ampMap) : b < 16 := by
  unfold nibbles at hb
  rw [List.mem_map] at hb
  rcases hb with ⟨n, -, rfl⟩
  exact Nat.lt_of_le_of_lt Nat.and_le_right (by decide)

/-- A map has eight nibbles for each word. -/
theorem nibbles_backoffArray (amInfile : List Json) :
    Nibbles (8 * amInfile.length) (backoffArray amInfile) := by
  constructor
  · unfold backoffArray
    rw [List.length_flatMap]
    simp [nibbles, Nat.mul_comm]
  · intro b hb
    unfold backoffArray at hb
    rw [List.mem_flatMap] at hb
    rcases hb with ⟨value, -, hb⟩
    exact nibbles_lt hb

/-- A calibrated nibble is a nibble. -/
theorem calibrateCarrier_lt {value idx : Int} {backoff : Nat} (hb : backoff < 16) :
    calibrateCarrier value idx backoff < 16 := by
  unfold calibrateCarrier
  split
  · exact hb
  · simp only
    split
    · decide
    · split
      · decide
      · omega

/-! ## Carrier by carrier -/

/-- The carriers of an adjustment are there, or it has none. -/
def Adjustment.Within (count : Nat) (a : Adjustment) : Prop :=
  a.last < a.first ∨ (0 ≤ a.first ∧ a.last < count)

instance (count : Nat) (a : Adjustment) : Decidable (a.Within count) :=
  inferInstanceAs (Decidable (_ ∨ _))

/-- What an adjustment makes of the backoff of a carrier. -/
def Adjustment.apply (a : Adjustment) (carrier backoff : Nat) : Nat :=
  if a.first ≤ carrier ∧ carrier ≤ a.last then calibrateCarrier a.value carrier backoff else backoff

/-- What all of them make of it, one after the other. -/
def applyAll (as : List Adjustment) (carrier backoff : Nat) : Nat :=
  as.foldl (fun b a => a.apply carrier b) backoff

/-- The adjustments of the lines. -/
def adjustments : Scanned → List CalibrationLine → Except Fault (List Adjustment)
  | _, [] => .ok []
  | vars, line :: lines => do
    let (vars, a) ← scanLine vars line
    let as ← adjustments vars lines
    .ok (a.toList ++ as)

/-- The adjustments of a calibration file. -/
def fileAdjustments (content : List UInt8) : Except Fault (List Adjustment) :=
  let lines := (fgetsLines 20 content.length content).map parseCalibrationLine
  if calibrationTableSize < lines.length then .error .outOfBounds else adjustments Scanned.start lines

/-- Changing nothing at any index changes nothing. -/
theorem mapIdx_id (backoffs : List Nat) : (backoffs.mapIdx fun _ b => b) = backoffs :=
  List.ext_getElem (by simp) (by simp)

/-- The loop over a range changes each carrier of the range, and only these. -/
theorem calibrateRange_eq_ok_iff {value : Int} {turns : Nat} {j : Int} {backoffs backoffs' : List Nat} :
    calibrateRange value turns j backoffs = .ok backoffs' ↔
      (turns = 0 ∨ (0 ≤ j ∧ j + turns ≤ backoffs.length)) ∧
        backoffs' = backoffs.mapIdx fun i b =>
          if j ≤ i ∧ i < j + turns then calibrateCarrier value i b else b := by
  induction turns generalizing j backoffs with
  | zero =>
    have hnone : ∀ i : Nat, ¬ (j ≤ i ∧ (i : Int) < j + ((0 : Nat) : Int)) := fun i h => by omega
    simp only [hnone, if_false, calibrateRange, true_or, true_and, Except.ok.injEq, mapIdx_id]
    exact eq_comm
  | succ turns ih =>
    unfold calibrateRange
    by_cases hneg : j < 0
    · rw [if_pos hneg]
      simp only [reduceCtorEq, false_iff]
      rintro ⟨h | h, -⟩
      · cases h
      · omega
    · obtain ⟨k, rfl⟩ : ∃ k : Nat, j = k := ⟨j.toNat, by omega⟩
      rw [if_neg hneg, Int.toNat_natCast]
      rcases hget : backoffs[k]? with _ | b
      · have hlen := List.getElem?_eq_none_iff.mp hget
        simp only [reduceCtorEq, false_iff]
        rintro ⟨h | h, -⟩
        · cases h
        · omega
      · obtain ⟨hk, hb⟩ := List.getElem?_eq_some_iff.mp hget
        simp only [ih, List.length_set]
        -- the carrier this turn changes is none of those the other turns change
        have hmap : (backoffs.set k (calibrateCarrier value k b)).mapIdx (fun i b =>
              if (k : Int) + 1 ≤ i ∧ (i : Int) < k + 1 + turns then calibrateCarrier value i b else b) =
            backoffs.mapIdx fun i b =>
              if (k : Int) ≤ i ∧ (i : Int) < k + (turns + 1 : Nat) then calibrateCarrier value i b else b := by
          refine List.ext_getElem (by simp) ?_
          intro i hi hi'
          rw [List.getElem_mapIdx, List.getElem_mapIdx, List.getElem_set]
          by_cases hik : k = i
          · subst hik
            rw [if_pos rfl, if_neg (by omega), if_pos (by omega), hb]
          · rw [if_neg hik]
            by_cases hin : (k : Int) + 1 ≤ i ∧ (i : Int) < k + 1 + turns
            · rw [if_pos hin, if_pos (by omega)]
            · rw [if_neg hin, if_neg (by omega)]
        rw [hmap]
        constructor
        · rintro ⟨h, heq⟩
          exact ⟨Or.inr (by omega), heq⟩
        · rintro ⟨h, heq⟩
          exact ⟨by omega, heq⟩

/-- The loop over the range of an adjustment. -/
theorem calibrateRange_adjustment {a : Adjustment} {backoffs backoffs' : List Nat} :
    calibrateRange a.value (a.last - a.first + 1).toNat a.first backoffs = .ok backoffs' ↔
      a.Within backoffs.length ∧ backoffs' = backoffs.mapIdx a.apply := by
  have hrange : ((a.last - a.first + 1).toNat = 0 ∨
      (0 ≤ a.first ∧ a.first + ((a.last - a.first + 1).toNat : Int) ≤ backoffs.length)) ↔
      a.Within backoffs.length := by
    unfold Adjustment.Within
    omega
  have hcarrier : (fun (i b : Nat) => if a.first ≤ i ∧ (i : Int) < a.first + (a.last - a.first + 1).toNat then
      calibrateCarrier a.value i b else b) = a.apply := by
    funext i b
    unfold Adjustment.apply
    by_cases hin : a.first ≤ i ∧ (i : Int) ≤ a.last
    · rw [if_pos hin, if_pos (by omega)]
    · rw [if_neg hin, if_neg (by omega)]
  rw [calibrateRange_eq_ok_iff, hrange, hcarrier]

/-- The loop over the lines adjusts every carrier for itself. -/
theorem foldlM_calibrateLine {vars : Scanned} {backoffs backoffs' : List Nat} {lines : List CalibrationLine} :
    (∃ vars', lines.foldlM calibrateLine (vars, backoffs) = .ok (vars', backoffs')) ↔
      ∃ as, adjustments vars lines = .ok as ∧ (∀ a ∈ as, a.Within backoffs.length) ∧
        backoffs' = backoffs.mapIdx (applyAll as) := by
  -- line by line: what a line adjusts lies within the map, or the run fails there
  induction lines generalizing vars backoffs with
  | nil =>
    constructor
    · rintro ⟨vars', h⟩
      cases h
      exact ⟨[], rfl, (fun _ ha => nomatch ha), (mapIdx_id backoffs').symm⟩
    · rintro ⟨as, has, -, rfl⟩
      cases has
      refine ⟨vars, ?_⟩
      show Except.ok (vars, backoffs) = Except.ok (vars, backoffs.mapIdx fun _ b => b)
      rw [mapIdx_id]
  | cons line lines ih =>
    have hstep : calibrateLine (vars, backoffs) line = (scanLine vars line).bind fun s =>
        match s.2 with
        | none => .ok (s.1, backoffs)
        | some a => (calibrateRange a.value (a.last - a.first + 1).toNat a.first backoffs).bind fun backoffs =>
          .ok (s.1, backoffs) := rfl
    have hall : adjustments vars (line :: lines) = (scanLine vars line).bind fun s =>
        (adjustments s.1 lines).bind fun as => .ok (s.2.toList ++ as) := rfl
    rw [List.foldlM_cons, hstep, hall]
    rcases scanLine vars line with e | ⟨vars₁, _ | a⟩
    · simp [Except.bind]
    · simp only [Except.bind, bind_ok]
      rw [ih]
      rcases adjustments vars₁ lines with e | as
      · simp
      · simp
    · simp only [Except.bind]
      rcases hrange : calibrateRange a.value (a.last - a.first + 1).toNat a.first backoffs with e | backoffs₁
      · have hout : ¬ a.Within backoffs.length := by
          intro hin
          have hok := calibrateRange_adjustment.mpr ⟨hin, rfl⟩
          rw [hrange] at hok
          cases hok
        rcases adjustments vars₁ lines with e | as
        · simp
        · simp [hout]
      · rcases calibrateRange_adjustment.mp hrange with ⟨hin, rfl⟩
        simp only [bind_ok]
        rw [ih, List.length_mapIdx]
        rcases adjustments vars₁ lines with e | as
        · simp
        · -- one adjustment, then the others, is all of them
          have hcompose : (backoffs.mapIdx a.apply).mapIdx (applyAll as) = backoffs.mapIdx (applyAll (a :: as)) := by
            rw [List.mapIdx_mapIdx]
            rfl
          simp only [Except.ok.injEq, exists_eq_left', Option.toList_some, List.singleton_append,
            List.forall_mem_cons, hin, true_and, hcompose]

/-- What becomes of the nibbles: the file is one the two tables can hold, all the carriers
it names are there, and each of them is adjusted line by line. -/
theorem calibrated_eq_ok_iff {amInfile : List Json} {content : List UInt8} {backoffs : List Nat} :
    calibrated amInfile content = .ok backoffs ↔
      ∃ as, fileAdjustments content = .ok as ∧ (∀ a ∈ as, a.Within (8 * amInfile.length)) ∧
        backoffs = (backoffArray amInfile).mapIdx (applyAll as) := by
  unfold calibrated readCalibration fileAdjustments
  simp only
  generalize (fgetsLines 20 content.length content).map parseCalibrationLine = lines
  by_cases hlong : calibrationTableSize < lines.length
  · have hlines : ∀ c, calibrateLines c lines = .error .outOfBounds := fun c => if_pos hlong
    rw [if_pos hlong]
    split <;> simp [hlines]
  · have hlines : ∀ c, calibrateLines c lines = lines.foldlM calibrateLine c := fun c => if_neg hlong
    have hdrop : lines.drop calibrationTableSize = [] := List.drop_eq_nil_of_le (not_lt.mp hlong)
    rw [if_neg hlong, hdrop, List.any_nil, if_neg Bool.false_ne_true, bind_ok, hlines,
      ← (nibbles_backoffArray amInfile).length, ← foldlM_calibrateLine]
    rcases lines.foldlM calibrateLine (Scanned.start, backoffArray amInfile) with e | ⟨vars', backoffs'⟩
    · simp
    · simp

/-- All adjustments together leave a nibble. -/
theorem applyAll_lt {as : List Adjustment} {carrier backoff : Nat} (hb : backoff < 16) :
    applyAll as carrier backoff < 16 := by
  unfold applyAll
  induction as generalizing backoff with
  | nil => exact hb
  | cons a as ih =>
    rw [List.foldl_cons]
    refine ih ?_
    unfold Adjustment.apply
    split
    · exact calibrateCarrier_lt hb
    · exact hb

/-- Whatever the file says, there are as many carriers as before and all have four bits. -/
theorem nibbles_mapIdx (amInfile : List Json) (as : List Adjustment) :
    Nibbles (8 * amInfile.length) ((backoffArray amInfile).mapIdx (applyAll as)) := by
  have hbefore := nibbles_backoffArray amInfile
  constructor
  · rw [List.length_mapIdx, hbefore.length]
  · intro b hb
    rw [List.mem_mapIdx] at hb
    rcases hb with ⟨i, hi, rfl⟩
    exact applyAll_lt (hbefore.lt _ (List.getElem_mem hi))

/-! ## Packing -/

/-- The number whose hexadecimal digits these are. -/
def wordOf (chunk : List Nat) : Nat :=
  chunk.foldl (fun word b => word * 16 + b) 0

/-- Eight nibbles make a word. -/
def packedWords : List Nat → List Nat
  | b0 :: b1 :: b2 :: b3 :: b4 :: b5 :: b6 :: b7 :: backoffs =>
    wordOf [b0, b1, b2, b3, b4, b5, b6, b7] :: packedWords backoffs
  | _ => []

/-- A digit is set behind those that are there. -/
theorem or_nibble (h e : Nat) {b : Nat} (hb : b < 16) :
    (h <<< (e + 4)) ||| (b <<< e) = (h * 16 + b) <<< e := by
  have hlt : b <<< e < 2 ^ (e + 4) := by
    rw [Nat.shiftLeft_eq, Nat.pow_add, Nat.mul_comm]
    exact Nat.mul_lt_mul_of_pos_left hb (Nat.two_pow_pos e)
  rw [← Nat.shiftLeft_add_eq_or_of_lt hlt, Nat.shiftLeft_eq, Nat.shiftLeft_eq, Nat.shiftLeft_eq,
    Nat.pow_add, Nat.add_mul]
  ring

/-- The sign of a word fills its upper half, the rest stays. -/
theorem signExtend_or {x y : Nat} (hx : x < 2 ^ 32) (hxy : x ||| y < 2 ^ 32)
    (hsign : x < 2 ^ 31 ↔ x ||| y < 2 ^ 31) : signExtend x ||| y = signExtend (x ||| y) := by
  have hupper : ∀ z < 2 ^ 32, z + (2 ^ 64 - 2 ^ 32) = ((2 ^ 32 - 1) <<< 32) ||| z := by
    intro z hz
    rw [← Nat.shiftLeft_add_eq_or_of_lt hz, Nat.shiftLeft_eq]
    omega
  unfold signExtend
  by_cases hlow : x < 2 ^ 31
  · rw [if_pos hlow, if_pos (hsign.mp hlow)]
  · rw [if_neg hlow, if_neg fun h => hlow (hsign.mpr h), hupper x hx, hupper _ hxy, Nat.or_assoc]

/-- Seven digits, each set in its place. -/
theorem or_places {b1 b2 b3 b4 b5 b6 b7 : Nat} (h2 : b2 < 16) (h3 : b3 < 16) (h4 : b4 < 16)
    (h5 : b5 < 16) (h6 : b6 < 16) (h7 : b7 < 16) :
    b1 <<< 24 ||| b2 <<< 20 ||| b3 <<< 16 ||| b4 <<< 12 ||| b5 <<< 8 ||| b6 <<< 4 ||| b7 <<< 0 =
      wordOf [b1, b2, b3, b4, b5, b6, b7] := by
  rw [or_nibble b1 20 h2, or_nibble _ 16 h3, or_nibble _ 12 h4, or_nibble _ 8 h5, or_nibble _ 4 h6,
    or_nibble _ 0 h7, Nat.shiftLeft_zero]
  simp [wordOf]

/-- A word has four bits for each nibble. -/
theorem wordOf_lt {chunk : List Nat} (h : ∀ b ∈ chunk, b < 16) : wordOf chunk < 2 ^ (4 * chunk.length) := by
  induction chunk using List.reverseRecOn with
  | nil => decide
  | append_singleton chunk b ih =>
    have hb : b < 16 := h b (by simp)
    have hchunk := ih fun c hc => h c (by simp [hc])
    unfold wordOf at hchunk ⊢
    rw [List.foldl_append, List.foldl_cons, List.foldl_nil, List.length_append, List.length_singleton,
      Nat.mul_add, Nat.pow_add]
    omega

/-- Seven digits of a place stay below it: the conversion to `int` does nothing to them. -/
theorem signExtend_place {b s : Nat} (hb : b < 16) (hs : s ≤ 24) : signExtend ((b <<< s) % 2 ^ 32) = b <<< s := by
  have hlt : b <<< s < 2 ^ 28 := by
    rw [Nat.shiftLeft_eq]
    calc b * 2 ^ s ≤ 15 * 2 ^ 24 :=
          Nat.mul_le_mul (by omega) (Nat.pow_le_pow_right (by decide) hs)
      _ < 2 ^ 28 := by decide
  unfold signExtend
  rw [Nat.mod_eq_of_lt (by omega), if_pos (by omega)]

/-- The first digit carries the sign of the word. -/
theorem signExtend_wordOf {b0 rest : Nat} (h0 : b0 < 16) (hrest : rest < 2 ^ 28) :
    signExtend ((b0 <<< 28) % 2 ^ 32) ||| rest = signExtend (b0 * 2 ^ 28 + rest) := by
  have hword : b0 <<< 28 ||| rest = b0 * 2 ^ 28 + rest := by
    rw [← Nat.shiftLeft_add_eq_or_of_lt hrest, Nat.shiftLeft_eq]
  have hfirst : b0 <<< 28 < 2 ^ 32 := by
    rw [Nat.shiftLeft_eq]
    omega
  rw [Nat.mod_eq_of_lt hfirst, ← hword]
  refine signExtend_or hfirst ?_ ?_
  · rw [hword]
    omega
  · rw [hword, Nat.shiftLeft_eq]
    omega

/-- The eight turns of a word. -/
theorem packLoop_turns (b0 b1 b2 b3 b4 b5 b6 b7 : Nat) (backoffs : List Nat) (ampMap : Nat)
    (words : List Nat) :
    packLoop (b0 :: b1 :: b2 :: b3 :: b4 :: b5 :: b6 :: b7 :: backoffs) ampMap 0 words =
      packLoop backoffs 0 0 (words ++ [ampMap ||| signExtend ((b0 <<< 28) % 2 ^ 32) |||
        signExtend ((b1 <<< 24) % 2 ^ 32) ||| signExtend ((b2 <<< 20) % 2 ^ 32) |||
        signExtend ((b3 <<< 16) % 2 ^ 32) ||| signExtend ((b4 <<< 12) % 2 ^ 32) |||
        signExtend ((b5 <<< 8) % 2 ^ 32) ||| signExtend ((b6 <<< 4) % 2 ^ 32) |||
        signExtend ((b7 <<< 0) % 2 ^ 32)]) := by
  simp [packLoop]

/-- The loop over one word: what the accumulator held stays, and so does the sign. -/
theorem packLoop_chunk {b0 b1 b2 b3 b4 b5 b6 b7 : Nat} {backoffs : List Nat} (ampMap : Nat)
    (words : List Nat) (h : ∀ b ∈ [b0, b1, b2, b3, b4, b5, b6, b7], b < 16) :
    packLoop (b0 :: b1 :: b2 :: b3 :: b4 :: b5 :: b6 :: b7 :: backoffs) ampMap 0 words =
      packLoop backoffs 0 0
        (words ++ [ampMap ||| signExtend (wordOf [b0, b1, b2, b3, b4, b5, b6, b7])]) := by
  simp only [List.forall_mem_cons, List.not_mem_nil, false_implies, implies_true, and_true] at h
  rcases h with ⟨h0, h1, h2, h3, h4, h5, h6, h7⟩
  have hrest : wordOf [b1, b2, b3, b4, b5, b6, b7] < 2 ^ 28 :=
    @wordOf_lt [b1, b2, b3, b4, b5, b6, b7] (by simp [h1, h2, h3, h4, h5, h6, h7])
  have hword : b0 * 2 ^ 28 + wordOf [b1, b2, b3, b4, b5, b6, b7] =
      wordOf [b0, b1, b2, b3, b4, b5, b6, b7] := by
    simp only [wordOf, List.foldl_cons, List.foldl_nil]
    ring
  have hplaces := @or_places b1 _ _ _ _ _ _ h2 h3 h4 h5 h6 h7
  have hsum : ampMap ||| signExtend ((b0 <<< 28) % 2 ^ 32) ||| b1 <<< 24 ||| b2 <<< 20 ||| b3 <<< 16 |||
      b4 <<< 12 ||| b5 <<< 8 ||| b6 <<< 4 ||| b7 <<< 0 =
      ampMap ||| (signExtend ((b0 <<< 28) % 2 ^ 32) ||| (b1 <<< 24 ||| b2 <<< 20 ||| b3 <<< 16 |||
        b4 <<< 12 ||| b5 <<< 8 ||| b6 <<< 4 ||| b7 <<< 0)) := by
    simp only [Nat.or_assoc]
  rw [packLoop_turns, signExtend_place h1 (by decide), signExtend_place h2 (by decide),
    signExtend_place h3 (by decide), signExtend_place h4 (by decide), signExtend_place h5 (by decide),
    signExtend_place h6 (by decide), signExtend_place h7 (by decide), hsum, hplaces,
    signExtend_wordOf h0 hrest, hword]

/-- What the accumulator holds goes into the first word. -/
def firstWord (ampMap : Nat) : List Nat → List Nat
  | [] => []
  | word :: words => (ampMap ||| word) :: words

/-- The words that are saved: the nibbles as they should be, with their sign extended, and
in the first one whatever the accumulator held. -/
theorem packLoop_eq (count : Nat) {backoffs : List Nat} (h : Nibbles (8 * count) backoffs) (ampMap : Nat)
    (words : List Nat) : packLoop backoffs ampMap 0 words =
      words ++ firstWord ampMap ((packedWords backoffs).map signExtend) := by
  induction count generalizing backoffs ampMap words with
  | zero =>
    obtain rfl : backoffs = [] := List.length_eq_zero_iff.mp h.length
    simp [packLoop, packedWords, firstWord]
  | succ count ih =>
    have hlen := h.length
    rcases backoffs with _ | ⟨b0, _ | ⟨b1, _ | ⟨b2, _ | ⟨b3, _ | ⟨b4, _ | ⟨b5, _ | ⟨b6, _ | ⟨b7, backoffs⟩⟩⟩⟩⟩⟩⟩⟩
    case cons.cons.cons.cons.cons.cons.cons.cons =>
      have hrest : Nibbles (8 * count) backoffs := by
        refine ⟨?_, fun b hb => h.lt b (by simp [hb])⟩
        simp only [List.length_cons] at hlen
        omega
      have hchunk : ∀ b ∈ [b0, b1, b2, b3, b4, b5, b6, b7], b < 16 := fun b hb => h.lt b (by
        simp only [List.mem_cons, List.not_mem_nil, or_false] at hb ⊢
        tauto)
      rw [packLoop_chunk ampMap words hchunk, ih hrest, packedWords, List.map_cons, firstWord,
        List.append_assoc]
      congr 1
      rw [List.singleton_append]
      congr 1
      rcases (packedWords backoffs).map signExtend with _ | ⟨word, more⟩
      · rfl
      · rw [firstWord, Nat.zero_or]
    all_goals
      simp only [List.length_cons, List.length_nil] at hlen
      omega

/-- Every packed word fits 32 bits. -/
theorem packedWords_lt {backoffs : List Nat} (h : ∀ b ∈ backoffs, b < 16) :
    ∀ word ∈ packedWords backoffs, word < 2 ^ 32 := by
  fun_induction packedWords backoffs with
  | case1 b0 b1 b2 b3 b4 b5 b6 b7 backoffs ih =>
    intro word hword
    rw [List.mem_cons] at hword
    rcases hword with rfl | hword
    · refine @wordOf_lt [b0, b1, b2, b3, b4, b5, b6, b7] ?_
      intro b hb
      refine h b ?_
      simp only [List.mem_cons, List.not_mem_nil, or_false] at hb ⊢
      tauto
    · exact ih (fun b hb => h b (by simp [hb])) word hword
  | case2 => simp

/-- Eight nibbles make a word. -/
theorem length_packedWords (count : Nat) {backoffs : List Nat} (h : backoffs.length = 8 * count) :
    (packedWords backoffs).length = count := by
  fun_induction packedWords backoffs generalizing count with
  | case1 b0 b1 b2 b3 b4 b5 b6 b7 backoffs ih =>
    simp only [List.length_cons] at h
    obtain ⟨count, rfl⟩ : ∃ k, count = k + 1 := ⟨count - 1, by omega⟩
    rw [List.length_cons, ih count (by omega)]
  | case2 backoffs hshort =>
    rcases backoffs with _ | ⟨b0, _ | ⟨b1, _ | ⟨b2, _ | ⟨b3, _ | ⟨b4, _ | ⟨b5, _ | ⟨b6, _ | ⟨b7, backoffs⟩⟩⟩⟩⟩⟩⟩⟩
    case cons.cons.cons.cons.cons.cons.cons.cons => exact absurd rfl (hshort b0 b1 b2 b3 b4 b5 b6 b7 backoffs)
    all_goals
      simp only [List.length_cons, List.length_nil] at h
      rw [List.length_nil]
      omega

/-- The accumulator goes into the first word, and the number of words stays. -/
theorem length_firstWord (ampMap : Nat) (words : List Nat) : (firstWord ampMap words).length = words.length := by
  cases words with
  | nil => rfl
  | cons word words => rfl

/-! ## What is saved -/

/-- Words as the items of an array. -/
def numbers (words : List Nat) : List Json :=
  words.map fun (word : Nat) => .number (Double.ofInt word)

/-- Numbers that fit into the array are appended. -/
theorem appendNumbers_eq {t : Table Json} {words : List Nat} (h : t.entries.length + words.length ≤ t.capacity) :
    appendNumbers t words = some ⟨t.entries ++ numbers words, t.capacity⟩ := by
  unfold appendNumbers
  induction words generalizing t with
  | nil =>
    rw [numbers, List.map_nil, List.append_nil]
    rfl
  | cons word words ih =>
    rw [List.length_cons] at h
    have hadd : jsonArrayAdd t (.number (Double.ofInt word)) =
        some ⟨t.entries ++ [.number (Double.ofInt word)], t.capacity⟩ := by
      unfold jsonArrayAdd Table.add
      rw [if_neg (by omega)]
    rw [List.foldlM_cons, hadd]
    show List.foldlM _ _ words = _
    rw [ih (by
      show (t.entries ++ [_]).length + words.length ≤ t.capacity
      rw [List.length_append, List.length_singleton]
      omega)]
    simp [numbers]

/-- As many words as there were fit into the array. -/
theorem savedItems_eq (ampMap : Nat) {amInfile : List Json} {backoffs : List Nat}
    (h : Nibbles (8 * amInfile.length) backoffs) : savedItems ampMap amInfile backoffs =
      some (numbers (firstWord ampMap ((packedWords backoffs).map signExtend))) := by
  have hwords := packLoop_eq amInfile.length h ampMap []
  rw [List.nil_append] at hwords
  unfold savedItems
  rw [hwords, appendNumbers_eq]
  · rfl
  · show ([] : List Json).length + _ ≤ amInfile.length
    rw [length_firstWord, List.length_map, length_packedWords amInfile.length h.length, List.length_nil, Nat.zero_add]

/-- The words are saved as they are: none has the bit that is taken for a sign, and what the
accumulator held at first is within the first of them. -/
def WordsKept (ampMap : Nat) (words : List Nat) : Prop :=
  (∀ word ∈ words, word < 2 ^ 31) ∧ ∀ word ∈ words.head?, ampMap ||| word = word

instance (ampMap : Nat) (words : List Nat) : Decidable (WordsKept ampMap words) :=
  inferInstanceAs (Decidable (_ ∧ _))

/-- Extending the sign makes no word smaller. -/
theorem le_signExtend (word : Nat) : word ≤ signExtend word := by
  unfold signExtend
  split <;> omega

/-- A word below 2^31 is not extended, and no other one is kept. -/
theorem signExtend_eq_self_iff {word : Nat} : signExtend word = word ↔ word < 2 ^ 31 := by
  unfold signExtend
  split <;> omega

/-- No word is extended exactly if all are below 2^31. -/
theorem map_signExtend_eq_self_iff {words : List Nat} :
    words.map signExtend = words ↔ ∀ word ∈ words, word < 2 ^ 31 := by
  induction words with
  | nil => simp
  | cons word words ih =>
    rw [List.map_cons, List.cons.injEq, ih, signExtend_eq_self_iff, List.forall_mem_cons]

/-- What is saved are the words exactly if the words are kept. -/
theorem firstWord_eq_iff {ampMap : Nat} {words : List Nat} :
    firstWord ampMap (words.map signExtend) = words ↔ WordsKept ampMap words := by
  unfold WordsKept
  cases words with
  | nil => simp [firstWord]
  | cons word words =>
    rw [List.map_cons, firstWord, List.cons.injEq, map_signExtend_eq_self_iff, List.forall_mem_cons]
    simp only [List.head?_cons, Option.mem_def, Option.some.injEq, forall_eq']
    constructor
    · rintro ⟨hfirst, hrest⟩
      -- nothing that is set in the accumulator can be more than the word
      have hle : signExtend word ≤ word := by
        calc signExtend word ≤ ampMap ||| signExtend word := Nat.right_le_or
          _ = word := hfirst
      have hlt : word < 2 ^ 31 := signExtend_eq_self_iff.mp (le_antisymm hle (le_signExtend word))
      rw [signExtend_eq_self_iff.mpr hlt] at hfirst
      exact ⟨⟨hlt, hrest⟩, hfirst⟩
    · rintro ⟨⟨hlt, hrest⟩, hfirst⟩
      rw [signExtend_eq_self_iff.mpr hlt]
      exact ⟨hfirst, hrest⟩

/-- Every saved word fits 64 bits. -/
theorem firstWord_lt {ampMap : Nat} (hamp : ampMap < 2 ^ 64) {words : List Nat}
    (h : ∀ word ∈ words, word < 2 ^ 32) :
    ∀ word ∈ firstWord ampMap (words.map signExtend), word < 2 ^ 64 := by
  have hextend : ∀ word ∈ words, signExtend word < 2 ^ 64 := by
    intro word hword
    have hlt := h word hword
    unfold signExtend
    split <;> omega
  cases words with
  | nil =>
    intro word hword
    cases hword
  | cons word words =>
    rw [List.map_cons, firstWord]
    intro w hw
    rw [List.mem_cons] at hw
    rcases hw with rfl | hw
    · exact Nat.or_lt_two_pow hamp (hextend word List.mem_cons_self)
    · rw [List.mem_map] at hw
      rcases hw with ⟨w', hw', rfl⟩
      exact hextend w' (List.mem_cons_of_mem word hw')

/-- Small words are told apart by their numbers. -/
theorem numbers_injective {words words' : List Nat} (h : ∀ word ∈ words', word < 2 ^ 53)
    (heq : numbers words = numbers words') : words = words' := by
  induction words generalizing words' with
  | nil =>
    cases words' with
    | nil => rfl
    | cons word' words' => cases heq
  | cons word words ih =>
    cases words' with
    | nil => cases heq
    | cons word' words' =>
      unfold numbers at heq
      rw [List.map_cons, List.map_cons, List.cons.injEq, Json.number.injEq] at heq
      rw [Double.ofInt_injective (h word' List.mem_cons_self) heq.1,
        ih (fun w hw => h w (List.mem_cons_of_mem word' hw)) heq.2]

end Hpav
