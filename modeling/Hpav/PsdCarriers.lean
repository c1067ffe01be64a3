import Mathlib.Tactic.Common
import Hpav.PsdCali

/-!
# What a calibration does to the carriers

The calculation of `conf_file_modify_psd_cali` on lines whose three numbers can be read.
Meant is that the carriers of the eleven notches stay as they are, and those without power,
and that every other carrier goes by the lines that cover it (`Calculated`). The loop of
`Is_notched_carrier` looks at six of the notches only, so a carrier of the other five stays
as it is exactly if the lines happen to leave it there.
-/

namespace Hpav

open CMem CScan

/-! ## Lines and their numbers -/

/-- The three numbers of a line can be read. -/
def CalibrationLine.Reads (line : CalibrationLine) (a : Adjustment) : Prop :=
  ∃ range value first second, line = ⟨some range, some value⟩ ∧ (strtok 45 range)[0]? = some first ∧
    (strtok 45 range)[1]? = some second ∧ scanInt first = some a.first ∧ scanInt second = some a.last ∧
    scanInt value = some a.value

/-- A line with its numbers. -/
structure NumberedLine where
  line : CalibrationLine
  numbers : Adjustment
  reads : line.Reads numbers

/-- Even, not zero, and from -28 to 28. -/
def Permitted (value : Int) : Prop :=
  value % 2 = 0 ∧ (-28 ≤ value ∧ value ≤ 28) ∧ value ≠ 0

instance (value : Int) : Decidable (Permitted value) :=
  inferInstanceAs (Decidable (_ ∧ _ ∧ _))

theorem scanLine_of_reads {line : CalibrationLine} {a : Adjustment} (h : line.Reads a) (vars : Scanned) :
    scanLine vars line =
      .ok (⟨some a.first, some a.last, some a.value⟩, if Permitted a.value then some a else none) := by
  rcases h with ⟨range, value, first, second, rfl, hfirst, hsecond, ha, hb, hv⟩
  unfold scanLine
  simp only [initialized, copied, hfirst, hsecond, bind_ok, ha, hb, hv, Option.some_or]
  by_cases hpermitted : Permitted a.value
  · rw [if_pos hpermitted]
    exact if_pos hpermitted
  · rw [if_neg hpermitted]
    exact if_neg hpermitted

/-- The adjustments of numbered lines are those with a permitted value. -/
theorem adjustments_of_reads (lines : List NumberedLine) (vars : Scanned) :
    adjustments vars (lines.map (·.line)) =
      .ok ((lines.map (·.numbers)).filter fun a => Permitted a.value) := by
  induction lines generalizing vars with
  | nil => rfl
  | cons l lines ih =>
    have hstep : adjustments vars ((l :: lines).map (·.line)) = (scanLine vars l.line).bind fun s =>
        (adjustments s.1 (lines.map (·.line))).bind fun as => .ok (s.2.toList ++ as) := rfl
    rw [hstep, scanLine_of_reads l.reads]
    show (adjustments _ (lines.map (·.line))).bind _ = _
    rw [ih, List.map_cons]
    by_cases hpermitted : Permitted l.numbers.value
    · rw [List.filter_cons_of_pos (by simpa using hpermitted)]
      simp only [if_pos hpermitted]
      rfl
    · rw [List.filter_cons_of_neg (by simpa using hpermitted)]
      simp only [if_neg hpermitted]
      rfl

/-! ## What is meant -/

/-- The carrier is in one of these ranges. -/
def InRanges (ranges : List (Int × Int)) (carrier : Nat) : Prop :=
  ∃ range ∈ ranges, range.1 ≤ carrier ∧ (carrier : Int) ≤ range.2

instance (ranges : List (Int × Int)) (carrier : Nat) : Decidable (InRanges ranges carrier) :=
  inferInstanceAs (Decidable (∃ range ∈ ranges, _))

/-- The carrier is in one of the eleven notches. -/
abbrev Notched (carrier : Nat) : Prop :=
  InRanges arrayOfNotchedArrays carrier

/-- It is in one of the last five. -/
abbrev LateNotched (carrier : Nat) : Prop :=
  InRanges (arrayOfNotchedArrays.drop 6) carrier

/-- The effect of a line that covers a carrier. -/
def clampBackoff (backoff value : Int) : Int :=
  max 0 (min 14 (backoff - value / 2))

/-- The effect of a line on a carrier. -/
def lineEffect (a : Adjustment) (carrier : Nat) (backoff : Int) : Int :=
  if a.first ≤ carrier ∧ (carrier : Int) ≤ a.last ∧ Permitted a.value then clampBackoff backoff a.value else backoff

/-- The effect of all the lines, in the order of the file. -/
def linesEffect (as : List Adjustment) (carrier : Nat) (backoff : Int) : Int :=
  as.foldl (fun b a => lineEffect a carrier b) backoff

/-- What the calculation should come to. -/
structure Calculated (as : List Adjustment) (backoffs backoffs' : List Nat) : Prop where
  length : backoffs'.length = backoffs.length
  kept : ∀ (j b : Nat), backoffs[j]? = some b → Notched j ∨ b = psdNotched → backoffs'[j]? = some b
  changed : ∀ (j b : Nat), backoffs[j]? = some b → ¬ Notched j → b ≠ psdNotched →
    ∃ b' : Nat, backoffs'[j]? = some b' ∧ (b' : Int) = linesEffect as j b ∧ b' ≠ psdNotched

/-! ## What the code does -/

theorem isNotchedCarrier_iff {carrier backoff : Nat} :
    isNotchedCarrier carrier backoff = true ↔
      backoff = psdNotched ∨ InRanges (arrayOfNotchedArrays.take 6) carrier := by
  unfold isNotchedCarrier InRanges
  rw [Bool.or_eq_true, decide_eq_true_iff, List.any_eq_true]
  simp only [decide_eq_true_iff]

theorem notched_iff {carrier : Nat} :
    Notched carrier ↔ InRanges (arrayOfNotchedArrays.take 6) carrier ∨ LateNotched carrier := by
  unfold Notched LateNotched InRanges
  conv_lhs => rw [← List.take_append_drop 6 arrayOfNotchedArrays]
  simp only [List.mem_append, or_and_right, exists_or]

/-- The ranges do not overlap. -/
theorem not_early_of_late {carrier : Nat} (h : LateNotched carrier) :
    ¬ InRanges (arrayOfNotchedArrays.take 6) carrier := by
  have hlate : 737 ≤ carrier := by
    rcases h with ⟨range, hrange, hfirst, -⟩
    simp only [arrayOfNotchedArrays, List.drop_succ_cons, List.drop_zero, List.mem_cons, List.not_mem_nil,
      or_false] at hrange
    rcases hrange with rfl | rfl | rfl | rfl | rfl
    all_goals
      simp only at hfirst
      omega
  rintro ⟨range, hrange, -, hlast⟩
  simp only [arrayOfNotchedArrays, List.take_succ_cons, List.take_zero, List.mem_cons, List.not_mem_nil,
    or_false] at hrange
  rcases hrange with rfl | rfl | rfl | rfl | rfl | rfl
  all_goals
    simp only at hlast
    omega

/-- A carrier that is looked at as notched stays as it is. -/
theorem applyAll_notched {as : List Adjustment} {carrier backoff : Nat}
    (h : isNotchedCarrier carrier backoff = true) : applyAll as carrier backoff = backoff := by
  induction as with
  | nil => rfl
  | cons a as ih =>
    have hstep : a.apply carrier backoff = backoff := by
      unfold Adjustment.apply calibrateCarrier
      rw [if_pos h, ite_self]
    show applyAll as carrier (a.apply carrier backoff) = backoff
    rw [hstep, ih]

/-- Any other carrier goes by the clamped differences, and never becomes 15. -/
theorem apply_of_not_notched {a : Adjustment} {carrier backoff : Nat} (ha : Permitted a.value)
    (hearly : ¬ InRanges (arrayOfNotchedArrays.take 6) carrier) (hb : backoff < psdNotched) :
    (a.apply carrier backoff : Int) = lineEffect a carrier backoff ∧ a.apply carrier backoff < psdNotched := by
  have hnot : ¬ isNotchedCarrier carrier backoff = true := by
    rw [isNotchedCarrier_iff]
    rintro (h | h)
    · omega
    · exact hearly h
  have hfifteen : psdNotched = 15 := rfl
  have hhalf : a.value.tdiv 2 = a.value / 2 := Int.tdiv_eq_ediv_of_dvd (Int.dvd_of_emod_eq_zero ha.1)
  unfold Adjustment.apply lineEffect
  by_cases hin : a.first ≤ carrier ∧ (carrier : Int) ≤ a.last
  · rw [if_pos hin, if_pos ⟨hin.1, hin.2, ha⟩]
    unfold calibrateCarrier clampBackoff
    rw [if_neg hnot, hhalf]
    simp only
    split
    · omega
    · split
      · omega
      · omega
  · rw [if_neg hin, if_neg fun h => hin ⟨h.1, h.2.1⟩]
    exact ⟨rfl, hb⟩

theorem applyAll_of_not_notched {as : List Adjustment} (has : ∀ a ∈ as, Permitted a.value) {carrier backoff : Nat}
    (hearly : ¬ InRanges (arrayOfNotchedArrays.take 6) carrier) (hb : backoff < psdNotched) :
    (applyAll as carrier backoff : Int) = linesEffect as carrier backoff ∧
      applyAll as carrier backoff < psdNotched := by
  induction as generalizing backoff with
  | nil => exact ⟨rfl, hb⟩
  | cons a as ih =>
    rcases apply_of_not_notched (has a List.mem_cons_self) hearly hb with ⟨heffect, hlt⟩
    rcases ih (fun a' ha' => has a' (List.mem_cons_of_mem a ha')) hlt with ⟨hrest, hrestlt⟩
    refine ⟨?_, hrestlt⟩
    show (applyAll as carrier (a.apply carrier backoff) : Int) =
      linesEffect as carrier (lineEffect a carrier backoff)
    rw [hrest, heffect]

/-- Lines whose value is not permitted have no effect. -/
theorem linesEffect_filter (as : List Adjustment) (carrier : Nat) (backoff : Int) :
    linesEffect (as.filter fun a => Permitted a.value) carrier backoff = linesEffect as carrier backoff := by
  induction as generalizing backoff with
  | nil => rfl
  | cons a as ih =>
    by_cases ha : Permitted a.value
    · rw [List.filter_cons_of_pos (by simpa using ha)]
      exact ih _
    · have hnone : lineEffect a carrier backoff = backoff := if_neg fun h => ha h.2.2
      rw [List.filter_cons_of_neg (by simpa using ha), ih]
      show linesEffect as carrier backoff = linesEffect as carrier (lineEffect a carrier backoff)
      rw [hnone]

/-! ## The calculation -/

/-- Lines within the array are calculated, and rightly exactly if those that cover a carrier
of the last five notches leave it as it is. -/
theorem calculation_iff {count : Nat} {backoffs : List Nat} (hbackoffs : Nibbles count backoffs)
    (lines : List NumberedLine) (hinside : ∀ l ∈ lines, 0 ≤ l.numbers.first ∧ l.numbers.last < count)
    (vars : Scanned) :
    ∃ vars' backoffs', (lines.map (·.line)).foldlM calibrateLine (vars, backoffs) = .ok (vars', backoffs') ∧
      (Calculated (lines.map (·.numbers)) backoffs backoffs' ↔
        ∀ (j b : Nat), backoffs[j]? = some b → LateNotched j → b ≠ psdNotched →
          linesEffect (lines.map (·.numbers)) j b = b) := by
  generalize has : ((lines.map (·.numbers)).filter fun a => Permitted a.value) = as
  have hpermitted : ∀ a ∈ as, Permitted a.value := by
    intro a ha
    rw [← has, List.mem_filter] at ha
    simpa using ha.2
  have hwithin : ∀ a ∈ as, a.Within backoffs.length := by
    intro a ha
    rw [← has, List.mem_filter, List.mem_map] at ha
    rcases ha with ⟨⟨l, hl, rfl⟩, -⟩
    rw [hbackoffs.length]
    exact Or.inr (hinside l hl)
  have hread : adjustments vars (lines.map (·.line)) = .ok as := by
    rw [adjustments_of_reads, has]
  rcases foldlM_calibrateLine.mpr ⟨as, hread, hwithin, rfl⟩ with ⟨vars', hrun⟩
  refine ⟨vars', _, hrun, ?_⟩
  have hget : ∀ (j b : Nat), backoffs[j]? = some b →
      (backoffs.mapIdx (applyAll as))[j]? = some (applyAll as j b) := by
    intro j b hj
    rw [List.getElem?_mapIdx, hj]
    rfl
  have hlt : ∀ (j b : Nat), backoffs[j]? = some b → b ≠ psdNotched → b < psdNotched := by
    intro j b hj hne
    have hsixteen := hbackoffs.lt b (List.mem_of_getElem? hj)
    have hfifteen : psdNotched = 15 := rfl
    omega
  -- a carrier outside the first six notched ranges is adjusted line by line
  have heffect : ∀ (j b : Nat), ¬ InRanges (arrayOfNotchedArrays.take 6) j → b < psdNotched →
      (applyAll as j b : Int) = linesEffect (lines.map (·.numbers)) j b ∧ applyAll as j b < psdNotched := by
    intro j b hearly hb
    have hall := applyAll_of_not_notched hpermitted hearly hb
    rw [← linesEffect_filter, has]
    exact hall
  constructor
  · -- a late notch keeps its value only if the lines add nothing to it
    intro hcalculated j b hj hlate hne
    have hkept := hcalculated.kept j b hj (Or.inl (notched_iff.mpr (Or.inr hlate)))
    rw [hget j b hj, Option.some.injEq] at hkept
    rw [← (heffect j b (not_early_of_late hlate) (hlt j b hj hne)).1, hkept]
  · intro hlate
    refine ⟨by rw [List.length_mapIdx], ?_, ?_⟩
    · intro j b hj hnotched
      rw [hget j b hj, Option.some.injEq]
      by_cases hne : b = psdNotched
      · exact applyAll_notched (isNotchedCarrier_iff.mpr (Or.inl hne))
      · rcases notched_iff.mp (hnotched.resolve_right hne) with hearly | hlatej
        · exact applyAll_notched (isNotchedCarrier_iff.mpr (Or.inr hearly))
        · -- the code does not see this notch, but the lines leave the carrier there
          have hsame := (heffect j b (not_early_of_late hlatej) (hlt j b hj hne)).1
          rw [hlate j b hj hlatej hne] at hsame
          exact_mod_cast hsame
    · intro j b hj hnotched hne
      have hearly : ¬ InRanges (arrayOfNotchedArrays.take 6) j := fun h => hnotched (notched_iff.mpr (Or.inl h))
      rcases heffect j b hearly (hlt j b hj hne) with ⟨heq, hbelow⟩
      exact ⟨applyAll as j b, hget j b hj, heq, hbelow.ne⟩

/-- `(90-91,2)` -/
def openLine : NumberedLine where
  line := ⟨some [57, 48, 45, 57, 49], some [50]⟩
  numbers := ⟨90, 91, 2⟩
  reads := ⟨_, _, [57, 48], [57, 49], rfl, by decide +kernel⟩

/-- Outside the notches a line is right. -/
theorem calculation_openLine : ∃ vars' backoffs',
    ([openLine].map (·.line)).foldlM calibrateLine (Scanned.start, List.replicate 96 2) = .ok (vars', backoffs') ∧
      Calculated ([openLine].map (·.numbers)) (List.replicate 96 2) backoffs' := by
  have hnibbles : Nibbles 96 (List.replicate 96 2) := by
    refine ⟨List.length_replicate, ?_⟩
    intro b hb
    rw [List.eq_of_mem_replicate hb]
    decide
  have hinside : ∀ l ∈ [openLine], 0 ≤ l.numbers.first ∧ l.numbers.last < (96 : Nat) := by
    intro l hl
    rw [List.mem_singleton.mp hl]
    decide
  rcases calculation_iff hnibbles [openLine] hinside Scanned.start with ⟨vars', backoffs', hrun, hiff⟩
  refine ⟨vars', backoffs', hrun, hiff.mpr ?_⟩
  -- the array ends before the late notches begin
  intro j b hj hlate
  have hlength : j < 96 := by
    have hin := (List.getElem?_eq_some_iff.mp hj).1
    rwa [List.length_replicate] at hin
  have hout : ∀ j < 96, ¬ LateNotched j := by decide
  exact absurd hlate (hout j hlength)

/-- `(737-738,2)` changes two carriers of a notch. -/
theorem calculation_lateNotch : ∃ vars' backoffs',
    [(⟨some [55, 51, 55, 45, 55, 51, 56], some [50]⟩ : CalibrationLine)].foldlM calibrateLine
        (Scanned.start, List.replicate 744 2) = .ok (vars', backoffs') ∧
      ¬ Calculated [⟨737, 738, 2⟩] (List.replicate 744 2) backoffs' := by
  refine ⟨⟨some 737, some 738, some 2⟩, List.replicate 737 2 ++ [1, 1] ++ List.replicate 5 2,
    by decide +kernel, ?_⟩
  intro hcalculated
  have hkept := hcalculated.kept 737 2 (by decide +kernel) (Or.inl (by decide))
  exact absurd hkept (by decide +kernel)

end Hpav
