import Mathlib.Tactic.Common
import Hpav.ConfFileModify
import Hpav.PsdCarriers

/-!
# Calibration files of any content

`conf_file_modify_psd_cali` on any text. Meant is that it always returns, and that a line not
of the form `(a-b,v)` changes no carrier (`Tolerant`). The code takes what `fgets` gives it
for a line, what its conversions do not read for what they read before, and the numbers for
indices. `Applicable` is what the text has to be like for that to go well.
-/

namespace Hpav

open CMem CScan Decimal

/-! ## The numbers of a line -/

/-- What is read of a token of the range. -/
def CalibrationLine.rangeNumber (line : CalibrationLine) (i : Nat) : Option Int :=
  line.carrierRange.bind fun range => (strtok 45 range)[i]?.bind scanInt

def CalibrationLine.valueNumber (line : CalibrationLine) : Option Int :=
  line.compensateValue.bind scanInt

/-- There is a value, and a range of two tokens. -/
def CalibrationLine.Complete (line : CalibrationLine) : Prop :=
  (∃ range first second, line.carrierRange = some range ∧ (strtok 45 range)[0]? = some first ∧
    (strtok 45 range)[1]? = some second) ∧ ∃ value, line.compensateValue = some value

/-- The last number that could be read. -/
def lastRead (number : CalibrationLine → Option Int) (lines : List CalibrationLine) : Option Int :=
  lines.reverse.findSome? number

/-- What the variables hold behind these lines. -/
def heard (lines : List CalibrationLine) : Scanned :=
  ⟨lastRead (·.rangeNumber 0) lines, lastRead (·.rangeNumber 1) lines, lastRead (·.valueNumber) lines⟩

/-- What the last of these lines comes to. -/
def asks (lines : List CalibrationLine) : Option Adjustment := do
  let value ← (heard lines).compensateValue
  let first ← (heard lines).firstIdx
  let last ← (heard lines).secondIdx
  if Permitted value then some ⟨first, last, value⟩ else none

/-- A line behind others can be read, or the others stand in for what it lacks. -/
structure Legible (before : List CalibrationLine) (line : CalibrationLine) : Prop where
  complete : line.Complete
  value : ∃ value, (heard (before ++ [line])).compensateValue = some value ∧
    (Permitted value → ∃ first last, (heard (before ++ [line])).firstIdx = some first ∧
      (heard (before ++ [line])).secondIdx = some last)

/-- The adjustments of lines behind others. -/
def asked (before : List CalibrationLine) : List CalibrationLine → List Adjustment
  | [] => []
  | line :: lines => (asks (before ++ [line])).toList ++ asked (before ++ [line]) lines

theorem lastRead_append_singleton (number : CalibrationLine → Option Int) (lines : List CalibrationLine)
    (line : CalibrationLine) :
    lastRead number (lines ++ [line]) = (number line).or (lastRead number lines) := by
  unfold lastRead
  rw [List.reverse_append, List.reverse_singleton, List.singleton_append, List.findSome?_cons]
  cases number line <;> rfl

theorem heard_append_singleton (lines : List CalibrationLine) (line : CalibrationLine) :
    heard (lines ++ [line]) = ⟨(line.rangeNumber 0).or (heard lines).firstIdx,
      (line.rangeNumber 1).or (heard lines).secondIdx, line.valueNumber.or (heard lines).compensateValue⟩ := by
  unfold heard
  simp only [lastRead_append_singleton]

theorem asked_append (before lines lines' : List CalibrationLine) :
    asked before (lines ++ lines') = asked before lines ++ asked (before ++ lines) lines' := by
  induction lines generalizing before with
  | nil => rw [List.nil_append, List.append_nil, asked, List.nil_append]
  | cons line lines ih =>
    have hbefore : before ++ [line] ++ lines = before ++ line :: lines := by
      rw [List.append_assoc, List.singleton_append]
    rw [List.cons_append, asked, asked, ih, hbefore, List.append_assoc]

/-- A turn of the loop: the variables behind the line, and what the line comes to. -/
theorem scanLine_eq_ok_iff {before : List CalibrationLine} {line : CalibrationLine}
    {result : Scanned × Option Adjustment} : scanLine (heard before) line = .ok result ↔
      Legible before line ∧ result = (heard (before ++ [line]), asks (before ++ [line])) := by
  have hheard := heard_append_singleton before line
  -- with all its tokens a line may still leave a number unread, and the variable
  -- keeps what it had
  by_cases hcomplete : line.Complete
  · rcases hcomplete with ⟨⟨range, first, second, hrange, hfirst, hsecond⟩, value, hvalue⟩
    have hzero : line.rangeNumber 0 = scanInt first := by
      unfold CalibrationLine.rangeNumber
      rw [hrange, Option.bind_some, hfirst, Option.bind_some]
    have hone : line.rangeNumber 1 = scanInt second := by
      unfold CalibrationLine.rangeNumber
      rw [hrange, Option.bind_some, hsecond, Option.bind_some]
    have htext : line.valueNumber = scanInt value := by
      unfold CalibrationLine.valueNumber
      rw [hvalue, Option.bind_some]
    rw [hzero, hone, htext] at hheard
    have hscan : scanLine (heard before) line =
        (initialized (heard (before ++ [line])).compensateValue).bind fun v =>
          if Permitted v then
            (initialized (heard (before ++ [line])).firstIdx).bind fun first =>
              (initialized (heard (before ++ [line])).secondIdx).bind fun last =>
                .ok (heard (before ++ [line]), some ⟨first, last, v⟩)
          else .ok (heard (before ++ [line]), none) := by
      rw [hheard]
      unfold scanLine
      simp only [hrange, initialized, hfirst, hsecond, copied, bind_ok, hvalue]
      rfl
    rw [hscan]
    have hlegible : Legible before line ↔ ∃ v, (heard (before ++ [line])).compensateValue = some v ∧
        (Permitted v → ∃ first last, (heard (before ++ [line])).firstIdx = some first ∧
          (heard (before ++ [line])).secondIdx = some last) :=
      ⟨fun h => h.value, fun h => ⟨⟨⟨range, first, second, hrange, hfirst, hsecond⟩, value, hvalue⟩, h⟩⟩
    rw [hlegible]
    unfold asks
    rcases (heard (before ++ [line])).compensateValue with _ | v
    · simp [initialized, Except.bind]
    · by_cases hv : Permitted v
      · rcases (heard (before ++ [line])).firstIdx with _ | a
        · simp [initialized, Except.bind, hv]
        · rcases (heard (before ++ [line])).secondIdx with _ | b
          · simp [initialized, Except.bind, hv]
          · simp [initialized, Except.bind, hv, eq_comm]
      · simp [initialized, Except.bind, hv, eq_comm]
  · -- a token is missing
    have hfault : ∃ f, scanLine (heard before) line = .error f := by
      unfold scanLine
      rcases hrange : line.carrierRange with _ | range
      · exact ⟨_, rfl⟩
      · rcases hfirst : (strtok 45 range)[0]? with _ | first
        · simp [initialized, copied, hfirst, bind_ok, bind_error]
        · rcases hsecond : (strtok 45 range)[1]? with _ | second
          · simp [initialized, copied, hfirst, hsecond, bind_ok, bind_error]
          · rcases hvalue : line.compensateValue with _ | value
            · simp [initialized, copied, hfirst, hsecond, bind_ok, bind_error]
            · exact absurd ⟨⟨range, first, second, hrange, hfirst, hsecond⟩, value, hvalue⟩ hcomplete
    rcases hfault with ⟨f, hf⟩
    rw [hf]
    constructor
    · intro h
      cases h
    · rintro ⟨h, -⟩
      exact absurd h.complete hcomplete

/-- The adjustments of the lines are there if all of them are legible. -/
theorem adjustments_eq_ok_iff {before lines : List CalibrationLine} {as : List Adjustment} :
    adjustments (heard before) lines = .ok as ↔
      (∀ pre line post, lines = pre ++ line :: post → Legible (before ++ pre) line) ∧ as = asked before lines := by
  -- on the lines, with those already heard as a parameter
  induction lines generalizing before as with
  | nil =>
    constructor
    · intro h
      cases h
      exact ⟨fun pre line post hsplit => by simp at hsplit, rfl⟩
    · rintro ⟨-, rfl⟩
      rfl
  | cons line lines ih =>
    have hstep : adjustments (heard before) (line :: lines) = (scanLine (heard before) line).bind fun s =>
        (adjustments s.1 lines).bind fun as => .ok (s.2.toList ++ as) := rfl
    rw [hstep, asked]
    constructor
    · intro h
      rcases hscan : scanLine (heard before) line with f | s
      · rw [hscan] at h
        cases h
      · rcases scanLine_eq_ok_iff.mp hscan with ⟨hlegible, rfl⟩
        rw [hscan] at h
        rcases hrest : adjustments (heard (before ++ [line])) lines with f | as'
        · simp only [Except.bind, hrest, reduceCtorEq] at h
        · simp only [Except.bind, hrest, Except.ok.injEq] at h
          rcases ih.mp hrest with ⟨hlines, rfl⟩
          refine ⟨?_, h.symm⟩
          intro pre line' post hsplit
          -- the line itself, or one behind it
          cases pre with
          | nil =>
            rw [List.nil_append, List.cons.injEq] at hsplit
            rw [List.append_nil, ← hsplit.1]
            exact hlegible
          | cons first pre =>
            rw [List.cons_append, List.cons.injEq] at hsplit
            have hlater := hlines pre line' post hsplit.2
            rwa [List.append_assoc, List.singleton_append, hsplit.1] at hlater
    · rintro ⟨hlines, rfl⟩
      have hlegible : Legible before line := by
        have hfirst := hlines [] line lines rfl
        rwa [List.append_nil] at hfirst
      have hrest : adjustments (heard (before ++ [line])) lines = .ok (asked (before ++ [line]) lines) := by
        refine ih.mpr ⟨?_, rfl⟩
        intro pre line' post hsplit
        rw [List.append_assoc, List.singleton_append]
        exact hlines (line :: pre) line' post (by rw [hsplit, List.cons_append])
      rw [scanLine_eq_ok_iff.mpr ⟨hlegible, rfl⟩]
      simp only [Except.bind, hrest]

/-! ## What is meant -/

/-- Some digits. -/
def Digits (ds : List UInt8) : Prop :=
  ds ≠ [] ∧ ∀ d ∈ ds, isDigit d = true

instance (ds : List UInt8) : Decidable (Digits ds) :=
  inferInstanceAs (Decidable (_ ∧ _))

/-- `(a-b,v)` with `a ≤ b`, and `b` a carrier that is there. -/
def OfForm (carriers : Nat) (line : List UInt8) : Prop :=
  ∃ a b sign v newline, Digits a ∧ Digits b ∧ Digits v ∧ (sign = [] ∨ sign = [45]) ∧
    (newline = [] ∨ newline = [10]) ∧ Decimal.value a ≤ Decimal.value b ∧ Decimal.value b < carriers ∧
    line = [40] ++ a ++ [45] ++ b ++ [44] ++ sign ++ v ++ [41] ++ newline

/-- What the tables hold of these lines of the file. -/
def tableOf (lines : List (List UInt8)) : List CalibrationLine :=
  (lines.flatMap (linePieces 20)).map parseCalibrationLine

/-- The carriers behind the lines. -/
def carriersBehind (amInfile : List Json) (table : List CalibrationLine) : Except Fault (List Nat) := do
  let c ← table.foldlM calibrateLine (Scanned.start, backoffArray amInfile)
  .ok c.2

/-- The modifier returns, and only lines of the form change carriers. -/
structure Tolerant (env : ModifyEnv) (inkaObj : Members) (input content : List UInt8) (amInfile : List Json) :
    Prop where
  returns : ∀ f, confFileModifyPsdCali env inkaObj input ≠ .error (.fault f)
  kept : ∀ before line after, fileLines content = before ++ line :: after → ¬ OfForm (8 * amInfile.length) line →
    ∀ backoffs backoffs', carriersBehind amInfile (tableOf before) = .ok backoffs →
      carriersBehind amInfile (tableOf (before ++ [line])) = .ok backoffs' → backoffs' = backoffs

/-- The lines fit into the tables, each can be read or is stood in for, with carriers that
are there, and what is not of the form leaves the carriers it names as they are. -/
structure Applicable (content : List UInt8) (amInfile : List Json) : Prop where
  fits : (tableOf (fileLines content)).length ≤ calibrationTableSize
  legible : ∀ pre line post, tableOf (fileLines content) = pre ++ line :: post → Legible pre line
  within : ∀ a ∈ asked [] (tableOf (fileLines content)), a.Within (8 * amInfile.length)
  harmless : ∀ before line after, fileLines content = before ++ line :: after → ¬ OfForm (8 * amInfile.length) line →
    ∀ (j b : Nat), (backoffArray amInfile)[j]? = some b →
      applyAll (asked (tableOf before) (tableOf [line])) j (applyAll (asked [] (tableOf before)) j b) =
        applyAll (asked [] (tableOf before)) j b

/-! ## What the code does -/

theorem tableOf_append (lines lines' : List (List UInt8)) :
    tableOf (lines ++ lines') = tableOf lines ++ tableOf lines' := by
  unfold tableOf
  rw [List.flatMap_append, List.map_append]

theorem parse_fgetsLines (content : List UInt8) :
    (fgetsLines 20 content.length content).map parseCalibrationLine = tableOf (fileLines content) := by
  rw [fgetsLines_eq (by decide)]
  rfl

theorem carriersBehind_eq_ok_iff {amInfile : List Json} {table : List CalibrationLine} {backoffs : List Nat} :
    carriersBehind amInfile table = .ok backoffs ↔
      (∀ pre line post, table = pre ++ line :: post → Legible pre line) ∧
        (∀ a ∈ asked [] table, a.Within (8 * amInfile.length)) ∧
        backoffs = (backoffArray amInfile).mapIdx (applyAll (asked [] table)) := by
  have hrun : carriersBehind amInfile table = .ok backoffs ↔
      ∃ vars', table.foldlM calibrateLine (Scanned.start, backoffArray amInfile) = .ok (vars', backoffs) := by
    unfold carriersBehind
    rcases table.foldlM calibrateLine (Scanned.start, backoffArray amInfile) with f | ⟨vars', backoffs'⟩
    · simp
    · simp
  have hstart : Scanned.start = heard [] := rfl
  rw [hrun, foldlM_calibrateLine, (nibbles_backoffArray amInfile).length, hstart]
  simp only [adjustments_eq_ok_iff, List.nil_append]
  constructor
  · rintro ⟨as, ⟨hlegible, rfl⟩, hwithin, hbackoffs⟩
    exact ⟨hlegible, hwithin, hbackoffs⟩
  · rintro ⟨hlegible, hwithin, hbackoffs⟩
    exact ⟨_, ⟨hlegible, rfl⟩, hwithin, hbackoffs⟩

/-- What was read so far was legible. -/
theorem carriersBehind_start {amInfile : List Json} {table table' : List CalibrationLine} {backoffs : List Nat}
    (h : carriersBehind amInfile (table ++ table') = .ok backoffs) :
    carriersBehind amInfile table = .ok ((backoffArray amInfile).mapIdx (applyAll (asked [] table))) := by
  rcases carriersBehind_eq_ok_iff.mp h with ⟨hlegible, hwithin, -⟩
  refine carriersBehind_eq_ok_iff.mpr ⟨?_, ?_, rfl⟩
  · intro pre line post hsplit
    exact hlegible pre line (post ++ table') (by rw [hsplit, List.append_assoc, List.cons_append])
  · intro a ha
    refine hwithin a ?_
    rw [asked_append]
    exact List.mem_append_left _ ha

/-- The calculation goes through if the lines fit into the tables and it does so line by line. -/
theorem calibrated_iff_carriersBehind {amInfile : List Json} {content : List UInt8} {backoffs : List Nat} :
    calibrated amInfile content = .ok backoffs ↔
      (tableOf (fileLines content)).length ≤ calibrationTableSize ∧
        carriersBehind amInfile (tableOf (fileLines content)) = .ok backoffs := by
  have hstart : Scanned.start = heard [] := rfl
  rw [calibrated_eq_ok_iff, carriersBehind_eq_ok_iff]
  unfold fileAdjustments
  simp only [parse_fgetsLines]
  by_cases hlong : calibrationTableSize < (tableOf (fileLines content)).length
  · simp [hlong, not_le.mpr hlong]
  · rw [if_neg hlong, hstart]
    simp only [adjustments_eq_ok_iff, List.nil_append, not_lt.mp hlong, true_and]
    constructor
    · rintro ⟨as, ⟨hlegible, rfl⟩, hwithin, hbackoffs⟩
      exact ⟨hlegible, hwithin, hbackoffs⟩
    · rintro ⟨hlegible, hwithin, hbackoffs⟩
      exact ⟨_, ⟨hlegible, rfl⟩, hwithin, hbackoffs⟩

/-- The modifier returns if the calculation goes through; what fails behind it has a number. -/
theorem psdCali_returns_iff {env : ModifyEnv} {inkaObj phy : Members} {input content : List UInt8}
    (hphy : jsonObjectGetObject inkaObj (text "phy") = some phy) (hfile : env.files.contents input = some content) :
    (∀ f, confFileModifyPsdCali env inkaObj input ≠ .error (.fault f)) ↔
      ∃ backoffs, calibrated ((jsonObjectGetArray phy (text "am_infile")).getD []) content = .ok backoffs := by
  unfold confFileModifyPsdCali inObject
  simp only [hfile, hphy]
  generalize jsonObjectGetArray phy (text "am_infile") = amInfile
  rcases calibrated (amInfile.getD []) content with f | backoffs
  · simp [Bind.bind, Except.bind]
  · refine ⟨fun _ => ⟨backoffs, rfl⟩, ?_⟩
    rintro - f h
    rcases amInfile with _ | items
    · cases h
    · rcases hsaved : savedItems env.uninitialized.toNat items backoffs with _ | saved
      · simp only [hsaved] at h
        cases h
      · simp only [hsaved] at h
        cases h

theorem mapIdx_eq_mapIdx_iff {backoffs : List Nat} {f g : Nat → Nat → Nat} :
    backoffs.mapIdx f = backoffs.mapIdx g ↔ ∀ (j b : Nat), backoffs[j]? = some b → f j b = g j b := by
  constructor
  · intro h j b hj
    have hat := congrArg (·[j]?) h
    simp only [List.getElem?_mapIdx, hj, Option.map_some, Option.some.injEq] at hat
    exact hat
  · intro h
    refine List.ext_getElem? ?_
    intro j
    rw [List.getElem?_mapIdx, List.getElem?_mapIdx]
    rcases hj : backoffs[j]? with _ | b
    · rfl
    · rw [Option.map_some, Option.map_some, h j b hj]

theorem applyAll_append (as as' : List Adjustment) (j b : Nat) :
    applyAll (as ++ as') j b = applyAll as' j (applyAll as j b) := by
  unfold applyAll
  rw [List.foldl_append]

/-- The modifier returns on a file, and no line that is not of the form changes a carrier,
exactly if the file is applicable. -/
theorem psdCali_tolerant_iff {env : ModifyEnv} {inkaObj phy : Members} {input content : List UInt8}
    (hphy : jsonObjectGetObject inkaObj (text "phy") = some phy) (hfile : env.files.contents input = some content) :
    Tolerant env inkaObj input content ((jsonObjectGetArray phy (text "am_infile")).getD []) ↔
      Applicable content ((jsonObjectGetArray phy (text "am_infile")).getD []) := by
  have hreturns := psdCali_returns_iff hphy hfile
  generalize (jsonObjectGetArray phy (text "am_infile")).getD [] = amInfile at hreturns ⊢
  -- the effect of a line, in the two spellings
  have hline : ∀ before line, (backoffArray amInfile).mapIdx (applyAll (asked [] (tableOf (before ++ [line])))) =
      (backoffArray amInfile).mapIdx (applyAll (asked [] (tableOf before))) ↔
      ∀ (j b : Nat), (backoffArray amInfile)[j]? = some b →
        applyAll (asked (tableOf before) (tableOf [line])) j (applyAll (asked [] (tableOf before)) j b) =
          applyAll (asked [] (tableOf before)) j b := by
    intro before line
    rw [mapIdx_eq_mapIdx_iff, tableOf_append, asked_append, List.nil_append]
    simp only [applyAll_append]
  constructor
  · rintro ⟨hends, hkept⟩
    rcases hreturns.mp hends with ⟨backoffs, hall⟩
    rcases calibrated_iff_carriersBehind.mp hall with ⟨hfits, hrun⟩
    rcases carriersBehind_eq_ok_iff.mp hrun with ⟨hlegible, hwithin, -⟩
    refine ⟨hfits, hlegible, hwithin, ?_⟩
    intro before line after hsplit hform
    have hsplit' : fileLines content = (before ++ [line]) ++ after := by
      rw [hsplit, List.append_assoc, List.singleton_append]
    have hrun' := hrun
    rw [hsplit', tableOf_append] at hrun
    rw [hsplit, tableOf_append] at hrun'
    have hsame := hkept before line after hsplit hform _ _ (carriersBehind_start hrun') (carriersBehind_start hrun)
    exact (hline before line).mp hsame
  · rintro ⟨hfits, hlegible, hwithin, hharmless⟩
    have hrun := carriersBehind_eq_ok_iff.mpr ⟨hlegible, hwithin, rfl⟩
    refine ⟨hreturns.mpr ⟨_, calibrated_iff_carriersBehind.mpr ⟨hfits, hrun⟩⟩, ?_⟩
    intro before line after hsplit hform backoffs backoffs' hbefore hbehind
    rw [(carriersBehind_eq_ok_iff.mp hbefore).2.2, (carriersBehind_eq_ok_iff.mp hbehind).2.2]
    exact (hline before line).mpr (hharmless before line after hsplit hform)

/-- A file, and a map of 96 carriers. -/
def calibrationOf (content : List UInt8) : ModifyEnv where
  files :=
    { contents := fun name => if name = text "calibration.conf" then some content else none
      writable := fun _ => true }
  uninitialized := 0

def twelveWords : Members :=
  [(text "phy", .object [(text "am_infile", .array (numbers (List.replicate 12 0x22222222)))])]

/-- One line of the form is fine. -/
theorem psdCali_tolerant_oneLine : Tolerant (calibrationOf (text "(90-91,2)\n")) twelveWords
    (text "calibration.conf") (text "(90-91,2)\n") (numbers (List.replicate 12 0x22222222)) := by
  have hphy : jsonObjectGetObject twelveWords (text "phy") =
      some [(text "am_infile", .array (numbers (List.replicate 12 0x22222222)))] := rfl
  refine (psdCali_tolerant_iff hphy rfl).mpr ?_
  have htable : tableOf (fileLines (text "(90-91,2)\n")) = [⟨some (text "90-91"), some (text "2\n")⟩] := by
    decide +kernel
  have hasked : asked [] [⟨some (text "90-91"), some (text "2\n")⟩] = [⟨90, 91, 2⟩] := by
    decide +kernel
  constructor
  · rw [htable]
    decide
  · rw [htable]
    intro pre line post hsplit
    rcases pre with _ | ⟨first, pre⟩
    · rw [List.nil_append, List.cons.injEq] at hsplit
      rw [← hsplit.1]
      exact ⟨⟨⟨_, text "90", text "91", rfl, by decide +kernel, by decide +kernel⟩, _, rfl⟩, 2,
        by decide +kernel, fun _ => ⟨90, 91, by decide +kernel, by decide +kernel⟩⟩
    · simp at hsplit
  · rw [htable, hasked]
    intro a ha
    rw [List.mem_singleton.mp ha]
    exact Or.inr (by decide)
  · have hlines : fileLines (text "(90-91,2)\n") = [text "(90-91,2)\n"] := by decide +kernel
    intro before line after hsplit hform
    rw [hlines] at hsplit
    rcases before with _ | ⟨first, before⟩
    · rw [List.nil_append, List.cons.injEq] at hsplit
      refine absurd ?_ hform
      rw [← hsplit.1]
      exact ⟨text "90", text "91", [], text "2", [10], by decide +kernel, by decide +kernel, by decide +kernel,
        Or.inl rfl, Or.inr rfl, by decide +kernel, by decide +kernel, by decide +kernel⟩
    · simp at hsplit

/-- On a blank line the modifier does not return. -/
theorem psdCali_blankLine : ¬ Tolerant (calibrationOf (text "\n")) twelveWords (text "calibration.conf")
    (text "\n") (numbers (List.replicate 12 0x22222222)) := by
  intro htolerant
  refine htolerant.returns .nullDeref ?_
  rfl

end Hpav
