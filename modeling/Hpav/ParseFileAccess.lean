import Mathlib.Tactic.Common
import Hpav.FileCommand
import Hpav.Lib.CallTrace

/-!
# Parsing the command line of a file access

`parse_mtk_vs_file_access` runs over its arguments with an index and leaves what it found in a
table that is static: the parameter, the name of a file, and a flag that is never cleared. The
command that one call finds is a function of the words (`findRequest`, `parseTable_spec`);
`parseTable_meets_iff` says, for any earlier calls, when it is the one that was asked for.
-/

namespace Hpav

open CMem CallTrace

/-! ## The table and the loops -/

/-- `struct mtk_vs_file_access_command_t` -/
structure CommandEntry where
  word : CommandWord
  parameter : CString
  fileName : CString
  allFlag : Bool

/-- The table as the program starts with it. -/
def initialTable : List CommandEntry :=
  mtkVsFileAccessCommands.map fun word => ⟨word, [], [], false⟩

/-- `argv[idx]`. The reads are recorded; outside of the vector nothing is known of the memory. -/
def argumentAt (argv : List CString) (idx : Int) : Calls Int Fault CString := do
  call idx
  if idx < 0 then leave .outOfBounds
  else
    match argv[idx.toNat]? with
    | none => leave .outOfBounds
    | some a => pure a

/-- How the first loop ends: with `return NULL`, or with a table, a command and an index. A
command is its place in the table, the place behind the table is that of the last entry, and
`none` is NULL. -/
inductive WordEnd where
  | returnNull (table : List CommandEntry)
  | found (table : List CommandEntry) (command : Option Nat) (idx : Int)

/-- The entry at `cmdIdx` is the one for the word at `idx`: it is cleared and gets its operand. -/
def takeWord (argv : List CString) (table : List CommandEntry) (cmdIdx : Nat) (entry : CommandEntry) (idx : Int) :
    Calls Int Fault WordEnd :=
  let cleared := table.set cmdIdx { entry with parameter := [], fileName := [] }
  if entry.word.parseNext then
    if idx + 1 ≥ argv.length then pure (.returnNull cleared)
    else do
      let next ← argumentAt argv (idx + 1)
      if entry.word.op = opWrite ∧ entry.word.fileType = fileTypeSimage ∧ next = text "input" then
        -- `idx -= 2`, and one more behind the inner loop
        pure (.found cleared (some cmdIdx) (idx + 1 - 2 + 1))
      else do
        let parameter ← ofExcept (strcpy 32 next)
        pure (.found (table.set cmdIdx { entry with parameter, fileName := [] }) (some cmdIdx) (idx + 1 + 1))
  else pure (.found cleared (some cmdIdx) (idx + 1))

/-- The first `while`, for at most so many turns. -/
def wordLoop (argv : List CString) : Nat → List CommandEntry → Option Nat → Int → Calls Int Fault (Option WordEnd)
  | 0, _, _, _ => pure none
  | turns + 1, table, command, idx =>
    if idx < argv.length then do
      let word ← argumentAt argv idx
      let cmdIdx := table.findIdx fun entry => word = entry.word.name
      match table[cmdIdx]? with
      | none => wordLoop argv turns table (some cmdIdx) (idx + 1)
      | some entry => do
        let found ← takeWord argv table cmdIdx entry idx
        pure (some found)
    else pure (some (.found table command idx))

/-- How the second loop ends: with `return NULL`, or with the option that was parsed. -/
inductive FileEnd where
  | returnNull (table : List CommandEntry)
  | parsed (table : List CommandEntry) (inputOutputParsed : FileFlag) (idx : Int)

/-- The option that a word stands for. -/
def fileKeyword (word : CString) : FileFlag :=
  if word = text "input" then .input else if word = text "output" then .output else .none

/-- The second `while`, for a command of the table that needs a file. -/
def fileLoop (argv : List CString) (cmdIdx : Nat) (entry : CommandEntry) (table : List CommandEntry) :
    Nat → Int → Calls Int Fault (Option FileEnd)
  | 0, _ => pure none
  | turns + 1, idx =>
    if idx < argv.length then do
      let word ← argumentAt argv idx
      let inputOutputParsed := fileKeyword word
      if inputOutputParsed ≠ .none then
        if idx + 1 ≥ argv.length then pure (some (.returnNull table))
        else do
          let name ← argumentAt argv (idx + 1)
          let fileName ← ofExcept (strcpy 128 name)
          pure (some (.parsed (table.set cmdIdx { entry with fileName }) inputOutputParsed (idx + 1 + 1)))
      else fileLoop argv cmdIdx entry table turns (idx + 1)
    else pure (some (.parsed table .none idx))

/-- What is left to do once the file is parsed. -/
def finishParse (argv : List CString) (cmdIdx : Nat) (entry : CommandEntry) :
    FileEnd → Calls Int Fault (Option Nat × List CommandEntry)
  | .returnNull table => pure (none, table)
  | .parsed table inputOutputParsed idx =>
    if inputOutputParsed ≠ entry.word.fileFlag then pure (none, table)
    else if idx < argv.length then do
      let word ← argumentAt argv idx
      if word = text "all" then
        pure (some cmdIdx, table.modify cmdIdx fun entry => { entry with allFlag := true })
      else pure (some cmdIdx, table)
    else pure (some cmdIdx, table)

/-- The part of the function behind the first loop, for a command of the table. -/
def takeFile (argv : List CString) (cmdIdx : Nat) (entry : CommandEntry) (table : List CommandEntry) (idx : Int) :
    Calls Int Fault (Option (Option Nat × List CommandEntry)) := do
  match ← if entry.word.fileFlag = .none then pure (some (FileEnd.parsed table .none idx))
      else fileLoop argv cmdIdx entry table (argv.length + 1) idx with
  | none => pure none
  | some file => do
    let returned ← finishParse argv cmdIdx entry file
    pure (some returned)

/-- `parse_mtk_vs_file_access`: the place of the command that is returned, and the table. -/
def parseTable (table : List CommandEntry) (argv : List CString) :
    Calls Int Fault (Option (Option Nat × List CommandEntry)) := do
  match ← wordLoop argv (argv.length + 1) table none 0 with
  | none => pure none
  | some (.returnNull table) => pure (some (none, table))
  | some (.found _ none _) => leave .nullDeref
  | some (.found table (some cmdIdx) idx) =>
    match table[cmdIdx]? with
    -- the last entry needs no file and is no command
    | none => pure (some (none, table))
    | some entry => takeFile argv cmdIdx entry table idx

/-! ## What a call is asked for -/

/-- A command with what was given to it. -/
structure Request where
  command : CommandWord
  parameter : CString
  fileName : CString
  all : Bool

def commandNamed (word : CString) : Option CommandWord :=
  mtkVsFileAccessCommands.find? fun command => word = command.name

/-- The operand of a command, empty where it has none, and the words behind it. That of `simage` may
be left out in front of `input`. -/
def operand (command : CommandWord) (behind : List CString) : Option (CString × List CString) :=
  if command.parseNext then
    match behind with
    | [] => none
    | next :: rest =>
      if command.op = opWrite ∧ command.fileType = fileTypeSimage ∧ next = text "input" then some ([], next :: rest)
      else some (next, rest)
  else some ([], behind)

/-- The first name that is given with an option of this kind, and the words behind it. -/
def matchingOption (flag : FileFlag) : List CString → Option (CString × List CString)
  | [] => none
  | word :: rest =>
    if fileKeyword word = flag then
      match rest with
      | [] => none
      | name :: behind => some (name, behind)
    else matchingOption flag rest

def givenAll (rest : List CString) : Bool :=
  rest.head? = some (text "all")

/-- The request of a command word, if the words behind it make one. -/
def complete (command : CommandWord) (behind : List CString) : Option Request :=
  match operand command behind with
  | none => none
  | some (parameter, rest) =>
    if command.fileFlag = .none then some ⟨command, parameter, [], givenAll rest⟩
    else
      match matchingOption command.fileFlag rest with
      | none => none
      | some (fileName, last) => some ⟨command, parameter, fileName, givenAll last⟩

/-- The first command word that makes a request. -/
def requested : List CString → Option Request
  | [] => none
  | word :: behind => ((commandNamed word).bind fun command => complete command behind).or (requested behind)

/-! ## What a call finds -/

/-- The first command word, and what is behind it. -/
def firstCommand : List CString → Option (CommandWord × List CString)
  | [] => none
  | word :: behind =>
    match commandNamed word with
    | none => firstCommand behind
    | some command => some (command, behind)

/-- The first option of either kind, its name, and the words behind. -/
def firstOption : List CString → Option (FileFlag × CString × List CString)
  | [] => none
  | word :: rest =>
    if fileKeyword word ≠ .none then
      match rest with
      | [] => none
      | name :: behind => some (fileKeyword word, name, behind)
    else firstOption rest

/-- The first option is the first word that is a keyword, with the name behind it. -/
theorem firstOption_cons (word : CString) (rest : List CString) :
    firstOption (word :: rest) = if fileKeyword word ≠ .none then
      (match rest with
        | [] => none
        | name :: behind => some (fileKeyword word, name, behind))
      else firstOption rest := by
  cases rest <;> rfl

/-- A command needs the file of the first option. -/
def findFile (command : CommandWord) (parameter : CString) (rest : List CString) : Except Fault (Option Request) :=
  match firstOption rest with
  | none => .ok none
  | some (flag, name, last) => do
    let fileName ← strcpy 128 name
    if flag ≠ command.fileFlag then .ok none else .ok (some ⟨command, parameter, fileName, givenAll last⟩)

/-- The command that one call finds, whatever the table holds. -/
def findRequest (argv : List CString) : Except Fault (Option Request) :=
  match firstCommand argv with
  | none => .ok none
  | some (command, behind) =>
    match operand command behind with
    | none => .ok none
    | some (operand, rest) => do
      let parameter ← strcpy 32 operand
      if command.fileFlag = .none then .ok (some ⟨command, parameter, [], givenAll rest⟩)
      else findFile command parameter rest

/-! ## The loops, word by word -/

/-- A copy that stays inside its buffer is the string. -/
theorem strcpy_eq_ok {size : Nat} {s t : CString} (h : strcpy size s = .ok t) : s.length < size ∧ t = s := by
  unfold strcpy at h
  split at h
  · exact ⟨‹_›, (Except.ok.inj h).symm⟩
  · cases h

section Loops

variable {argv : List CString} {table : List CommandEntry}

/-- The word at a position is read, and the rest is behind it. -/
theorem argumentAt_drop {j : Nat} {word : CString} {rest : List CString} (h : argv.drop j = word :: rest) :
    (argumentAt argv j).outcome = .ok word ∧ (j : Int) < argv.length ∧ argv.drop (j + 1) = rest := by
  have hj : argv[j]? = some word := by
    rw [← List.head?_drop, h]
    rfl
  obtain ⟨hlt, -⟩ := List.getElem?_eq_some_iff.mp hj
  refine ⟨?_, by exact_mod_cast hlt, ?_⟩
  · unfold argumentAt
    rw [if_neg (by omega), Int.toNat_natCast, hj]
    rfl
  · rw [← List.drop_drop, h]
    rfl

/-- Where no words are left the position is at the end. -/
theorem drop_eq_nil {j : Nat} (h : argv.drop j = []) : ¬(j : Int) < argv.length := by
  have := List.drop_eq_nil_iff.mp h
  omega

/-- The table is searched for the word's command. -/
theorem getElem?_findIdx_name (hwords : table.map (·.word) = mtkVsFileAccessCommands) (word : CString) :
    (table[table.findIdx fun entry => word = entry.word.name]?).map (·.word) = commandNamed word := by
  rw [← List.find?_eq_getElem?_findIdx]
  unfold commandNamed
  rw [← hwords, List.find?_map]
  rfl

/-- What the first loop does up to the first command word. -/
theorem wordLoop_spec (hwords : table.map (·.word) = mtkVsFileAccessCommands) {rest : List CString} {turns : Nat}
    (command : Option Nat) {j : Nat} (hdrop : argv.drop j = rest) (hturns : rest.length < turns) :
    match firstCommand rest with
    | none => ∃ idx, (wordLoop argv turns table command j).outcome =
        .ok (some (.found table (if rest = [] then command else some table.length) idx))
    | some (c, behind) => ∃ (k : Nat) (entry : CommandEntry) (i : Nat), table[k]? = some entry ∧ entry.word = c ∧
        argv.drop i = c.name :: behind ∧
        (wordLoop argv turns table command j).outcome =
          (takeWord argv table k entry i).outcome >>= fun found => .ok (some found) := by
  induction rest generalizing turns command j with
  | nil =>
    cases turns with
    | zero => exact absurd hturns (Nat.not_lt_zero _)
    | succ turns =>
      refine ⟨j, ?_⟩
      rw [wordLoop, if_neg (drop_eq_nil hdrop), if_pos rfl]
      rfl
  | cons word rest ih =>
    cases turns with
    | zero => exact absurd hturns (Nat.not_lt_zero _)
    | succ turns =>
      obtain ⟨hargument, hlt, hnext⟩ := argumentAt_drop hdrop
      have hnamed := getElem?_findIdx_name hwords word
      rw [wordLoop, if_pos hlt, outcome_bind_of_ok hargument, firstCommand]
      cases hentry : table[table.findIdx fun entry => word = entry.word.name]? with
      | none =>
        rw [hentry] at hnamed
        -- the pointer is left behind the table
        have hend : (table.findIdx fun entry => word = entry.word.name) = table.length := by
          apply Nat.le_antisymm List.findIdx_le_length
          exact List.getElem?_eq_none_iff.mp hentry
        have ih := ih (some table.length) hnext (Nat.lt_of_succ_lt_succ hturns)
        simp only [← hnamed, Option.map_none, hend, List.getElem?_eq_none (Nat.le_refl table.length)]
        rw [if_neg (List.cons_ne_nil _ _)]
        rw [ite_self] at ih
        exact ih
      | some entry =>
        rw [hentry] at hnamed
        have hname : word = entry.word.name := by
          have := List.find?_some (hnamed.symm : commandNamed word = some entry.word)
          exact of_decide_eq_true this
        simp only [← hnamed, Option.map_some]
        refine ⟨_, entry, j, hentry, rfl, hname ▸ hdrop, ?_⟩
        simp only [hentry]
        exact outcome_bind _ _

/-- What is fixed for a call: the commands and their flags. -/
def CommandEntry.fixed (entry : CommandEntry) : CommandWord × Bool :=
  (entry.word, entry.allFlag)

/-- Filling in an entry keeps the fixed part of the table. -/
theorem map_fixed_set {k : Nat} {entry entry' : CommandEntry} (hentry : table[k]? = some entry)
    (h : entry'.fixed = entry.fixed) :
    (table.set k entry').map CommandEntry.fixed = table.map CommandEntry.fixed := by
  obtain ⟨hk, rfl⟩ := List.getElem?_eq_some_iff.mp hentry
  rw [List.map_set, h, ← List.getElem_map CommandEntry.fixed (h := by simpa using hk), List.set_getElem_self]

/-- The operand may be left out only where a file follows, and behind a word that is no option. -/
theorem simage_needsFile : ∀ command ∈ mtkVsFileAccessCommands,
    command.op = opWrite ∧ command.fileType = fileTypeSimage →
      command.fileFlag ≠ .none ∧ fileKeyword command.name = .none := by
  decide

/-- One word of a command takes its operand or gives up. -/
theorem takeWord_spec (table : List CommandEntry) (k : Nat) {i : Nat} {entry : CommandEntry} {behind : List CString}
    (hcommand : entry.word ∈ mtkVsFileAccessCommands) (hdrop : argv.drop i = entry.word.name :: behind) :
    match operand entry.word behind with
    | none => (takeWord argv table k entry i).outcome =
        .ok (.returnNull (table.set k { entry with parameter := [], fileName := [] }))
    | some (parameter, rest) =>
      (∃ fault, strcpy 32 parameter = .error fault ∧ (takeWord argv table k entry i).outcome = .error fault) ∨
      ∃ j : Nat, strcpy 32 parameter = .ok parameter ∧
        (takeWord argv table k entry i).outcome =
          .ok (.found (table.set k { entry with parameter, fileName := [] }) (some k) j) ∧
        (entry.word.fileFlag = .none → argv.drop j = rest) ∧
        firstOption (argv.drop j) = firstOption rest := by
  have hempty : strcpy 32 [] = .ok [] := rfl
  obtain ⟨-, -, hnext⟩ := argumentAt_drop hdrop
  unfold operand takeWord
  by_cases hparse : entry.word.parseNext = true
  · rw [if_pos hparse]
    simp only [hparse, if_true]
    cases behind with
    | nil =>
      have hend := drop_eq_nil hnext
      simp only
      rw [if_pos (by push_cast at hend; omega)]
      rfl
    | cons next rest =>
      obtain ⟨hargument, hlt, hrest⟩ := argumentAt_drop hnext
      push_cast at hargument hlt
      rw [if_neg (by omega : ¬((i : Int) + 1 ≥ argv.length)), outcome_bind_of_ok hargument]
      simp only
      by_cases himage : entry.word.op = opWrite ∧ entry.word.fileType = fileTypeSimage ∧ next = text "input"
      · rw [if_pos himage, if_pos himage]
        obtain ⟨hneeds, hname⟩ := simage_needsFile _ hcommand ⟨himage.1, himage.2.1⟩
        refine Or.inr ⟨i, hempty, ?_, fun h => absurd h hneeds, ?_⟩
        · rw [show (i : Int) + 1 - 2 + 1 = i by omega]
          rfl
        · -- the index is back at the command word, which is no option
          rw [hdrop, firstOption_cons, if_neg (not_not.mpr hname)]
      · rw [if_neg himage, if_neg himage]
        rcases hcopy : strcpy 32 next with fault | parameter
        · exact Or.inl ⟨fault, hcopy, rfl⟩
        · have hsame := (strcpy_eq_ok hcopy).2
          refine Or.inr ⟨i + 1 + 1, by rw [hcopy, hsame], ?_, fun _ => hrest, by rw [hrest]⟩
          rw [hsame]
          push_cast
          rfl
  · rw [if_neg hparse]
    simp only [hparse, Bool.false_eq_true, if_false]
    refine Or.inr ⟨i + 1, hempty, ?_, fun _ => hnext, by rw [hnext]⟩
    push_cast
    rfl

/-- What the second loop does up to the first option. -/
theorem fileLoop_spec (table : List CommandEntry) (k : Nat) (entry : CommandEntry) {rest : List CString} {turns j : Nat}
    (hdrop : argv.drop j = rest) (hturns : rest.length < turns) :
    match firstOption rest with
    | none => ∃ last, (fileLoop argv k entry table turns j).outcome = .ok (some last) ∧
        (last = .returnNull table ∨ ∃ idx, last = .parsed table .none idx)
    | some (flag, name, behind) =>
      (∃ fault, strcpy 128 name = .error fault ∧ (fileLoop argv k entry table turns j).outcome = .error fault) ∨
      ∃ i : Nat, strcpy 128 name = .ok name ∧ argv.drop i = behind ∧
        (fileLoop argv k entry table turns j).outcome =
          .ok (some (.parsed (table.set k { entry with fileName := name }) flag i)) := by
  induction rest generalizing turns j with
  | nil =>
    cases turns with
    | zero => exact absurd hturns (Nat.not_lt_zero _)
    | succ turns => exact ⟨_, by rw [fileLoop, if_neg (drop_eq_nil hdrop)]; rfl, Or.inr ⟨_, rfl⟩⟩
  | cons word rest ih =>
    cases turns with
    | zero => exact absurd hturns (Nat.not_lt_zero _)
    | succ turns =>
      obtain ⟨hargument, hlt, hnext⟩ := argumentAt_drop hdrop
      rw [fileLoop, if_pos hlt, outcome_bind_of_ok hargument, firstOption_cons]
      by_cases hflag : fileKeyword word = .none
      · simp only [hflag, ne_eq, not_true_eq_false, if_false]
        exact ih hnext (Nat.lt_of_succ_lt_succ hturns)
      · simp only [hflag, ne_eq, not_false_eq_true, if_true]
        cases rest with
        | nil =>
          have hend := drop_eq_nil hnext
          exact ⟨_, by rw [if_pos (by push_cast at hend; omega)]; rfl, Or.inl rfl⟩
        | cons name behind =>
          obtain ⟨hargument, hlt, hbehind⟩ := argumentAt_drop hnext
          push_cast at hargument hlt
          rw [if_neg (by omega : ¬((j : Int) + 1 ≥ argv.length)), outcome_bind_of_ok hargument]
          rcases hcopy : strcpy 128 name with fault | fileName
          · exact Or.inl ⟨fault, hcopy, rfl⟩
          · obtain ⟨-, rfl⟩ := strcpy_eq_ok hcopy
            refine Or.inr ⟨j + 1 + 1, hcopy, hbehind, ?_⟩
            push_cast
            rfl

/-- The flag of the command is set behind the file, and never cleared. -/
theorem finishParse_spec (entry : CommandEntry) {k j : Nat} {filled : CommandEntry} {last : List CString}
    (hdrop : argv.drop j = last) (hentry : table[k]? = some filled) :
    (finishParse argv k entry (.parsed table entry.word.fileFlag j)).outcome =
      .ok (some k, table.set k { filled with allFlag := filled.allFlag || givenAll last }) := by
  have hmodify : table.modify k (fun entry => { entry with allFlag := true }) =
      table.set k { filled with allFlag := true } := by
    obtain ⟨hk, rfl⟩ := List.getElem?_eq_some_iff.mp hentry
    rw [List.modify_eq_set_getElem?, List.getElem?_eq_getElem hk]
    rfl
  have hsame : table.set k filled = table := by
    obtain ⟨hk, rfl⟩ := List.getElem?_eq_some_iff.mp hentry
    exact List.set_getElem_self hk
  unfold finishParse
  simp only [ne_eq, not_true_eq_false, if_false]
  cases last with
  | nil =>
    rw [if_neg (drop_eq_nil hdrop), outcome_pure]
    simp only [givenAll, List.head?_nil, Bool.or_false, reduceCtorEq, decide_false, hsame]
  | cons word rest =>
    obtain ⟨hargument, hlt, -⟩ := argumentAt_drop hdrop
    rw [if_pos hlt, outcome_bind_of_ok hargument]
    by_cases hall : word = text "all"
    · rw [if_pos hall, outcome_pure, hmodify, hall]
      simp only [givenAll, List.head?_cons, decide_true, Bool.or_true]
    · rw [if_neg hall, outcome_pure]
      simp only [givenAll, List.head?_cons, Option.some.injEq, hall, decide_false, Bool.or_false, hsame]

/-- How a call ends that finds nothing, or this: only the flag of the command it returns can have changed. -/
def Ends (table : List CommandEntry) : Option Request → Option Nat × List CommandEntry → Prop
  | none, ended => ended.1 = none ∧ ended.2.map CommandEntry.fixed = table.map CommandEntry.fixed
  | some r, ended => ∃ k entry, table[k]? = some entry ∧ entry.word = r.command ∧ ended.1 = some k ∧
      ended.2[k]? = some ⟨r.command, r.parameter, r.fileName, entry.allFlag || r.all⟩ ∧
      ended.2.map CommandEntry.fixed = (table.map CommandEntry.fixed).set k (r.command, entry.allFlag || r.all)

/-- A parsed file that ends a call. -/
theorem ends_set {k : Nat} {entry : CommandEntry} (hentry : table[k]? = some entry) (parameter fileName : CString)
    (all : Bool) :
    Ends table (some ⟨entry.word, parameter, fileName, all⟩)
      (some k, table.set k ⟨entry.word, parameter, fileName, entry.allFlag || all⟩) := by
  obtain ⟨hk, -⟩ := List.getElem?_eq_some_iff.mp hentry
  exact ⟨k, entry, hentry, rfl, rfl, List.getElem?_set_self hk, List.map_set⟩

/-- What is found is decided by the first command and the words behind its operand. -/
theorem findRequest_cases {c : CommandWord} {behind : List CString} (h : firstCommand argv = some (c, behind)) :
    findRequest argv = match operand c behind with
      | none => .ok none
      | some (operand, rest) => strcpy 32 operand >>= fun parameter =>
        if c.fileFlag = .none then .ok (some ⟨c, parameter, [], givenAll rest⟩) else findFile c parameter rest := by
  unfold findRequest
  rw [h]

/-- What becomes of a command that needs a file: the first option gives it a name. -/
theorem takeFile_option {k j : Nat} {filled : CommandEntry} (hfilled : table[k]? = some filled)
    (hneeds : filled.word.fileFlag ≠ .none) :
    match firstOption (argv.drop j) with
    | none => (takeFile argv k filled table j).outcome = .ok (some (none, table))
    | some (flag, name, last) =>
      (∃ fault, strcpy 128 name = .error fault ∧ (takeFile argv k filled table j).outcome = .error fault) ∨
      strcpy 128 name = .ok name ∧ (takeFile argv k filled table j).outcome = .ok (some
        (if flag = filled.word.fileFlag then
          (some k, table.set k { filled with fileName := name, allFlag := filled.allFlag || givenAll last })
        else (none, table.set k { filled with fileName := name }))) := by
  have hk := (List.getElem?_eq_some_iff.mp hfilled).1
  have hturns : (argv.drop j).length < argv.length + 1 := by
    rw [List.length_drop]
    omega
  have hfile := fileLoop_spec table k filled rfl hturns
  unfold takeFile
  rw [if_neg hneeds]
  cases hfirst : firstOption (argv.drop j) with
  | none =>
    rw [hfirst] at hfile
    obtain ⟨last, hfile, hlast⟩ := hfile
    simp only
    rw [outcome_bind_of_ok hfile]
    rcases hlast with rfl | ⟨idx, rfl⟩
    · rfl
    · unfold finishParse
      simp only [ne_eq, Ne.symm hneeds, not_false_eq_true, if_true, pure_bind, outcome_pure]
  | some option =>
    obtain ⟨flag, name, last⟩ := option
    rw [hfirst] at hfile
    rcases hfile with ⟨fault, hname, hfile⟩ | ⟨i, hname, hlast, hfile⟩
    · exact Or.inl ⟨fault, hname, outcome_bind_of_error hfile _⟩
    · right
      refine ⟨hname, ?_⟩
      rw [outcome_bind_of_ok hfile]
      by_cases hkind : flag = filled.word.fileFlag
      · -- it is the option of the command
        have hset : (table.set k { filled with fileName := name })[k]? = some { filled with fileName := name } :=
          List.getElem?_set_self hk
        have hfinish := finishParse_spec filled hlast hset
        rw [List.set_set] at hfinish
        rw [if_pos hkind, hkind]
        simp only
        rw [outcome_bind_of_ok hfinish]
        rfl
      · rw [if_neg hkind]
        unfold finishParse
        simp only [if_pos hkind, pure_bind, outcome_pure]

/-- What is done behind the operand: a command that needs no file is found, one that does has to
find the option. -/
theorem takeFile_spec {k j : Nat} {entry : CommandEntry} (hentry : table[k]? = some entry) (parameter : CString)
    {rest : List CString} (hrest : entry.word.fileFlag = .none → argv.drop j = rest)
    (hoption : firstOption (argv.drop j) = firstOption rest) {found : Except Fault (Option Request)}
    (hfound : (if entry.word.fileFlag = .none then .ok (some ⟨entry.word, parameter, [], givenAll rest⟩)
      else findFile entry.word parameter rest) = found) :
    let filled : CommandEntry := { entry with parameter, fileName := [] }
    (∃ fault, found = .error fault ∧ (takeFile argv k filled (table.set k filled) j).outcome = .error fault) ∨
    ∃ r ended, found = .ok r ∧ (takeFile argv k filled (table.set k filled) j).outcome = .ok (some ended) ∧
      Ends table r ended := by
  intro filled
  have hk := (List.getElem?_eq_some_iff.mp hentry).1
  have hset : (table.set k filled)[k]? = some filled := List.getElem?_set_self hk
  by_cases hflag : entry.word.fileFlag = .none
  · -- nothing is left but the flag
    have hfinish := finishParse_spec filled (hrest hflag) hset
    have hnone : filled.word.fileFlag = .none := hflag
    rw [hnone, List.set_set] at hfinish
    rw [if_pos hflag] at hfound
    unfold takeFile
    rw [if_pos hnone, pure_bind]
    simp only
    rw [outcome_bind_of_ok hfinish]
    exact Or.inr ⟨_, _, hfound.symm, rfl, ends_set hentry _ _ _⟩
  · have htake := @takeFile_option argv _ k j filled hset hflag
    rw [if_neg hflag] at hfound
    unfold findFile at hfound
    rw [hoption] at htake
    cases hfirst : firstOption rest with
    | none =>
      rw [hfirst] at htake hfound
      exact Or.inr ⟨none, _, hfound.symm, htake, rfl, map_fixed_set hentry rfl⟩
    | some option =>
      obtain ⟨flag, name, last⟩ := option
      rw [hfirst] at htake hfound
      rcases htake with ⟨fault, hname, htake⟩ | ⟨hname, htake⟩
      · simp only [hname, bind_error] at hfound
        exact Or.inl ⟨fault, hfound.symm, htake⟩
      · simp only [hname, bind_ok] at hfound
        rw [List.set_set, List.set_set] at htake
        by_cases hkind : flag = entry.word.fileFlag
        · rw [if_neg (not_not.mpr hkind)] at hfound
          rw [if_pos hkind] at htake
          exact Or.inr ⟨_, _, hfound.symm, htake, ends_set hentry _ _ _⟩
        · rw [if_pos hkind] at hfound
          rw [if_neg hkind] at htake
          exact Or.inr ⟨none, _, hfound.symm, htake, rfl, map_fixed_set hentry rfl⟩

/-- A call does what the words say, whatever the table holds. -/
theorem parseTable_spec (hwords : table.map (·.word) = mtkVsFileAccessCommands) (hargv : argv ≠ []) :
    (∃ fault, findRequest argv = .error fault ∧ (parseTable table argv).outcome = .error fault) ∨
    ∃ found ended, findRequest argv = .ok found ∧ (parseTable table argv).outcome = .ok (some ended) ∧
      Ends table found ended := by
  have hall : argv.drop 0 = argv := rfl
  have hloop := wordLoop_spec hwords none hall (Nat.lt_succ_self _)
  rw [show ((0 : Nat) : Int) = 0 from rfl] at hloop
  unfold parseTable
  cases hfirst : firstCommand argv with
  | none =>
    rw [hfirst] at hloop
    obtain ⟨idx, hloop⟩ := hloop
    rw [if_neg hargv] at hloop
    rw [outcome_bind_of_ok hloop]
    simp only [List.getElem?_eq_none (Nat.le_refl table.length)]
    exact Or.inr ⟨none, (none, table), by unfold findRequest; rw [hfirst], rfl, rfl, rfl⟩
  | some first =>
    obtain ⟨c, behind⟩ := first
    rw [hfirst] at hloop
    obtain ⟨k, entry, i, hentry, rfl, hdrop, hloop⟩ := hloop
    have hcommand : entry.word ∈ mtkVsFileAccessCommands :=
      hwords ▸ List.mem_map_of_mem (List.mem_of_getElem? hentry)
    have htake := takeWord_spec table k hcommand hdrop
    rw [findRequest_cases hfirst]
    cases hoperand : operand entry.word behind with
    | none =>
      rw [hoperand] at htake
      rw [htake, bind_ok] at hloop
      rw [outcome_bind_of_ok hloop]
      exact Or.inr ⟨none, _, rfl, rfl, rfl, map_fixed_set hentry rfl⟩
    | some operands =>
      obtain ⟨parameter, rest⟩ := operands
      rw [hoperand] at htake
      rcases htake with ⟨fault, hcopy, htake⟩ | ⟨j, hcopy, htake, hrest, hoption⟩
      · rw [htake, bind_error] at hloop
        exact Or.inl ⟨fault, by simp only [hcopy, bind_error], outcome_bind_of_error hloop _⟩
      rw [htake, bind_ok] at hloop
      rw [outcome_bind_of_ok hloop]
      simp only [hcopy, bind_ok]
      rw [List.getElem?_set_self (List.getElem?_eq_some_iff.mp hentry).1]
      exact takeFile_spec hentry parameter hrest hoption rfl

end Loops

/-! ## What is read -/

/-- An index of the vector. -/
def Given (argv : List CString) (idx : Int) : Prop :=
  0 ≤ idx ∧ idx < argv.length

section Reads

variable {argv : List CString}

/-- A given argument is read. -/
theorem argumentAt_given {idx : Int} (h : Given argv idx) : (argumentAt argv idx).All (Given argv) := by
  apply all_bind (all_call h)
  intro _ _
  split
  · exact all_leave _
  · split
    · exact all_leave _
    · exact all_pure _

/-- The first loop leaves no index in front of the vector. -/
def WordEnd.NotInFront : WordEnd → Prop
  | .returnNull _ => True
  | .found _ _ idx => 0 ≤ idx

/-- Neither does the second one. -/
def FileEnd.NotInFront : FileEnd → Prop
  | .returnNull _ => True
  | .parsed _ _ idx => 0 ≤ idx

/-- A word reads given arguments only, and does not go back. -/
theorem takeWord_given (table : List CommandEntry) (k : Nat) (entry : CommandEntry) {idx : Int} (h : 0 ≤ idx) :
    (takeWord argv table k entry idx).Ensures (Given argv) WordEnd.NotInFront := by
  unfold takeWord
  split
  · split
    · exact ensures_pure trivial
    · have hnext : Given argv (idx + 1) := ⟨by omega, by omega⟩
      apply ensures_bind (argumentAt_given hnext).ensures
      intro next _
      split
      · -- the index goes back to the command word
        apply ensures_pure
        show 0 ≤ idx + 1 - 2 + 1
        omega
      · apply ensures_bind (all_ofExcept _).ensures
        intro parameter _
        apply ensures_pure
        show 0 ≤ idx + 1 + 1
        omega
  · apply ensures_pure
    show 0 ≤ idx + 1
    omega

/-- The first loop looks at its index before it reads. -/
theorem wordLoop_given {turns : Nat} {table : List CommandEntry} {command : Option Nat} {idx : Int} (h : 0 ≤ idx) :
    (wordLoop argv turns table command idx).Ensures (Given argv) fun ended => ∀ e ∈ ended, e.NotInFront := by
  induction turns generalizing command idx with
  | zero => exact ensures_pure nofun
  | succ turns ih =>
    unfold wordLoop
    by_cases hlt : idx < argv.length
    · rw [if_pos hlt]
      apply ensures_bind (argumentAt_given ⟨h, hlt⟩).ensures
      intro word _
      dsimp only
      split
      · exact ih (by omega)
      · apply ensures_bind (takeWord_given table _ _ h)
        intro found hfound
        apply ensures_pure
        intro e he
        rwa [← Option.mem_some.mp he]
    · rw [if_neg hlt]
      apply ensures_pure
      intro e he
      rw [← Option.mem_some.mp he]
      exact h

/-- So does the loop that looks for a file. -/
theorem fileLoop_given {k turns : Nat} {entry : CommandEntry} {table : List CommandEntry} {idx : Int} (h : 0 ≤ idx) :
    (fileLoop argv k entry table turns idx).Ensures (Given argv) fun ended => ∀ e ∈ ended, e.NotInFront := by
  induction turns generalizing idx with
  | zero => exact ensures_pure nofun
  | succ turns ih =>
    unfold fileLoop
    by_cases hlt : idx < argv.length
    · rw [if_pos hlt]
      apply ensures_bind (argumentAt_given ⟨h, hlt⟩).ensures
      intro word _
      dsimp only
      split
      · split
        · apply ensures_pure
          intro e he
          rw [← Option.mem_some.mp he]
          trivial
        · have hnext : Given argv (idx + 1) := ⟨by omega, by omega⟩
          apply ensures_bind (argumentAt_given hnext).ensures
          intro name _
          apply ensures_bind (all_ofExcept _).ensures
          intro fileName _
          apply ensures_pure
          intro e he
          rw [← Option.mem_some.mp he]
          show 0 ≤ idx + 1 + 1
          omega
      · exact ih (by omega)
    · rw [if_neg hlt]
      apply ensures_pure
      intro e he
      rw [← Option.mem_some.mp he]
      exact h

/-- The end of the parser reads given arguments only. -/
theorem finishParse_given {k : Nat} {entry : CommandEntry} {file : FileEnd} (h : file.NotInFront) :
    (finishParse argv k entry file).All (Given argv) := by
  unfold finishParse
  split
  · exact all_pure _
  · split
    · exact all_pure _
    · split
      · rename_i hlt
        apply all_bind (argumentAt_given ⟨h, hlt⟩)
        intro word _
        split
        · exact all_pure _
        · exact all_pure _
      · exact all_pure _

/-- The file of a command is looked for in given arguments only. -/
theorem takeFile_given {k : Nat} {entry : CommandEntry} {table : List CommandEntry} {idx : Int} (h : 0 ≤ idx) :
    (takeFile argv k entry table idx).All (Given argv) := by
  have hfinish : ∀ file : Option FileEnd, (∀ e ∈ file, e.NotInFront) → (match file with
      | none => pure none
      | some file => do
        let returned ← finishParse argv k entry file
        pure (some returned) : Calls Int Fault (Option (Option Nat × List CommandEntry))).All (Given argv) := by
    intro file hfile
    cases file with
    | none => exact all_pure _
    | some file => exact all_bind (finishParse_given (hfile file rfl)) fun _ _ => all_pure _
  unfold takeFile
  split
  · rw [pure_bind]
    apply hfinish (some (.parsed table .none idx))
    intro e he
    rw [← Option.mem_some.mp he]
    exact h
  · have hloop := @fileLoop_given argv k (argv.length + 1) entry table idx h
    exact all_bind hloop.calls fun file hfile => hfinish file (hloop.value file hfile)

/-- Whatever the table holds, nothing outside of the vector is read. -/
theorem parseTable_given (table : List CommandEntry) : (parseTable table argv).All (Given argv) := by
  have hwords := @wordLoop_given argv (argv.length + 1) table none 0 le_rfl
  apply all_bind hwords.calls
  intro found hfound
  split
  · exact all_pure _
  · exact all_pure _
  · exact all_leave _
  · split
    · exact all_pure _
    · exact takeFile_given (hwords.value _ hfound _ rfl)

end Reads

/-! ## The command of a file access -/

/-- The file access that a request stands for. -/
def Request.access (r : Request) : FileAccessCommand × Bool :=
  (⟨r.command.op, r.command.fileType, r.parameter, r.fileName⟩, r.all)

/-- What the option of a file brings, for a command that needs one. -/
theorem parseFile_eq {command : CommandWord} (hflag : command.fileFlag ≠ .none) (parameter : CString)
    (rest : List CString) :
    (parseFile rest >>= fun
      | none => .ok none
      | some (flag, fileName, last) =>
        if flag ≠ command.fileFlag then .ok none
        else .ok (some ((⟨command.op, command.fileType, parameter, fileName⟩ : FileAccessCommand), givenAll last))) =
      findFile command parameter rest >>= fun found =>
        .ok (found.map Request.access) := by
  unfold findFile
  induction rest with
  | nil =>
    unfold parseFile firstOption
    simp only [bind_ok, ne_eq, Ne.symm hflag, not_false_eq_true, if_true]
    rfl
  | cons word rest ih =>
    rw [firstOption_cons]
    by_cases hword : word = text "input" ∨ word = text "output"
    · have hkeyword : fileKeyword word ≠ .none := by
        rcases hword with rfl | rfl <;> decide
      have hkind : (if word = text "input" then FileFlag.input else .output) = fileKeyword word := by
        rcases hword with rfl | rfl <;> decide
      rw [if_pos hkeyword]
      cases rest with
      | nil =>
        unfold parseFile
        rw [if_pos hword]
        rfl
      | cons name behind =>
        unfold parseFile
        rw [if_pos hword, hkind]
        rcases hcopy : strcpy 128 name with fault | fileName
        · simp only [hcopy, bind_error]
        · simp only [hcopy, bind_ok]
          split <;> rfl
    · have hkeyword : fileKeyword word = .none := by
        unfold fileKeyword
        rw [if_neg fun h => hword (Or.inl h), if_neg fun h => hword (Or.inr h)]
      rw [if_neg (not_not.mpr hkeyword)]
      have hskip : parseFile (word :: rest) = parseFile rest := by
        conv_lhs => unfold parseFile
        rw [if_neg hword]
      rw [hskip]
      exact ih

/-- The words behind an operand are read by the command as by the parser. -/
theorem parseRest_eq (command : CommandWord) (parameter : CString) (rest : List CString) :
    (if command.fileFlag = .none then
      (if FileFlag.none ≠ command.fileFlag then .ok none
        else .ok (some ((⟨command.op, command.fileType, parameter, []⟩ : FileAccessCommand), givenAll rest)))
      else parseFile rest >>= fun
        | none => .ok none
        | some (flag, fileName, last) =>
          if flag ≠ command.fileFlag then .ok none
          else .ok (some ((⟨command.op, command.fileType, parameter, fileName⟩ : FileAccessCommand), givenAll last))) =
      (if command.fileFlag = .none then .ok (some ⟨command, parameter, [], givenAll rest⟩)
        else findFile command parameter rest) >>= fun found => .ok (found.map Request.access) := by
  by_cases hflag : command.fileFlag = .none
  · simp only [hflag, if_true, bind_ok, ne_eq, not_true_eq_false, if_false]
    rfl
  · simp only [hflag, if_false]
    exact parseFile_eq hflag parameter rest

/-- A command that is found is in the table under its name. -/
theorem commandNamed_name {word : CString} {command : CommandWord} (h : commandNamed word = some command) :
    command ∈ mtkVsFileAccessCommands ∧ word = command.name :=
  ⟨List.mem_of_find?_eq_some h, of_decide_eq_true (List.find?_some h :)⟩

/-- What a call finds is what the arguments mean. -/
theorem parseMtkVsFileAccess_eq {argv : List CString} (hargv : argv ≠ []) :
    parseMtkVsFileAccess argv = findRequest argv >>= fun found => .ok (found.map Request.access) := by
  unfold parseMtkVsFileAccess
  rw [if_neg hargv]
  clear hargv
  induction argv with
  | nil => rfl
  | cons word rest ih =>
    unfold findRequest firstCommand parseWord
    show (match commandNamed word with | none => _ | some command => _) >>= _ = _
    cases hnamed : commandNamed word with
    | none => exact ih
    | some command =>
      obtain ⟨hmem, hname⟩ := commandNamed_name hnamed
      simp only
      unfold operand
      by_cases hparse : command.parseNext = true
      · simp only [hparse, if_true]
        cases rest with
        | nil => rfl
        | cons next behind =>
          simp only
          by_cases himage : command.op = opWrite ∧ command.fileType = fileTypeSimage ∧ next = text "input"
          · obtain ⟨hneeds, hword⟩ := simage_needsFile _ hmem ⟨himage.1, himage.2.1⟩
            rw [if_pos himage, if_pos himage]
            -- the command word is read again, and is no option
            have hagain : findFile command [] (word :: next :: behind) = findFile command [] (next :: behind) := by
              unfold findFile
              rw [firstOption_cons, hname, if_neg (not_not.mpr hword)]
            have := parseRest_eq command [] (word :: next :: behind)
            simp only [hneeds, if_false, hagain] at this
            simp only [hneeds, if_false, bind_ok]
            exact this
          · rw [if_neg himage, if_neg himage]
            rcases hcopy : strcpy 32 next with fault | parameter
            · simp only [hcopy, bind_error]
            · simp only [hcopy, bind_ok]
              exact parseRest_eq command parameter behind
      · simp only [hparse, Bool.false_eq_true, if_false, bind_ok]
        exact parseRest_eq command [] rest

/-! ## The first command and the one that was asked for -/

/-- The first command word has its operand, and if it needs a file, the first option behind the
operand is of its kind and has a name. -/
def FirstServes (argv : List CString) : Prop :=
  ∃ command behind parameter rest, firstCommand argv = some (command, behind) ∧
    operand command behind = some (parameter, rest) ∧
    (command.fileFlag = .none ∨ ∃ name last, firstOption rest = some (command.fileFlag, name, last))

/-- What is copied fits: the operand of the first command word, and if it needs a file, the name
given with the first option behind. -/
def CopiesFit (argv : List CString) : Prop :=
  ∀ command behind parameter rest, firstCommand argv = some (command, behind) →
    operand command behind = some (parameter, rest) →
    parameter.length < 32 ∧
    (command.fileFlag ≠ .none → ∀ flag name last, firstOption rest = some (flag, name, last) → name.length < 128)

section

variable {argv : List CString}

/-- An option that is found is a keyword. -/
theorem firstOption_ne_none {flag : FileFlag} {name : CString} {rest last : List CString}
    (h : firstOption rest = some (flag, name, last)) : flag ≠ .none := by
  induction rest with
  | nil => cases h
  | cons word rest ih =>
    rw [firstOption_cons] at h
    split at h
    · cases rest with
      | nil => cases h
      | cons next rest =>
        obtain ⟨rfl, -, -⟩ := by simpa using h
        assumption
    · exact ih h

/-- The first option is a matching one for its own flag. -/
theorem matchingOption_of_firstOption {flag : FileFlag} {name : CString} {rest last : List CString}
    (h : firstOption rest = some (flag, name, last)) : matchingOption flag rest = some (name, last) := by
  induction rest with
  | nil => cases h
  | cons word rest ih =>
    have hflag := firstOption_ne_none h
    rw [firstOption_cons] at h
    unfold matchingOption
    by_cases hword : fileKeyword word = .none
    · rw [if_neg (not_not.mpr hword)] at h
      rw [if_neg fun heq => hflag (heq.symm.trans hword)]
      exact ih h
    · rw [if_pos hword] at h
      cases rest with
      | nil => cases h
      | cons next rest =>
        obtain ⟨rfl, rfl, rfl⟩ := by simpa using h
        rw [if_pos rfl]

/-- A first command that is complete is the one asked for. -/
theorem requested_of_complete {command : CommandWord} {behind : List CString} {r : Request}
    (h : firstCommand argv = some (command, behind)) (hcomplete : complete command behind = some r) :
    requested argv = some r := by
  induction argv with
  | nil => cases h
  | cons word rest ih =>
    unfold firstCommand at h
    unfold requested
    cases hnamed : commandNamed word with
    | none =>
      rw [hnamed] at h
      exact ih h
    | some first =>
      rw [hnamed] at h
      obtain ⟨rfl, rfl⟩ := by simpa using h
      rw [Option.bind_some, hcomplete, Option.some_or]

/-- A first command serves if it takes no file, or the first option is of its kind. -/
theorem firstServes_iff {command : CommandWord} {behind rest : List CString} {parameter : CString}
    (hfirst : firstCommand argv = some (command, behind)) (hoperand : operand command behind = some (parameter, rest)) :
    FirstServes argv ↔
      command.fileFlag = .none ∨ ∃ name last, firstOption rest = some (command.fileFlag, name, last) := by
  constructor
  · rintro ⟨c, b, p, r, hcommand, hsome, hoption⟩
    obtain ⟨rfl, rfl⟩ := by simpa using hfirst.symm.trans hcommand
    obtain ⟨rfl, rfl⟩ := by simpa using hoperand.symm.trans hsome
    exact hoption
  · intro h
    exact ⟨command, behind, parameter, rest, hfirst, hoperand, h⟩

/-- The file of a command is found if the first option is of its kind. -/
theorem findFile_fits {command : CommandWord} {parameter : CString} {rest : List CString}
    (hname : ∀ flag name last, firstOption rest = some (flag, name, last) → name.length < 128) :
    ∃ found, findFile command parameter rest = .ok found ∧
      (found = none → ¬∃ name last, firstOption rest = some (command.fileFlag, name, last)) ∧
      ∀ r, found = some r → ∃ name last, firstOption rest = some (command.fileFlag, name, last) ∧
        r = ⟨command, parameter, name, givenAll last⟩ := by
  unfold findFile
  cases hoption : firstOption rest with
  | none =>
    refine ⟨none, rfl, ?_, nofun⟩
    rintro - ⟨name, last, hsome⟩
    cases hsome
  | some option =>
    obtain ⟨flag, name, last⟩ := option
    have hcopy : strcpy 128 name = .ok name := if_pos (hname flag name last hoption)
    simp only [hcopy, bind_ok]
    by_cases hkind : flag = command.fileFlag
    · rw [if_neg (not_not.mpr hkind), hkind]
      refine ⟨_, rfl, nofun, ?_⟩
      intro r hr
      exact ⟨name, last, rfl, (Option.some.inj hr).symm⟩
    · rw [if_pos hkind]
      refine ⟨none, rfl, ?_, nofun⟩
      rintro - ⟨_, _, hsome⟩
      obtain ⟨rfl, -, -⟩ := by simpa using hsome
      exact hkind rfl

/-- Where the copies fit a call does not fault, and it finds the request of the first command word,
if that word serves. -/
theorem findRequest_fits (h : CopiesFit argv) :
    ∃ found, findRequest argv = .ok found ∧ (found = none → ¬FirstServes argv) ∧
      ∀ r, found = some r → FirstServes argv ∧ requested argv = some r := by
  unfold findRequest
  cases hfirst : firstCommand argv with
  | none =>
    refine ⟨none, rfl, ?_, nofun⟩
    rintro - ⟨command, behind, parameter, rest, hcommand, -⟩
    rw [hfirst] at hcommand
    cases hcommand
  | some first =>
    obtain ⟨command, behind⟩ := first
    simp only
    cases hoperand : operand command behind with
    | none =>
      refine ⟨none, rfl, ?_, nofun⟩
      rintro - ⟨c, b, parameter, rest, hcommand, hsome, -⟩
      obtain ⟨rfl, rfl⟩ := by simpa using hfirst.symm.trans hcommand
      rw [hoperand] at hsome
      cases hsome
    | some operands =>
      obtain ⟨parameter, rest⟩ := operands
      obtain ⟨hparameter, hname⟩ := h command behind parameter rest hfirst hoperand
      have hcopy : strcpy 32 parameter = .ok parameter := if_pos hparameter
      have hrequested : ∀ r, complete command behind = some r → requested argv = some r :=
        fun r => requested_of_complete hfirst
      simp only [hcopy, bind_ok]
      unfold complete at hrequested
      simp only [hoperand] at hrequested
      rw [firstServes_iff hfirst hoperand]
      by_cases hflag : command.fileFlag = .none
      · rw [if_pos hflag] at hrequested ⊢
        refine ⟨_, rfl, nofun, ?_⟩
        intro r hr
        exact ⟨Or.inl hflag, hrequested r hr⟩
      · rw [if_neg hflag] at hrequested ⊢
        -- nothing else serves than the first option, and that of the command's own kind
        obtain ⟨found, hfound, hnone, hsome⟩ := @findFile_fits command parameter rest (hname hflag)
        refine ⟨found, hfound, ?_, ?_⟩
        · rintro heq (hno | hoption)
          · exact hflag hno
          · exact hnone heq hoption
        · intro r hr
          obtain ⟨name, last, hoption, rfl⟩ := hsome r hr
          exact ⟨Or.inr ⟨name, last, hoption⟩, hrequested _ (by rw [matchingOption_of_firstOption hoption])⟩

/-- Where something was found, no copy was too long. -/
theorem copiesFit_of_findRequest {found : Option Request} (h : findRequest argv = .ok found) : CopiesFit argv := by
  intro command behind parameter rest hfirst hoperand
  rw [findRequest_cases hfirst] at h
  simp only [hoperand] at h
  rcases hcopy : strcpy 32 parameter with fault | copied
  · rw [hcopy] at h
    cases h
  rw [hcopy, bind_ok] at h
  refine ⟨(strcpy_eq_ok hcopy).1, ?_⟩
  intro hflag flag name last hoption
  rw [if_neg hflag] at h
  unfold findFile at h
  simp only [hoption] at h
  rcases hcopy : strcpy 128 name with fault | copied
  · rw [hcopy] at h
    cases h
  · exact (strcpy_eq_ok hcopy).1

end

/-! ## All calls of a process -/

/-- The request that an entry of the table stands for. -/
def CommandEntry.request (entry : CommandEntry) : Request :=
  ⟨entry.word, entry.parameter, entry.fileName, entry.allFlag⟩

/-- The tables that calls with these arguments, one after the other, can have left. -/
inductive Reached : List (List CString) → List CommandEntry → Prop where
  | start : Reached [] initialTable
  | call {earlier : List (List CString)} {table table' : List CommandEntry} {argv : List CString}
      {returned : Option Nat} (h : Reached earlier table) (hcall : (parseTable table argv).outcome = .ok (some (returned, table'))) :
      Reached (earlier ++ [argv]) table'

/-- The call returns, NULL if nothing is requested, and otherwise an entry that holds the request. -/
def ParseMeets (table : List CommandEntry) (argv : List CString) : Prop :=
  ∃ returned table', (parseTable table argv).outcome = .ok (some (returned, table')) ∧
    match returned with
    | none => requested argv = none
    | some k => ∃ entry, table'[k]? = some entry ∧ requested argv = some entry.request

/-- One of the calls has asked for the command at all stations. -/
def AskedAll (earlier : List (List CString)) (command : CommandWord) : Prop :=
  ∃ argv ∈ earlier, FirstServes argv ∧ ∃ r, requested argv = some r ∧ r.command = command ∧ r.all = true

/-- There is an argument, the copies fit, and any request is that of the first command word, for
all stations if an earlier one of the same command was. -/
def ParsesRight (earlier : List (List CString)) (argv : List CString) : Prop :=
  argv ≠ [] ∧ CopiesFit argv ∧
    ∀ r, requested argv = some r → FirstServes argv ∧ (AskedAll earlier r.command → r.all = true)

/-- All stations are asked for by an earlier call or by the last one. -/
theorem askedAll_append {earlier : List (List CString)} {argv : List CString} {command : CommandWord} :
    AskedAll (earlier ++ [argv]) command ↔ AskedAll earlier command ∨
      (FirstServes argv ∧ ∃ r, requested argv = some r ∧ r.command = command ∧ r.all = true) := by
  unfold AskedAll
  constructor
  · rintro ⟨words, hmem, h⟩
    rcases List.mem_append.mp hmem with hmem | hmem
    · exact Or.inl ⟨words, hmem, h⟩
    · exact Or.inr (List.mem_singleton.mp hmem ▸ h)
  · rintro (⟨words, hmem, h⟩ | h)
    · exact ⟨words, List.mem_append_left _ hmem, h⟩
    · exact ⟨argv, List.mem_append_right _ (List.mem_singleton.mpr rfl), h⟩

section History

variable {earlier : List (List CString)} {table : List CommandEntry} {argv : List CString}

/-- The commands are those of the program, and a flag is set by the calls that asked for it. -/
def TableOf (earlier : List (List CString)) (table : List CommandEntry) : Prop :=
  table.map (·.word) = mtkVsFileAccessCommands ∧
    ∀ entry ∈ table, entry.allFlag = true ↔ AskedAll earlier entry.word

/-- Without a word the parser reads from nowhere. -/
theorem parseTable_nil (table : List CommandEntry) : (parseTable table []).outcome = .error .nullDeref := rfl

/-- How a call of a process ends, with what was asked for in view. -/
theorem parseTable_cases (hwords : table.map (·.word) = mtkVsFileAccessCommands) (hargv : argv ≠ [])
    (hfits : CopiesFit argv) :
    ∃ found ended, (parseTable table argv).outcome = .ok (some ended) ∧ Ends table found ended ∧
      (found = none → ¬FirstServes argv) ∧ ∀ r, found = some r → FirstServes argv ∧ requested argv = some r := by
  obtain ⟨found, hfound, hnone, hsome⟩ := findRequest_fits hfits
  rcases parseTable_spec hwords hargv with ⟨fault, hfault, -⟩ | ⟨found', ended, hfound', hcall, hends⟩
  · rw [hfound] at hfault
    cases hfault
  · obtain rfl := Except.ok.inj (hfound.symm.trans hfound')
    exact ⟨found, ended, hcall, hends, hnone, hsome⟩

/-- Where a call ends there was a word and no copy was too long. -/
theorem copiesFit_of_parseTable (hwords : table.map (·.word) = mtkVsFileAccessCommands)
    {ended : Option (Option Nat × List CommandEntry)} (h : (parseTable table argv).outcome = .ok ended) :
    argv ≠ [] ∧ CopiesFit argv := by
  have hargv : argv ≠ [] := by
    rintro rfl
    rw [parseTable_nil] at h
    cases h
  refine ⟨hargv, ?_⟩
  rcases parseTable_spec hwords hargv with ⟨fault, -, hfault⟩ | ⟨found, _, hfound, -⟩
  · rw [h] at hfault
    cases hfault
  · exact copiesFit_of_findRequest hfound

/-- The commands of the table are different. -/
theorem commands_nodup : mtkVsFileAccessCommands.Nodup := by
  have hnames : (mtkVsFileAccessCommands.map (·.name)).Nodup := by decide
  exact List.Nodup.of_map _ hnames

/-- Two entries for one command are one entry. -/
theorem eq_of_word (hwords : table.map (·.word) = mtkVsFileAccessCommands) {i k : Nat} {entry entry' : CommandEntry}
    (hi : table[i]? = some entry) (hk : table[k]? = some entry') (h : entry.word = entry'.word) : i = k := by
  obtain ⟨hilt, -⟩ := List.getElem?_eq_some_iff.mp hi
  have hnodup : (table.map (·.word)).Nodup := hwords ▸ commands_nodup
  have hsame : (table.map (·.word))[i]? = (table.map (·.word))[k]? := by
    rw [List.getElem?_map, List.getElem?_map, hi, hk, Option.map_some, Option.map_some, h]
  exact (List.getElem?_inj (by simpa using hilt) hnodup).mp hsame

/-- The word is a part of what is fixed. -/
theorem word_of_fixed : (Prod.fst : CommandWord × Bool → CommandWord) ∘ CommandEntry.fixed = (·.word) := rfl

/-- A call that finds nothing leaves the flags as they are. -/
theorem TableOf.nothing (h : TableOf earlier table) {table' : List CommandEntry}
    (hfixed : table'.map CommandEntry.fixed = table.map CommandEntry.fixed) (hnot : ¬FirstServes argv) :
    TableOf (earlier ++ [argv]) table' := by
  obtain ⟨hwords, hflags⟩ := h
  have hsame := congrArg (List.map Prod.fst) hfixed
  rw [List.map_map, List.map_map, word_of_fixed] at hsame
  refine ⟨hsame.trans hwords, ?_⟩
  intro entry hentry
  have hmem : entry.fixed ∈ table.map CommandEntry.fixed := hfixed ▸ List.mem_map_of_mem hentry
  obtain ⟨old, hold, heq⟩ := List.mem_map.mp hmem
  injection heq with hw hf
  rw [← hw, ← hf, askedAll_append, hflags old hold]
  exact ⟨Or.inl, fun h => h.resolve_right fun h => hnot h.1⟩

/-- One that finds a request sets the flag of its command if it asks for all stations. -/
theorem TableOf.request (h : TableOf earlier table) {r : Request} {ended : Option Nat × List CommandEntry}
    (hends : Ends table (some r) ended) (hserves : FirstServes argv) (hrequested : requested argv = some r) :
    TableOf (earlier ++ [argv]) ended.2 := by
  obtain ⟨hwords, hflags⟩ := h
  obtain ⟨k, entry, hentry, hcommand, -, -, hfixed⟩ := hends
  have hasked : ∀ command, AskedAll (earlier ++ [argv]) command ↔
      AskedAll earlier command ∨ (r.command = command ∧ r.all = true) := by
    intro command
    rw [askedAll_append, hrequested]
    constructor
    · rintro (h | ⟨-, r', hr', h⟩)
      · exact Or.inl h
      · obtain rfl := Option.some.inj hr'
        exact Or.inr h
    · rintro (h | h)
      · exact Or.inl h
      · exact Or.inr ⟨hserves, r, rfl, h⟩
  have hsame := congrArg (List.map Prod.fst) hfixed
  rw [List.map_set, List.map_map, List.map_map, word_of_fixed] at hsame
  have hk : (table.map (·.word))[k]? = some r.command := by rw [List.getElem?_map, hentry, Option.map_some, hcommand]
  obtain ⟨hklt, hget⟩ := List.getElem?_eq_some_iff.mp hk
  rw [← hget, List.set_getElem_self] at hsame
  refine ⟨hsame.trans hwords, ?_⟩
  intro entry' hentry'
  obtain ⟨i, hi⟩ := List.mem_iff_getElem?.mp hentry'
  have hnew : ((table.map CommandEntry.fixed).set k (r.command, entry.allFlag || r.all))[i]? = some entry'.fixed := by
    rw [← hfixed, List.getElem?_map, hi, Option.map_some]
  rw [hasked]
  by_cases hik : k = i
  · -- the entry that is returned
    subst hik
    rw [List.getElem?_set_self (by simpa using hklt)] at hnew
    injection hnew with hnew
    injection hnew with hw hf
    rw [← hw, ← hf, Bool.or_eq_true, hflags entry (List.mem_of_getElem? hentry), hcommand]
    exact or_congr_right (by simp only [true_and])
  · -- another one, and so of another command
    rw [List.getElem?_set_ne hik, List.getElem?_map] at hnew
    obtain ⟨old, hold, heq⟩ := Option.map_eq_some_iff.mp hnew
    injection heq with hw hf
    rw [← hw, ← hf, hflags old (List.mem_of_getElem? hold)]
    refine ⟨Or.inl, fun h => h.resolve_right ?_⟩
    rintro ⟨heq, -⟩
    exact hik (eq_of_word hwords hentry hold (hcommand.trans heq))

/-- A call keeps the account of the table. -/
theorem TableOf.call (h : TableOf earlier table) {ended : Option Nat × List CommandEntry}
    (hcall : (parseTable table argv).outcome = .ok (some ended)) : TableOf (earlier ++ [argv]) ended.2 := by
  obtain ⟨hargv, hfits⟩ := copiesFit_of_parseTable h.1 hcall
  obtain ⟨found, ended', hcall', hends, hnone, hsome⟩ := parseTable_cases h.1 hargv hfits
  obtain rfl : ended = ended' := by
    injection hcall.symm.trans hcall' with h
    exact Option.some.inj h
  cases found with
  | none => exact h.nothing hends.2 (hnone rfl)
  | some r => exact h.request hends (hsome r rfl).1 (hsome r rfl).2

/-- The table of a process is the one its calls have left. -/
theorem Reached.tableOf (h : Reached earlier table) : TableOf earlier table := by
  induction h with
  | start =>
    refine ⟨rfl, ?_⟩
    intro entry hentry
    obtain ⟨word, -, rfl⟩ := List.mem_map.mp hentry
    refine ⟨nofun, ?_⟩
    rintro ⟨argv, hmem, -⟩
    cases hmem
  | call _ hcall ih => exact ih.call hcall

/-- Behind any earlier calls, a call returns the first request of its arguments if and only if there
is an argument, what is copied fits, and no request is lost behind a first command word that does
not serve, or made for all stations by an earlier call. -/
theorem parseTable_meets_iff (h : Reached earlier table) (argv : List CString) :
    ParseMeets table argv ↔ ParsesRight earlier argv := by
  obtain ⟨hwords, hflags⟩ := h.tableOf
  constructor
  · rintro ⟨returned, table', hcall, hreturned⟩
    obtain ⟨hargv, hfits⟩ := copiesFit_of_parseTable hwords hcall
    refine ⟨hargv, hfits, ?_⟩
    obtain ⟨found, ended, hcall', hends, -, hsome⟩ := parseTable_cases hwords hargv hfits
    obtain rfl : (returned, table') = ended := by
      injection hcall.symm.trans hcall' with h
      exact Option.some.inj h
    intro r hr
    cases found with
    | none =>
      obtain ⟨rfl, -⟩ : returned = none ∧ _ := hends
      rw [hr] at hreturned
      cases hreturned
    | some found =>
      obtain ⟨hserves, hfound⟩ := hsome found rfl
      obtain rfl := Option.some.inj (hr.symm.trans hfound)
      refine ⟨hserves, ?_⟩
      intro hasked
      obtain ⟨k, entry, hentry, hcommand, hk, hfilled, -⟩ := hends
      obtain rfl : returned = some k := hk
      obtain ⟨entry', hentry', hrequest⟩ := hreturned
      obtain rfl := Option.some.inj (hfilled.symm.trans hentry')
      have hall := congrArg Request.all (Option.some.inj (hr.symm.trans hrequest))
      rw [← hcommand, ← hflags entry (List.mem_of_getElem? hentry)] at hasked
      simpa [CommandEntry.request, hasked] using hall
  · rintro ⟨hargv, hfits, hserves⟩
    obtain ⟨found, ⟨returned, table'⟩, hcall, hends, hnone, hsome⟩ := parseTable_cases hwords hargv hfits
    refine ⟨returned, table', hcall, ?_⟩
    cases found with
    | none =>
      obtain ⟨rfl, -⟩ : returned = none ∧ _ := hends
      by_contra hrequest
      obtain ⟨r, hr⟩ := Option.ne_none_iff_exists'.mp hrequest
      exact hnone rfl (hserves r hr).1
    | some r =>
      obtain ⟨-, hr⟩ := hsome r rfl
      obtain ⟨k, entry, hentry, hcommand, hk, hfilled, -⟩ := hends
      obtain rfl : returned = some k := hk
      refine ⟨_, hfilled, ?_⟩
      have hflag : (entry.allFlag || r.all) = r.all := by
        by_cases hold : entry.allFlag = true
        · rw [hold, (hserves r hr).2 (hcommand ▸ (hflags entry (List.mem_of_getElem? hentry)).mp hold), Bool.or_self]
        · rw [Bool.eq_false_of_not_eq_true hold, Bool.false_or]
      rw [hr, hflag]
      rfl

end History

/-- After `debug all`, a plain `debug` is for all stations too. -/
theorem parseTable_meets_stale :
    ∃ table, Reached [[text "debug", text "all"]] table ∧ ¬ParseMeets table [text "debug"] := by
  have hreached : ∃ table, Reached ([] ++ [[text "debug", text "all"]]) table := ⟨_, .call .start rfl⟩
  obtain ⟨table, hreached⟩ := hreached
  refine ⟨table, hreached, ?_⟩
  rw [parseTable_meets_iff hreached]
  rintro ⟨-, -, hall⟩
  have hdebug := hall _ rfl
  have hasked : AskedAll [[text "debug", text "all"]] ⟨text "debug", opRead, fileTypeDebug, false, .none⟩ :=
    ⟨_, List.mem_singleton.mpr rfl, ⟨_, _, _, _, rfl, rfl, Or.inl rfl⟩, _, rfl, rfl, rfl⟩
  exact Bool.false_ne_true (hdebug.2 hasked)

/-- Without any argument the command is read through NULL. -/
theorem noArgument_not_meets : ¬ParseMeets initialTable [] := by
  rintro ⟨returned, table, hcall, -⟩
  rw [parseTable_nil] at hcall
  cases hcall

end Hpav
