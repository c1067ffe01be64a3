import Mathlib.Tactic.Common
import Hpav.Command
import Hpav.ConfFileWrite
import Hpav.FileAccessAll
import Hpav.Json.Merge

/-!
# The commands that access files of a station

`parse_mtk_vs_file_access` and the part of `test_mme_mtk_vs_file_access_req` in front of its loops
(`test_mtk.c`), and `conf_file_read` and `conf_file_write` (`conf_file.c`) from their arguments on:
they put together the command line of a file access and run it.
-/

namespace Hpav

open CMem CScan CNumeral

/-! ## The command line of a file access -/

/-- `FILE_FLAG_*` -/
inductive FileFlag where
  | none
  | input
  | output
  deriving DecidableEq

/-- `HPAV_MTK_VS_FILE_ACCESS_REQ_FILE_TYPE_*` -/
abbrev fileTypeBootloader : UInt8 := 0x00
abbrev fileTypeSimage : UInt8 := 0x01
abbrev fileTypeDebug : UInt8 := 0x03

/-- The constant fields of `struct mtk_vs_file_access_command_t`. -/
structure CommandWord where
  name : CString
  op : UInt8
  fileType : UInt8
  parseNext : Bool
  fileFlag : FileFlag

/-- `mtk_vs_file_access_commands`, without the entry that ends it. -/
def mtkVsFileAccessCommands : List CommandWord :=
  [⟨text "write", opWrite, fileTypeGeneralFile, true, .input⟩,
    ⟨text "bootloader", opWrite, fileTypeBootloader, false, .input⟩,
    ⟨text "simage", opWrite, fileTypeSimage, true, .input⟩,
    ⟨text "read", opRead, fileTypeGeneralFile, true, .none⟩,
    ⟨text "debug", opRead, fileTypeDebug, false, .none⟩,
    ⟨text "delete", opDelete, fileTypeGeneralFile, true, .none⟩,
    ⟨text "simage-delete", opDelete, fileTypeSimage, true, .none⟩,
    ⟨text "listdir", opListDir, fileTypeGeneralFile, true, .none⟩,
    ⟨text "format", opFormatFlash, fileTypeGeneralFile, false, .none⟩,
    ⟨text "save", opSave, fileTypeGeneralFile, true, .output⟩,
    ⟨text "scan-sta", opScanSta, fileTypeGeneralFile, false, .none⟩]

/-- `strcpy` into an array of so many bytes. -/
def strcpy (size : Nat) (s : CString) : Except Fault CString :=
  if s.length < size then .ok s else .error .outOfBounds

/-- The first loop of `parse_mtk_vs_file_access`: the entry of the table, its parameter and the
arguments behind. Words that are no command are skipped. -/
def parseWord : List CString → Except Fault (Option (CommandWord × CString × List CString))
  | [] => .ok none
  | word :: rest =>
    match mtkVsFileAccessCommands.find? fun command => word = command.name with
    | none => parseWord rest
    | some command =>
      if command.parseNext then
        match rest with
        | [] => .ok none
        | next :: behind =>
          if command.op = opWrite ∧ command.fileType = fileTypeSimage ∧ next = text "input" then
            -- the index goes back to the command word
            .ok (some (command, [], word :: rest))
          else do
            let parameter ← strcpy 32 next
            .ok (some (command, parameter, behind))
      else .ok (some (command, [], rest))

/-- The second loop: the option for a file, its name and the arguments behind. `none` is a name
that is missing. -/
def parseFile : List CString → Except Fault (Option (FileFlag × CString × List CString))
  | [] => .ok (some (.none, [], []))
  | word :: rest =>
    if word = text "input" ∨ word = text "output" then
      match rest with
      | [] => .ok none
      | name :: behind => do
        let fileName ← strcpy 128 name
        .ok (some (if word = text "input" then .input else .output, fileName, behind))
    else parseFile rest

/-- `parse_mtk_vs_file_access`: the command, and whether it is for all stations. Without any
argument `command` is NULL when its flag is read. -/
def parseMtkVsFileAccess (argv : List CString) : Except Fault (Option (FileAccessCommand × Bool)) :=
  if argv = [] then .error .nullDeref
  else do
    match ← parseWord argv with
    | none => .ok none
    | some (command, parameter, rest) =>
      match ← if command.fileFlag = .none then .ok (some (.none, [], rest)) else parseFile rest with
      | none => .ok none
      | some (flag, fileName, rest) =>
        if flag ≠ command.fileFlag then .ok none
        else .ok (some (⟨command.op, command.fileType, parameter, fileName⟩, rest.head? = some (text "all")))

/-! ## The stations -/

/-- `fscanf` with `%s`, until the end of the file. -/
def tokens (content : List UInt8) : List CString :=
  (content.splitOnP isSpace).filter fun token => token ≠ []

/-- The loop that fills `mac_list`, from the entry `staCount` on. `none` prints the usage. -/
def readMacList : Nat → List CString → Except Fault (Option (List Mac))
  | _, [] => .ok (some [])
  | staCount, token :: rest => do
    let macStr ← strcpy 32 token
    match stomac macStr with
    | none => .ok none
    | some mac =>
      if 64 ≤ staCount then .error .outOfBounds
      else do
        let macs ← readMacList (staCount + 1) rest
        .ok (macs.map fun macs => mac :: macs)

/-- The stations of the file that a scan has left; without it `fclose` gets NULL. -/
def stationList (fs : LocalFs) : Except Fault (Option (List Mac)) :=
  match fs.content staListFileName with
  | none => .error .nullDeref
  | some content => readMacList 0 (tokens content)

/-! ## The file access -/

/-- What a command leaves behind: its value, what it met, the files, and the environment. -/
structure CommandEnd (σ : Type) where
  rv : Int
  log : List Met
  fs : LocalFs
  env : σ

/-- What answers the requests, for at most so many exchanges a station, and what the variable
`mac` of `process_mtk_vs_file_access_cnf` starts with. -/
structure FileHost (σ : Type) where
  environment : Environment σ
  fuel : Nat
  uninit : List UInt8

/-- The end of a command that prints its usage. -/
def CommandEnd.usage {σ : Type} (fs : LocalFs) (env : σ) : CommandEnd σ :=
  ⟨exitUsage, [.usageError], fs, env⟩

section

variable {σ : Type}

/-- The part of `test_mme_mtk_vs_file_access_req` that is behind its parameters. -/
def accessFiles (h : FileHost σ) (cmd : FileAccessCommand) (macList : List Mac) (fs : LocalFs) (env : σ) :
    Except Fault (Option (CommandEnd σ)) := do
  let program ← fileAccessReq h.uninit h.environment cmd h.fuel macList fs env
  return program.map fun pe => ⟨pe.rv, [.transfer (fs.writable cmd.fileName) pe.stations], pe.fs, pe.env⟩

/-- `test_mme_mtk_vs_file_access_req`. An address of zeros stands for none. -/
def testMmeMtkVsFileAccessReq (h : FileHost σ) (argv : List CString) (fs : LocalFs) (env : σ) :
    Except Fault (Option (CommandEnd σ)) :=
  match argv with
  | [] => .ok (some (.usage fs env))
  | first :: rest =>
    match stomac first with
    | none => .ok (some (.usage fs env))
    | some tmpDestMac => do
      -- the address may be left out, or be zero
      let specific := tmpDestMac.bytes ≠ List.replicate 6 0
      match ← parseMtkVsFileAccess (if specific then rest else first :: rest) with
      | none => .ok (some (.usage fs env))
      | some (cmd, all) =>
        match ← if all then stationList fs else .ok (some [if specific then tmpDestMac else broadcast]) with
        | none => .ok (some (.usage fs env))
        | some macList => accessFiles h cmd macList fs env

/-! ## The configuration file -/

/-- `MTK_LINK_LOCAL_ADDR` -/
def mtkLinkLocalAddr : CString :=
  text "00:13:d7:00:00:01"

/-- `remove` -/
def LocalFs.remove (fs : LocalFs) (path : CString) : LocalFs :=
  { fs with content := fun p => if p = path then none else fs.content p }

/-- `json_value_merge` of two pointers: what the first one points to afterwards. -/
def mergeValues : Option Json → Option Json → Option Json
  | some a, some b =>
    match jsonValueMerge a b with
    | (true, merged) => some merged
    | (false, _) => none
  | _, _ => none

/-- The last part of `conf_file_read`: the tree is written into the file. -/
def saveConf (filename : CString) (log : List Met) (inka : Option Json) (fs : LocalFs) (env : σ) : CommandEnd σ :=
  match inka with
  | none => ⟨-1, log ++ [.localError], fs, env⟩
  | some inka =>
    if fs.writable filename then ⟨0, log, fs.write filename (jsonSerialize inka), env⟩
    else ⟨-1, log ++ [.localError], fs, env⟩

/-- What `conf_file_read` makes of the two temporary files. -/
def mergeConf (filename inkaConfTmp inkaUpdateConfTmp : CString) (log : List Met) (inkaUpdateExist : Bool)
    (fs : LocalFs) (env : σ) : CommandEnd σ :=
  let inka := (fs.content inkaConfTmp).bind jsonParseContents
  if inkaUpdateExist then
    match mergeValues inka ((fs.content inkaUpdateConfTmp).bind jsonParseContents) with
    | none => ⟨-1, log ++ [.localError], fs, env⟩
    | some merged => saveConf filename log (some merged) fs env
  else saveConf filename log inka fs env

/-- The temporary files are removed wherever `conf_file_read` ends. -/
def CommandEnd.cleanUp (e : CommandEnd σ) (inkaConfTmp inkaUpdateConfTmp : CString) : CommandEnd σ :=
  { e with fs := (e.fs.remove inkaConfTmp).remove inkaUpdateConfTmp }

/-- `conf_file_read`. The update file is taken not to exist if it cannot be saved. `temp` are the
temporary files, if they can be created. -/
def confFileReadCommand (h : FileHost σ) (temp : Option (CString × CString)) (argv : List CString) (fs : LocalFs)
    (env : σ) : Except Fault (Option (CommandEnd σ)) :=
  match argv with
  | [] => .ok (some (.usage fs env))
  | filename :: rest =>
    match temp with
    | none => .ok (some ⟨-1, [.localError], fs, env⟩)
    | some (inkaConfTmp, inkaUpdateConfTmp) => do
      let fs := (fs.write inkaConfTmp []).write inkaUpdateConfTmp []
      let station := rest.headD mtkLinkLocalAddr
      let save path tmp := [station, text "save", path, text "output", tmp]
      match ← testMmeMtkVsFileAccessReq h (save deviceInkaConfPath inkaConfTmp) fs env with
      | none => return none
      | some inka =>
        if inka.rv ≠ 0 then
          return some (CommandEnd.cleanUp { inka with rv := -1 } inkaConfTmp inkaUpdateConfTmp)
        else do
          -- any failure here is a file that does not exist
          match ← testMmeMtkVsFileAccessReq h (save deviceInkaUpdateConfPath inkaUpdateConfTmp) inka.fs inka.env with
          | none => return none
          | some update =>
            return some ((mergeConf filename inkaConfTmp inkaUpdateConfTmp (inka.log ++ update.log) (update.rv = 0)
              update.fs update.env).cleanUp inkaConfTmp inkaUpdateConfTmp)

/-- `conf_file_write`. What becomes of the update file does not matter. -/
def confFileWriteCommand (h : FileHost σ) (argv : List CString) (fs : LocalFs) (env : σ) :
    Except Fault (Option (CommandEnd σ)) :=
  match argv with
  | [] => .ok (some (.usage fs env))
  | inputFile :: rest => do
    let station := rest.headD mtkLinkLocalAddr
    match ← testMmeMtkVsFileAccessReq h [station, text "delete", deviceInkaUpdateConfPath] fs env with
    | none => return none
    | some deletion =>
      -- the result of the deletion is not looked at
      match ← testMmeMtkVsFileAccessReq h [station, text "write", deviceInkaConfPath, text "input", inputFile]
          deletion.fs deletion.env with
      | none => return none
      | some write =>
        return some { write with rv := if write.rv ≠ 0 then -1 else 0, log := deletion.log ++ write.log }

/-- The words `conf_file_read` passes on. -/
abbrev saveWords (station path tmp : CString) : List CString :=
  [station, text "save", path, text "output", tmp]

/-- The files behind the two `write`s that make the temporary files. -/
def LocalFs.withTemporary (fs : LocalFs) (t1 t2 : CString) : LocalFs :=
  (fs.write t1 []).write t2 []

section Runs

variable {h : FileHost σ} {filename t1 t2 : CString} {rest : List CString} {fs : LocalFs} {env : σ}
  {inka update : CommandEnd σ}

/-- Without the base file nothing else is done. -/
theorem confFileReadCommand_failed
    (hinka : testMmeMtkVsFileAccessReq h (saveWords (rest.headD mtkLinkLocalAddr) deviceInkaConfPath t1)
      (fs.withTemporary t1 t2) env = .ok (some inka)) (hrv : inka.rv ≠ 0) :
    confFileReadCommand h (some (t1, t2)) (filename :: rest) fs env =
      .ok (some (CommandEnd.cleanUp { inka with rv := -1 } t1 t2)) := by
  unfold confFileReadCommand
  simp only
  unfold LocalFs.withTemporary at hinka
  rw [hinka, bind_ok]
  simp only [if_pos hrv]
  rfl

theorem confFileReadCommand_merged
    (hinka : testMmeMtkVsFileAccessReq h (saveWords (rest.headD mtkLinkLocalAddr) deviceInkaConfPath t1)
      (fs.withTemporary t1 t2) env = .ok (some inka)) (hrv : inka.rv = 0)
    (hupdate : testMmeMtkVsFileAccessReq h (saveWords (rest.headD mtkLinkLocalAddr) deviceInkaUpdateConfPath t2)
      inka.fs inka.env = .ok (some update)) :
    confFileReadCommand h (some (t1, t2)) (filename :: rest) fs env =
      .ok (some ((mergeConf filename t1 t2 (inka.log ++ update.log) (update.rv = 0) update.fs update.env).cleanUp t1 t2)) := by
  unfold confFileReadCommand
  simp only
  unfold LocalFs.withTemporary at hinka
  rw [hinka, bind_ok]
  simp only [if_neg (not_not.mpr hrv), hupdate, bind_ok]
  rfl

/-- What a run of `conf_file_read` can be. -/
theorem confFileReadCommand_cases {h : FileHost σ} {temp : Option (CString × CString)} {argv : List CString}
    {fs : LocalFs} {env : σ} {last : CommandEnd σ} (hend : confFileReadCommand h temp argv fs env = .ok (some last)) :
    (argv = [] ∧ last = .usage fs env) ∨
    ∃ filename rest, argv = filename :: rest ∧
      ((temp = none ∧ last = ⟨-1, [.localError], fs, env⟩) ∨
      ∃ t1 t2 inka, temp = some (t1, t2) ∧
        testMmeMtkVsFileAccessReq h (saveWords (rest.headD mtkLinkLocalAddr) deviceInkaConfPath t1)
          (fs.withTemporary t1 t2) env = .ok (some inka) ∧
        ((inka.rv ≠ 0 ∧ last = CommandEnd.cleanUp { inka with rv := -1 } t1 t2) ∨
        ∃ update, inka.rv = 0 ∧
          testMmeMtkVsFileAccessReq h (saveWords (rest.headD mtkLinkLocalAddr) deviceInkaUpdateConfPath t2)
            inka.fs inka.env = .ok (some update) ∧
          last = (mergeConf filename t1 t2 (inka.log ++ update.log) (update.rv = 0) update.fs update.env).cleanUp t1 t2)) := by
  unfold confFileReadCommand at hend
  cases argv with
  | nil =>
    injection hend with hend
    injection hend with hend
    exact Or.inl ⟨rfl, hend.symm⟩
  | cons filename rest =>
    refine Or.inr ⟨filename, rest, rfl, ?_⟩
    rcases temp with _ | ⟨t1, t2⟩
    · injection hend with hend
      injection hend with hend
      exact Or.inl ⟨rfl, hend.symm⟩
    refine Or.inr ?_
    simp only at hend
    obtain ⟨inka, hinka, hend⟩ := exists_some_of_bind hend nofun
    refine ⟨t1, t2, inka, rfl, hinka, ?_⟩
    simp only at hend
    -- only a base file that was brought is followed by the update file
    by_cases hrv : inka.rv ≠ 0
    · rw [if_pos hrv] at hend
      injection hend with hend
      injection hend with hend
      exact Or.inl ⟨hrv, hend.symm⟩
    · rw [if_neg hrv] at hend
      obtain ⟨update, hupdate, hend⟩ := exists_some_of_bind hend nofun
      injection hend with hend
      injection hend with hend
      exact Or.inr ⟨update, not_not.mp hrv, hupdate, hend.symm⟩

end Runs

end

end Hpav
