import Mathlib.Tactic.Common
import Hpav.ConfFileRead
import Hpav.ConfFileRuns
import Hpav.FileAccessAll
import Hpav.FileAccessCnfBounds

/-!
# Editing the configuration of a device

`conf_file read`, some commands of `conf_file modify` and `conf_file write`, one after the other with
one file of the host. The two commands that talk to the device have a list of fates each. What no
exchange changes is said once (`fileAccessReq_keeps`); the three descriptions of the commands are
then put together (`editConfiguration_effective`).
-/

namespace Hpav

open CMem CScan

/-! ## What no file access changes -/

section Keeps

variable {σ : Type} {uninit : List UInt8} {e : Environment σ} {cmd : FileAccessCommand} {fuel : Nat}

theorem processLoop_writable {cs : List FileAccessCnf} {s s' : ProcessState} {success : Bool}
    (h : processLoop cmd s cs = .ok (s', success)) : s'.fs.writable = s.fs.writable := by
  induction cs generalizing s with
  | nil =>
    injection h with h
    injection h with hs
    rw [hs]
  | cons c cs ih =>
    unfold processLoop at h
    by_cases hstatus : c.mstatus = 0
    · rw [if_pos hstatus] at h
      rcases bind_eq_ok.mp h with ⟨s₁, hs₁, hrest⟩
      rw [ih hrest, (processSuccess_consumable false hstatus hs₁).2]
    · rw [if_neg hstatus] at h
      injection h with h
      injection h with hs
      rw [hs]

theorem processMtkVsFileAccessCnf_writable {fs fs' : LocalFs} {cs : List FileAccessCnf} {success : Bool}
    (h : processMtkVsFileAccessCnf uninit cmd fs cs = .ok (fs', success)) : fs'.writable = fs.writable := by
  unfold processMtkVsFileAccessCnf at h
  by_cases hempty : cs.isEmpty
  · rw [if_pos hempty] at h
    injection h with h
    injection h with hfs
    rw [hfs]
  · rw [if_neg hempty] at h
    rcases bind_eq_ok.mp h with ⟨⟨s, result⟩, hloop, hend⟩
    have hkept := processLoop_writable hloop
    -- the list of a scan is a file like any other
    have hstart : ∀ p : ProcessState, p = (if cmd.op = opScanSta then
        if fs.writable staListFileName then ⟨fs.write staListFileName [], .opened staListFileName, uninit⟩
        else ⟨fs, .null, uninit⟩ else ⟨fs, .null, uninit⟩) → p.fs.writable = fs.writable := by
      rintro p rfl
      split
      · split <;> rfl
      · rfl
    rw [hstart _ rfl] at hkept
    have hfs : s.fs = fs' := by
      by_cases hscan : cmd.op = opScanSta
      · simp only [if_pos hscan] at hend
        split at hend
        · cases hend
        · injection hend with hend
          injection hend with hfs
        · cases hend
      · simp only [if_neg hscan] at hend
        injection hend with hend
        injection hend with hfs
    rw [← hfs, hkept]

theorem receiveResponse_writable {fs fs' : LocalFs} {s : Sender} {outcome : Outcome} {turn : Turn}
    (h : receiveResponse uninit cmd fs s outcome = .ok (fs', turn)) : fs'.writable = fs.writable := by
  rcases receiveResponse_cases h with ⟨-, rfl, -⟩ | ⟨-, rfl, -⟩ | ⟨head, rest, success, -, hprocess, -⟩
  · rfl
  · rfl
  · exact processMtkVsFileAccessCnf_writable hprocess

/-- What is kept by every exchange, and does not depend on what the files hold. -/
structure Keeps (e : Environment σ) (P : LocalFs → σ → Prop) : Prop where
  files : ∀ fs fs' env, P fs env → fs'.writable = fs.writable → P fs' env
  respond : ∀ fs env mac r, P fs env → P fs (e.respond env mac r).2

variable {P : LocalFs → σ → Prop}

theorem fragmentsLoop_keeps (hkeeps : Keeps e P) {fs : LocalFs} {s : Sender} {env : σ}
    {st : StationEnd σ} (h : P fs env) (hrun : fragmentsLoop uninit e cmd fuel fs s env = .ok (some st)) :
    P st.fs st.env := by
  induction fuel generalizing fs s env st with
  | zero => cases hrun
  | succ fuel ih =>
    rcases fragmentsLoop_cases hrun with ⟨s₁, outcome, env₁, fs₁, turn, -, hresp, hrecv, hend⟩
    have hnext := hkeeps.respond fs env s₁.destMac s₁.mmeSent h
    rw [hresp] at hnext
    have hturn := hkeeps.files _ _ _ hnext (receiveResponse_writable hrecv)
    rcases hend with ⟨rv, -, rfl⟩ | ⟨s₂, st₂, -, hrest, rfl⟩
    · exact hturn
    · have hlast := ih hturn hrest
      exact hlast

theorem stationsLoop_keeps (hkeeps : Keeps e P) {macs : List Mac} {fs : LocalFs} {rv : Int}
    {env : σ} {pe : ProgramEnd σ} (h : P fs env)
    (hrun : stationsLoop uninit e cmd fuel macs fs rv env = .ok (some pe)) : P pe.fs pe.env := by
  induction macs generalizing fs rv env pe with
  | nil =>
    injection hrun with hrun
    injection hrun with hrun
    rw [← hrun]
    exact h
  | cons mac macs ih =>
    rcases stationsLoop_cases hrun with ⟨rv', -, rfl⟩ | ⟨s, st, rest, -, hloop, hrest, rfl⟩
    · exact h
    · have hlast := ih (fragmentsLoop_keeps hkeeps h hloop) hrest
      exact hlast

/-- It is kept by a file access. -/
theorem testMmeMtkVsFileAccessReq_keeps (hkeeps : Keeps e P) {argv : List CString} {fs : LocalFs}
    {env : σ} {ce : CommandEnd σ} (h : P fs env)
    (hrun : testMmeMtkVsFileAccessReq ⟨e, fuel, uninit⟩ argv fs env = .ok (some ce)) : P ce.fs ce.env := by
  have husage : ∀ {last : CommandEnd σ},
      Except.ok (some (CommandEnd.usage fs env)) = (.ok (some last) : Except Fault _) → P last.fs last.env := by
    intro last hlast
    injection hlast with hlast
    injection hlast with hlast
    rw [← hlast]
    exact h
  unfold testMmeMtkVsFileAccessReq at hrun
  split at hrun
  · exact husage hrun
  · split at hrun
    · exact husage hrun
    · rcases bind_eq_ok.mp hrun with ⟨parsed, -, hrun⟩
      rcases parsed with _ | ⟨cmd, all⟩
      · exact husage hrun
      have haccess : ∀ macs, accessFiles ⟨e, fuel, uninit⟩ cmd macs fs env = .ok (some ce) → P ce.fs ce.env := by
        intro macs haccess
        unfold accessFiles at haccess
        rcases bind_eq_ok.mp haccess with ⟨pe, hprogram, hend⟩
        rcases pe with _ | pe
        · cases hend
        · injection hend with hend
          injection hend with hend
          rw [← hend]
          exact stationsLoop_keeps hkeeps h hprogram
      cases all with
      | true =>
        simp only [if_true] at hrun
        rcases bind_eq_ok.mp hrun with ⟨macs, -, hrun⟩
        rcases macs with _ | macs
        · exact husage hrun
        · exact haccess macs hrun
      | false => exact haccess _ hrun

theorem confFileReadCommand_keeps (hkeeps : Keeps e P) {temp : Option (CString × CString)}
    {argv : List CString} {fs : LocalFs} {env : σ} {ce : CommandEnd σ} (h : P fs env)
    (hrun : confFileReadCommand ⟨e, fuel, uninit⟩ temp argv fs env = .ok (some ce)) : P ce.fs ce.env := by
  rcases confFileReadCommand_cases hrun with ⟨-, rfl⟩ | ⟨filename, rest, -, ⟨-, rfl⟩ | ⟨t1, t2, inka, -, hinka, hend⟩⟩
  · exact h
  · exact h
  have hsaved := testMmeMtkVsFileAccessReq_keeps hkeeps (hkeeps.files _ (fs.withTemporary t1 t2) _ h rfl) hinka
  rcases hend with ⟨-, rfl⟩ | ⟨update, -, hupdate, rfl⟩
  · exact hkeeps.files _ _ _ hsaved rfl
  have hsaved' := testMmeMtkVsFileAccessReq_keeps hkeeps hsaved hupdate
  generalize hmerge : mergeConf filename t1 t2 (inka.log ++ update.log) (update.rv = 0) update.fs update.env = last
  have hsaveConf : ∀ tree, saveConf filename (inka.log ++ update.log) tree update.fs update.env = last →
      P last.fs last.env := by
    rintro tree rfl
    unfold saveConf
    split
    · exact hsaved'
    · split
      · exact hkeeps.files _ _ _ hsaved' rfl
      · exact hsaved'
  have hlast : P last.fs last.env := by
    unfold mergeConf at hmerge
    simp only at hmerge
    split at hmerge
    · split at hmerge
      · rw [← hmerge]
        exact hsaved'
      · exact hsaveConf _ hmerge
    · exact hsaveConf _ hmerge
  exact hkeeps.files _ _ _ hlast rfl

end Keeps

/-- Reading changes nothing on the device, and not which paths can be written to. -/
theorem confFileRead_unchanged {uninit : List UInt8} {fuel : Nat} {temp : Option (CString × CString)}
    {argv : List CString} {fs : LocalFs} {d : ConfFiles} {fates : List Fate} {ce : CommandEnd (ConfFiles × List Fate)}
    (hrun : confFileReadCommand ⟨savingDevice, fuel, uninit⟩ temp argv fs (d, fates) = .ok (some ce)) :
    ce.fs.writable = fs.writable ∧ ce.env.1 = d := by
  let P : LocalFs → ConfFiles × List Fate → Prop := fun fs' env => fs'.writable = fs.writable ∧ env.1 = d
  have hkeeps : Keeps savingDevice P := by
    refine ⟨fun _ _ _ h hsame => ⟨hsame.trans h.1, h.2⟩, ?_⟩
    rintro fs' ⟨d', fates'⟩ mac r ⟨hwritable, rfl⟩
    refine ⟨hwritable, ?_⟩
    rcases fates' with _ | ⟨fate, rest⟩
    · rfl
    · cases fate <;> rfl
  have hstart : P fs (d, fates) := ⟨rfl, rfl⟩
  exact confFileReadCommand_keeps hkeeps hstart hrun

/-! ## The command that writes -/

/-- The station behind an address; zeros are all stations. -/
def destOf (mac : Mac) : Mac :=
  if mac.bytes ≠ List.replicate 6 0 then mac else broadcast

/-- A file access at a station that is named in front of it. -/
theorem testMmeMtkVsFileAccessReq_single {σ : Type} (host : FileHost σ) {station : CString} {mac : Mac}
    {words : List CString} {cmd : FileAccessCommand} (hstation : stomac station = some mac)
    (hparse : parseMtkVsFileAccess words = .ok (some (cmd, false))) (fs : LocalFs) (env : σ) :
    testMmeMtkVsFileAccessReq host (station :: words) fs env = accessFiles host cmd [destOf mac] fs env := by
  have hne : words ≠ [] := by
    rintro rfl
    cases hparse
  -- an address of zeros is passed on, and skipped where the words are read
  have hzero : parseMtkVsFileAccess (station :: words) = parseMtkVsFileAccess words := by
    unfold parseMtkVsFileAccess
    rw [if_neg (List.cons_ne_nil _ _), if_neg hne, parseWord_address hstation]
  unfold testMmeMtkVsFileAccessReq destOf
  simp only [hstation]
  by_cases hspecific : mac.bytes = List.replicate 6 0
  · simp only [hspecific, ne_eq, not_true_eq_false, if_false, hzero, hparse, bind_ok]
    rfl
  · simp only [ne_eq, hspecific, not_false_eq_true, if_true, hparse, bind_ok]
    rfl

theorem parseMtkVsFileAccess_delete :
    parseMtkVsFileAccess [text "delete", deviceInkaUpdateConfPath] = .ok (some (deleteUpdateCommand, false)) := by
  decide

theorem parseMtkVsFileAccess_write {inputFile : CString} (hname : inputFile.length < 128) :
    parseMtkVsFileAccess [text "write", deviceInkaConfPath, text "input", inputFile] =
      .ok (some (writeConfCommand inputFile, false)) := by
  have hcopy : strcpy 128 inputFile = .ok inputFile := if_pos hname
  have hword : parseWord [text "write", deviceInkaConfPath, text "input", inputFile] =
      .ok (some (⟨text "write", opWrite, fileTypeGeneralFile, true, .input⟩, deviceInkaConfPath,
        [text "input", inputFile])) := rfl
  have hfile : parseFile [text "input", inputFile] = .ok (some (.input, inputFile, [])) := by
    show (strcpy 128 inputFile >>= fun fileName => .ok (some (_, fileName, _))) = _
    rw [hcopy]
    rfl
  unfold parseMtkVsFileAccess
  rw [if_neg (List.cons_ne_nil _ _), hword]
  show (parseFile [text "input", inputFile] >>= _) = _
  rw [hfile]
  rfl

/-- The command is the operation, at the station it is given. -/
theorem confFileWriteCommand_eq {σ : Type} {host : FileHost σ} {inputFile : CString} {rest : List CString} {mac : Mac}
    {fs : LocalFs} {env : σ} {last : ConfFileEnd σ} (hstation : stomac (rest.headD mtkLinkLocalAddr) = some mac)
    (hname : inputFile.length < 128)
    (hrun : confFileWrite host.uninit host.environment host.fuel (destOf mac) inputFile fs env = .ok (some last)) :
    ∃ log, confFileWriteCommand host (inputFile :: rest) fs env = .ok (some ⟨last.rv, log, last.fs, last.env⟩) := by
  unfold confFileWrite at hrun
  rcases exists_some_of_bind hrun nofun with ⟨deletion, hdeletion, hrun⟩
  rcases exists_some_of_bind hrun nofun with ⟨write, hwrite, hrun⟩
  injection hrun with hrun
  injection hrun with hrun
  have hdelete : testMmeMtkVsFileAccessReq host
      [rest.headD mtkLinkLocalAddr, text "delete", deviceInkaUpdateConfPath] fs env =
      .ok (some ⟨deletion.rv, [.transfer (fs.writable []) deletion.stations], deletion.fs, deletion.env⟩) := by
    rw [testMmeMtkVsFileAccessReq_single host hstation parseMtkVsFileAccess_delete]
    unfold accessFiles
    rw [hdeletion]
    rfl
  have hsend : testMmeMtkVsFileAccessReq host
      [rest.headD mtkLinkLocalAddr, text "write", deviceInkaConfPath, text "input", inputFile] deletion.fs deletion.env =
      .ok (some ⟨write.rv, [.transfer (deletion.fs.writable inputFile) write.stations], write.fs, write.env⟩) := by
    rw [testMmeMtkVsFileAccessReq_single host hstation (parseMtkVsFileAccess_write hname)]
    unfold accessFiles
    rw [hwrite]
    rfl
  refine ⟨[.transfer (fs.writable []) deletion.stations] ++
    [.transfer (deletion.fs.writable inputFile) write.stations], ?_⟩
  unfold confFileWriteCommand
  simp only [hdelete, bind_ok, hsend, ← hrun]
  rfl

/-! ## The three commands -/

/-- The files of the host, as `conf_file modify` sees them. -/
def LocalFs.files (fs : LocalFs) : FileSystem :=
  ⟨fs.content, fs.writable⟩

def FileSystem.localFs (files : FileSystem) : LocalFs :=
  ⟨files.contents, files.writable⟩

/-- The device, as `conf_file write` finds it. -/
def ConfFiles.device (d : ConfFiles) : Device :=
  ⟨d.inkaConf.map StoredFile.content, d.inkaUpdateConf.map StoredFile.content, false⟩

/-- The configuration that is in effect on a device. -/
def Device.effectiveTree (d : Device) : Option Json :=
  (d.inkaConf.bind jsonParseContents).bind fun base =>
    match d.inkaUpdateConf with
    | none => some base
    | some update => (jsonParseContents update).map (override base)

theorem ConfFiles.effectiveTree_device (d : ConfFiles) : d.device.effectiveTree = d.effective := by
  rcases d with ⟨_ | f, _ | u⟩ <;> rfl

/-- What the three commands are given: the temporary files of the first one, the file of the host
and what may stand behind it in the first and the last, the commands between them, and what becomes
of the exchanges. -/
structure Edit where
  uninit : List UInt8
  fuel : Nat
  inkaConfTmp : CString
  inkaUpdateConfTmp : CString
  filename : Argument
  station : List CString
  calls : List ModifyCall
  readFates : List Fate
  writeFates : List Fate

/-- The ends of the three. -/
structure EditEnd where
  read : CommandEnd (ConfFiles × List Fate)
  modify : List Int × FileSystem
  write : CommandEnd (Device × List Fate)

/-- `conf_file read`, the commands of `conf_file modify`, `conf_file write`. -/
def editConfiguration (x : Edit) (fs : LocalFs) (d : ConfFiles) : Except Fault (Option EditEnd) := do
  match ← confFileReadCommand ⟨savingDevice, x.fuel, x.uninit⟩ (some (x.inkaConfTmp, x.inkaUpdateConfTmp))
      (x.filename.val :: x.station) fs (d, x.readFates) with
  | none => return none
  | some read => do
    let modify ← modifyAll x.filename x.calls read.fs.files
    match ← confFileWriteCommand ⟨faultyDevice, x.fuel, x.uninit⟩ (x.filename.val :: x.station) modify.2.localFs
        (read.env.1.device, x.writeFates) with
    | none => return none
    | some write => return some ⟨read, modify, write⟩

/-- What the three commands need: files of their own, a station, and a tree on the device that
comes through its text and can be modified. -/
structure Edit.Ready (x : Edit) (fs : LocalFs) (d : ConfFiles) (inkaObj : Members) : Prop where
  temporary : Temporary fs x.inkaConfTmp x.inkaUpdateConfTmp
  own : ¬ (x.filename.val = x.inkaConfTmp ∨ x.filename.val = x.inkaUpdateConfTmp)
  short : x.filename.val.length < 128
  writable : fs.writable x.filename = true
  station : (stomac (x.station.headD mtkLinkLocalAddr)).isSome = true
  fuel : 3 * 65535 ≤ x.fuel
  calls : ∀ c ∈ x.calls, c.Valid x.filename
  read : d.read x.readFates = some (.object inkaObj)
  restorable : Restorable (.object inkaObj)
  hpav : ∃ object, jsonObjectGetObject inkaObj (text "hpav") = some object
  cp : ∃ object, jsonObjectGetObject inkaObj (text "cp") = some object
  phy : ∃ object, jsonObjectGetObject inkaObj (text "phy") = some object

/-- The file that is written has at most 65535 fragments. -/
def EditEnd.Small (x : Edit) (e : EditEnd) : Prop :=
  ∀ bytes, e.modify.2.contents x.filename = some bytes → bytes.length ≤ 65535 * dataMaxLen

/-- What the three commands come to on a device with the tree `inkaObj`. -/
structure Edited (x : Edit) (d : ConfFiles) (inkaObj : Members) (e : EditEnd) (inkaObj' : Members) : Prop where
  read : e.read.rv = 0
  /-- the file of the host is the store the commands in the middle work on -/
  stored : Stored ⟨e.read.fs.files, 0⟩ x.filename inkaObj (succeeded x.calls e.modify.1) e.modify.2 inkaObj'
  update : e.write.env.1.inkaUpdateConf = remainingUpdate d.device.inkaUpdateConf x.writeFates
  /-- as long as no fragment got through the base file is the old one, and the command fails -/
  kept : e.write.env.1.stored = false → e.write.rv ≠ 0 ∧ e.write.env.1.inkaConf = d.device.inkaConf
  written : e.write.rv = 0 → e.Small x → e.write.env.1.inkaConf.bind jsonParseContents = some (.object inkaObj')
  /-- without an update file that tree is in effect -/
  effective : e.write.rv = 0 → e.Small x → remainingUpdate d.device.inkaUpdateConf x.writeFates = none →
    e.write.env.1.effectiveTree = some (.object inkaObj')

section Edit

variable {x : Edit} {fs : LocalFs} {d : ConfFiles} {inkaObj : Members}

theorem parsed_of_read {fates : List Fate} {v : Json} (h : d.read fates = some v) : Parsed maxNesting v := by
  rcases exists_of_read h with ⟨f, base, hfile, hbrought, htree⟩
  have hbase := parsed_of_jsonParseContents htree
  unfold ConfFiles.read at h
  rw [hfile, Option.bind_some, if_pos hbrought, htree] at h
  unfold ConfFiles.updated at h
  split at h
  · injection h with h
    exact h ▸ hbase
  · rename_i u _
    split at h
    · rcases hupdate : jsonParseContents u.content with _ | update
      · rw [hupdate] at h
        cases h
      · rw [hupdate] at h
        have hparsed := parsed_of_jsonParseContents hupdate
        rw [← ((mergeValues_some_iff hbase.uniqueKeys hparsed.uniqueKeys).mp h).1]
        exact hbase.merge hparsed
    · injection h with h
      exact h ▸ hbase

/-- Behind the first command the file of the host can be modified. -/
theorem Edit.Ready.accepted (h : x.Ready fs d inkaObj) :
    ∃ read, confFileReadCommand ⟨savingDevice, x.fuel, x.uninit⟩ (some (x.inkaConfTmp, x.inkaUpdateConfTmp))
        (x.filename.val :: x.station) fs (d, x.readFates) = .ok (some read) ∧ read.rv = 0 ∧ read.env.1 = d ∧
      read.fs.writable x.filename = true ∧
      ∀ uninitialized, Accepted ⟨read.fs.files, uninitialized⟩ x.filename inkaObj := by
  rcases Option.isSome_iff_exists.mp h.station with ⟨mac, hstation⟩
  rcases confFileRead_reads x.uninit x.readFates x.filename.val h.temporary h.fuel hstation with ⟨read, hrun, hreads⟩
  rw [h.read] at hreads
  have hrv : read.rv = 0 := hreads.1.mpr ⟨h.writable, rfl⟩
  rcases confFileRead_unchanged hrun with ⟨hwritable, hdevice⟩
  have hcontent := hreads.2 _ rfl hrv
  rw [if_neg h.own] at hcontent
  refine ⟨read, hrun, hrv, hdevice, hwritable ▸ h.writable, fun uninitialized => ⟨?_, h.hpav, h.cp, h.phy⟩⟩
  show (read.fs.content x.filename.val).bind jsonParseContents = _
  rw [hcontent, Option.bind_some, jsonParseContents_jsonSerialize (parsed_of_read h.read)]
  exact (reread_eq_self_iff _).mpr h.restorable

theorem sentFragments_le_count (file : List UInt8) : sentFragments file ≤ 65535 := by
  have hlt := (UInt16.ofNat (fragmentCount file)).toNat_lt
  unfold sentFragments
  omega

/-- What the last command leaves on the device. -/
theorem confFileWriteCommand_writes (uninit : List UInt8) {fuel : Nat} {inputFile : CString} {rest : List CString}
    (fs : LocalFs) {file : List UInt8} (hstation : (stomac (rest.headD mtkLinkLocalAddr)).isSome = true)
    (hname : inputFile.length < 128) (hfuel : 3 * 65535 ≤ fuel) (hfile : fs.content inputFile = some file)
    (base update : Option (List UInt8)) (fates : List Fate) :
    ∃ write, confFileWriteCommand ⟨faultyDevice, fuel, uninit⟩ (inputFile :: rest) fs (⟨base, update, false⟩, fates) =
        .ok (some write) ∧
      write.env.1.inkaUpdateConf = remainingUpdate update fates ∧
      (write.env.1.stored = false → write.rv ≠ 0 ∧ write.env.1.inkaConf = base) ∧
      (write.rv = 0 → file.length ≠ 0 ∧ write.env.1.inkaConf = some (written file)) := by
  rcases Option.isSome_iff_exists.mp hstation with ⟨mac, hmac⟩
  have hcount := sentFragments_le_count file
  rcases confFileWrite_eq uninit (destOf mac) hfile (by omega : 3 * sentFragments file ≤ fuel) ⟨base, update, false⟩
    fates with ⟨rv, hrun, hrv⟩
  rcases @confFileWriteCommand_eq _ ⟨faultyDevice, fuel, uninit⟩ _ _ _ _ _ _ hmac hname hrun with ⟨log, hcommand⟩
  refine ⟨_, hcommand, ?_⟩
  have hdeleted : applyIf (attempts 3 fates).executed Device.deleteUpdate ⟨base, update, false⟩ =
      ⟨base, remainingUpdate update fates, false⟩ := by
    unfold applyIf remainingUpdate
    split <;> rfl
  rw [hdeleted] at hrv ⊢
  rcases writeEnd_unstored file (d := ⟨base, remainingUpdate update fates, false⟩) (attempts 3 fates).rest rfl with
    ⟨hunstored, hlost⟩
  rcases writeEnd_complete file ⟨base, remainingUpdate update fates, false⟩ (attempts 3 fates).rest with
    ⟨hsuccess, hwhole, hupdate⟩
  refine ⟨hupdate, ?_, ?_⟩
  · intro hstored
    rcases hlost (hunstored.mpr hstored) with ⟨hfail, hsame⟩
    refine ⟨?_, congrArg Device.inkaConf hsame⟩
    intro hzero
    rw [hrv.mp hzero] at hfail
    cases hfail
  · intro hzero
    have hok := hrv.mp hzero
    exact ⟨(hsuccess.mp hok).1, hwhole hok⟩

/-- Reading, modifying and writing back the configuration of a device, where the read comes through
(`Edit.Ready`), whatever else becomes of the exchanges: the tree that is read is the store the
commands in the middle work on, and a write that returns 0 leaves what they made of it on the device.
Only a calibration can keep them from their end. -/
theorem editConfiguration_effective (h : x.Ready fs d inkaObj) :
    (∃ e inkaObj', editConfiguration x fs d = .ok (some e) ∧ Edited x d inkaObj e inkaObj') ∨
    (∃ f, editConfiguration x fs d = .error f) ∧ ∃ c ∈ x.calls, c.key.val = text "psd_cali" := by
  rcases h.accepted with ⟨read, hread, hrv, hdevice, hwritable, haccepted⟩
  rcases hmodify : modifyAll x.filename x.calls read.fs.files with f | ⟨rvs, files'⟩
  · right
    refine ⟨⟨f, ?_⟩, psdCali_of_modifyAll_fault (haccepted 0) h.restorable hwritable h.calls hmodify⟩
    unfold editConfiguration
    rw [hread, bind_ok]
    simp only [hmodify]
    rfl
  · left
    rcases modifyAll_stored (haccepted 0) h.restorable hwritable h.calls hmodify with ⟨inkaObj', hstored⟩
    rcases Option.bind_eq_some_iff.mp hstored.accepted.parsed with ⟨file, hfile, htree⟩
    rcases confFileWriteCommand_writes x.uninit files'.localFs h.station h.short h.fuel hfile d.device.inkaConf
      d.device.inkaUpdateConf x.writeFates with ⟨write, hwrite, hupdate, hkept, hwritten⟩
    have hbase : write.rv = 0 → EditEnd.Small x ⟨read, (rvs, files'), write⟩ →
        write.env.1.inkaConf.bind jsonParseContents = some (.object inkaObj') := by
      intro hrv' hsize
      rcases hwritten hrv' with ⟨hne, hconf⟩
      rw [hconf, written_eq (Nat.one_le_iff_ne_zero.mpr hne) (hsize file hfile), Option.bind_some]
      exact htree
    refine ⟨⟨read, (rvs, files'), write⟩, inkaObj', ?_, hrv, hstored, hupdate, hkept, hbase, ?_⟩
    · unfold editConfiguration
      rw [hread, bind_ok]
      simp only [hmodify, bind_ok, hdevice]
      have hcommand : confFileWriteCommand ⟨faultyDevice, x.fuel, x.uninit⟩ (x.filename.val :: x.station)
          files'.localFs (d.device, x.writeFates) = .ok (some write) := hwrite
      rw [hcommand]
      rfl
    · intro hrv' hsize hnone
      unfold Device.effectiveTree
      rw [hbase hrv' hsize, hupdate, hnone]
      rfl

end Edit

/-! ## A run -/

/-- A device with an update file: the base file has the objects every modifier needs. -/
def updatedDevice : ConfFiles where
  inkaConf := some (oneFragment (text "\x7b\"hpav\":\x7b\x7d,\"cp\":\x7b\x7d,\"phy\":\x7b\x7d\x7d") (by decide))
  inkaUpdateConf := some (oneFragment (text "\x7b\"use_nvram\":true\x7d") (by decide))

/-- The switch of the update file is turned on and off again; the first confirmation of the
deletion is lost. -/
def switchEdit : Edit where
  uninit := []
  fuel := 3 * 65535
  inkaConfTmp := text "/tmp/ink.a"
  inkaUpdateConfTmp := text "/tmp/inu.a"
  filename := emptyFilename
  station := []
  calls := switchCalls
  readFates := [.served, .served]
  writeFates := [.timeout true, .served, .served]

def updatedObject : Members :=
  [(text "hpav", .object []), (text "cp", .object []), (text "phy", .object []), (text "use_nvram", .boolean true)]

theorem switchEdit_ready : switchEdit.Ready noFiles updatedDevice updatedObject where
  temporary := temporary_noFiles _ _ rfl
  own := by decide
  short := by decide
  writable := rfl
  station := by decide +kernel
  fuel := le_rfl
  calls := by
    intro c hc
    simp only [switchEdit, switchCalls, List.mem_cons, List.not_mem_nil, or_false] at hc
    rcases hc with rfl | rfl | rfl
    all_goals exact ⟨fun _ => by decide +kernel, fun hk => absurd hk (by decide)⟩
  read := by decide +kernel
  restorable := by decide +kernel
  hpav := ⟨[], by decide +kernel⟩
  cp := ⟨[], by decide +kernel⟩
  phy := ⟨[], by decide +kernel⟩

/-- A run without a calibration comes to its end. -/
theorem editConfiguration_effective_switch : ∃ e inkaObj',
    editConfiguration switchEdit noFiles updatedDevice = .ok (some e) ∧
      Edited switchEdit updatedDevice updatedObject e inkaObj' := by
  rcases editConfiguration_effective switchEdit_ready with hedited | ⟨-, c, hc, hkey⟩
  · exact hedited
  · simp only [switchEdit, switchCalls, List.mem_cons, List.not_mem_nil, or_false] at hc
    rcases hc with rfl | rfl | rfl
    all_goals exact absurd hkey (by decide)

end Hpav
