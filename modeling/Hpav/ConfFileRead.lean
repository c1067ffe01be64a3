import Mathlib.Tactic.Common
import Hpav.FileCommand
import Hpav.FileUpload
import Hpav.Json.MergeText

/-!
# Reading the configuration of a device

`conf_file_read` under lost and failed confirmations. The device hands its two files out in
fragments and serves, refuses or stays silent as a list of fates says. `uploads` is what a file in
so many fragments comes to under a list of fates, and the two savings are described by it
(`fragmentsLoop_saves`, `fragmentsLoop_absent`). The update file is taken not to be there if its
saving fails in whatever way, so a lost confirmation makes the base file alone the result:
`confFileRead_effective_iff` says which runs give the configuration of the device.
-/

namespace Hpav

open CMem CScan

/-! ## The device -/

/-- A file in the fragments it is handed out in. -/
structure StoredFile where
  fragments : List (List UInt8)
  nonempty : fragments ≠ []
  fits : ∀ bytes ∈ fragments, bytes.length ≤ dataMaxLen
  count : fragments.length ≤ 65535

def StoredFile.content (f : StoredFile) : List UInt8 :=
  f.fragments.flatten

/-- The configuration files of a device. -/
structure ConfFiles where
  inkaConf : Option StoredFile
  inkaUpdateConf : Option StoredFile

namespace ConfFiles

def file (d : ConfFiles) (path : CString) : Option StoredFile :=
  if path = deviceInkaConfPath then d.inkaConf
  else if path = deviceInkaUpdateConfPath then d.inkaUpdateConf
  else none

/-- The confirmation of a request that gets through: the fragment asked for, or a failure. -/
def answer (d : ConfFiles) (mac : Mac) (r : FileAccessReq) : FileAccessCnf :=
  match d.file r.parameter with
  | none => deviceCnf 1 mac r
  | some f =>
    if r.op = opSave ∧ r.fragmentNumber.toNat < f.fragments.length then saveCnf mac f.fragments r.fragmentNumber
    else deviceCnf 1 mac r

/-- The configuration that is in effect: the base file with what the update file says instead. -/
def effective (d : ConfFiles) : Option Json :=
  (d.inkaConf.bind fun f => jsonParseContents f.content).bind fun base =>
    match d.inkaUpdateConf with
    | none => some base
    | some f => (jsonParseContents f.content).map (override base)

end ConfFiles

/-- The device under a list of fates; behind its end nothing gets through any more. -/
def savingDevice : Environment (ConfFiles × List Fate) where
  respond := fun (d, fates) mac r =>
    match fates with
    | [] => (.received [], (d, []))
    | .served :: rest => (.received [d.answer mac r], (d, rest))
    | .refused :: rest => (.received [deviceCnf 1 mac r], (d, rest))
    | .timeout _ :: rest => (.received [], (d, rest))
    | .pcapError _ :: rest => (.pcapError, (d, rest))

/-- Whether `n` fragments get through one behind the other, and the fates left. -/
def uploads : Nat → List Fate → Bool × List Fate
  | 0, fates => (true, fates)
  | n + 1, fates =>
    if (attempts 3 fates).acknowledged then uploads n (attempts 3 fates).rest
    else (false, (attempts 3 fates).rest)

/-- The same with `tries` tries left for the first of `n + 1` fragments. -/
def uploadsFrom (tries n : Nat) (fates : List Fate) : Bool × List Fate :=
  if (attempts tries fates).acknowledged then uploads n (attempts tries fates).rest
  else (false, (attempts tries fates).rest)

/-! ## What a confirmation does to other files -/

/-- Files that differ in one path at most. -/
def SameBut (path : CString) (fs fs' : LocalFs) : Prop :=
  fs'.writable = fs.writable ∧ ∀ p, p ≠ path → fs'.content p = fs.content p

/-- A step that writes nothing leaves every file. -/
theorem SameBut.refl (path : CString) (fs : LocalFs) : SameBut path fs fs :=
  ⟨rfl, fun _ _ => rfl⟩

/-- So do two steps that write one file. -/
theorem SameBut.trans {path : CString} {fs fs' fs'' : LocalFs} (h : SameBut path fs fs') (h' : SameBut path fs' fs'') :
    SameBut path fs fs'' :=
  ⟨h'.1.trans h.1, fun p hp => (h'.2 p hp).trans (h.2 p hp)⟩

/-- A write leaves the other files. -/
theorem sameBut_write (path : CString) (bytes : List UInt8) (fs : LocalFs) : SameBut path fs (fs.write path bytes) := by
  refine ⟨rfl, ?_⟩
  intro p hp
  exact if_neg hp

section Saving

variable {cmd : FileAccessCommand} {fragments : List (List UInt8)} {old : Option (List UInt8)}

/-- One fragment that is saved. -/
theorem processMtkVsFileAccessCnf_saves (uninit : List UInt8) {fs : LocalFs} {c : FileAccessCnf} {n : Nat}
    (hop : cmd.op = opSave) (hc : IsFragmentCnf fragments c) (hn : c.fragmentNumber.toNat = n)
    (hwritable : fs.writable cmd.fileName = true) (h : Filed fragments old (fs.content cmd.fileName) (List.range n)) :
    ∃ fs', processMtkVsFileAccessCnf uninit cmd fs [c] = .ok (fs', true) ∧ SameBut cmd.fileName fs fs' ∧
      Filed fragments old (fs'.content cmd.fileName) (List.range (n + 1)) := by
  have hscan : cmd.op ≠ opScanSta := by
    rw [hop]
    decide
  have hfits : c.length.toNat ≤ dataMaxLen := by
    rw [hc.1.2.2.2.2.2, FileAccessCnf.payload, List.length_take, hc.2]
    exact Nat.min_le_right _ _
  have hsave := processSuccess_save (s := ⟨fs, .null, uninit⟩) hc.1.2.2.1 hfits hwritable
  obtain ⟨s', hs', -, hfiled⟩ := processSuccess_files (s := ⟨fs, .null, uninit⟩) hc hwritable h
  have hprocess : processMtkVsFileAccessCnf uninit cmd fs [c] = .ok (s'.fs, true) := by
    rw [processMtkVsFileAccessCnf_eq hscan (List.cons_ne_nil _ _)]
    unfold processLoop
    rw [if_pos hc.1.2.1, hs']
    rfl
  refine ⟨s'.fs, hprocess, ?_, ?_⟩
  · rw [hsave] at hs'
    injection hs' with hs'
    rw [← hs']
    simp only
    split
    · exact sameBut_write _ _ _
    · exact sameBut_write _ _ _
  · -- the fragment is the next one in order, so what is filed grows by it
    have horder : filed (List.range n) [c.fragmentNumber.toNat] = List.range (n + 1) := by
      have hin := inOrder_singleton.mpr (Or.inl hn : c.fragmentNumber.toNat = n ∨ c.fragmentNumber.toNat = 0)
      rw [← hn] at hin ⊢
      exact hin
    rw [horder] at hfiled
    exact hfiled

end Saving

/-! ## The loop of one file -/

section Uploading

variable {cmd : FileAccessCommand} {d : ConfFiles} {f : StoredFile}

/-- While fragment number `frag` is asked for, with `tries` tries left, there are `n` more behind
it, and those in front of it are saved. -/
structure Uploading (cmd : FileAccessCommand) (d : ConfFiles) (f : StoredFile) (old : Option (List UInt8)) (tries n : Nat)
    (fs : LocalFs) (s : Sender) : Prop where
  request : s.mmeSent.op = opSave
  file : d.file s.mmeSent.parameter = some f
  asks : s.Asks f.fragments
  left : f.fragments.length = s.mmeSent.fragmentNumber.toNat + (n + 1)
  retry : s.retryCount + tries = 3
  writable : fs.writable cmd.fileName = true
  filed : Filed f.fragments old (fs.content cmd.fileName) (List.range s.mmeSent.fragmentNumber.toNat)

/-- The confirmation of a fragment that is there. -/
theorem Uploading.answer {old : Option (List UInt8)} {tries n : Nat} {fs : LocalFs} {s : Sender}
    (h : Uploading cmd d f old tries n fs s) (mac : Mac) :
    d.answer mac s.mmeSent = saveCnf mac f.fragments s.mmeSent.fragmentNumber ∧
      IsFragmentCnf f.fragments (saveCnf mac f.fragments s.mmeSent.fragmentNumber) := by
  constructor
  · unfold ConfFiles.answer
    simp only [h.file, if_pos (And.intro h.request h.asks.number)]
  · exact ⟨saveCnf_brings mac f.fits f.count h.asks.number, (saveCnf_wellFormed mac f.fits _).data⟩

/-- The turn behind it: the file is complete, or the next fragment is asked for. -/
theorem Uploading.served {old : Option (List UInt8)} {tries n : Nat} {fs : LocalFs} {s : Sender} (uninit : List UInt8)
    (mac : Mac) (hop : cmd.op = opSave) (h : Uploading cmd d f old tries n fs s) :
    ∃ fs' turn, receiveResponse uninit cmd fs s (.received [d.answer mac s.mmeSent]) = .ok (fs', turn) ∧
      SameBut cmd.fileName fs fs' ∧
      ((n = 0 ∧ turn = .leave 0 ∧ fs'.content cmd.fileName = some f.content) ∨
        ∃ m s', n = m + 1 ∧ turn = .again s' ∧ Uploading cmd d f old 3 m fs' s') := by
  rcases h.answer mac with ⟨hanswer, hcnf⟩
  rw [hanswer]
  generalize hc : saveCnf mac f.fragments s.mmeSent.fragmentNumber = c at hcnf
  have hnumber : c.fragmentNumber = s.mmeSent.fragmentNumber := by
    rw [← hc]
    rfl
  rcases processMtkVsFileAccessCnf_saves uninit hop hcnf (congrArg UInt16.toNat hnumber) h.writable
    h.filed with ⟨fs', hprocess, hsame, hfiled⟩
  have hrecv := receiveResponse_processed (s := s) hprocess
  rcases hcnf.advance (s := s) with ⟨hnext, hasks, hlast⟩
  have hleft := h.left
  rw [hnumber] at hnext hlast
  refine ⟨fs', _, hrecv, hsame, ?_⟩
  -- the fragment that came is counted; the loop goes on while one is missing
  by_cases hlt : (s.advance c).mmeSent.fragmentNumber < (s.advance c).mmeSent.totalFragments
  · right
    have hpos := (hasks hlt).number
    refine ⟨n - 1, s.advance c, by omega, if_pos ⟨rfl, Or.inr hlt⟩, ?_⟩
    refine ⟨h.request, h.file, hasks hlt, by omega, rfl, ?_, ?_⟩
    · rw [hsame.1]
      exact h.writable
    · rw [hnext]
      exact hfiled
  · left
    have hend := hlast hlt
    refine ⟨by omega, if_neg ?_, ?_⟩
    · rintro ⟨-, ⟨-, hempty⟩ | hless⟩
      · cases hempty
      · exact hlt hless
    · rw [← hend] at hfiled
      unfold Filed at hfiled
      rw [if_pos (List.mem_range.mpr (by omega)), bytesOf_range] at hfiled
      exact hfiled

/-- What the uploads from a sender on have come to. -/
def Uploaded (cmd : FileAccessCommand) (f : StoredFile) (fs fs' : LocalFs) (rv : Int) (success : Bool) : Prop :=
  SameBut cmd.fileName fs fs' ∧ (rv = 0 ↔ success = true) ∧ (rv = 0 → fs'.content cmd.fileName = some f.content)

/-- A file that was not fetched leaves everything as it was. -/
theorem uploaded_failed {fs : LocalFs} {rv : Int} (h : rv ≠ 0) : Uploaded cmd f fs fs rv false :=
  ⟨.refl _ _, iff_of_false h Bool.false_ne_true, fun h0 => absurd h0 h⟩

/-- The saving of a file that is there, by induction on the exchanges that may still be made. -/
theorem loopEnds_save (uninit : List UInt8) (fates : List Fate) {old : Option (List UInt8)} {fuel tries n : Nat}
    {fs : LocalFs} {s : Sender} (hop : cmd.op = opSave) (h : Uploading cmd d f old tries n fs s) (htries : 0 < tries) (hfuel : 3 * n + tries ≤ fuel) :
    ∃ fs' rv, LoopEnds uninit savingDevice cmd fuel fs s (d, fates) fs' rv (d, (uploadsFrom tries n fates).2) ∧
      Uploaded cmd f fs fs' rv (uploadsFrom tries n fates).1 := by
  have hscan : cmd.op ≠ opScanSta := by
    rw [hop]
    decide
  have hwrite : cmd.op ≠ opWrite := by
    rw [hop]
    decide
  induction fuel generalizing s fs fates n tries with
  | zero => omega
  | succ fuel ih =>
    obtain ⟨left, rfl⟩ : ∃ left, tries = left + 1 := ⟨tries - 1, by omega⟩
    have hprep := prepareRequest_unchanged hwrite s
    -- no confirmation: the last try fails, others are followed by another one
    have hsilent : ∀ rest, (∀ mac r, savingDevice.respond (d, fates) mac r = (.received [], (d, rest))) →
        uploadsFrom (left + 1) n fates = uploadsFrom left n rest →
        ∃ fs' rv, LoopEnds uninit savingDevice cmd (fuel + 1) fs s (d, fates) fs' rv
            (d, (uploadsFrom (left + 1) n fates).2) ∧
          Uploaded cmd f fs fs' rv (uploadsFrom (left + 1) n fates).1 := by
      intro rest hresp hsame
      have hrecv := receiveResponse_silent uninit cmd fs h.asks.open
      have hretry := h.retry
      rw [hsame]
      rcases Nat.eq_zero_or_pos left with rfl | hleft
      · rw [if_pos (by omega)] at hrecv
        exact ⟨fs, reqFail, .leave hprep (hresp _ _) hrecv, uploaded_failed (by decide)⟩
      · rw [if_neg (by omega)] at hrecv
        have hagain : Uploading cmd d f old left n fs s.retry := by
          refine ⟨h.request, h.file, ⟨h.asks.number, h.asks.total⟩, h.left, ?_, h.writable, h.filed⟩
          show s.retryCount + 1 + left = 3
          omega
        rcases ih rest hagain hleft (by omega) with ⟨fs', rv, hends, huploaded⟩
        exact ⟨fs', rv, hends.again hprep (hresp _ _) hrecv, huploaded⟩
    rcases fates with _ | ⟨fate, rest⟩
    · refine hsilent [] (fun _ _ => rfl) ?_
      unfold uploadsFrom
      rw [attempts_nil, attempts_nil]
    cases fate with
    | timeout executed => exact hsilent rest (fun _ _ => rfl) rfl
    | refused =>
      have hrefused : (deviceCnf 1 s.destMac s.mmeSent).mstatus ≠ 0 := by
        show (1 : UInt8) ≠ 0
        decide
      exact ⟨fs, hpavNok, .leave hprep rfl (receiveResponse_refused uninit fs s hscan hrefused),
        uploaded_failed (by decide)⟩
    | pcapError executed => exact ⟨fs, -1, .leave hprep rfl rfl, uploaded_failed (by decide)⟩
    | served =>
      show ∃ fs' rv, LoopEnds uninit savingDevice cmd (fuel + 1) fs s (d, .served :: rest) fs' rv
          (d, (uploads n rest).2) ∧ Uploaded cmd f fs fs' rv (uploads n rest).1
      rcases h.served uninit s.destMac hop with ⟨fs₁, turn, hrecv, hsame, ⟨rfl, rfl, hcontent⟩ | ⟨m, s', rfl, rfl, hagain⟩⟩
      · exact ⟨fs₁, 0, .leave hprep rfl hrecv, hsame, iff_of_true rfl rfl, fun _ => hcontent⟩
      · rcases ih rest hagain (by omega) (by omega) with ⟨fs', rv, hends, hsame', hrv, hcontent⟩
        exact ⟨fs', rv, hends.again hprep rfl hrecv, hsame.trans hsame', hrv, hcontent⟩

/-- The saving of a file that is not there fails, whatever becomes of the exchanges. -/
theorem loopEnds_absent (uninit : List UInt8) (fates : List Fate) (fs : LocalFs) {tries : Nat} {s : Sender}
    (hop : cmd.op = opSave) (hopen : s.Open) (hfile : d.file s.mmeSent.parameter = none) (hretry : s.retryCount + tries = 3) (htries : 0 < tries) :
    ∃ rv rest, LoopEnds uninit savingDevice cmd tries fs s (d, fates) fs rv (d, rest) ∧ rv ≠ 0 := by
  have hscan : cmd.op ≠ opScanSta := by
    rw [hop]
    decide
  have hwrite : cmd.op ≠ opWrite := by
    rw [hop]
    decide
  -- on the tries that are left: a try that is answered leaves, one that is not
  -- leaves the rest to the next
  induction tries generalizing s fates with
  | zero => exact absurd htries (Nat.lt_irrefl 0)
  | succ left ih =>
    have hprep := prepareRequest_unchanged hwrite s
    have hsilent : ∀ rest, (∀ mac r, savingDevice.respond (d, fates) mac r = (.received [], (d, rest))) →
        ∃ rv rest', LoopEnds uninit savingDevice cmd (left + 1) fs s (d, fates) fs rv (d, rest') ∧ rv ≠ 0 := by
      intro rest hresp
      have hrecv := receiveResponse_silent uninit cmd fs hopen
      rcases Nat.eq_zero_or_pos left with rfl | hleft
      · rw [if_pos (by omega)] at hrecv
        exact ⟨reqFail, rest, .leave hprep (hresp _ _) hrecv, by decide⟩
      · rw [if_neg (by omega)] at hrecv
        have hcount : s.retry.retryCount + left = 3 := by
          show s.retryCount + 1 + left = 3
          omega
        have hopen' : s.retry.Open := hopen
        rcases ih rest hopen' hfile hcount hleft with ⟨rv, rest', hends, hrv⟩
        exact ⟨rv, rest', hends.again hprep (hresp _ _) hrecv, hrv⟩
    -- the device says itself that it has no such file
    have hrefused : ∀ rest c, savingDevice.respond (d, fates) s.destMac s.mmeSent = (.received [c], (d, rest)) →
        c.mstatus ≠ 0 →
        ∃ rv rest', LoopEnds uninit savingDevice cmd (left + 1) fs s (d, fates) fs rv (d, rest') ∧ rv ≠ 0 := by
      intro rest c hresp hc
      exact ⟨hpavNok, rest, .leave hprep hresp (receiveResponse_refused uninit fs s hscan hc), by decide⟩
    have hstatus : (deviceCnf 1 s.destMac s.mmeSent).mstatus ≠ 0 := by
      show (1 : UInt8) ≠ 0
      decide
    rcases fates with _ | ⟨fate, rest⟩
    · exact hsilent [] fun _ _ => rfl
    cases fate with
    | timeout executed => exact hsilent rest fun _ _ => rfl
    | refused => exact hrefused rest _ rfl hstatus
    | pcapError executed => exact ⟨-1, rest, .leave hprep rfl rfl, by decide⟩
    | served =>
      refine hrefused rest _ ?_ hstatus
      show (Outcome.received [d.answer s.destMac s.mmeSent], (d, rest)) = _
      unfold ConfFiles.answer
      rw [hfile]

end Uploading

/-! ## The command of a saving -/

/-- An address is the name of no command. -/
theorem parseWord_address {word : CString} {mac : Mac} (h : stomac word = some mac) (rest : List CString) :
    parseWord (word :: rest) = parseWord rest := by
  have hnames : ∀ command ∈ mtkVsFileAccessCommands, stomac command.name = none := by decide
  have hnone : (mtkVsFileAccessCommands.find? fun command => word = command.name) = none := by
    rw [List.find?_eq_none]
    intro command hcommand hname
    rw [of_decide_eq_true hname, hnames command hcommand] at h
    cases h
  rw [parseWord, hnone]

/-- The words of `save` are parsed to a saving of the file. -/
theorem parseMtkVsFileAccess_save {path tmp : CString} (hpath : path.length < 32) (htmp : tmp.length < 128) :
    parseMtkVsFileAccess [text "save", path, text "output", tmp] =
      .ok (some (⟨opSave, fileTypeGeneralFile, path, tmp⟩, false)) := by
  have hparameter : strcpy 32 path = .ok path := if_pos hpath
  have hname : strcpy 128 tmp = .ok tmp := if_pos htmp
  have hword : parseWord [text "save", path, text "output", tmp] =
      .ok (some (⟨text "save", opSave, fileTypeGeneralFile, true, .output⟩, path, [text "output", tmp])) := by
    show (strcpy 32 path >>= fun parameter => .ok (some (_, parameter, _))) = _
    rw [hparameter]
    rfl
  have hfile : parseFile [text "output", tmp] = .ok (some (.output, tmp, [])) := by
    show (strcpy 128 tmp >>= fun fileName => .ok (some (_, fileName, _))) = _
    rw [hname]
    rfl
  unfold parseMtkVsFileAccess
  rw [if_neg (List.cons_ne_nil _ _), hword]
  show (parseFile [text "output", tmp] >>= _) = _
  rw [hfile]
  rfl

section Command

variable {station path tmp : CString} {d : ConfFiles} {fates : List Fate}
  {fs : LocalFs}

/-- The command is a file access at one station: the one named, or all of them by its zeros. -/
theorem testMmeMtkVsFileAccessReq_save {σ : Type} (host : FileHost σ) {mac : Mac} (fs : LocalFs) (env : σ)
    (hstation : stomac station = some mac) (hpath : path.length < 32) (htmp : tmp.length < 128) :
    ∃ dest, testMmeMtkVsFileAccessReq host (saveWords station path tmp) fs env =
      accessFiles host ⟨opSave, fileTypeGeneralFile, path, tmp⟩ [dest] fs env := by
  have hparse := parseMtkVsFileAccess_save hpath htmp
  unfold testMmeMtkVsFileAccessReq
  simp only [hstation]
  by_cases hzero : mac.bytes = List.replicate 6 0
  · refine ⟨broadcast, ?_⟩
    -- the address itself is passed on, and skipped there
    have hwords : parseMtkVsFileAccess (saveWords station path tmp) =
        parseMtkVsFileAccess [text "save", path, text "output", tmp] := by
      unfold parseMtkVsFileAccess
      rw [if_neg (List.cons_ne_nil _ _), if_neg (List.cons_ne_nil _ _), parseWord_address hstation]
    simp only [hzero, ne_eq, not_true_eq_false, if_false, hwords, hparse, bind_ok]
    rfl
  · refine ⟨mac, ?_⟩
    simp only [ne_eq, hzero, not_false_eq_true, if_true, hparse, bind_ok]
    rfl

/-- A file access of one station, described by the end of that station's loop. -/
theorem accessFiles_single {σ : Type} (host : FileHost σ) {cmd : FileAccessCommand} {mac : Mac} {fs fs' : LocalFs}
    {s : Sender} {env env' : σ} {rv : Int} (hstart : startStation cmd fs mac = .inl s)
    (h : LoopEnds host.uninit host.environment cmd host.fuel fs s env fs' rv env') :
    ∃ log, accessFiles host cmd [mac] fs env = .ok (some ⟨rv, log, fs', env'⟩) := by
  rcases fileAccessReq_single hstart h with ⟨exchanges, hrun⟩
  refine ⟨[.transfer (fs.writable cmd.fileName) [(mac, exchanges)]], ?_⟩
  unfold accessFiles
  rw [hrun]
  rfl

/-- The sender a saving starts with. -/
def savingSender (dest : Mac) (path : CString) : Sender :=
  ⟨dest, ⟨opSave, fileTypeGeneralFile, path, 0, 0, 0, 0, 0, List.replicate dataMaxLen 0⟩, 0, []⟩

/-- A saving is started, whatever files there are. -/
theorem startStation_saving (hpath : path.length < 32) (fs : LocalFs) (dest : Mac) :
    startStation ⟨opSave, fileTypeGeneralFile, path, tmp⟩ fs dest = .inl (savingSender dest path) := by
  unfold startStation
  simp only
  rw [if_neg (by omega), if_neg (by decide)]
  rfl

/-- Saving a file that is there. -/
theorem save_uploads {mac : Mac} {f : StoredFile} {fuel : Nat} (uninit : List UInt8) (fates : List Fate)
    (hstation : stomac station = some mac) (hpath : path.length < 32) (htmp : tmp.length < 128)
    (hfile : d.file path = some f) (hwritable : fs.writable tmp = true) (hfuel : 3 * f.fragments.length ≤ fuel) :
    ∃ e : CommandEnd (ConfFiles × List Fate),
      testMmeMtkVsFileAccessReq ⟨savingDevice, fuel, uninit⟩ (saveWords station path tmp) fs (d, fates) = .ok (some e) ∧
      e.env = (d, (uploads f.fragments.length fates).2) ∧
      Uploaded ⟨opSave, fileTypeGeneralFile, path, tmp⟩ f fs e.fs e.rv (uploads f.fragments.length fates).1 := by
  rcases testMmeMtkVsFileAccessReq_save ⟨savingDevice, fuel, uninit⟩ fs (d, fates) hstation hpath htmp with ⟨dest, hrun⟩
  have hpos : 0 < f.fragments.length := List.length_pos_iff.mpr f.nonempty
  obtain ⟨n, hn⟩ : ∃ n, f.fragments.length = n + 1 := ⟨f.fragments.length - 1, by omega⟩
  have huploading : Uploading ⟨opSave, fileTypeGeneralFile, path, tmp⟩ d f (fs.content tmp) 3 n fs
      (savingSender dest path) := by
    refine ⟨rfl, hfile, ⟨hpos, Or.inr rfl⟩, ?_, rfl, hwritable, filed_nil _ _⟩
    show f.fragments.length = 0 + (n + 1)
    omega
  rcases loopEnds_save uninit fates rfl huploading (by omega) (by omega : 3 * n + 3 ≤ fuel) with
    ⟨fs', rv, hends, huploaded⟩
  rcases accessFiles_single ⟨savingDevice, fuel, uninit⟩ (startStation_saving hpath fs dest) hends with ⟨log, haccess⟩
  rw [hn]
  exact ⟨_, hrun.trans haccess, rfl, huploaded⟩

/-- Saving a file that is not there. -/
theorem save_fails {mac : Mac} {fuel : Nat} (uninit : List UInt8) (fates : List Fate) (fs : LocalFs)
    (hstation : stomac station = some mac) (hpath : path.length < 32) (htmp : tmp.length < 128)
    (hfile : d.file path = none) (hfuel : 3 ≤ fuel) :
    ∃ e : CommandEnd (ConfFiles × List Fate),
      testMmeMtkVsFileAccessReq ⟨savingDevice, fuel, uninit⟩ (saveWords station path tmp) fs (d, fates) = .ok (some e) ∧
      e.fs = fs ∧ e.rv ≠ 0 := by
  rcases testMmeMtkVsFileAccessReq_save ⟨savingDevice, fuel, uninit⟩ fs (d, fates) hstation hpath htmp with ⟨dest, hrun⟩
  have hcmd : (⟨opSave, fileTypeGeneralFile, path, tmp⟩ : FileAccessCommand).op = opSave := rfl
  rcases loopEnds_absent uninit fates fs hcmd (s := savingSender dest path) (Or.inl rfl) hfile (rfl : 0 + 3 = 3)
    (by omega) with ⟨rv, rest, hends, hrv⟩
  rcases accessFiles_single ⟨savingDevice, fuel, uninit⟩ (startStation_saving hpath fs dest) (hends.mono hfuel) with
    ⟨log, haccess⟩
  exact ⟨_, hrun.trans haccess, rfl, hrv⟩

end Command

/-! ## The whole command -/

/-- What the update file makes of the tree of the base file, if it is brought. -/
def ConfFiles.updated (d : ConfFiles) (inka : Option Json) (fates : List Fate) : Option Json :=
  match d.inkaUpdateConf with
  | none => inka
  | some u =>
    if (uploads u.fragments.length fates).1 then mergeValues inka (jsonParseContents u.content)
    else inka

/-- The tree that is written, if there is one. -/
def ConfFiles.read (d : ConfFiles) (fates : List Fate) : Option Json :=
  d.inkaConf.bind fun f =>
    if (uploads f.fragments.length fates).1 then
      d.updated (jsonParseContents f.content) (uploads f.fragments.length fates).2
    else none

/-- What a command comes to that is to write a tree into a file: it does so exactly if it returns 0. -/
def Writes {σ : Type} (filename : CString) (fs : LocalFs) (tree : Option Json) (e : CommandEnd σ) : Prop :=
  (e.rv = 0 ↔ fs.writable filename = true ∧ tree.isSome = true) ∧
    ∀ v, tree = some v → e.rv = 0 → e.fs = fs.write filename (jsonSerialize v)

section Whole

variable {σ : Type} {filename t1 t2 : CString} {log : List Met} {fs : LocalFs} {env : σ}

/-- A command that failed has written nothing. -/
theorem writes_none {e : CommandEnd σ} (h : e.rv ≠ 0) : Writes filename fs none e := by
  refine ⟨iff_of_false h ?_, ?_⟩
  · rintro ⟨-, hsome⟩
    cases hsome
  · intro v hv
    cases hv

/-- -1 is a failure. -/
theorem minus_one_ne : (-1 : Int) ≠ 0 := by
  decide

/-- What is saved is the tree, if there is one. -/
theorem saveConf_writes (inka : Option Json) : Writes filename fs inka (saveConf filename log inka fs env) := by
  cases inka with
  | none => exact writes_none minus_one_ne
  | some inka =>
    unfold saveConf
    by_cases hwritable : fs.writable filename = true
    · simp only [if_pos hwritable]
      refine ⟨by simp [hwritable], ?_⟩
      intro v hv _
      injection hv with hv
      rw [hv]
    · simp only [if_neg hwritable]
      exact ⟨by simp [hwritable], fun _ _ h => absurd h minus_one_ne⟩

/-- Without an update the base is written, and with one what the merge made of it. -/
theorem mergeConf_writes (filename t1 t2 : CString) (log : List Met) (fs : LocalFs) (env : σ) (inkaUpdateExist : Bool) :
    Writes filename fs
      (if inkaUpdateExist then
        mergeValues ((fs.content t1).bind jsonParseContents) ((fs.content t2).bind jsonParseContents)
      else (fs.content t1).bind jsonParseContents)
      (mergeConf filename t1 t2 log inkaUpdateExist fs env) := by
  unfold mergeConf
  cases inkaUpdateExist with
  | false => exact saveConf_writes _
  | true =>
    simp only [if_true]
    rcases mergeValues ((fs.content t1).bind jsonParseContents) ((fs.content t2).bind jsonParseContents) with _ | merged
    · exact writes_none minus_one_ne
    · exact saveConf_writes _

/-- What `mkstemp` hands out: two files of their own, with short names, that can be written to. -/
structure Temporary (fs : LocalFs) (t1 t2 : CString) : Prop where
  distinct : t1 ≠ t2
  short : t1.length < 128 ∧ t2.length < 128
  writable : fs.writable t1 = true ∧ fs.writable t2 = true

/-- The file behind the end of the command: the temporary ones are gone. -/
theorem content_cleanUp (e : CommandEnd σ) :
    (e.cleanUp t1 t2).fs.content filename = if filename = t1 ∨ filename = t2 then none else e.fs.content filename := by
  show (if filename = t2 then none else if filename = t1 then none else e.fs.content filename) = _
  by_cases h2 : filename = t2
  · rw [if_pos h2, if_pos (Or.inr h2)]
  · rw [if_neg h2]
    by_cases h1 : filename = t1
    · rw [if_pos h1, if_pos (Or.inl h1)]
    · rw [if_neg h1, if_neg (not_or.mpr ⟨h1, h2⟩)]

/-- What the two temporary files come to behind the second saving. -/
theorem update_reads {d : ConfFiles} {mac : Mac} {fuel : Nat} {station : CString} (uninit : List UInt8)
    (fates : List Fate) (htemp : Temporary fs t1 t2) (hfuel : 3 * 65535 ≤ fuel) (hstation : stomac station = some mac) :
    ∃ update : CommandEnd (ConfFiles × List Fate),
      testMmeMtkVsFileAccessReq ⟨savingDevice, fuel, uninit⟩ (saveWords station deviceInkaUpdateConfPath t2) fs
        (d, fates) = .ok (some update) ∧ update.fs.writable = fs.writable ∧
      (if decide (update.rv = 0) = true then
          mergeValues ((update.fs.content t1).bind jsonParseContents) ((update.fs.content t2).bind jsonParseContents)
        else (update.fs.content t1).bind jsonParseContents) =
        d.updated ((fs.content t1).bind jsonParseContents) fates := by
  have hpath : deviceInkaUpdateConfPath.length < 32 := by decide
  have hfile : d.file deviceInkaUpdateConfPath = d.inkaUpdateConf := rfl
  unfold ConfFiles.updated
  rcases hupdateConf : d.inkaUpdateConf with _ | u
  · -- no such file on the device: every end of the transfer is a failure
    rcases save_fails uninit fates fs hstation hpath htemp.short.2 (hfile.trans hupdateConf) (by omega : 3 ≤ fuel) with
      ⟨update, hrun, hfs, hrv⟩
    refine ⟨update, hrun, by rw [hfs], ?_⟩
    rw [if_neg (by simpa using hrv), hfs]
  · have hfuel' : 3 * u.fragments.length ≤ fuel := by
      have hcount := u.count
      omega
    rcases save_uploads uninit fates hstation hpath htemp.short.2 (hfile.trans hupdateConf) htemp.writable.2 hfuel' with
      ⟨update, hrun, -, hsame, hrv, hcontent⟩
    have hkept : update.fs.content t1 = fs.content t1 := hsame.2 t1 htemp.distinct
    refine ⟨update, hrun, hsame.1, ?_⟩
    simp only
    rw [hkept]
    -- the file is there, but the command only sees whether all of it came
    by_cases hbrought : (uploads u.fragments.length fates).1 = true
    · have hzero := hrv.mpr hbrought
      have hsaved : update.fs.content t2 = some u.content := hcontent hzero
      rw [if_pos (by simpa using hzero), if_pos hbrought, hsaved]
      rfl
    · have hne : update.rv ≠ 0 := fun h0 => hbrought (hrv.mp h0)
      rw [if_neg (by simpa using hne), if_neg hbrought]

/-- What the end of the command tells of the tree that is written. -/
def Reads (filename t1 t2 : CString) (fs : LocalFs) (tree : Option Json) (e : CommandEnd σ) : Prop :=
  (e.rv = 0 ↔ fs.writable filename = true ∧ tree.isSome = true) ∧
    ∀ v, tree = some v → e.rv = 0 →
      e.fs.content filename = if filename = t1 ∨ filename = t2 then none else some (jsonSerialize v)

/-- A command that failed has read nothing. -/
theorem reads_failed {e : CommandEnd σ} (h : e.rv ≠ 0) : Reads filename t1 t2 fs none e := by
  refine ⟨iff_of_false h ?_, ?_⟩
  · rintro ⟨-, hsome⟩
    cases hsome
  · intro v hv
    cases hv

/-- What was written is left when the temporary files are removed. -/
theorem Writes.reads {fs' : LocalFs} {tree : Option Json} {e : CommandEnd σ} (h : Writes filename fs' tree e)
    (hkept : fs'.writable = fs.writable) : Reads filename t1 t2 fs tree (e.cleanUp t1 t2) := by
  refine ⟨?_, ?_⟩
  · rw [← hkept]
    exact h.1
  · intro v hv hrv
    rw [content_cleanUp, h.2 v hv hrv, LocalFs.content_write, if_pos rfl]

/-- Both savings, and what is made of them. -/
theorem confFileRead_reads {d : ConfFiles} {mac : Mac} {fuel : Nat} {rest : List CString} (uninit : List UInt8)
    (fates : List Fate) (filename : CString) (htemp : Temporary fs t1 t2) (hfuel : 3 * 65535 ≤ fuel)
    (hstation : stomac (rest.headD mtkLinkLocalAddr) = some mac) :
    ∃ e, confFileReadCommand ⟨savingDevice, fuel, uninit⟩ (some (t1, t2)) (filename :: rest) fs (d, fates) = .ok (some e) ∧
      Reads filename t1 t2 fs (d.read fates) e := by
  have hpath : deviceInkaConfPath.length < 32 := by decide
  have hfile : d.file deviceInkaConfPath = d.inkaConf := rfl
  -- a base file that is not brought is the end
  have hend : ∀ inka : CommandEnd (ConfFiles × List Fate),
      testMmeMtkVsFileAccessReq ⟨savingDevice, fuel, uninit⟩ (saveWords (rest.headD mtkLinkLocalAddr) deviceInkaConfPath t1)
        (fs.withTemporary t1 t2) (d, fates) = .ok (some inka) → inka.rv ≠ 0 → d.read fates = none →
      ∃ e, confFileReadCommand ⟨savingDevice, fuel, uninit⟩ (some (t1, t2)) (filename :: rest) fs (d, fates) =
          .ok (some e) ∧ Reads filename t1 t2 fs (d.read fates) e := by
    intro inka hinka hrv hread
    rw [hread]
    exact ⟨_, confFileReadCommand_failed hinka hrv, reads_failed minus_one_ne⟩
  rcases hinkaConf : d.inkaConf with _ | f
  · rcases save_fails uninit fates (fs.withTemporary t1 t2) hstation hpath htemp.short.1 (hfile.trans hinkaConf)
      (by omega : 3 ≤ fuel) with ⟨inka, hinka, -, hrv⟩
    refine hend inka hinka hrv ?_
    unfold ConfFiles.read
    rw [hinkaConf]
    rfl
  have hwritable : (fs.withTemporary t1 t2).writable t1 = true := htemp.writable.1
  have hfuel' : 3 * f.fragments.length ≤ fuel := by
    have hcount := f.count
    omega
  rcases save_uploads uninit fates hstation hpath htemp.short.1 (hfile.trans hinkaConf) hwritable hfuel' with
    ⟨inka, hinka, henv, hsame, hrv, hcontent⟩
  by_cases hbrought : (uploads f.fragments.length fates).1 = true
  · have hzero : inka.rv = 0 := hrv.mpr hbrought
    have hbase : inka.fs.content t1 = some f.content := hcontent hzero
    have hkept : inka.fs.writable = fs.writable := hsame.1
    have htemp' : Temporary inka.fs t1 t2 := by
      refine ⟨htemp.distinct, htemp.short, ?_⟩
      rw [hkept]
      exact htemp.writable
    rcases update_reads (d := d) uninit (uploads f.fragments.length fates).2 htemp' hfuel hstation with
      ⟨update, hupdate, hkept', htree⟩
    rw [← henv, hbase] at *
    have hread : d.read fates = d.updated (jsonParseContents f.content) (uploads f.fragments.length fates).2 := by
      unfold ConfFiles.read
      rw [hinkaConf, Option.bind_some, if_pos hbrought]
    refine ⟨_, confFileReadCommand_merged hinka hzero hupdate, ?_⟩
    rw [hread]
    have hwrites := mergeConf_writes filename t1 t2 (inka.log ++ update.log) update.fs update.env (decide (update.rv = 0))
    rw [htree] at hwrites
    exact hwrites.reads (hkept'.trans hkept)
  · refine hend inka hinka (fun h0 => hbrought (hrv.mp h0)) ?_
    unfold ConfFiles.read
    rw [hinkaConf, Option.bind_some, if_neg hbrought]

end Whole

/-! ## The configuration in the output file -/

/-- The file holds the text of the tree. -/
def HoldsTree (fs : LocalFs) (filename : CString) (v : Json) : Prop :=
  ∃ bytes w, fs.content filename = some bytes ∧ jsonParseContents bytes = some w ∧ Same w v

/-- The output file holds the configuration that is in effect; the base file alone only where the
update file changes nothing. -/
def HoldsEffective {σ : Type} (d : ConfFiles) (argv : List CString) (e : CommandEnd σ) : Prop :=
  ∃ filename v, argv.head? = some filename ∧ d.effective = some v ∧ HoldsTree e.fs filename v ∧
    ∀ base, (d.inkaConf.bind fun f => jsonParseContents f.content) = some base → HoldsTree e.fs filename base → Same base v

/-- A run that gets as far as the update file, with a base file that can be parsed and an output
file that can be written. -/
structure BaseRead (temp : Option (CString × CString)) (argv : List CString) (fs : LocalFs) (d : ConfFiles)
    (fates : List Fate) (filename t1 t2 : CString) (f : StoredFile) (base : Json) : Prop where
  made : temp = some (t1, t2)
  output : argv.head? = some filename
  station : (stomac (argv.tail.headD mtkLinkLocalAddr)).isSome = true
  file : d.inkaConf = some f
  brought : (uploads f.fragments.length fates).1 = true
  tree : jsonParseContents f.content = some base
  writable : fs.writable filename = true

/-- What is written behind the base file tells of the update file: it is not there, or it is brought
and the merge loses nothing, or it changes nothing. `own` is that the output is no temporary file. -/
def UpdateTold (d : ConfFiles) (fates : List Fate) (own : Prop) (base : Json) : Prop :=
  match d.inkaUpdateConf with
  | none => own ∧ Prints base base
  | some u =>
    if (uploads u.fragments.length fates).1 = true then
      ∀ aMembers bMembers, base = .object aMembers → jsonParseContents u.content = some (.object bMembers) →
        Roomy (Table.trimmed aMembers) bMembers → own ∧ Merges Prints Writable (.object aMembers) (.object bMembers)
    else ∃ update, jsonParseContents u.content = some update ∧ own ∧ Prints base (override base update)

section Told

variable {σ : Type} {filename t1 t2 : CString} {fs : LocalFs} {d : ConfFiles} {argv : List CString} {e : CommandEnd σ}

/-- The output holds the effective configuration exactly if there is one and it holds that tree. -/
theorem holdsEffective_iff (hargv : argv.head? = some filename) :
    HoldsEffective d argv e ↔ ∃ v, d.effective = some v ∧ HoldsTree e.fs filename v := by
  constructor
  · rintro ⟨filename', v, hargv', heffective, hholds, -⟩
    rw [hargv] at hargv'
    injection hargv' with hargv'
    subst hargv'
    exact ⟨v, heffective, hholds⟩
  · rintro ⟨v, heffective, hholds⟩
    refine ⟨filename, v, hargv, heffective, hholds, ?_⟩
    rintro base - ⟨bytes', w', hbytes', hw', hbase⟩
    rcases hholds with ⟨bytes, w, hbytes, hw, hsame⟩
    rw [hbytes] at hbytes'
    injection hbytes' with hbytes'
    rw [← hbytes', hw] at hw'
    injection hw' with hw'
    exact hbase.symm.trans (hw' ▸ hsame)

/-- What the output holds once a tree has been written into it. -/
theorem Reads.holdsTree_iff {tree v : Json} (h : Reads filename t1 t2 fs (some tree) e) (hparsed : Parsed maxNesting tree)
    (hwritable : fs.writable filename = true) :
    e.rv = 0 ∧ (HoldsTree e.fs filename v ↔ ¬ (filename = t1 ∨ filename = t2) ∧ Prints tree v) := by
  have hrv : e.rv = 0 := h.1.mpr ⟨hwritable, rfl⟩
  have hcontent := h.2 tree rfl hrv
  refine ⟨hrv, ?_⟩
  by_cases htemp : filename = t1 ∨ filename = t2
  · rw [if_pos htemp] at hcontent
    refine iff_of_false ?_ fun hand => hand.1 htemp
    rintro ⟨bytes, w, hbytes, -⟩
    rw [hcontent] at hbytes
    cases hbytes
  · rw [if_neg htemp] at hcontent
    constructor
    · rintro ⟨bytes, w, hbytes, hw, hsame⟩
      rw [hcontent] at hbytes
      injection hbytes with hbytes
      rw [← hbytes, jsonParseContents_jsonSerialize hparsed] at hw
      exact ⟨htemp, w, hw, hsame⟩
    · rintro ⟨-, w, hw, hsame⟩
      exact ⟨jsonSerialize tree, w, hcontent, (jsonParseContents_jsonSerialize hparsed).trans hw, hsame⟩

/-- A merge that succeeds, in the words of its two objects. -/
theorem mergeValues_some_iff {base update merged : Json} (hbase : UniqueKeys base) (hupdate : UniqueKeys update) :
    mergeValues (some base) (some update) = some merged ↔
      (jsonValueMerge base update).2 = merged ∧ ∃ aMembers bMembers, base = .object aMembers ∧ update = .object bMembers ∧
        Roomy (Table.trimmed aMembers) bMembers := by
  have hvalues : mergeValues (some base) (some update) =
      if (jsonValueMerge base update).1 = true then some (jsonValueMerge base update).2 else none := by
    unfold mergeValues
    rcases hmerge : jsonValueMerge base update with ⟨_ | _, result⟩
    · simp [hmerge]
    · simp [hmerge]
  rw [hvalues]
  by_cases hsuccess : (jsonValueMerge base update).1 = true
  · rw [if_pos hsuccess, Option.some.injEq]
    refine (and_iff_left ?_).symm
    obtain ⟨aMembers, rfl⟩ := jsonValueMerge_success hsuccess
    cases hupdate with
    | object hbNames hbValues =>
      cases hbase with
      | object hnames =>
        exact ⟨aMembers, _, rfl, rfl, (jsonValueMerge_success_iff hnames hbNames hbValues).mp hsuccess⟩
    | _ => cases hsuccess
  · rw [if_neg hsuccess]
    refine iff_of_false (fun h => nomatch h) ?_
    rintro ⟨-, aMembers, bMembers, rfl, rfl, hroom⟩
    cases hbase with
    | object hnames =>
      cases hupdate with
      | object hbNames hbValues => exact hsuccess ((jsonValueMerge_success_iff hnames hbNames hbValues).mpr hroom)

/-- The effective configuration is the base, overridden by the update if there is one. -/
theorem effective_eq {f : StoredFile} {base : Json} (hfile : d.inkaConf = some f)
    (htree : jsonParseContents f.content = some base) :
    d.effective =
      match d.inkaUpdateConf with
      | none => some base
      | some u => (jsonParseContents u.content).map (override base) := by
  unfold ConfFiles.effective
  rw [hfile, Option.bind_some, htree]
  rfl

/-- The update file is brought: the output holds the configuration exactly if the merge loses nothing. -/
theorem Reads.merged_iff {base : Json} {contents : List UInt8} (hbase : Parsed maxNesting base)
    (hwritable : fs.writable filename = true)
    (h : Reads filename t1 t2 fs (mergeValues (some base) (jsonParseContents contents)) e) :
    (e.rv = 0 → ∃ v, (jsonParseContents contents).map (override base) = some v ∧ HoldsTree e.fs filename v) ↔
      ∀ aMembers bMembers, base = .object aMembers → jsonParseContents contents = some (.object bMembers) →
        Roomy (Table.trimmed aMembers) bMembers →
        ¬ (filename = t1 ∨ filename = t2) ∧ Merges Prints Writable (.object aMembers) (.object bMembers) := by
  rcases hupdate : jsonParseContents contents with _ | update
  · -- the command fails
    rw [hupdate] at h
    have hrv : e.rv ≠ 0 := fun h0 => nomatch (h.1.mp h0).2
    exact iff_of_true (fun h0 => absurd h0 hrv) fun _ _ _ hb => nomatch hb
  rw [hupdate] at h
  have hparsed := parsed_of_jsonParseContents hupdate
  rcases hmerge : mergeValues (some base) (some update) with _ | merged
  · rw [hmerge] at h
    have hrv : e.rv ≠ 0 := fun h0 => nomatch (h.1.mp h0).2
    refine iff_of_true (fun h0 => absurd h0 hrv) ?_
    rintro aMembers bMembers rfl hb hroom
    injection hb with hb
    subst hb
    -- `json_value_merge` fails only for want of room, or on no objects
    have hsome := (mergeValues_some_iff hbase.uniqueKeys hparsed.uniqueKeys).mpr ⟨rfl, aMembers, bMembers, rfl, rfl, hroom⟩
    rw [hmerge] at hsome
    cases hsome
  · rw [hmerge] at h
    obtain ⟨rfl, aMembers, bMembers, rfl, rfl, hroom⟩ := (mergeValues_some_iff hbase.uniqueKeys hparsed.uniqueKeys).mp hmerge
    -- the merge is carried out: the output has to survive the text, and the merge
    -- must not have lost anything
    obtain ⟨hrv, hholds⟩ := h.holdsTree_iff (v := override (.object aMembers) (.object bMembers)) (hbase.merge hparsed)
      hwritable
    have hsuccess : (jsonValueMerge (.object aMembers) (.object bMembers)).1 = true := by
      cases hbase.uniqueKeys with
      | object hnames =>
        cases hparsed.uniqueKeys with
        | object hbNames hbValues => exact (jsonValueMerge_success_iff hnames hbNames hbValues).mpr hroom
    rw [prints_merge_iff hbase hparsed hsuccess] at hholds
    simp only [hrv, true_implies, Option.map_some, Option.some.injEq, exists_eq_left', hholds]
    constructor
    · rintro htold aMembers' bMembers' ha hb -
      injection ha with ha
      injection hb with hb
      subst ha hb
      exact htold
    · intro htold
      exact htold aMembers bMembers rfl rfl hroom

/-- With the base file read, the output holds the configuration exactly if the update file has told. -/
theorem holdsEffective_iff_told {f : StoredFile} {base : Json} {fates : List Fate} (hargv : argv.head? = some filename)
    (hfile : d.inkaConf = some f) (htree : jsonParseContents f.content = some base) (hwritable : fs.writable filename = true)
    (h : Reads filename t1 t2 fs (d.updated (some base) fates) e) :
    (e.rv = 0 → HoldsEffective d argv e) ↔ UpdateTold d fates (¬ (filename = t1 ∨ filename = t2)) base := by
  have hbase := parsed_of_jsonParseContents htree
  rw [holdsEffective_iff hargv, effective_eq hfile htree]
  unfold ConfFiles.updated at h
  unfold UpdateTold
  rcases hupdateConf : d.inkaUpdateConf with _ | u
  · -- no update: the base file is written
    rw [hupdateConf] at h
    obtain ⟨hrv, hholds⟩ := h.holdsTree_iff (v := base) hbase hwritable
    simp only [hrv, Option.some.injEq, exists_eq_left', true_implies]
    exact hholds
  simp only [hupdateConf] at h ⊢
  by_cases hbrought : (uploads u.fragments.length fates).1 = true
  · rw [if_pos hbrought] at h ⊢
    exact h.merged_iff hbase hwritable
  · -- the update file is taken not to be there: the base file is written
    rw [if_neg hbrought] at h ⊢
    have hholds := fun v => h.holdsTree_iff (v := v) hbase hwritable
    constructor
    · intro heff
      obtain ⟨v, hv, htold⟩ := heff (hholds base).1
      obtain ⟨update, hupdate, rfl⟩ := Option.map_eq_some_iff.mp hv
      obtain ⟨hown, hprints⟩ := (hholds _).2.mp htold
      exact ⟨update, hupdate, hown, hprints⟩
    · rintro ⟨update, hupdate, hown, hprints⟩ -
      exact ⟨override base update, by rw [hupdate]; rfl, (hholds _).2.mpr ⟨hown, hprints⟩⟩

end Told

/-- Without a base there is no configuration. -/
theorem updated_none (d : ConfFiles) (fates : List Fate) : d.updated none fates = none := by
  unfold ConfFiles.updated
  rcases d.inkaUpdateConf with _ | u
  · rfl
  · simp only
    split
    · rfl
    · rfl

/-- Without an address that can be read the command ends with the first saving. -/
theorem confFileReadCommand_no_station {σ : Type} {h : FileHost σ} {filename t1 t2 : CString} {rest : List CString}
    {fs : LocalFs} {env : σ} (hstation : stomac (rest.headD mtkLinkLocalAddr) = none) :
    confFileReadCommand h (some (t1, t2)) (filename :: rest) fs env =
      .ok (some (CommandEnd.cleanUp ⟨-1, [.usageError], fs.withTemporary t1 t2, env⟩ t1 t2)) := by
  have husage : testMmeMtkVsFileAccessReq h (saveWords (rest.headD mtkLinkLocalAddr) deviceInkaConfPath t1)
      (fs.withTemporary t1 t2) env = .ok (some (.usage (fs.withTemporary t1 t2) env)) := by
    unfold testMmeMtkVsFileAccessReq
    simp only [hstation]
  have hrv : exitUsage ≠ 0 := by decide
  exact confFileReadCommand_failed husage hrv

section Main

variable {temp : Option (CString × CString)} {argv : List CString} {fs : LocalFs} {d : ConfFiles} {fates : List Fate}
  {filename t1 t2 : CString} {f : StoredFile} {base : Json}

/-- There is one base file, and one tree in it. -/
theorem BaseRead.unique {filename' t1' t2' : CString} {f' : StoredFile} {base' : Json}
    (h : BaseRead temp argv fs d fates filename t1 t2 f base)
    (h' : BaseRead temp argv fs d fates filename' t1' t2' f' base') :
    filename' = filename ∧ t1' = t1 ∧ t2' = t2 ∧ f' = f ∧ base' = base := by
  have hmade := h.made.symm.trans h'.made
  have houtput := h.output.symm.trans h'.output
  have hfile := h.file.symm.trans h'.file
  cases hmade
  cases houtput
  cases hfile
  have htree := h.tree.symm.trans h'.tree
  cases htree
  exact ⟨rfl, rfl, rfl, rfl, rfl⟩

/-- Once the base is fetched, what is read is decided by the exchanges behind it. -/
theorem BaseRead.read_eq (h : BaseRead temp argv fs d fates filename t1 t2 f base) :
    d.read fates = d.updated (some base) (uploads f.fragments.length fates).2 := by
  unfold ConfFiles.read
  rw [h.file, Option.bind_some, if_pos h.brought, h.tree]

/-- A tree that is written is made of the one in the base file. -/
theorem exists_of_read {v : Json} (h : d.read fates = some v) :
    ∃ f base, d.inkaConf = some f ∧ (uploads f.fragments.length fates).1 = true ∧
      jsonParseContents f.content = some base := by
  unfold ConfFiles.read at h
  obtain ⟨f, hfile, h⟩ := Option.bind_eq_some_iff.mp h
  by_cases hbrought : (uploads f.fragments.length fates).1 = true
  · rw [if_pos hbrought] at h
    rcases htree : jsonParseContents f.content with _ | base
    · rw [htree, updated_none] at h
      cases h
    · exact ⟨f, base, hfile, hbrought, htree⟩
  · rw [if_neg hbrought] at h
    cases h

/-- Reading the configuration of a device under a list of fates: 0 stands for the configuration in
effect exactly if, wherever the base file is read, what is written tells of the update file. -/
theorem confFileRead_effective_iff (uninit : List UInt8) (fuel : Nat) (temp : Option (CString × CString))
    (argv : List CString) (fs : LocalFs) (d : ConfFiles) (fates : List Fate)
    (htemp : ∀ t1 t2, temp = some (t1, t2) → Temporary fs t1 t2) (hfuel : 3 * 65535 ≤ fuel) :
    ∃ e, confFileReadCommand ⟨savingDevice, fuel, uninit⟩ temp argv fs (d, fates) = .ok (some e) ∧
      ((e.rv = 0 → HoldsEffective d argv e) ↔
        ∀ filename t1 t2 f base, BaseRead temp argv fs d fates filename t1 t2 f base →
          UpdateTold d (uploads f.fragments.length fates).2 (¬ (filename = t1 ∨ filename = t2)) base) := by
  have hfailed : ∀ e : CommandEnd (ConfFiles × List Fate), e.rv ≠ 0 →
      (∀ filename t1 t2 f base, ¬ BaseRead temp argv fs d fates filename t1 t2 f base) →
      ((e.rv = 0 → HoldsEffective d argv e) ↔
        ∀ filename t1 t2 f base, BaseRead temp argv fs d fates filename t1 t2 f base →
          UpdateTold d (uploads f.fragments.length fates).2 (¬ (filename = t1 ∨ filename = t2)) base) := by
    intro e hrv hnot
    exact iff_of_true (fun h0 => absurd h0 hrv) fun filename t1 t2 f base h => absurd h (hnot filename t1 t2 f base)
  rcases argv with _ | ⟨filename, rest⟩
  · have hrv : exitUsage ≠ 0 := by decide
    exact ⟨.usage fs (d, fates), rfl, hfailed _ hrv fun _ _ _ _ _ h => nomatch h.output⟩
  rcases temp with _ | ⟨t1, t2⟩
  · exact ⟨_, rfl, hfailed _ minus_one_ne fun _ _ _ _ _ h => nomatch h.made⟩
  rcases hstation : stomac (rest.headD mtkLinkLocalAddr) with _ | mac
  · refine ⟨_, confFileReadCommand_no_station hstation, hfailed _ minus_one_ne ?_⟩
    intro _ _ _ _ _ h
    have hsome : (stomac (rest.headD mtkLinkLocalAddr)).isSome = true := h.station
    rw [hstation] at hsome
    cases hsome
  rcases confFileRead_reads uninit fates filename (htemp t1 t2 rfl) hfuel hstation with ⟨e, hrun, hreads⟩
  refine ⟨e, hrun, ?_⟩
  -- zero is only returned where the base file was read and the output written
  by_cases hbase : ∃ filename' t1' t2' f base,
      BaseRead (some (t1, t2)) (filename :: rest) fs d fates filename' t1' t2' f base
  · rcases hbase with ⟨filename', t1', t2', f, base, h⟩
    have hmade := h.made
    have houtput := h.output
    cases hmade
    cases houtput
    rw [h.read_eq] at hreads
    rw [holdsEffective_iff_told h.output h.file h.tree h.writable hreads]
    constructor
    · intro htold filename' t1' t2' f' base' h'
      obtain ⟨rfl, rfl, rfl, rfl, rfl⟩ := h.unique h'
      exact htold
    · intro hall
      exact hall filename t1 t2 f base h
  · refine hfailed e ?_ fun filename' t1' t2' f base h => hbase ⟨filename', t1', t2', f, base, h⟩
    intro hzero
    obtain ⟨hwritable, hsome⟩ := hreads.1.mp hzero
    obtain ⟨v, hread⟩ := Option.isSome_iff_exists.mp hsome
    obtain ⟨f, base, hfile, hbrought, htree⟩ := exists_of_read hread
    have haddress : (stomac (rest.headD mtkLinkLocalAddr)).isSome = true := by
      rw [hstation]
      rfl
    exact hbase ⟨filename, t1, t2, f, base, rfl, rfl, haddress, hfile, hbrought, htree, hwritable⟩

end Main

/-! ## A run -/

/-- A file in one fragment. -/
def oneFragment (content : List UInt8) (h : content.length ≤ dataMaxLen) : StoredFile where
  fragments := [content]
  nonempty := List.cons_ne_nil _ _
  fits := by simpa using h
  count := Nat.le_add_left 1 65534

/-- `{"p":true}` and `{"p":false}` -/
def switchedOff : ConfFiles where
  inkaConf := some (oneFragment (text "\x7b\"p\":true\x7d") (by decide))
  inkaUpdateConf := some (oneFragment (text "\x7b\"p\":false\x7d") (by decide))

def switch (b : Bool) : Json :=
  .object [(text "p", .boolean b)]

/-- The names of the temporary files are fresh where there are no files. -/
theorem temporary_noFiles : ∀ t1 t2, some (text "/tmp/ink.a", text "/tmp/inu.a") = some (t1, t2) →
    Temporary noFiles t1 t2 := by
  intro t1 t2 h
  cases h
  exact ⟨by decide, by decide, rfl, rfl⟩

/-- Both files are brought. -/
theorem confFileRead_effective_iff_served :
    ∃ e, confFileReadCommand ⟨savingDevice, 3 * 65535, []⟩ (some (text "/tmp/ink.a", text "/tmp/inu.a")) [text "out"] noFiles
        (switchedOff, [.served, .served]) = .ok (some e) ∧
      ((e.rv = 0 → HoldsEffective switchedOff [text "out"] e) ↔
        ∀ filename t1 t2 f base,
          BaseRead (some (text "/tmp/ink.a", text "/tmp/inu.a")) [text "out"] noFiles switchedOff [.served, .served]
            filename t1 t2 f base →
          UpdateTold switchedOff (uploads f.fragments.length [.served, .served]).2 (¬ (filename = t1 ∨ filename = t2)) base) :=
  confFileRead_effective_iff [] (3 * 65535) _ [text "out"] noFiles switchedOff [.served, .served] temporary_noFiles le_rfl

/-- The base file is brought, and the device does not answer any more: 0 is returned, with the base file
alone. -/
theorem confFileRead_update_lost :
    ∃ e, confFileReadCommand ⟨savingDevice, 3 * 65535, []⟩ (some (text "/tmp/ink.a", text "/tmp/inu.a")) [text "out"] noFiles
        (switchedOff, [.served]) = .ok (some e) ∧ e.rv = 0 ∧
      HoldsTree e.fs (text "out") (switch true) ∧ switchedOff.effective = some (switch false) ∧
      ¬ HoldsEffective switchedOff [text "out"] e := by
  have htemp := temporary_noFiles _ _ rfl
  have hstation : stomac (([] : List CString).headD mtkLinkLocalAddr) = stomac mtkLinkLocalAddr := rfl
  have hmac : ∃ mac, stomac mtkLinkLocalAddr = some mac := Option.isSome_iff_exists.mp (by decide)
  rcases hmac with ⟨mac, hmac⟩
  rcases confFileRead_reads (d := switchedOff) [] [.served] (text "out") htemp le_rfl (hstation.trans hmac) with
    ⟨e, hrun, hreads⟩
  have hread : switchedOff.read [.served] = some (switch true) := by decide +kernel
  have heffective : switchedOff.effective = some (switch false) := by decide +kernel
  have hbase : jsonParseContents (text "\x7b\"p\":true\x7d") = some (switch true) := by decide +kernel
  have hparsed := parsed_of_jsonParseContents hbase
  rw [hread] at hreads
  have hholds := fun v => hreads.holdsTree_iff (v := v) hparsed rfl
  have hown : ¬ (text "out" = text "/tmp/ink.a" ∨ text "out" = text "/tmp/inu.a") := by decide
  have hback : reread (switch true) = some (switch true) := by decide +kernel
  refine ⟨e, hrun, (hholds (switch true)).1, ?_, heffective, ?_⟩
  · exact (hholds (switch true)).2.mpr ⟨hown, switch true, hback, .refl _⟩
  · intro heff
    have hargv : [text "out"].head? = some (text "out") := rfl
    obtain ⟨v, hv, htold⟩ := (holdsEffective_iff hargv).mp heff
    rw [heffective] at hv
    cases hv
    obtain ⟨-, w, hw, hsame⟩ := (hholds (switch false)).2.mp htold
    rw [hback] at hw
    cases hw
    -- the value of `p` is not the one of the update
    have hagree := same_object_iff.mp hsame (text "p")
    cases hagree with
    | some hvalue => cases hvalue

end Hpav
