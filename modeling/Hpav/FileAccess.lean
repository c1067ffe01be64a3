import Mathlib.Tactic.Common
import Hpav.Lib.CMem
import Hpav.Frame

/-!
# VS_FILE_ACCESS

`test_mme_mtk_vs_file_access_req` and the functions under it (`test_mtk.c`), from the
point where the command line is parsed and the list of stations is known. The body of the
do-while loop is cut in two at the exchange: `prepareRequest` fills in the request,
`receiveResponse` does what follows `hpav_mtk_vs_file_access_sndrcv`. The loops around
them ask an environment for the outcome of every exchange, so that one program text serves
for a fixed list of outcomes, for a device that reacts to the requests, and (taken apart
again into its two halves) for a network that delays and duplicates messages.
-/

namespace Hpav

open CMem

/-! ## Commands, requests and confirmations -/

/-- `HPAV_MTK_VS_FILE_ACCESS_REQ_OP_*` -/
abbrev opWrite : UInt8 := 0x00
abbrev opRead : UInt8 := 0x01
abbrev opDelete : UInt8 := 0x02
abbrev opListDir : UInt8 := 0x03
abbrev opFormatFlash : UInt8 := 0x06
abbrev opSave : UInt8 := 0x07
abbrev opScanSta : UInt8 := 0x08

/-- `HPAV_MTK_VS_FILE_ACCESS_REQ_FILE_TYPE_GENERAL_FILE` -/
abbrev fileTypeGeneralFile : UInt8 := 0x02

/-- `HPAV_MTK_VS_FILE_ACCESS_REQ_DATA_MAX_LEN`, and the same for confirmations. -/
abbrev dataMaxLen : Nat := 1024

/-- A C string, without its terminating NUL. -/
abbrev CString := List UInt8

/-- What the loops use of `struct mtk_vs_file_access_command_t`. -/
structure FileAccessCommand where
  op : UInt8
  fileType : UInt8
  parameter : CString
  fileName : CString
  deriving DecidableEq, Repr

/-- `struct hpav_mtk_vs_file_access_req` -/
structure FileAccessReq where
  op : UInt8
  fileType : UInt8
  parameter : CString
  totalFragments : UInt16
  fragmentNumber : UInt16
  offset : UInt32
  checksum : UInt32
  length : UInt16
  data : List UInt8
  deriving DecidableEq, Repr

/-- `struct hpav_mtk_vs_file_access_cnf` -/
structure FileAccessCnf where
  mstatus : UInt8
  op : UInt8
  fileType : UInt8
  parameter : List UInt8
  totalFragments : UInt16
  fragmentNumber : UInt16
  offset : UInt32
  length : UInt16
  data : List UInt8
  staMacAddr : Mac
  deriving DecidableEq, Repr

/-- The data a confirmation carries. -/
def FileAccessCnf.payload (c : FileAccessCnf) : List UInt8 :=
  c.data.take c.length.toNat

/-! ## Local files -/

/-- The files of the host: their contents, and the paths `fopen` can write to. -/
structure LocalFs where
  content : CString → Option (List UInt8)
  writable : CString → Bool

namespace LocalFs

/-- The file at `path` holds `bytes` from now on. -/
def write (fs : LocalFs) (path : CString) (bytes : List UInt8) : LocalFs :=
  { fs with content := fun p => if p = path then some bytes else fs.content p }

/-- `bytes` are written behind what the file holds; opening it made it if need be. -/
def append (fs : LocalFs) (path : CString) (bytes : List UInt8) : LocalFs :=
  fs.write path ((fs.content path).getD [] ++ bytes)

@[simp] theorem content_write (fs : LocalFs) (path p : CString) (bytes : List UInt8) :
    (fs.write path bytes).content p = if p = path then some bytes else fs.content p := rfl

@[simp] theorem writable_write (fs : LocalFs) (path : CString) (bytes : List UInt8) :
    (fs.write path bytes).writable = fs.writable := rfl

@[simp] theorem writable_append (fs : LocalFs) (path : CString) (bytes : List UInt8) :
    (fs.append path bytes).writable = fs.writable := rfl

end LocalFs

/-- A host without files, all paths of which can be written to. -/
def noFiles : LocalFs :=
  ⟨fun _ => none, fun _ => true⟩

/-- The `FILE *` of `process_mtk_vs_file_access_cnf`. -/
inductive FilePtr where
  | null
  | opened (path : CString)
  | closed
  deriving DecidableEq, Repr

/-! ## Checksum -/

/-- The loop of `xorchecksum` over the words of the buffer. -/
def xorLoop : List UInt8 → UInt8 × UInt8 × UInt8 × UInt8 → UInt8 × UInt8 × UInt8 × UInt8
  | b0 :: b1 :: b2 :: b3 :: rest, (r0, r1, r2, r3) =>
    xorLoop rest (r0 ^^^ b0, r1 ^^^ b1, r2 ^^^ b2, r3 ^^^ b3)
  | _, res => res

/-- `xorchecksum`; `none` is the return value -1, which leaves `*chksum` as it is. -/
def xorchecksum (buf : List UInt8) : Option UInt32 :=
  if buf.length &&& 3 ≠ 0 then
    none
  else
    let (r0, r1, r2, r3) := xorLoop buf (0, 0, 0, 0)
    some (UInt32.ofNat ((~~~r0).toNat + 256 * (~~~r1).toNat + 65536 * (~~~r2).toNat +
      16777216 * (~~~r3).toNat))

/-! ## Confirmations -/

/-- `STA_LIST_FILE_NAME`: "sta.txt" -/
def staListFileName : CString :=
  [115, 116, 97, 46, 116, 120, 116]

/-- One digit of `%02x`. -/
def hexDigit (n : Nat) : UInt8 :=
  if n < 10 then UInt8.ofNat (48 + n) else UInt8.ofNat (87 + n)

/-- `hpav_mactos` -/
def mactos (macAddress : List UInt8) : CString :=
  ((macAddress.map fun b => [hexDigit (b.toNat / 16), hexDigit (b.toNat % 16)]).intersperse [58]).flatten

/-- `memcpy(&mac, data, len)` into a variable of eight bytes, lowest byte first. -/
def macVariable (mac : List UInt8) (data : List UInt8) : List UInt8 :=
  data ++ mac.drop data.length

/-- The shifts that turn the value of a scan confirmation into a MAC address. -/
def scanMac (macBytes : List UInt8) : List UInt8 :=
  let mac : UInt64 := UInt64.ofNat (macBytes.foldr (fun b n => b.toNat + 256 * n) 0)
  let mac : UInt64 := mac >>> 16
  let mac : UInt64 :=
    ((mac <<< 40) &&& (0xFF0000000000 : UInt64)) ||| ((mac <<< 24) &&& (0x00FF00000000 : UInt64)) |||
      ((mac <<< 8) &&& (0x0000FF000000 : UInt64)) ||| ((mac >>> 8) &&& (0x000000FF0000 : UInt64)) |||
      ((mac >>> 24) &&& (0x00000000FF00 : UInt64)) ||| ((mac >>> 40) &&& (0x0000000000FF : UInt64))
  (List.range 6).map fun i => UInt8.ofNat (mac.toNat / 256 ^ i % 256)

/-- What the loop over the confirmations carries along. -/
structure ProcessState where
  fs : LocalFs
  fp : FilePtr
  /-- the memory of the local variable `mac` -/
  mac : List UInt8

/-- A confirmation that carries the success status. -/
def processSuccess (command : FileAccessCommand) (s : ProcessState) (response : FileAccessCnf) :
    Except Fault ProcessState := do
  let s ←
    if response.op = opRead ∨ response.op = opListDir then
      -- the copy that is printed; the array ends at 1024 bytes
      if response.length.toNat ≤ dataMaxLen then .ok s else .error .outOfBounds
    else if response.op = opScanSta then
      if 8 < response.length.toNat then .error .outOfBounds
      else
        let mac := macVariable s.mac response.payload
        let line := mactos (scanMac mac) ++ [10]
        match s.fp with
        | .null => .ok { s with mac }
        | .opened path => .ok { s with mac, fs := s.fs.append path line }
        | .closed => .error .outOfBounds
    else .ok s
  if response.op = opSave then
    if dataMaxLen < response.length.toNat then .error .outOfBounds
    else if s.fs.writable command.fileName then
      let fs :=
        if response.fragmentNumber = 0 then s.fs.write command.fileName response.payload
        else s.fs.append command.fileName response.payload
      .ok { s with fs, fp := .closed }
    else
      .ok { s with fp := .null }
  else
    .ok s

/-- The loop over the confirmations: it ends with the first one that reports a failure.
The result tells success. -/
def processLoop (command : FileAccessCommand) :
    ProcessState → List FileAccessCnf → Except Fault (ProcessState × Bool)
  | s, [] => .ok (s, true)
  | s, response :: rest =>
    if response.mstatus = 0 then do
      let s ← processSuccess command s response
      processLoop command s rest
    else
      .ok (s, false)

/-- `process_mtk_vs_file_access_cnf`. `uninit` is what the variable `mac` starts with. -/
def processMtkVsFileAccessCnf (uninit : List UInt8) (command : FileAccessCommand) (fs : LocalFs)
    (response : List FileAccessCnf) : Except Fault (LocalFs × Bool) :=
  if response.isEmpty then
    .ok (fs, false)
  else do
    let s : ProcessState :=
      if command.op = opScanSta then
        if fs.writable staListFileName then
          ⟨fs.write staListFileName [], .opened staListFileName, uninit⟩
        else ⟨fs, .null, uninit⟩
      else ⟨fs, .null, uninit⟩
    let (s, result) ← processLoop command s response
    if command.op = opScanSta then
      -- fclose(fp)
      match s.fp with
      | .null => .error .nullDeref
      | .opened _ => return (s.fs, result)
      | .closed => .error .outOfBounds
    else
      return (s.fs, result)

/-! ## The loop of one station -/

/-- The result of `hpav_mtk_vs_file_access_sndrcv`: an error of pcap, or `HPAV_OK` with
the chain of confirmations (`[]` is NULL). -/
inductive Outcome where
  | pcapError
  | received (response : List FileAccessCnf)
  deriving DecidableEq, Repr

/-- `MTK_VS_FILE_ACCESS_REQ_PARAMETER_FAIL`, `MTK_VS_FILE_ACCESS_REQ_FAIL` and `HPAV_NOK`
as the `int` they are stored in. -/
abbrev reqParameterFail : Int := -1
abbrev reqFail : Int := -2
abbrev hpavNok : Int := -1

/-- The variables of the loop over the fragments of one station. `buf` is the input file
(`file_size` is its length), empty where there is none. -/
structure Sender where
  destMac : Mac
  mmeSent : FileAccessReq
  retryCount : Nat
  buf : List UInt8

/-- The part of the loop body in front of the exchange. -/
def prepareRequest (cmd : FileAccessCommand) (s : Sender) : Except Fault Sender :=
  if cmd.op = opWrite then do
    let start := dataMaxLen * s.mmeSent.fragmentNumber.toNat
    -- in `unsigned int`
    let remainLen := (((s.buf.length : Int) - start) % 2 ^ 32).toNat
    let size := if remainLen > dataMaxLen then dataMaxLen else remainLen
    let chunk ← load s.buf start size
    let mme := { s.mmeSent with
      data := chunk ++ s.mmeSent.data.drop size
      length := UInt16.ofNat size
      offset := UInt32.ofNat start }
    let mme :=
      if cmd.fileType ≠ fileTypeGeneralFile then
        match xorchecksum chunk with
        | some checksum => { mme with checksum }
        -- a length that is not a multiple of 4: the checksum stays as it was
        | none => mme
      else mme
    return { s with mmeSent := mme }
  else
    return s

/-- How the loop goes on: another turn, or out of it with the value of `rv`. -/
inductive Turn where
  | again (s : Sender)
  | leave (rv : Int)

/-- The loop condition. -/
def loopCondition (s : Sender) (rv : Int) (response : List FileAccessCnf) : Prop :=
  rv = 0 ∧ ((s.mmeSent.totalFragments = 0 ∧ response.isEmpty) ∨
    s.mmeSent.fragmentNumber < s.mmeSent.totalFragments)

instance (s : Sender) (rv : Int) (response : List FileAccessCnf) :
    Decidable (loopCondition s rv response) :=
  inferInstanceAs (Decidable (_ ∧ _))

/-- No answer came: the request is sent once more. -/
def Sender.retry (s : Sender) : Sender :=
  { s with retryCount := s.retryCount + 1 }

/-- What the first confirmation of the chain overwrites. -/
def Sender.advance (s : Sender) (head : FileAccessCnf) : Sender :=
  { s with
    destMac := head.staMacAddr
    mmeSent := { s.mmeSent with
      totalFragments := head.totalFragments
      fragmentNumber := head.fragmentNumber + 1 }
    retryCount := 0 }

/-- The part of the loop body behind the exchange, and the loop condition. -/
def receiveResponse (uninit : List UInt8) (cmd : FileAccessCommand) (fs : LocalFs) (s : Sender)
    (outcome : Outcome) : Except Fault (LocalFs × Turn) :=
  match outcome with
  | .pcapError => .ok (fs, .leave (-1))
  | .received [] =>
    let s := s.retry
    -- the same request is sent again, at most twice
    if s.retryCount ≥ 3 then
      .ok (fs, .leave reqFail)
    else if loopCondition s 0 [] then
      .ok (fs, .again s)
    else
      .ok (fs, .leave 0)
  | .received (head :: rest) => do
    let (fs, success) ← processMtkVsFileAccessCnf uninit cmd fs (head :: rest)
    let rv : Int := if success then 0 else hpavNok
    -- the first confirmation says what to ask for, whoever it comes from
    let s := s.advance head
    if loopCondition s rv (head :: rest) then
      .ok (fs, .again s)
    else
      .ok (fs, .leave rv)

/-- What precedes the loop of a station: the request is cleared and the input file read.
`.inr` is an early return. -/
def startStation (cmd : FileAccessCommand) (fs : LocalFs) (mac : Mac) : Sender ⊕ Int :=
  let mme : FileAccessReq :=
    ⟨cmd.op, cmd.fileType, cmd.parameter, 0, 0, 0, 0, 0, List.replicate dataMaxLen 0⟩
  if cmd.parameter.length > 32 then
    .inr reqParameterFail
  else if cmd.op = opWrite then
    match fs.content cmd.fileName with
    | none => .inr reqFail
    | some file =>
      if file.length = 0 then .inr reqFail
      else
        let total := UInt16.ofNat ((file.length + dataMaxLen - 1) / dataMaxLen)
        .inl ⟨mac, { mme with totalFragments := total }, 0, file⟩
  else
    .inl ⟨mac, mme, 0, []⟩

/-! ## The loops and their environment -/

/-- One exchange of a run: the request, where it was sent, what came back. -/
structure Exchange where
  destMac : Mac
  request : FileAccessReq
  outcome : Outcome

/-- What answers the requests: a state, and for each request the outcome of its exchange. -/
structure Environment (σ : Type) where
  respond : σ → Mac → FileAccessReq → Outcome × σ

/-- The end of a station's loop. -/
structure StationEnd (σ : Type) where
  fs : LocalFs
  rv : Int
  env : σ
  exchanges : List Exchange

/-- The do-while loop, for at most `fuel` exchanges; `none` if it is not over by then. -/
def fragmentsLoop {σ : Type} (uninit : List UInt8) (e : Environment σ) (cmd : FileAccessCommand) :
    Nat → LocalFs → Sender → σ → Except Fault (Option (StationEnd σ))
  | 0, _, _, _ => .ok none
  | fuel + 1, fs, s, env => do
    let s ← prepareRequest cmd s
    let (outcome, env) := e.respond env s.destMac s.mmeSent
    let exchange : Exchange := ⟨s.destMac, s.mmeSent, outcome⟩
    let (fs, turn) ← receiveResponse uninit cmd fs s outcome
    match turn with
    | .leave rv => return some ⟨fs, rv, env, [exchange]⟩
    | .again s => do
      let last ← fragmentsLoop uninit e cmd fuel fs s env
      return last.map fun l => { l with exchanges := exchange :: l.exchanges }

/-- The end of the program: its return value, the files, and for every station of the
list that was taken on the exchanges made for it. -/
structure ProgramEnd (σ : Type) where
  fs : LocalFs
  rv : Int
  env : σ
  stations : List (Mac × List Exchange)

/-- The loop over the stations. `rv` is the one variable that all of them share. -/
def stationsLoop {σ : Type} (uninit : List UInt8) (e : Environment σ) (cmd : FileAccessCommand)
    (fuel : Nat) : List Mac → LocalFs → Int → σ → Except Fault (Option (ProgramEnd σ))
  | [], fs, rv, env => .ok (some ⟨fs, rv, env, []⟩)
  | mac :: macs, fs, _, env =>
    match startStation cmd fs mac with
    -- an early return, with stations still to come
    | .inr rv => .ok (some ⟨fs, rv, env, [(mac, [])]⟩)
    | .inl s => do
      let station ← fragmentsLoop uninit e cmd fuel fs s env
      match station with
      | none => return none
      | some station => do
        let rest ← stationsLoop uninit e cmd fuel macs station.fs station.rv station.env
        return rest.map fun r => { r with stations := (mac, station.exchanges) :: r.stations }

/-- `test_mme_mtk_vs_file_access_req` for the stations of `macList`. -/
def fileAccessReq {σ : Type} (uninit : List UInt8) (e : Environment σ) (cmd : FileAccessCommand)
    (fuel : Nat) (macList : List Mac) (fs : LocalFs) (env : σ) :
    Except Fault (Option (ProgramEnd σ)) :=
  stationsLoop uninit e cmd fuel macList fs 0 env

/-! ## Reports of failure -/

/-- The loop over the confirmations tells success if none of them reports a failure. -/
theorem processLoop_success {command : FileAccessCommand} {cs : List FileAccessCnf}
    {s s' : ProcessState} {success : Bool} (h : processLoop command s cs = .ok (s', success)) :
    success = true ↔ ∀ c ∈ cs, c.mstatus = 0 := by
  induction cs generalizing s with
  | nil =>
    simp only [processLoop, Except.ok.injEq, Prod.mk.injEq] at h
    simp [← h.2]
  | cons c cs ih =>
    unfold processLoop at h
    by_cases hc : c.mstatus = 0
    · rw [if_pos hc] at h
      rcases hs : processSuccess command s c with e | s₁
      · rw [hs] at h
        cases h
      · rw [hs, bind_ok] at h
        rw [ih h]
        simp [hc]
    · rw [if_neg hc] at h
      simp only [Except.ok.injEq, Prod.mk.injEq] at h
      rw [← h.2]
      simp [hc]

theorem processMtkVsFileAccessCnf_success {uninit : List UInt8} {command : FileAccessCommand}
    {fs fs' : LocalFs} {cs : List FileAccessCnf} {success : Bool} (hne : cs ≠ [])
    (h : processMtkVsFileAccessCnf uninit command fs cs = .ok (fs', success)) :
    success = true ↔ ∀ c ∈ cs, c.mstatus = 0 := by
  unfold processMtkVsFileAccessCnf at h
  rw [if_neg (by simpa using hne)] at h
  generalize (if command.op = opScanSta then _ else _ : ProcessState) = s₀ at h
  rcases hloop : processLoop command s₀ cs with e | ⟨s, result⟩
  · simp only [hloop] at h
    cases h
  · simp only [hloop, bind_ok] at h
    have hres := processLoop_success hloop
    by_cases hscan : command.op = opScanSta
    · rw [if_pos hscan] at h
      rcases hfp : s.fp with _ | path | _
      · rw [hfp] at h
        cases h
      · rw [hfp] at h
        injection h with h
        injection h with _ hr
        rw [← hr]
        exact hres
      · rw [hfp] at h
        cases h
    · rw [if_neg hscan] at h
      injection h with h
      injection h with _ hr
      rw [← hr]
      exact hres

/-! ## Confirmations of a transfer -/

/-- Outside a scan the loop over the confirmations is all there is. -/
theorem processMtkVsFileAccessCnf_eq {uninit : List UInt8} {command : FileAccessCommand}
    {fs : LocalFs} {cs : List FileAccessCnf} (hop : command.op ≠ opScanSta) (hne : cs ≠ []) :
    processMtkVsFileAccessCnf uninit command fs cs =
      (processLoop command ⟨fs, .null, uninit⟩ cs >>= fun r => .ok (r.1.fs, r.2)) := by
  unfold processMtkVsFileAccessCnf
  rw [if_neg (by simpa using hne)]
  simp only [if_neg hop]
  rfl

/-- The operations whose confirmations only tell success. -/
theorem processSuccess_quiet {command : FileAccessCommand} {s : ProcessState} {c : FileAccessCnf}
    (hread : c.op ≠ opRead) (hlist : c.op ≠ opListDir) (hscan : c.op ≠ opScanSta)
    (hsave : c.op ≠ opSave) : processSuccess command s c = .ok s := by
  unfold processSuccess
  rw [if_neg (not_or.mpr ⟨hread, hlist⟩), if_neg hscan, bind_ok]
  exact if_neg hsave

theorem processMtkVsFileAccessCnf_quiet {uninit : List UInt8} {command : FileAccessCommand}
    {fs : LocalFs} {c : FileAccessCnf} (hop : command.op ≠ opScanSta) (hread : c.op ≠ opRead)
    (hlist : c.op ≠ opListDir) (hscan : c.op ≠ opScanSta) (hsave : c.op ≠ opSave) :
    processMtkVsFileAccessCnf uninit command fs [c] = .ok (fs, c.mstatus = 0) := by
  rw [processMtkVsFileAccessCnf_eq hop (List.cons_ne_nil _ _)]
  unfold processLoop
  by_cases hc : c.mstatus = 0
  · rw [if_pos hc, processSuccess_quiet hread hlist hscan hsave, bind_ok, decide_eq_true hc]
    rfl
  · rw [if_neg hc, decide_eq_false hc]
    rfl

/-- A fragment that is saved: the first one starts the file, the others are appended. -/
theorem processSuccess_save {command : FileAccessCommand} {s : ProcessState} {c : FileAccessCnf}
    (hop : c.op = opSave) (hlength : c.length.toNat ≤ dataMaxLen)
    (hwritable : s.fs.writable command.fileName = true) :
    processSuccess command s c = .ok { s with
      fs := if c.fragmentNumber = 0 then s.fs.write command.fileName c.payload
        else s.fs.append command.fileName c.payload
      fp := .closed } := by
  have hread : ¬ (c.op = opRead ∨ c.op = opListDir) := by
    rw [hop]
    decide
  have hscan : c.op ≠ opScanSta := by
    rw [hop]
    decide
  unfold processSuccess
  rw [if_neg hread, if_neg hscan, bind_ok]
  simp only [if_pos hop, if_neg (Nat.not_lt.mpr hlength), if_pos hwritable]

/-- The turn behind a chain of confirmations that were processed. -/
theorem receiveResponse_processed {uninit : List UInt8} {cmd : FileAccessCommand}
    {fs fs' : LocalFs} {s : Sender} {head : FileAccessCnf} {rest : List FileAccessCnf} {success : Bool}
    (h : processMtkVsFileAccessCnf uninit cmd fs (head :: rest) = .ok (fs', success)) :
    receiveResponse uninit cmd fs s (.received (head :: rest)) =
      .ok (fs', if loopCondition (s.advance head) (if success then 0 else hpavNok) (head :: rest)
        then .again (s.advance head) else .leave (if success then 0 else hpavNok)) := by
  unfold receiveResponse
  simp only [h, bind_ok]
  by_cases hcond : loopCondition (s.advance head) (if success then 0 else hpavNok) (head :: rest)
  · rw [if_pos hcond, if_pos hcond]
  · rw [if_neg hcond, if_neg hcond]

/-! ## The two halves of a turn -/

/-- A sender in the loop: the fragments are not through, or their number is not known. -/
def Sender.Open (s : Sender) : Prop :=
  s.mmeSent.totalFragments = 0 ∨ s.mmeSent.fragmentNumber < s.mmeSent.totalFragments

/-- What `prepareRequest` leaves alone. -/
theorem prepareRequest_frame {cmd : FileAccessCommand} {s s' : Sender}
    (h : prepareRequest cmd s = .ok s') :
    s'.destMac = s.destMac ∧ s'.retryCount = s.retryCount ∧ s'.buf = s.buf ∧
      s'.mmeSent.op = s.mmeSent.op ∧ s'.mmeSent.totalFragments = s.mmeSent.totalFragments ∧
      s'.mmeSent.fragmentNumber = s.mmeSent.fragmentNumber := by
  unfold prepareRequest at h
  split at h
  · simp only at h
    generalize load _ _ _ = loaded at h
    rcases loaded with e | chunk
    · cases h
    · rw [bind_ok] at h
      injection h with h
      subst h
      split
      · split <;> exact ⟨rfl, rfl, rfl, rfl, rfl, rfl⟩
      · exact ⟨rfl, rfl, rfl, rfl, rfl, rfl⟩
  · injection h with h
    subst h
    exact ⟨rfl, rfl, rfl, rfl, rfl, rfl⟩

/-- What can follow an exchange. -/
theorem receiveResponse_cases {uninit : List UInt8} {cmd : FileAccessCommand} {fs fs' : LocalFs}
    {s : Sender} {outcome : Outcome} {turn : Turn}
    (h : receiveResponse uninit cmd fs s outcome = .ok (fs', turn)) :
    (outcome = .pcapError ∧ fs' = fs ∧ turn = .leave (-1)) ∨
    (outcome = .received [] ∧ fs' = fs ∧
      ((3 ≤ s.retryCount + 1 ∧ turn = .leave reqFail) ∨
        (s.retryCount + 1 < 3 ∧ loopCondition s.retry 0 [] ∧ turn = .again s.retry) ∨
        (s.retryCount + 1 < 3 ∧ ¬ loopCondition s.retry 0 [] ∧ turn = .leave 0))) ∨
    (∃ head rest success, outcome = .received (head :: rest) ∧
      processMtkVsFileAccessCnf uninit cmd fs (head :: rest) = .ok (fs', success) ∧
      ((loopCondition (s.advance head) (if success then 0 else hpavNok) (head :: rest) ∧
          turn = .again (s.advance head)) ∨
        (¬ loopCondition (s.advance head) (if success then 0 else hpavNok) (head :: rest) ∧
          turn = .leave (if success then 0 else hpavNok)))) := by
  rcases outcome with _ | _ | ⟨head, rest⟩
  · simp only [receiveResponse, Except.ok.injEq, Prod.mk.injEq] at h
    exact Or.inl ⟨rfl, h.1.symm, h.2.symm⟩
  · right; left
    unfold receiveResponse at h
    simp only at h
    split at h
    · -- the third try without an answer is the last
      rename_i hretry
      simp only [Except.ok.injEq, Prod.mk.injEq] at h
      exact ⟨rfl, h.1.symm, Or.inl ⟨hretry, h.2.symm⟩⟩
    · rename_i hretry
      have hlt : s.retryCount + 1 < 3 := Nat.lt_of_not_le hretry
      split at h
      · rename_i hcond
        simp only [Except.ok.injEq, Prod.mk.injEq] at h
        exact ⟨rfl, h.1.symm, Or.inr (Or.inl ⟨hlt, hcond, h.2.symm⟩)⟩
      · rename_i hcond
        simp only [Except.ok.injEq, Prod.mk.injEq] at h
        exact ⟨rfl, h.1.symm, Or.inr (Or.inr ⟨hlt, hcond, h.2.symm⟩)⟩
  · right; right
    unfold receiveResponse at h
    simp only at h
    -- an answer came: what it says decides the code, its first confirmation what
    -- is asked for next
    rcases hp : processMtkVsFileAccessCnf uninit cmd fs (head :: rest) with e | ⟨fs'', success⟩
    · rw [hp] at h
      cases h
    · rw [hp, bind_ok] at h
      change (if loopCondition (s.advance head) (if success then 0 else hpavNok) (head :: rest) then
        Except.ok (fs'', Turn.again (s.advance head)) else
        Except.ok (fs'', Turn.leave (if success then 0 else hpavNok))) = _ at h
      refine ⟨head, rest, success, rfl, ?_⟩
      by_cases hcond : loopCondition (s.advance head) (if success then 0 else hpavNok) (head :: rest)
      · rw [if_pos hcond] at h
        injection h with h
        injection h with hfs hturn
        exact ⟨hfs ▸ hp, Or.inl ⟨hcond, hturn.symm⟩⟩
      · rw [if_neg hcond] at h
        injection h with h
        injection h with hfs hturn
        exact ⟨hfs ▸ hp, Or.inr ⟨hcond, hturn.symm⟩⟩

/-- The loop goes on only with an open sender. -/
theorem loopCondition.open {s : Sender} {rv : Int} {response : List FileAccessCnf}
    (h : loopCondition s rv response) : s.Open := by
  rcases h.2 with hzero | hlt
  · exact Or.inl hzero.1
  · exact Or.inr hlt

/-- While the sender is open a timeout is no reason to leave with success. -/
theorem Sender.Open.loopCondition_retry {s : Sender} (h : s.Open) :
    loopCondition s.retry 0 [] := by
  refine ⟨rfl, ?_⟩
  rcases h with hzero | hlt
  · exact Or.inl ⟨hzero, rfl⟩
  · exact Or.inr hlt

/-- Without an input file there is nothing to prepare. -/
theorem prepareRequest_unchanged {cmd : FileAccessCommand} (h : cmd.op ≠ opWrite) (s : Sender) :
    prepareRequest cmd s = .ok s := by
  unfold prepareRequest
  rw [if_neg h]
  rfl

/-- The turn behind an exchange without a confirmation. -/
theorem receiveResponse_silent (uninit : List UInt8) (cmd : FileAccessCommand) (fs : LocalFs) {s : Sender}
    (h : s.Open) :
    receiveResponse uninit cmd fs s (.received []) =
      .ok (fs, if 3 ≤ s.retryCount + 1 then .leave reqFail else .again s.retry) := by
  have hcond := h.loopCondition_retry
  unfold receiveResponse
  by_cases hretry : 3 ≤ s.retryCount + 1
  · rw [if_pos hretry]
    exact if_pos hretry
  · rw [if_neg hretry]
    exact (if_neg hretry).trans (if_pos hcond)

/-- The turn behind a confirmation that reports a failure. -/
theorem receiveResponse_refused (uninit : List UInt8) {cmd : FileAccessCommand} (fs : LocalFs) (s : Sender)
    {c : FileAccessCnf} (hop : cmd.op ≠ opScanSta) (hc : c.mstatus ≠ 0) :
    receiveResponse uninit cmd fs s (.received [c]) = .ok (fs, .leave hpavNok) := by
  have hprocess : processMtkVsFileAccessCnf uninit cmd fs [c] = .ok (fs, false) := by
    rw [processMtkVsFileAccessCnf_eq hop (List.cons_ne_nil _ _)]
    unfold processLoop
    rw [if_neg hc]
    rfl
  rw [receiveResponse_processed hprocess, if_neg]
  · rfl
  · intro hcond
    exact absurd hcond.1 (by decide)

/-! ## Runs of the loop -/

section Loop

variable {σ : Type} {uninit : List UInt8} {e : Environment σ} {cmd : FileAccessCommand} {fuel : Nat}
  {fs fs₁ : LocalFs} {s s₁ s₂ : Sender} {env env₁ : σ} {outcome : Outcome} {st : StationEnd σ}

theorem fragmentsLoop_leave {rv : Int} (hprep : prepareRequest cmd s = .ok s₁)
    (hresp : e.respond env s₁.destMac s₁.mmeSent = (outcome, env₁))
    (hrecv : receiveResponse uninit cmd fs s₁ outcome = .ok (fs₁, .leave rv)) :
    fragmentsLoop uninit e cmd (fuel + 1) fs s env =
      .ok (some ⟨fs₁, rv, env₁, [⟨s₁.destMac, s₁.mmeSent, outcome⟩]⟩) := by
  unfold fragmentsLoop
  simp only [hprep, bind_ok, hresp, hrecv]
  rfl

theorem fragmentsLoop_again (hprep : prepareRequest cmd s = .ok s₁)
    (hresp : e.respond env s₁.destMac s₁.mmeSent = (outcome, env₁))
    (hrecv : receiveResponse uninit cmd fs s₁ outcome = .ok (fs₁, .again s₂))
    (hrest : fragmentsLoop uninit e cmd fuel fs₁ s₂ env₁ = .ok (some st)) :
    fragmentsLoop uninit e cmd (fuel + 1) fs s env =
      .ok (some { st with exchanges := ⟨s₁.destMac, s₁.mmeSent, outcome⟩ :: st.exchanges }) := by
  rw [fragmentsLoop]
  simp only [hprep, bind_ok, hresp, hrecv, hrest]
  rfl

/-- One turn of the loop: it leaves with the only exchange, or goes on behind it. -/
theorem fragmentsLoop_cases
    (h : fragmentsLoop uninit e cmd (fuel + 1) fs s env = .ok (some st)) :
    ∃ s₁ outcome env₁ fs₁ turn,
      prepareRequest cmd s = .ok s₁ ∧ e.respond env s₁.destMac s₁.mmeSent = (outcome, env₁) ∧
      receiveResponse uninit cmd fs s₁ outcome = .ok (fs₁, turn) ∧
      ((∃ rv, turn = .leave rv ∧
          st = ⟨fs₁, rv, env₁, [⟨s₁.destMac, s₁.mmeSent, outcome⟩]⟩) ∨
        (∃ s₂ st₂, turn = .again s₂ ∧
          fragmentsLoop uninit e cmd fuel fs₁ s₂ env₁ = .ok (some st₂) ∧
          st = { st₂ with exchanges := ⟨s₁.destMac, s₁.mmeSent, outcome⟩ :: st₂.exchanges })) := by
  unfold fragmentsLoop at h
  rcases hprep : prepareRequest cmd s with fault | s₁
  · rw [hprep] at h
    cases h
  rw [hprep, bind_ok] at h
  rcases hresp : e.respond env s₁.destMac s₁.mmeSent with ⟨outcome, env₁⟩
  simp only [hresp] at h
  rcases hrecv : receiveResponse uninit cmd fs s₁ outcome with fault | ⟨fs₁, turn⟩
  · rw [hrecv] at h
    cases h
  rw [hrecv, bind_ok] at h
  refine ⟨s₁, outcome, env₁, fs₁, turn, rfl, hresp, hrecv, ?_⟩
  -- the turn went on or left the loop
  rcases turn with s₂ | rv
  · right
    simp only at h
    rcases hloop : fragmentsLoop uninit e cmd fuel fs₁ s₂ env₁ with fault | last
    · rw [hloop] at h
      cases h
    · rw [hloop, bind_ok] at h
      rcases last with _ | st₂
      · cases h
      · injection h with h
        injection h with h
        exact ⟨s₂, st₂, rfl, hloop, h.symm⟩
  · left
    simp only at h
    injection h with h
    injection h with h
    exact ⟨rv, rfl, h.symm⟩

/-- The loop is over after at most `fuel` exchanges: the files, the value of `rv` and the
environment it ends with. -/
def LoopEnds (uninit : List UInt8) (e : Environment σ) (cmd : FileAccessCommand) (fuel : Nat)
    (fs : LocalFs) (s : Sender) (env : σ) (fs' : LocalFs) (rv : Int) (env' : σ) : Prop :=
  ∃ exchanges, fragmentsLoop uninit e cmd fuel fs s env = .ok (some ⟨fs', rv, env', exchanges⟩)

theorem fragmentsLoop_succ (h : fragmentsLoop uninit e cmd fuel fs s env = .ok (some st)) :
    fragmentsLoop uninit e cmd (fuel + 1) fs s env = .ok (some st) := by
  induction fuel generalizing fs s env st with
  | zero => cases h
  | succ fuel ih =>
    rcases fragmentsLoop_cases h with ⟨s₁, outcome, env₁, fs₁, turn, hprep, hresp, hrecv, hend⟩
    rcases hend with ⟨rv, rfl, rfl⟩ | ⟨s₂, st₂, rfl, hrest, rfl⟩
    · exact fragmentsLoop_leave hprep hresp hrecv
    · exact fragmentsLoop_again hprep hresp hrecv (ih hrest)

theorem LoopEnds.mono {n : Nat} {fs' : LocalFs} {rv : Int} {env' : σ}
    (h : LoopEnds uninit e cmd fuel fs s env fs' rv env') (hle : fuel ≤ n) :
    LoopEnds uninit e cmd n fs s env fs' rv env' := by
  induction hle with
  | refl => exact h
  | step _ ih =>
    rcases ih with ⟨xs, hxs⟩
    exact ⟨xs, fragmentsLoop_succ hxs⟩

theorem LoopEnds.leave {rv : Int} (hprep : prepareRequest cmd s = .ok s₁)
    (hresp : e.respond env s₁.destMac s₁.mmeSent = (outcome, env₁))
    (hrecv : receiveResponse uninit cmd fs s₁ outcome = .ok (fs₁, .leave rv)) :
    LoopEnds uninit e cmd (fuel + 1) fs s env fs₁ rv env₁ :=
  ⟨_, fragmentsLoop_leave hprep hresp hrecv⟩

theorem LoopEnds.again {fs' : LocalFs} {rv : Int} {env' : σ}
    (hrest : LoopEnds uninit e cmd fuel fs₁ s₂ env₁ fs' rv env')
    (hprep : prepareRequest cmd s = .ok s₁)
    (hresp : e.respond env s₁.destMac s₁.mmeSent = (outcome, env₁))
    (hrecv : receiveResponse uninit cmd fs s₁ outcome = .ok (fs₁, .again s₂)) :
    LoopEnds uninit e cmd (fuel + 1) fs s env fs' rv env' := by
  rcases hrest with ⟨xs, hxs⟩
  exact ⟨_, fragmentsLoop_again hprep hresp hrecv hxs⟩

end Loop

/-- For a single station the program is that station's loop. -/
theorem fileAccessReq_single {σ : Type} {uninit : List UInt8} {e : Environment σ}
    {cmd : FileAccessCommand} {fuel : Nat} {mac : Mac} {fs fs' : LocalFs} {s : Sender} {env env' : σ}
    {rv : Int} (hstart : startStation cmd fs mac = .inl s)
    (h : LoopEnds uninit e cmd fuel fs s env fs' rv env') :
    ∃ exchanges, fileAccessReq uninit e cmd fuel [mac] fs env =
      .ok (some ⟨fs', rv, env', [(mac, exchanges)]⟩) := by
  rcases h with ⟨exchanges, hloop⟩
  refine ⟨exchanges, ?_⟩
  unfold fileAccessReq stationsLoop
  simp only [hstart, hloop, bind_ok]
  rfl

theorem fileAccessReq_early {σ : Type} {uninit : List UInt8} {e : Environment σ}
    {cmd : FileAccessCommand} {fuel : Nat} {mac : Mac} {fs : LocalFs} {env : σ} {rv : Int}
    (hstart : startStation cmd fs mac = .inr rv) :
    fileAccessReq uninit e cmd fuel [mac] fs env = .ok (some ⟨fs, rv, env, [(mac, [])]⟩) := by
  unfold fileAccessReq stationsLoop
  simp only [hstart]

/-- Returning before the loop is returning a failure. -/
theorem startStation_early {cmd : FileAccessCommand} {fs : LocalFs} {mac : Mac} {rv : Int}
    (h : startStation cmd fs mac = .inr rv) : rv ≠ 0 := by
  unfold startStation at h
  simp only at h
  split at h
  · injection h with h
    rw [← h]
    decide
  · split at h
    · split at h
      · injection h with h
        rw [← h]
        decide
      · split at h
        · injection h with h
          rw [← h]
          decide
        · cases h
    · cases h

/-- The loop starts with the first fragment. -/
theorem startStation_first {cmd : FileAccessCommand} {fs : LocalFs} {mac : Mac} {s : Sender}
    (h : startStation cmd fs mac = .inl s) : s.mmeSent.fragmentNumber = 0 := by
  unfold startStation at h
  simp only at h
  split at h
  · cases h
  · split at h
    · split at h
      · cases h
      · split at h
        · cases h
        · injection h with h
          rw [← h]
    · injection h with h
      rw [← h]

end Hpav
