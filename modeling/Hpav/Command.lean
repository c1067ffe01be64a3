import Mathlib.Tactic.Common
import Hpav.ConfFileModify
import Hpav.FileAccess
import Hpav.SendReport

/-!
# The commands that exchange one MME

The functions `test_mme_*` of the table in `main.c`, except the one for VS_FILE_ACCESS, and the
two of `test_nvram.c` that open a channel. Each of them reads its parameters, makes one exchange
and says by its return value what became of it. What a command meets on its way is kept in a log,
so that its value can be held against what happened.
-/

namespace Hpav

open CMem CScan

/-! ## What a command comes to -/

/-- `EXIT_SUCCESS` -/
abbrev exitSuccess : Int := 0

/-- `EXIT_FAILURE` -/
abbrev exitFailure : Int := 1

/-- `EXIT_NO_RESPONSE` -/
abbrev exitNoResponse : Int := 3

/-- What a command can meet. -/
inductive Met where
  /-- the channel is open -/
  | opened
  /-- the command line is turned down -/
  | usageError
  /-- a parameter is turned down that was counted as there: its value, or the name of a file that
  is missing -/
  | badValue
  /-- a file, the list of interfaces or the channel is not to be had -/
  | localError
  /-- an exchange of MMEs: its result, the packets handed over, and how many answers came -/
  | mme (result : Int) (sent : List (List UInt8)) (answers : Nat)
  /-- a file access: the exchanges made for each station, and whether the file its command names
  can be written -/
  | transfer (writable : Bool) (stations : List (Mac × List Exchange))

/-- The value a function returns, and what it met. -/
structure Verdict where
  rv : Int
  log : List Met

/-! ## Parameters -/

/-- The ways out of a command in front of its exchange. -/
inductive Leave where
  | usage
  | localError
  | fault (f : Fault)

/-- `argv[i]`. The pointer behind the last argument is NULL. -/
def argument (argv : List CString) (i : Nat) : Except Leave CString :=
  match argv[i]? with
  | none => .error (.fault .nullDeref)
  | some a => .ok a

/-- `atoi(argv[i])` -/
def number (argv : List CString) (i : Nat) : Except Leave Int := do
  let a ← argument argv i
  .ok (atoi a)

/-- `hpav_stomac`, for an array of six bytes. -/
def stomac (a : CString) : Option Mac :=
  if h : (scanColonHex none 6 a).length = 6 then some ⟨scanColonHex none 6 a, h⟩ else none

/-- The address in `argv[i]`. -/
def address (argv : List CString) (i : Nat) : Except Leave Mac := do
  let a ← argument argv i
  match stomac a with
  | none => .error .usage
  | some mac => .ok mac

/-- Six times 0xFF. -/
def broadcast : Mac :=
  ⟨List.replicate 6 0xFF, List.length_replicate⟩

/-- `dest_mac`, broadcast by default. -/
def destMac (argv : List CString) : Except Leave Mac :=
  if argv.length > 0 then address argv 0 else .ok broadcast

/-- The commands print their usage if there are too few parameters. -/
def atLeast (argv : List CString) (n : Nat) : Except Leave Unit :=
  if argv.length < n then .error .usage else .ok ()

theorem atLeast_ok {argv : List CString} {n : Nat} : atLeast argv n = .ok () ↔ n ≤ argv.length := by
  unfold atLeast
  split
  · exact iff_of_false nofun (by omega)
  · exact iff_of_true rfl (by omega)

theorem argument_ok {argv : List CString} {i : Nat} {a : CString} : argument argv i = .ok a ↔ argv[i]? = some a := by
  unfold argument
  cases argv[i]? with
  | none => exact iff_of_false nofun nofun
  | some b =>
    constructor
    · intro h
      injection h with h
      rw [h]
    · intro h
      injection h with h
      rw [h]

theorem number_ok {argv : List CString} {i : Nat} {v : Int} :
    number argv i = .ok v ↔ ∃ a, argv[i]? = some a ∧ atoi a = v := by
  unfold number
  rw [bind_eq_ok]
  simp only [argument_ok, Except.ok.injEq]

/-- `hpav_stonid` -/
def hpavStonid (nid : CString) : List UInt8 :=
  let out := scanColonHex none 7 nid
  if out.length ≠ 7 then List.replicate 7 0 else out

/-- `hpav_stomd5sum` -/
def hpavStomd5sum (md5sum : CString) : List UInt8 :=
  let out := scanHexPairs 16 md5sum
  if out.length ≠ 16 then List.replicate 16 0 else out

/-- The bytes of a request: those that are assigned, and what the memory holds behind them. -/
def requestOf (size : Nat) (uninit : Nat → UInt8) (bytes : List UInt8) : RequestOf size :=
  ⟨(List.range size).map fun i => bytes.getD i (uninit i), by rw [List.length_map, List.length_range]⟩

/-- An `int` in a field of two bytes. -/
def short (v : Int) : List UInt8 :=
  bytes16 (UInt16.ofInt v)

/-! ## The exchange -/

/-- What a command finds once its channel is open. -/
structure Setting where
  macAddr : Mac
  pcap : PcapRun
  /-- the memory behind a packet -/
  behind : Nat → UInt8
  /-- the memory of a variable that is not initialized -/
  uninit : Nat → UInt8
  /-- the memory behind the local array `buf` -/
  behindBuf : List UInt8
  lib : CryptoLib
  rand : RandBytes

/-- A command: the setting, the local files and the arguments behind the interface. -/
abbrev MmeCommand := Setting → LocalFs → List CString → Except Fault Verdict

/-- What most commands make of the end of an exchange. -/
def answered (result : Int) (sent : List (List UInt8)) (answers : Nat) : Verdict :=
  ⟨if result ≠ hpavOk then exitFailure else if answers = 0 then exitNoResponse else exitSuccess,
    [.mme result sent answers]⟩

/-- A command turned down before its exchange. -/
def Leave.verdict : Leave → Except Fault Verdict
  | .usage => .ok ⟨exitUsage, [.usageError]⟩
  | .localError => .ok ⟨-1, [.localError]⟩
  | .fault f => .error f

/-- A request with its parameters: the exchange it goes through, and how long how many answers
are waited for. -/
def testMme {ρ α : Type} (sndrcv : Sndrcv ρ α) (timeoutMs numFragments : UInt32) (s : Setting)
    (parameters : Except Leave (Mac × ρ)) : Except Fault Verdict :=
  match parameters with
  | .error leave => leave.verdict
  | .ok (dest, mmeSent) => do
    let attempt := sndrcv ⟨s.macAddr, dest, timeoutMs, numFragments⟩ mmeSent s.behind s.pcap
    let (result, response) ← attempt.outcome
    .ok (answered result attempt.sent response.length)

/-! ## Commands without parameters -/

/-- The request has no content that is set, the station is optional. -/
def testMmeEmpty {α : Type} (size : Nat) (sndrcv : Sndrcv (RequestOf size) α) : MmeCommand :=
  fun s _ argv => testMme sndrcv 1000 0 s do
    let dest ← destMac argv
    .ok (dest, requestOf size s.uninit [])

def testMmeMtkVsGetVersionReq := testMmeEmpty 4 mtkVsGetVersionSndrcv
def testMmeMtkVsResetReq := testMmeEmpty 4 mtkVsResetSndrcv
def testMmeMtkVsGetEthPhyReq := testMmeEmpty 4 mtkVsGetEthPhySndrcv
def testMmeMtkVsGetStatusReq := testMmeEmpty 4 mtkVsGetStatusSndrcv
def testMmeMtkVsGetPwmStatsReq := testMmeEmpty 4 mtkVsGetPwmStatsSndrcv
def testMmeMtkVsGetPwmConfReq := testMmeEmpty 4 mtkVsGetPwmConfSndrcv
def testMmeVcVsGetRemoteAccessReq := testMmeEmpty 4 vcVsGetRemoteAccessSndrcv

/-- `test_mme_mtk_vs_get_nw_info_req`: its request is cleared. -/
def testMmeMtkVsGetNwInfoReq : MmeCommand := fun s _ argv =>
  testMme mtkVsGetNwInfoSndrcv 1000 0 s do
    let dest ← destMac argv
    .ok (dest, requestOf 4 s.uninit [0, 0, 0, 0])

/-! ## Commands with one number -/

/-- A station and a number of one byte, both mandatory. -/
def testMmeNumber {α : Type} (sndrcv : Sndrcv (RequestOf 1) α) : MmeCommand :=
  fun s _ argv => testMme sndrcv 1000 0 s do
    atLeast argv 2
    let dest ← destMac argv
    let v ← number argv 1
    .ok (dest, requestOf 1 s.uninit [UInt8.ofInt v])

def testMmeMtkVsGetNvramReq := testMmeNumber mtkVsGetNvramSndrcv
def testMmeMtkVsEthStatsReq := testMmeNumber mtkVsEthStatsSndrcv
def testMmeMtkVsSpiStatsReq := testMmeNumber mtkVsSpiStatsSndrcv
def testMmeMtkVsSetTxCaliReq := testMmeNumber mtkVsSetTxCaliSndrcv
def testMmeVcVsSetSnifferConfReq := testMmeNumber vcVsSetSnifferConfSndrcv
def testMmeVcVsSetRemoteAccessReq := testMmeNumber vcVsSetRemoteAccessSndrcv

/-! ## Commands with more parameters -/

/-- `test_mme_mtk_vs_get_tonemask_req`: the second address is read although only the first one
is mandatory. -/
def testMmeMtkVsGetTonemaskReq : MmeCommand := fun s _ argv =>
  testMme mtkVsGetTonemaskSndrcv 1000 0 s do
    atLeast argv 1
    let dest ← destMac argv
    let peer ← address argv 1
    .ok (dest, requestOf 6 s.uninit peer.bytes)

/-- `test_mme_mtk_vs_get_tonemap_req` -/
def testMmeMtkVsGetTonemapReq : MmeCommand := fun s _ argv =>
  testMme mtkVsGetTonemapSndrcv 2000 1 s do
    atLeast argv 6
    let remote ← address argv 1
    let dest ← destMac argv
    let tmi ← number argv 2
    let intId ← number argv 3
    let direction ← number argv 4
    let carrierGroup ← number argv 5
    .ok (dest, requestOf 10 s.uninit (remote.bytes ++
      [UInt8.ofInt tmi, UInt8.ofInt intId, UInt8.ofInt direction, UInt8.ofInt carrierGroup]))

/-- `test_mme_mtk_vs_get_snr_req`: `int_id` is not set. -/
def testMmeMtkVsGetSnrReq : MmeCommand := fun s _ argv =>
  testMme mtkVsGetSnrSndrcv 1000 0 s do
    atLeast argv 4
    let dest ← destMac argv
    let remote ← address argv 1
    let intIndex ← number argv 2
    let carrierGroup ← number argv 3
    .ok (dest, requestOf 9 s.uninit (remote.bytes ++
      [UInt8.ofInt intIndex, s.uninit 7, UInt8.ofInt carrierGroup]))

/-- `test_mme_mtk_vs_get_link_stats_req` -/
def testMmeMtkVsGetLinkStatsReq : MmeCommand := fun s _ argv =>
  testMme mtkVsGetLinkStatsSndrcv 1000 0 s do
    atLeast argv 7
    let dest ← destMac argv
    let reqType ← number argv 1
    let reqId ← number argv 2
    let lid ← number argv 3
    let tlFlag ← number argv 4
    let mgmtFlag ← number argv 5
    let desSrc ← address argv 6
    .ok (dest, requestOf 11 s.uninit ([UInt8.ofInt reqType, UInt8.ofInt reqId, UInt8.ofInt lid,
      UInt8.ofInt tlFlag, UInt8.ofInt mgmtFlag] ++ desSrc.bytes))

/-- `test_mme_mtk_vs_set_capture_state_req` -/
def testMmeMtkVsSetCaptureStateReq : MmeCommand := fun s _ argv =>
  testMme mtkVsSetCaptureStateSndrcv 1000 0 s do
    atLeast argv 5
    let dest ← destMac argv
    let remote ← address argv 1
    let state ← number argv 2
    let captured ← number argv 3
    let capturedSource ← number argv 4
    .ok (dest, requestOf 9 s.uninit (remote.bytes ++
      [UInt8.ofInt state, UInt8.ofInt captured, UInt8.ofInt capturedSource]))

/-- `test_mme_mtk_vs_set_pwm_conf_req`: ten parameters, not more. -/
def testMmeMtkVsSetPwmConfReq : MmeCommand := fun s _ argv =>
  testMme mtkVsSetPwmConfSndrcv 1000 0 s do
    if argv.length ≠ 10 then .error .usage
    let op ← number argv 1
    let pwmMode ← number argv 2
    let pwmMeasures ← number argv 3
    let pwmPeriod ← number argv 4
    let pwmFreqThr ← number argv 5
    let pwmDutyCycleThr ← number argv 6
    let pwmVoltThr ← number argv 7
    let pwmSaradcLsb ← number argv 8
    let pwmVoltageBias ← number argv 9
    let dest ← destMac argv
    .ok (dest, requestOf 15 s.uninit ([UInt8.ofInt op, UInt8.ofInt pwmMode, UInt8.ofInt pwmMeasures] ++
      short pwmPeriod ++ short pwmFreqThr ++ short pwmDutyCycleThr ++ short pwmVoltThr ++
      short pwmSaradcLsb ++ short pwmVoltageBias))

/-- `test_mme_mtk_vs_pwm_generation_req` -/
def testMmeMtkVsPwmGenerationReq : MmeCommand := fun s _ argv =>
  testMme mtkVsPwmGenerationSndrcv 1000 0 s do
    atLeast argv 4
    let dest ← destMac argv
    let pwmMode ← number argv 1
    let pwmFreq ← number argv 2
    let pwmDutyCycle ← number argv 3
    .ok (dest, requestOf 5 s.uninit ([UInt8.ofInt pwmMode] ++ short pwmFreq ++ short pwmDutyCycle))

/-- `sscanf(..., "%u", ...)`: a variable at this place of the request keeps what it holds if
there is no number. -/
def unsignedAt (s : Setting) (offset : Nat) (a : CString) : List UInt8 :=
  match scanUnsigned a with
  | none => [s.uninit offset, s.uninit (offset + 1), s.uninit (offset + 2), s.uninit (offset + 3)]
  | some n => bytes32 n

/-- `test_mme_cm_set_key_req`: with a password the request is encrypted. -/
def testMmeCmSetKeyReq : MmeCommand := fun s _ argv =>
  let parameters : Except Leave (Mac × CmSetKeyReq) := do
    atLeast argv 11
    let dest ← destMac argv
    let keyType ← number argv 1
    let myNonce ← argument argv 2
    let yourNonce ← argument argv 3
    let pid ← number argv 4
    let prn ← number argv 5
    let pmn ← number argv 6
    let ccoCap ← number argv 7
    let nid ← argument argv 8
    let newEks ← number argv 9
    let newKey ← argument argv 10
    .ok (dest, requestOf 38 s.uninit ([UInt8.ofInt keyType] ++ unsignedAt s 1 myNonce ++
      unsignedAt s 5 yourNonce ++ [UInt8.ofInt pid] ++ short prn ++ [UInt8.ofInt pmn, UInt8.ofInt ccoCap] ++
      hpavStonid nid ++ [UInt8.ofInt newEks] ++ hpavStomd5sum newKey))
  match argv[11]? with
  | some devicePassword =>
    testMme (cmSetKeyEncryptedSndrcv ⟨s.lib, s.rand, devicePassword⟩ s.uninit) 1000 1 s parameters
  | none => testMme cmSetKeySndrcv 1000 1 s parameters

/-! ## Commands that read a file -/

/-- The entries of an amplitude map in a file, four characters apart. -/
def readAmdata (behindBuf content : List UInt8) : Nat → Nat → Except Leave (List Int)
  | _, 0 => .ok []
  | dataCount, n + 1 => do
    let buf := (content.drop (dataCount * 4)).take 2
    if buf.length ≠ 2 then .error .localError
    -- `buf` has no terminator
    let v := atoi (buf ++ behindBuf)
    if v < 0 ∨ v > 16 then .error .localError
    let rest ← readAmdata behindBuf content (dataCount + 1) n
    .ok (v :: rest)

/-- `map_data`: two entries a byte. An entry that is missing is what the array `am_data` holds. -/
def packAmdata (uninit : UInt8) : List Int → List UInt8
  | [] => []
  | [v] => [UInt8.ofInt (v + uninit.toNat * 16)]
  | v :: w :: rest => UInt8.ofInt (v + w * 16) :: packAmdata uninit rest

/-- The parameters of CM_AMP_MAP.REQ in front of the file. -/
def ampMapParameters (argv : List CString) : Except Leave (Mac × Int) := do
  atLeast argv 2
  let dest ← destMac argv
  let amlen ← number argv 1
  .ok (dest, amlen)

/-- The request of CM_AMP_MAP, with the entries of a file. -/
def ampMapReq (s : Setting) (fs : LocalFs) (argv : List CString) (amlen : Int) : Except Leave CmAmpMapReq := do
  let file ← argument argv 2
  match fs.content file with
  | none => .error .localError
  | some content => do
    let amData ← readAmdata s.behindBuf content 0 amlen.toNat
    let mapData := packAmdata (s.uninit 2002) amData
    .ok {
      mapLength := UInt16.ofInt amlen
      mapData := (List.range 2000).map fun i => mapData.getD i (s.uninit (2 + i))
      length_mapData := by rw [List.length_map, List.length_range] }

/-- `test_mme_cm_amp_map_req`: the only command that looks at the value of a number. -/
def testMmeCmAmpMapReq : MmeCommand := fun s fs argv =>
  match ampMapParameters argv with
  | .error leave => leave.verdict
  | .ok (dest, amlen) =>
    if amlen > 3528 ∨ amlen < 0 then .ok ⟨-1, [.badValue]⟩
    -- two parameters are enough for the count: `fopen` is given the NULL behind them, and fails
    else if argv.length ≤ 2 then .ok ⟨-1, [.badValue]⟩
    else testMme cmAmpMapSndrcv 1000 1 s ((ampMapReq s fs argv amlen).map fun mmeSent => (dest, mmeSent))

/-- `MTK_NVRAM_BLOCK_SIZE` -/
abbrev mtkNvramBlockSize : Nat := 1024

/-- The request of VS_SET_NVRAM. The checksum is brought into network order. -/
def setNvramReq (s : Setting) (blockIndex : UInt8) (nvramSize : Nat) (data : List UInt8) :
    Except Leave (RequestOf 1031) :=
  match xorchecksum data with
  | none => .error .localError
  | some checksum =>
    .ok (requestOf 1031 s.uninit
      ([blockIndex] ++ bytes16 (UInt16.ofNat nvramSize) ++ (bytes32 checksum).reverse ++ data))

/-- The block of a file that goes into a request. The offsets are of type `unsigned int`. -/
def readBlock (content : List UInt8) (blockIndex : UInt32) : Except Leave (List UInt8) :=
  let nvramBlockSizeMax := UInt32.ofNat (content.length / mtkNvramBlockSize)
  if content.length = 0 then .error .localError
  else if blockIndex > nvramBlockSizeMax then .error .localError
  else
    let start := (blockIndex * 1024).toNat
    -- the last block is what is left of the file, and that may be nothing
    let nvramReadSize :=
      if blockIndex = nvramBlockSizeMax then content.length - (nvramBlockSizeMax * 1024).toNat
      else mtkNvramBlockSize
    if mtkNvramBlockSize < nvramReadSize then .error (.fault .outOfBounds)
    else if nvramReadSize = 0 ∨ content.length < start + nvramReadSize then .error .localError
    else .ok ((content.drop start).take nvramReadSize)

/-- `test_mme_mtk_vs_set_nvram_req`: the station is looked at behind the file. -/
def testMmeMtkVsSetNvramReq : MmeCommand := fun s fs argv =>
  testMme mtkVsSetNvramSndrcv 1000 0 s do
    atLeast argv 3
    let blockIndex ← number argv 1
    let file ← argument argv 2
    match fs.content file with
    | none => .error .localError
    | some content => do
      let data ← readBlock content (UInt32.ofInt blockIndex)
      let dest ← destMac argv
      let mmeSent ← setNvramReq s (UInt8.ofInt blockIndex) content.length data
      .ok (dest, mmeSent)

/-! ## Commands on the NVRAM -/

/-- `test_nvram_write`: that no station answered is a failure as any other. -/
def testNvramWrite (s : Setting) (fs : LocalFs) (argv : List CString) : Except Fault Verdict :=
  let parameters : Except Leave (Mac × RequestOf 1031) := do
    atLeast argv 2
    let dest ← address argv 0
    let file ← argument argv 1
    match fs.content file with
    | none => .error .localError
    | some content => do
      if content.length = 0 ∨ content.length > mtkNvramBlockSize then .error .localError
      let mmeSent ← setNvramReq s 0 content.length content
      .ok (dest, mmeSent)
  match parameters with
  | .error leave => leave.verdict
  | .ok (dest, mmeSent) => do
    let attempt := mtkVsSetNvramSndrcv ⟨s.macAddr, dest, 1000, 0⟩ mmeSent s.behind s.pcap
    let (result, response) ← attempt.outcome
    -- here the number of answers counts, but with the code of a failure
    let rv := if result ≠ hpavOk then exitFailure else if response.isEmpty then exitFailure else exitSuccess
    .ok ⟨rv, [.mme result attempt.sent response.length]⟩

/-- `struct hpav_mtk_vs_get_nvram_cnf` in front of the data: `result`, `index`, `nvram_size`. -/
def nvramData (response : List UInt8) : Except Fault (List UInt8) :=
  let nvramSize := (le16 (response.getD 2 0) (response.getD 3 0)).toNat
  load (response.drop 4) 0 nvramSize

/-- `test_nvram_read`: the first answer is written into the file. -/
def testNvramRead (s : Setting) (fs : LocalFs) (argv : List CString) : Except Fault (Verdict × LocalFs) :=
  let parameters : Except Leave (Mac × RequestOf 1) := do
    atLeast argv 2
    let dest ← address argv 0
    .ok (dest, requestOf 1 s.uninit [0])
  match parameters with
  | .error leave => do
    let verdict ← leave.verdict
    .ok (verdict, fs)
  | .ok (dest, mmeSent) => do
    let attempt := mtkVsGetNvramSndrcv ⟨s.macAddr, dest, 1000, 0⟩ mmeSent s.behind s.pcap
    let (result, response) ← attempt.outcome
    let verdict := answered result attempt.sent response.length
    match response.head?, argv[1]? with
    | some (cnf, _), some outputFile =>
      if result ≠ hpavOk then .ok (verdict, fs)
      else if fs.writable outputFile then do
        -- `result` of the confirmation is printed, and decides nothing
        let data ← nvramData cnf
        .ok (verdict, fs.write outputFile data)
      else .ok (⟨-1, verdict.log ++ [.localError]⟩, fs)
    | _, _ => .ok (verdict, fs)

end Hpav
