import Mathlib.Tactic.Common
import Hpav.Command
import Hpav.FileChecksum
import Hpav.SendReport

/-!
# Writing blocks of the NVRAM

`mtk_vs_set_nvram_req` and `nvram write` send a block of a file. The request is a local
variable that is not cleared: what goes behind the end of the file is whatever the memory
held. The index and the size of the file are cut down to the width of their fields.
-/

namespace Hpav

open CMem CNumeral CScan Decimal

/-! ## The request -/

/-- `struct hpav_mtk_vs_set_nvram_req` -/
structure SetNvramReq where
  blockIndex : UInt8
  nvramSize : UInt16
  checksum : UInt32
  data : List UInt8
  deriving DecidableEq, Repr

/-- The structure in memory, its checksum in network order. -/
def SetNvramReq.wire (r : SetNvramReq) : List UInt8 :=
  [r.blockIndex] ++ bytes16 r.nvramSize ++ (bytes32 r.checksum).reverse ++ r.data

/-- A block of a file; the last one may be shorter. -/
def fileBlock (content : List UInt8) (index : Nat) : List UInt8 :=
  (content.drop (mtkNvramBlockSize * index)).take mtkNvramBlockSize

/-- A block with zeros behind the end of the file. -/
def zeroFilled (block : List UInt8) : List UInt8 :=
  block ++ List.replicate (mtkNvramBlockSize - block.length) 0

/-- The request that writes a block: every field is given by the file and the index. -/
structure SetNvramReq.Writes (r : SetNvramReq) (content : List UInt8) (index : Int) : Prop where
  blockIndex : (r.blockIndex.toNat : Int) = index
  nvramSize : r.nvramSize.toNat = content.length
  data : r.data = zeroFilled (fileBlock content r.blockIndex.toNat)
  checksum : r.checksum = wordChecksum (fileBlock content r.blockIndex.toNat)

/-- A block ends with the file. -/
theorem length_fileBlock (content : List UInt8) (index : Nat) :
    (fileBlock content index).length = min mtkNvramBlockSize (content.length - mtkNvramBlockSize * index) := by
  unfold fileBlock
  rw [List.length_take, List.length_drop]

/-- A block filled up with zeros has the full size. -/
theorem length_zeroFilled {block : List UInt8} (h : block.length ≤ mtkNvramBlockSize) :
    (zeroFilled block).length = mtkNvramBlockSize := by
  unfold zeroFilled
  rw [List.length_append, List.length_replicate]
  omega

/-- The request is seven bytes longer than its data. -/
theorem SetNvramReq.length_wire (r : SetNvramReq) : r.wire.length = 7 + r.data.length := by
  unfold SetNvramReq.wire
  simp only [List.length_append, List.length_reverse, List.length_singleton, length_bytes16, length_bytes32]

/-- Equal requests in memory have equal fields. -/
theorem SetNvramReq.wire_injective {r r' : SetNvramReq} (h : r.wire = r'.wire) : r = r' := by
  unfold SetNvramReq.wire at h
  simp only [List.append_assoc] at h
  obtain ⟨hindex, h⟩ := List.append_inj h rfl
  obtain ⟨hsize, h⟩ := List.append_inj h rfl
  obtain ⟨hchecksum, hdata⟩ := List.append_inj h rfl
  injection hindex with hindex _
  have hsize := bytes16_injective hsize
  have hchecksum := bytes32_injective (List.reverse_injective hchecksum)
  cases r
  cases r'
  simp only [SetNvramReq.mk.injEq]
  exact ⟨hindex, hsize, hchecksum, hdata⟩

/-- Behind the bytes that are assigned is what the memory held. -/
theorem requestOf_val {size : Nat} (uninit : Nat → UInt8) {bytes : List UInt8} (h : bytes.length ≤ size) :
    (requestOf size uninit bytes).val =
      bytes ++ (List.range (size - bytes.length)).map fun i => uninit (bytes.length + i) := by
  obtain ⟨n, rfl⟩ := Nat.exists_eq_add_of_le h
  have hassigned : (List.range bytes.length).map (fun i => bytes.getD i (uninit i)) = bytes := by
    apply List.ext_getElem
    · rw [List.length_map, List.length_range]
    · intro i hi hi'
      rw [List.getElem_map, List.getElem_range, List.getD_eq_getElem _ _ hi']
  have hbehind : (List.range n).map ((fun i => bytes.getD i (uninit i)) ∘ (bytes.length + ·)) =
      (List.range n).map fun i => uninit (bytes.length + i) := by
    apply List.map_congr_left
    intro i _
    exact List.getD_eq_default _ _ (Nat.le_add_right _ _)
  show (List.range (bytes.length + n)).map (fun i => bytes.getD i (uninit i)) = _
  rw [List.range_add, List.map_append, List.map_map, hassigned, hbehind, Nat.add_sub_cancel_left]

/-- What `setNvramReq` makes of the bytes it got: they are copied to the front of the data. -/
theorem setNvramReq_ok {s : Setting} {blockIndex : UInt8} {nvramSize : Nat} {data : List UInt8}
    (hlength : data.length ≤ mtkNvramBlockSize) (hwhole : data.length % 4 = 0) :
    ∃ mmeSent : RequestOf 1031, setNvramReq s blockIndex nvramSize data = .ok mmeSent ∧
      mmeSent.val = SetNvramReq.wire ⟨blockIndex, UInt16.ofNat nvramSize, wordChecksum data,
        data ++ (List.range (mtkNvramBlockSize - data.length)).map fun i => s.uninit (7 + data.length + i)⟩ := by
  have hsum : xorchecksum data = some (wordChecksum data) := by
    rw [xorchecksum_eq, if_pos hwhole]
  unfold setNvramReq
  rw [hsum]
  refine ⟨_, rfl, ?_⟩
  have hbytes : ([blockIndex] ++ bytes16 (UInt16.ofNat nvramSize) ++ (bytes32 (wordChecksum data)).reverse ++
      data).length = 7 + data.length := by
    simp only [List.length_append, List.length_reverse, List.length_singleton, length_bytes16, length_bytes32]
  rw [requestOf_val _ (by rw [hbytes]; simp only [mtkNvramBlockSize] at hlength; omega), hbytes]
  have hroom : 1031 - (7 + data.length) = mtkNvramBlockSize - data.length := by
    simp only [mtkNvramBlockSize]
    omega
  unfold SetNvramReq.wire
  rw [hroom, List.append_assoc]

/-- The checksum is made of whole words only. -/
theorem setNvramReq_whole {s : Setting} {blockIndex : UInt8} {nvramSize : Nat} {data : List UInt8}
    {mmeSent : RequestOf 1031} (h : setNvramReq s blockIndex nvramSize data = .ok mmeSent) :
    data.length % 4 = 0 := by
  unfold setNvramReq at h
  rw [xorchecksum_eq] at h
  by_contra hragged
  rw [if_neg hragged] at h
  cases h

/-! ## The commands -/

/-- The two commands that write the NVRAM. -/
inductive NvramCommand where
  | mtkVsSetNvramReq
  | nvramWrite
  deriving DecidableEq, Repr

/-- The number a text starts with, however large; without a number it is 0. -/
def decimalNumber (a : CString) : Int :=
  let (negative, _, digits) := takeSign (a.dropWhile isSpace)
  let n := value (digits.takeWhile isDigit)
  if negative then -n else n

namespace NvramCommand

/-- The station and the request, if the command line and the file are not turned down. -/
def parameters : NvramCommand → Setting → LocalFs → List CString → Except Leave (Mac × RequestOf 1031)
  | .mtkVsSetNvramReq, s, fs, argv => do
    atLeast argv 3
    let blockIndex ← number argv 1
    let file ← argument argv 2
    match fs.content file with
    | none => .error .localError
    | some content => do
      let data ← readBlock content (UInt32.ofInt blockIndex)
      let dest ← destMac argv
      let mmeSent ← setNvramReq s (UInt8.ofInt blockIndex) content.length data
      .ok (dest, mmeSent)
  | .nvramWrite, s, fs, argv => do
    atLeast argv 2
    let dest ← address argv 0
    let file ← argument argv 1
    match fs.content file with
    | none => .error .localError
    | some content => do
      if content.length = 0 ∨ content.length > mtkNvramBlockSize then .error .localError
      let mmeSent ← setNvramReq s 0 content.length content
      .ok (dest, mmeSent)

/-- The exchange a command makes. -/
def transmission (s : Setting) (dest : Mac) (mmeSent : RequestOf 1031) : Transmission (Int × List (List UInt8 × Mac)) :=
  mtkVsSetNvramSndrcv ⟨s.macAddr, dest, 1000, 0⟩ mmeSent s.behind s.pcap

/-- The packets a command hands over to pcap. -/
def sent (c : NvramCommand) (s : Setting) (fs : LocalFs) (argv : List CString) : List (List UInt8) :=
  match c.parameters s fs argv with
  | .error _ => []
  | .ok (dest, mmeSent) => (transmission s dest mmeSent).sent

/-- What a command returns once its exchange has ended. -/
def finish : NvramCommand → Transmission (Int × List (List UInt8 × Mac)) → Except Fault Verdict
  | .mtkVsSetNvramReq, attempt => do
    let (result, response) ← attempt.outcome
    .ok (answered result attempt.sent response.length)
  | .nvramWrite, attempt => do
    let (result, response) ← attempt.outcome
    let rv := if result ≠ hpavOk then exitFailure else if response.isEmpty then exitFailure else exitSuccess
    .ok ⟨rv, [.mme result attempt.sent response.length]⟩

def run : NvramCommand → Setting → LocalFs → List CString → Except Fault Verdict
  | .mtkVsSetNvramReq => testMmeMtkVsSetNvramReq
  | .nvramWrite => testNvramWrite

/-- A command is its parameters, and then the transmission. -/
theorem run_eq (c : NvramCommand) (s : Setting) (fs : LocalFs) (argv : List CString) :
    c.run s fs argv = match c.parameters s fs argv with
      | .error leave => leave.verdict
      | .ok (dest, mmeSent) => c.finish (transmission s dest mmeSent) := by
  cases c with
  | mtkVsSetNvramReq =>
    have hrun : NvramCommand.mtkVsSetNvramReq.run s fs argv =
        testMme mtkVsSetNvramSndrcv 1000 0 s (NvramCommand.mtkVsSetNvramReq.parameters s fs argv) := rfl
    rw [hrun]
    cases NvramCommand.mtkVsSetNvramReq.parameters s fs argv with
    | error leave => rfl
    | ok p => rfl
  | nvramWrite =>
    show (match NvramCommand.nvramWrite.parameters s fs argv with
      | .error leave => leave.verdict
      | .ok (dest, mmeSent) => NvramCommand.nvramWrite.finish (transmission s dest mmeSent)) = _
    rfl

/-- A command logs its exchange and nothing else. -/
theorem finish_log {c : NvramCommand} {attempt : Transmission (Int × List (List UInt8 × Mac))} {v : Verdict}
    (h : c.finish attempt = .ok v) : ∃ result answers, v.log = [.mme result attempt.sent answers] := by
  obtain ⟨packets, outcome⟩ := attempt
  cases outcome with
  | error e => cases c <;> cases h
  | ok ended =>
    obtain ⟨result, response⟩ := ended
    cases c with
    | mtkVsSetNvramReq =>
      injection h with h
      exact ⟨result, response.length, congrArg Verdict.log h.symm⟩
    | nvramWrite =>
      injection h with h
      exact ⟨result, response.length, congrArg Verdict.log h.symm⟩

/-- The log of a command names the packets it handed over. -/
theorem sent_of_run {c : NvramCommand} {s : Setting} {fs : LocalFs} {argv : List CString} {v : Verdict}
    {result : Int} {packets : List (List UInt8)} {answers : Nat} (h : c.run s fs argv = .ok v)
    (hlog : .mme result packets answers ∈ v.log) : packets = c.sent s fs argv := by
  rw [run_eq] at h
  unfold NvramCommand.sent
  rcases hparameters : c.parameters s fs argv with leave | ⟨dest, mmeSent⟩
  · rw [hparameters] at h
    cases leave with
    | fault f => cases h
    | usage =>
      injection h with h
      rw [← h] at hlog
      cases List.mem_singleton.mp hlog
    | localError =>
      injection h with h
      rw [← h] at hlog
      cases List.mem_singleton.mp hlog
  · rw [hparameters] at h
    obtain ⟨code, n, hmet⟩ := finish_log h
    rw [hmet] at hlog
    injection List.mem_singleton.mp hlog

/-! ### What the request is made of -/

/-- How many arguments are mandatory. -/
def mandatory : NvramCommand → Nat
  | .mtkVsSetNvramReq => 3
  | .nvramWrite => 2

/-- The station that is addressed. -/
def station : NvramCommand → List CString → Except Leave Mac
  | .mtkVsSetNvramReq, argv => destMac argv
  | .nvramWrite, argv => address argv 0

/-- The path of the file. -/
def fileName : NvramCommand → List CString → Option CString
  | .mtkVsSetNvramReq, argv => argv[2]?
  | .nvramWrite, argv => argv[1]?

/-- The block that is asked for. -/
def requestedIndex : NvramCommand → List CString → Int
  | .mtkVsSetNvramReq, argv => decimalNumber ((argv[1]?).getD [])
  | .nvramWrite, _ => 0

/-- The variable `block_index`. -/
def blockIndex : NvramCommand → List CString → Int
  | .mtkVsSetNvramReq, argv => atoi ((argv[1]?).getD [])
  | .nvramWrite, _ => 0

/-- The bytes that are read of the file. -/
def readsOf : NvramCommand → List CString → List UInt8 → Except Leave (List UInt8)
  | .mtkVsSetNvramReq, argv, content =>
    readBlock content (UInt32.ofInt (NvramCommand.mtkVsSetNvramReq.blockIndex argv))
  | .nvramWrite, _, content =>
    if content.length = 0 ∨ content.length > mtkNvramBlockSize then .error .localError else .ok content

/-- The command line and the file give these bytes for that station. -/
structure Prepared (c : NvramCommand) (fs : LocalFs) (argv : List CString) (dest : Mac)
    (content data : List UInt8) : Prop where
  enough : c.mandatory ≤ argv.length
  station : c.station argv = .ok dest
  file : ∃ file, c.fileName argv = some file ∧ fs.content file = some content
  read : c.readsOf argv content = .ok data

/-- The index of `mtk_vs_set_nvram_req` is the number in its second argument. -/
theorem blockIndex_of_argument {argv : List CString} {a : CString} (h : argv[1]? = some a) :
    blockIndex .mtkVsSetNvramReq argv = atoi a := by
  show atoi ((argv[1]?).getD []) = atoi a
  rw [h]
  rfl

/-- The MME command prepares its request from the file and the index it is given. -/
theorem parameters_mtkVsSetNvramReq {s : Setting} {fs : LocalFs} {argv : List CString} {dest : Mac}
    {mmeSent : RequestOf 1031} : parameters .mtkVsSetNvramReq s fs argv = .ok (dest, mmeSent) ↔
      ∃ content data, Prepared .mtkVsSetNvramReq fs argv dest content data ∧
        setNvramReq s (UInt8.ofInt (blockIndex .mtkVsSetNvramReq argv)) content.length data = .ok mmeSent := by
  constructor
  · intro h
    -- every check of the command that lets the run go on leaves a fact behind
    obtain ⟨_, hmany, h⟩ := bind_eq_ok.mp h
    obtain ⟨v, hnumber, h⟩ := bind_eq_ok.mp h
    obtain ⟨file, hfile, h⟩ := bind_eq_ok.mp h
    obtain ⟨a, ha, rfl⟩ := number_ok.mp hnumber
    have hindex := blockIndex_of_argument ha
    cases hcontent : fs.content file with
    | none =>
      rw [hcontent] at h
      cases h
    | some content =>
      rw [hcontent] at h
      obtain ⟨data, hread, h⟩ := bind_eq_ok.mp h
      obtain ⟨dest', hdest, h⟩ := bind_eq_ok.mp h
      obtain ⟨mmeSent', hreq, h⟩ := bind_eq_ok.mp h
      injection h with h
      obtain ⟨rfl, rfl⟩ := Prod.mk.inj h
      refine ⟨content, data, ⟨atLeast_ok.mp hmany, hdest, ⟨file, argument_ok.mp hfile, hcontent⟩, ?_⟩, ?_⟩
      · show readBlock content (UInt32.ofInt (blockIndex .mtkVsSetNvramReq argv)) = .ok data
        rw [hindex]
        exact hread
      · rw [hindex]
        exact hreq
  · rintro ⟨content, data, ⟨hmany, hdest, ⟨file, hfile, hcontent⟩, hread⟩, hreq⟩
    -- and with all of them none of the checks stops it
    have hmany : 3 ≤ argv.length := hmany
    obtain ⟨a, ha⟩ : ∃ a, argv[1]? = some a := ⟨_, List.getElem?_eq_getElem (by omega)⟩
    have hindex := blockIndex_of_argument ha
    have hread : readBlock content (UInt32.ofInt (blockIndex .mtkVsSetNvramReq argv)) = .ok data := hread
    rw [hindex] at hread hreq
    refine bind_eq_ok.mpr ⟨(), atLeast_ok.mpr hmany, ?_⟩
    refine bind_eq_ok.mpr ⟨_, number_ok.mpr ⟨a, ha, rfl⟩, ?_⟩
    refine bind_eq_ok.mpr ⟨_, argument_ok.mpr hfile, ?_⟩
    rw [hcontent]
    refine bind_eq_ok.mpr ⟨_, hread, ?_⟩
    refine bind_eq_ok.mpr ⟨_, hdest, ?_⟩
    exact bind_eq_ok.mpr ⟨_, hreq, rfl⟩

/-- So does `nvram write`, from the file alone. -/
theorem parameters_nvramWrite {s : Setting} {fs : LocalFs} {argv : List CString} {dest : Mac}
    {mmeSent : RequestOf 1031} : parameters .nvramWrite s fs argv = .ok (dest, mmeSent) ↔
      ∃ content data, Prepared .nvramWrite fs argv dest content data ∧
        setNvramReq s (UInt8.ofInt (blockIndex .nvramWrite argv)) content.length data = .ok mmeSent := by
  constructor
  · intro h
    obtain ⟨_, hmany, h⟩ := bind_eq_ok.mp h
    obtain ⟨dest', hdest, h⟩ := bind_eq_ok.mp h
    obtain ⟨file, hfile, h⟩ := bind_eq_ok.mp h
    cases hcontent : fs.content file with
    | none =>
      rw [hcontent] at h
      cases h
    | some content =>
      rw [hcontent] at h
      simp only at h
      split at h
      · cases h
      · -- the size is the only thing this command checks of the file
        rename_i hfits
        obtain ⟨mmeSent', hreq, h⟩ := bind_eq_ok.mp h
        injection h with h
        obtain ⟨rfl, rfl⟩ := Prod.mk.inj h
        exact ⟨content, content, ⟨atLeast_ok.mp hmany, hdest, ⟨file, argument_ok.mp hfile, hcontent⟩,
          if_neg hfits⟩, hreq⟩
  · rintro ⟨content, data, ⟨hmany, hdest, ⟨file, hfile, hcontent⟩, hread⟩, hreq⟩
    have hread : (if content.length = 0 ∨ content.length > mtkNvramBlockSize then .error .localError
      else .ok content : Except Leave (List UInt8)) = .ok data := hread
    split at hread
    · cases hread
    · rename_i hfits
      injection hread with hread
      rw [← hread] at hreq
      refine bind_eq_ok.mpr ⟨(), atLeast_ok.mpr hmany, ?_⟩
      refine bind_eq_ok.mpr ⟨_, hdest, ?_⟩
      refine bind_eq_ok.mpr ⟨_, argument_ok.mpr hfile, ?_⟩
      rw [hcontent]
      simp only [if_neg hfits]
      exact bind_eq_ok.mpr ⟨_, hreq, rfl⟩

/-- The request is made of what the command line and the file give. -/
theorem parameters_ok {c : NvramCommand} {s : Setting} {fs : LocalFs} {argv : List CString} {dest : Mac}
    {mmeSent : RequestOf 1031} : c.parameters s fs argv = .ok (dest, mmeSent) ↔
      ∃ content data, c.Prepared fs argv dest content data ∧
        setNvramReq s (UInt8.ofInt (c.blockIndex argv)) content.length data = .ok mmeSent := by
  cases c with
  | mtkVsSetNvramReq => exact parameters_mtkVsSetNvramReq
  | nvramWrite => exact parameters_nvramWrite

/-! ### What is handed over -/

/-- The frame that carries a request. -/
def requestFrame (s : Setting) (dest : Mac) (request : List UInt8) : List UInt8 :=
  frameBytes dest s.macAddr (mtkMmeHeader 0xA104 ++ request) ethFrameMinSize

/-- A frame alone is handed over as it is. -/
theorem sendFrames_one (pcap : PcapRun) (frame : EthFrame) (i : Nat) :
    (sendFrames pcap [frame] i).1 = [frame.bytes] := by
  unfold sendFrames
  split
  · rfl
  · rfl

/-- An exchange hands over its one frame, if anything. -/
theorem exchange_sent {α : Type} {call : Call} {packet : Except Fault MmePacket} {expected : Expected α}
    {behind : Nat → UInt8} {pcap : PcapRun} {frame : EthFrame} {bytes : List UInt8}
    (hframes : (packet >>= fun p => buildFrames p ethFrameMinSize) = .ok [frame])
    (h : bytes ∈ (exchange call packet expected behind pcap).sent) : bytes = frame.bytes := by
  have hone := sendFrames_one pcap frame 0
  unfold exchange at h
  rw [hframes] at h
  simp only at h
  split at h
  · cases h
  · split at h
    · cases h
    · split at h
      · rw [hone] at h
        exact List.mem_singleton.mp h
      · split at h
        · rw [hone] at h
          exact List.mem_singleton.mp h
        · rw [hone] at h
          exact List.mem_singleton.mp h

/-- It does if pcap takes the filter. -/
theorem exchange_sent_one {α : Type} (call : Call) {packet : Except Fault MmePacket} (expected : Expected α)
    (behind : Nat → UInt8) {pcap : PcapRun} {frame : EthFrame} (hcompile : pcap.compile ≠ -1)
    (hsetfilter : pcap.setfilter ≠ -1)
    (hframes : (packet >>= fun p => buildFrames p ethFrameMinSize) = .ok [frame]) :
    (exchange call packet expected behind pcap).sent = [frame.bytes] := by
  unfold exchange
  rw [hframes]
  simp only [if_neg hcompile, if_neg hsetfilter]
  split
  · exact sendFrames_one pcap frame 0
  · split
    · exact sendFrames_one pcap frame 0
    · exact sendFrames_one pcap frame 0

/-- One frame is built of the request. -/
theorem buildFrames_request (s : Setting) (dest : Mac) (mmeSent : RequestOf 1031) :
    ∃ frame : EthFrame, frame.bytes = requestFrame s dest mmeSent.val ∧
      (encodeMtkVsSetNvramReq dest s.macAddr mmeSent >>= fun p => buildFrames p ethFrameMinSize) = .ok [frame] := by
  have hlength : (mtkMmeHeader 0xA104 ++ mmeSent.val).length = mtkMmeHeaderSize + 1031 := by
    rw [List.length_append, mmeSent.property]
    rfl
  have hsize : (mtkMmeHeader 0xA104 ++ mmeSent.val).length ≤ ethFrameMaxPayload := by
    rw [hlength]
    decide
  refine ⟨.ofCapture _ (length_frameBytes_le dest s.macAddr ethFrameMinSize hsize), List.take_left, ?_⟩
  unfold encodeMtkVsSetNvramReq
  rw [encodeMtkMme_eq, ← hlength, bind_ok]
  exact buildFrames_fits dest s.macAddr ethFrameMinSize hsize

/-- Nothing but the frame of the request is handed over. -/
theorem transmission_sent {s : Setting} {dest : Mac} {mmeSent : RequestOf 1031} {packet : List UInt8}
    (h : packet ∈ (transmission s dest mmeSent).sent) : packet = requestFrame s dest mmeSent.val := by
  obtain ⟨frame, hbytes, hframes⟩ := buildFrames_request s dest mmeSent
  unfold transmission mtkVsSetNvramSndrcv mmeSndrcv at h
  rw [← hbytes]
  exact exchange_sent hframes h

/-- If pcap takes the filter, the frame of the request is handed over. -/
theorem transmission_sent_one {s : Setting} (dest : Mac) (mmeSent : RequestOf 1031)
    (hcompile : s.pcap.compile ≠ -1) (hsetfilter : s.pcap.setfilter ≠ -1) :
    (transmission s dest mmeSent).sent = [requestFrame s dest mmeSent.val] := by
  obtain ⟨frame, hbytes, hframes⟩ := buildFrames_request s dest mmeSent
  unfold transmission mtkVsSetNvramSndrcv mmeSndrcv
  rw [exchange_sent_one _ _ _ hcompile hsetfilter hframes, hbytes]

/-! ### The block that was asked for -/

/-- The command accepts its arguments, which name a file of this content. -/
def Accepts (c : NvramCommand) (fs : LocalFs) (argv : List CString) (content : List UInt8) : Prop :=
  (∃ file, c.fileName argv = some file ∧ fs.content file = some content) ∧
    ∃ s dest mmeSent, c.parameters s fs argv = .ok (dest, mmeSent)

/-- Whatever the memory held, a request that is sent writes the block that was asked for. -/
def SendsBlock (c : NvramCommand) (fs : LocalFs) (argv : List CString) (content : List UInt8) : Prop :=
  ∀ s, ∀ packet ∈ c.sent s fs argv, ∃ dest r, c.station argv = .ok dest ∧
    SetNvramReq.Writes r content (c.requestedIndex argv) ∧ packet = requestFrame s dest r.wire

/-- A number that fits 31 bits is read as it is written. -/
theorem atoi_eq_decimalNumber {a : CString} (hlow : 0 ≤ decimalNumber a) (hhigh : decimalNumber a < 2 ^ 31) :
    atoi a = decimalNumber a := by
  unfold decimalNumber at hlow hhigh ⊢
  unfold atoi scanInt scanLong
  rcases htake : takeSign (a.dropWhile isSpace) with ⟨negative, sign, digits⟩
  simp only [htake] at hlow hhigh ⊢
  by_cases hnone : digits.takeWhile isDigit = []
  · -- without a digit both are 0
    rw [if_pos hnone, hnone]
    cases negative with
    | false => rfl
    | true => rfl
  · rw [if_neg hnone]
    cases negative with
    | false =>
      simp only [Bool.false_eq_true, if_false] at hlow hhigh ⊢
      show Int.bmod (min _ _) (2 ^ 32) = _
      rw [min_eq_left (by omega)]
      exact Int.bmod_eq_of_le (by omega) (by omega)
    | true =>
      simp only [if_true] at hlow hhigh ⊢
      show Int.bmod (max _ _) (2 ^ 32) = _
      rw [max_eq_left (by omega)]
      exact Int.bmod_eq_of_le (by omega) (by omega)

/-- An index of one byte is not changed on the way. -/
theorem blockIndex_eq {c : NvramCommand} {argv : List CString} (hlow : 0 ≤ c.requestedIndex argv)
    (hhigh : c.requestedIndex argv < 256) : c.blockIndex argv = c.requestedIndex argv := by
  cases c with
  | mtkVsSetNvramReq => exact atoi_eq_decimalNumber hlow (hhigh.trans (by decide))
  | nvramWrite => rfl

/-- What a block that is read is: its start and its size are computed as `unsigned int`. -/
theorem readBlock_ok {content data : List UInt8} {u : UInt32} (h : readBlock content u = .ok data) :
    ∃ size, (if u = UInt32.ofNat (content.length / mtkNvramBlockSize)
        then content.length - (UInt32.ofNat (content.length / mtkNvramBlockSize) * 1024).toNat
        else mtkNvramBlockSize) = size ∧
      u ≤ UInt32.ofNat (content.length / mtkNvramBlockSize) ∧ size ≤ mtkNvramBlockSize ∧ 0 < size ∧
      data = (content.drop (u * 1024).toNat).take size := by
  unfold readBlock at h
  simp only at h
  generalize hsize : (if u = UInt32.ofNat (content.length / mtkNvramBlockSize)
    then content.length - (UInt32.ofNat (content.length / mtkNvramBlockSize) * 1024).toNat
    else mtkNvramBlockSize) = size at h
  split at h
  · cases h
  · split at h
    · cases h
    · rename_i hindex
      split at h
      · cases h
      · split at h
        · cases h
        · injection h with h
          exact ⟨size, rfl, UInt32.not_lt.mp hindex, by omega, by omega, h.symm⟩

/-- In a file that is not too large a block is found where it belongs. -/
theorem readBlock_fileBlock {content data : List UInt8} {u : UInt32} (hfits : content.length ≤ 65535)
    (h : readBlock content u = .ok data) : data = fileBlock content u.toNat := by
  obtain ⟨size, hsize, hindex, -, -, rfl⟩ := readBlock_ok h
  have hmax : (UInt32.ofNat (content.length / mtkNvramBlockSize)).toNat = content.length / mtkNvramBlockSize := by
    rw [UInt32.toNat_ofNat']
    simp only [mtkNvramBlockSize]
    omega
  have hindex : u.toNat ≤ content.length / mtkNvramBlockSize := by
    rw [← hmax]
    exact hindex
  have hstart : (u * 1024).toNat = mtkNvramBlockSize * u.toNat := by
    have h1024 : (1024 : UInt32).toNat = 1024 := rfl
    rw [UInt32.toNat_mul, h1024]
    simp only [mtkNvramBlockSize] at hindex ⊢
    omega
  rw [hstart]
  unfold fileBlock
  split at hsize
  · -- the last block ends with the file
    rename_i hlast
    have hu : u.toNat = content.length / mtkNvramBlockSize := by rw [hlast, hmax]
    rw [← hlast, hstart] at hsize
    rw [List.take_of_length_le, List.take_of_length_le]
    · rw [List.length_drop]
      simp only [mtkNvramBlockSize] at hu ⊢
      omega
    · rw [List.length_drop, hsize]
  · rw [hsize]

/-- No more than a block is taken from the file. -/
theorem Prepared.length_le {c : NvramCommand} {fs : LocalFs} {argv : List CString} {dest : Mac}
    {content data : List UInt8} (h : c.Prepared fs argv dest content data) : data.length ≤ mtkNvramBlockSize := by
  have hread := h.read
  cases c with
  | mtkVsSetNvramReq =>
    obtain ⟨size, -, -, hsize, -, rfl⟩ := readBlock_ok hread
    exact (List.length_take_le _ _).trans hsize
  | nvramWrite =>
    have hread : (if content.length = 0 ∨ content.length > mtkNvramBlockSize then .error .localError
      else .ok content : Except Leave (List UInt8)) = .ok data := hread
    split at hread
    · cases hread
    · injection hread with hread
      rw [← hread]
      omega

/-- Of a file of up to 65535 bytes the block with the index is taken. -/
theorem Prepared.data_eq {c : NvramCommand} {fs : LocalFs} {argv : List CString} {dest : Mac}
    {content data : List UInt8} {i : Nat} (h : c.Prepared fs argv dest content data)
    (hfits : content.length ≤ 65535) (hindex : c.blockIndex argv = i) (hi : i < 256) :
    data = fileBlock content i := by
  have hread := h.read
  cases c with
  | mtkVsSetNvramReq =>
    have hread : readBlock content (UInt32.ofInt (blockIndex .mtkVsSetNvramReq argv)) = .ok data := hread
    rw [hindex] at hread
    have hu : (UInt32.ofInt (i : Int)).toNat = i := by
      show (UInt32.ofNat ((i : Int) % 2 ^ 32).toNat).toNat = i
      rw [UInt32.toNat_ofNat']
      omega
    rw [readBlock_fileBlock hfits hread, hu]
  | nvramWrite =>
    have hread : (if content.length = 0 ∨ content.length > mtkNvramBlockSize then .error .localError
      else .ok content : Except Leave (List UInt8)) = .ok data := hread
    have hzero : (0 : Int) = i := hindex
    obtain rfl : i = 0 := by omega
    split at hread
    · cases hread
    · injection hread with hread
      rw [← hread]
      unfold fileBlock
      rw [Nat.mul_zero, List.drop_zero, List.take_of_length_le (by omega)]

/-- The request of the setting `s`. -/
def requestIn (c : NvramCommand) (s : Setting) (argv : List CString) (content data : List UInt8) : SetNvramReq where
  blockIndex := UInt8.ofInt (c.blockIndex argv)
  nvramSize := UInt16.ofNat content.length
  checksum := wordChecksum data
  data := data ++ (List.range (mtkNvramBlockSize - data.length)).map fun i => s.uninit (7 + data.length + i)

/-- A command that accepts its arguments prepares whole words. -/
theorem Accepts.prepared {c : NvramCommand} {fs : LocalFs} {argv : List CString} {content : List UInt8}
    (h : c.Accepts fs argv content) :
    ∃ dest data, c.Prepared fs argv dest content data ∧ data.length % 4 = 0 := by
  obtain ⟨⟨file, hfile, hcontent⟩, s, dest, mmeSent, hparameters⟩ := h
  obtain ⟨content', data, hprepared, hreq⟩ := parameters_ok.mp hparameters
  obtain ⟨file', hfile', hcontent'⟩ := hprepared.file
  obtain rfl : file = file' := Option.some.inj (hfile.symm.trans hfile')
  obtain rfl : content = content' := Option.some.inj (hcontent.symm.trans hcontent')
  exact ⟨dest, data, hprepared, setNvramReq_whole hreq⟩

/-- In every setting the same bytes are sent, and behind them what the memory held. -/
theorem Prepared.parameters {c : NvramCommand} {fs : LocalFs} {argv : List CString} {dest : Mac}
    {content data : List UInt8} (h : c.Prepared fs argv dest content data) (hwhole : data.length % 4 = 0)
    (s : Setting) : ∃ mmeSent, c.parameters s fs argv = .ok (dest, mmeSent) ∧
      mmeSent.val = (c.requestIn s argv content data).wire := by
  obtain ⟨mmeSent, hreq, hval⟩ := @setNvramReq_ok s (UInt8.ofInt (c.blockIndex argv)) content.length _
    h.length_le hwhole
  exact ⟨mmeSent, parameters_ok.mpr ⟨content, data, h, hreq⟩, hval⟩

/-- The data of a request has the size of a block. -/
theorem length_requestIn {c : NvramCommand} {s : Setting} {argv : List CString} {content data : List UInt8}
    (h : data.length ≤ mtkNvramBlockSize) : (c.requestIn s argv content data).data.length = mtkNvramBlockSize := by
  show (data ++ (List.range (mtkNvramBlockSize - data.length)).map _).length = _
  rw [List.length_append, List.length_map, List.length_range]
  omega

/-- The frame tells the request. -/
theorem requestFrame_injective {s : Setting} {dest : Mac} {r r' : List UInt8} (hlength : r.length = r'.length)
    (h : requestFrame s dest r = requestFrame s dest r') : r = r' := by
  unfold requestFrame frameBytes at h
  have h := (List.append_inj h (by simp only [List.length_append, hlength])).1
  exact List.append_cancel_left (List.append_cancel_left h)

/-- The memory of a variable may hold anything. -/
def onesSetting (s : Setting) : Setting :=
  { s with pcap := quietRun, uninit := fun _ => 1 }

/-- The index asked for and the size of the file fit their fields, and the block is full. -/
structure FullBlock (index : Int) (content : List UInt8) : Prop where
  low : 0 ≤ index
  full : mtkNvramBlockSize * (index + 1) ≤ content.length
  fits : content.length ≤ 65535

/-- Behind a block that is not full the memory is seen. -/
theorem fullBlock_of_sendsBlock {c : NvramCommand} {fs : LocalFs} {argv : List CString} {content : List UInt8}
    (haccepts : c.Accepts fs argv content) (hsends : c.SendsBlock fs argv content) :
    FullBlock (c.requestedIndex argv) content := by
  obtain ⟨dest, data, hprepared, hwhole⟩ := haccepts.prepared
  have hle := hprepared.length_le
  obtain ⟨-, s, -⟩ := haccepts
  obtain ⟨mmeSent, hparameters, hval⟩ := hprepared.parameters hwhole (onesSetting s)
  have hsent : requestFrame (onesSetting s) dest mmeSent.val ∈ c.sent (onesSetting s) fs argv := by
    unfold NvramCommand.sent
    rw [hparameters]
    show _ ∈ (transmission (onesSetting s) dest mmeSent).sent
    rw [transmission_sent_one dest mmeSent (show (0 : Int) ≠ -1 by decide) (show (0 : Int) ≠ -1 by decide)]
    exact List.mem_singleton_self _
  obtain ⟨dest', r, hdest, hwrites, hframe⟩ := hsends _ _ hsent
  obtain rfl : dest = dest' := Except.ok.inj (hprepared.station.symm.trans hdest)
  have hblock : (fileBlock content r.blockIndex.toNat).length ≤ mtkNvramBlockSize :=
    List.length_take_le _ _
  rw [hval] at hframe
  have hr : c.requestIn (onesSetting s) argv content data = r := by
    refine SetNvramReq.wire_injective (requestFrame_injective ?_ hframe)
    rw [SetNvramReq.length_wire, SetNvramReq.length_wire, length_requestIn hle, hwrites.data,
      length_zeroFilled hblock]
  obtain ⟨i, hi⟩ : ∃ i, r.blockIndex.toNat = i := ⟨_, rfl⟩
  have hbyte : i < 256 := hi ▸ r.blockIndex.toNat_lt
  have hindex : (i : Int) = c.requestedIndex argv := hi ▸ hwrites.blockIndex
  have hfits : content.length ≤ 65535 := by
    rw [← hwrites.nvramSize]
    exact Nat.le_of_lt_succ r.nvramSize.toNat_lt
  have hdata : data = fileBlock content i :=
    hprepared.data_eq hfits ((blockIndex_eq (by omega) (by omega)).trans hindex.symm) hbyte
  have htail : (List.range (mtkNvramBlockSize - data.length)).map (fun _ => (1 : UInt8)) =
      List.replicate (mtkNvramBlockSize - data.length) 0 := by
    have hfilled : r.data = zeroFilled data := by rw [hwrites.data, hi, hdata]
    rw [← hr] at hfilled
    exact List.append_cancel_left hfilled
  have hfull : data.length = mtkNvramBlockSize := by
    -- the byte behind a shorter block would be both 1 and 0
    by_contra hshort
    obtain ⟨k, hk⟩ : ∃ k, mtkNvramBlockSize - data.length = k + 1 :=
      Nat.exists_eq_add_one.mpr (by omega)
    rw [hk, List.range_succ_eq_map, List.map_cons, List.replicate_succ] at htail
    injection htail with hbad _
    cases hbad
  rw [hdata, length_fileBlock] at hfull
  simp only [mtkNvramBlockSize] at hfull
  exact ⟨by omega, by simp only [mtkNvramBlockSize]; omega, hfits⟩

/-- Nothing but the file is in a full block. -/
theorem FullBlock.sendsBlock {c : NvramCommand} {fs : LocalFs} {argv : List CString} {content : List UInt8}
    (h : FullBlock (c.requestedIndex argv) content) (haccepts : c.Accepts fs argv content) :
    c.SendsBlock fs argv content := by
  obtain ⟨hlow, hfull, hfits⟩ := h
  obtain ⟨dest, data, hprepared, hwhole⟩ := haccepts.prepared
  intro s packet hpacket
  obtain ⟨i, hi⟩ : ∃ i : Nat, c.requestedIndex argv = i := ⟨_, (Int.toNat_of_nonneg hlow).symm⟩
  rw [hi] at hfull
  simp only [mtkNvramBlockSize] at hfull
  have hbyte : i < 256 := by omega
  have hindex : c.blockIndex argv = i := by
    rw [blockIndex_eq hlow (by omega), hi]
  have hdata : data = fileBlock content i := hprepared.data_eq hfits hindex hbyte
  have hlength : data.length = mtkNvramBlockSize := by
    rw [hdata, length_fileBlock]
    simp only [mtkNvramBlockSize]
    omega
  -- the index and the size fit their fields, so nothing is cut off
  have hfield : (UInt8.ofInt (c.blockIndex argv)).toNat = i := by
    rw [hindex]
    show (UInt8.ofNat ((i : Int) % 2 ^ 8).toNat).toNat = i
    rw [UInt8.toNat_ofNat']
    omega
  obtain ⟨mmeSent, hparameters, hval⟩ := hprepared.parameters hwhole s
  unfold NvramCommand.sent at hpacket
  rw [hparameters] at hpacket
  refine ⟨dest, c.requestIn s argv content data, hprepared.station, ?_, ?_⟩
  · constructor
    · rw [hi]
      exact congrArg Int.ofNat hfield
    · show (UInt16.ofNat content.length).toNat = content.length
      rw [UInt16.toNat_ofNat']
      omega
    · show data ++ (List.range (mtkNvramBlockSize - data.length)).map _ =
        zeroFilled (fileBlock content (UInt8.ofInt (c.blockIndex argv)).toNat)
      unfold zeroFilled
      rw [hfield, ← hdata, hlength, Nat.sub_self]
      rfl
    · show wordChecksum data = wordChecksum (fileBlock content (UInt8.ofInt (c.blockIndex argv)).toNat)
      rw [hfield, ← hdata]
  · rw [← hval]
    exact transmission_sent hpacket

/-- The request is determined by the file exactly if the block is full and neither the index
nor the size is too large for its field. -/
theorem sendsBlock_iff {c : NvramCommand} {fs : LocalFs} {argv : List CString} {content : List UInt8}
    (haccepts : c.Accepts fs argv content) :
    c.SendsBlock fs argv content ↔ FullBlock (c.requestedIndex argv) content := by
  constructor
  · intro h
    exact fullBlock_of_sendsBlock haccepts h
  · intro h
    exact h.sendsBlock haccepts

/-- What is prepared from whole words is accepted. -/
theorem Prepared.accepts {c : NvramCommand} {fs : LocalFs} {argv : List CString} {dest : Mac}
    {content data : List UInt8} (h : c.Prepared fs argv dest content data) (hwhole : data.length % 4 = 0)
    (s : Setting) : c.Accepts fs argv content := by
  obtain ⟨mmeSent, hparameters, -⟩ := h.parameters hwhole s
  exact ⟨h.file, s, dest, mmeSent, hparameters⟩

end NvramCommand

/-- A host whose only file is the one to be written. -/
def nvramFs (content : List UInt8) : LocalFs :=
  ⟨fun p => if p = text "nvram.bin" then some content else none, fun _ => true⟩

def nvramArguments : List CString :=
  [text "00:13:d7:00:00:02", text "nvram.bin"]

def nvramSetting : Setting :=
  ⟨firstStation, quietRun, fun _ => 0, fun _ => 0, [], setKeyLib, setKeyRand⟩

/-- A file of whole words that fits a block is accepted. -/
theorem nvramWrite_accepts {content : List UInt8} (hne : content.length ≠ 0) (hle : content.length ≤ mtkNvramBlockSize)
    (hwhole : content.length % 4 = 0) : NvramCommand.nvramWrite.Accepts (nvramFs content) nvramArguments content := by
  have hprepared : NvramCommand.nvramWrite.Prepared (nvramFs content) nvramArguments secondStation content content := by
    refine ⟨by decide, rfl, ⟨text "nvram.bin", rfl, rfl⟩, ?_⟩
    exact if_neg (by omega)
  exact hprepared.accepts hwhole nvramSetting

/-- A file of 1024 bytes is sent as it is. -/
theorem sendsBlock_fullFile : NvramCommand.nvramWrite.SendsBlock (nvramFs (List.replicate 1024 7)) nvramArguments
    (List.replicate 1024 7) := by
  have hlength : (List.replicate 1024 (7 : UInt8)).length = 1024 := List.length_replicate
  have haccepts := @nvramWrite_accepts (List.replicate 1024 7) (by omega) hlength.le (by omega)
  refine (NvramCommand.sendsBlock_iff haccepts).mpr ⟨le_rfl, ?_, by omega⟩
  rw [hlength]
  decide

/-- A file of four bytes is accepted, and 1020 bytes of the memory are sent with it. -/
theorem fourBytes_not_sendsBlock : ¬ ∀ (c : NvramCommand) (fs : LocalFs) (argv : List CString)
    (content : List UInt8), c.Accepts fs argv content → c.SendsBlock fs argv content := by
  intro h
  have haccepts := @nvramWrite_accepts [1, 2, 3, 4] (by decide) (by decide) (by decide)
  have hfull := NvramCommand.fullBlock_of_sendsBlock haccepts (h _ _ _ _ haccepts)
  exact absurd hfull.full (by decide)

end Hpav
