import Mathlib.Tactic.Common
import Hpav.NvramWrite
import Hpav.SetKeyExchange

/-!
# Reading the NVRAM into a file

`test_nvram_read` writes into its output file as many bytes of the first answer as the answer
says. The result of the answer is printed and not looked at, the decoder copies a whole
structure however short the packet is, and the size may be larger than the array.
-/

namespace Hpav

open CMem MemTrace

/-! ## What is received -/

/-- What stands behind the header of a vendor-specific MME. -/
def MmePacket.payload (packet : MmePacket) : List UInt8 :=
  packet.data.drop mtkMmeHeaderSize

/-- The request goes out, and these packets are reassembled of what is captured. -/
structure Receives (s : Setting) (dest : Mac) (packets : List MmePacket) : Prop where
  compile : s.pcap.compile ≠ -1
  setfilter : s.pcap.setfilter ≠ -1
  sendpacket : s.pcap.sendpacket 0 = 0
  reassembled : ∃ c, dispatchLoop (fun _ => false) s.pcap.dispatches (Capture.start s.macAddr dest 0xA109 0) =
    .ok (some c) ∧ defragFrames (receivedFrames c) = .ok packets

/-- The structure of an answer: the bytes of the packet, and those behind it in memory. -/
def storedCnf (behind : Nat → UInt8) (packet : MmePacket) : List UInt8 :=
  (copyFrom (fun i => packet.data.getD i (behind i)) mtkMmeHeaderSize 1028).val

/-- The block of an answer without failure: as many bytes as the answer says, all of which
were received. -/
structure CnfBlock (payload block : List UInt8) : Prop where
  received : 4 + block.length ≤ payload.length
  result : payload.getD 0 0 = 0
  size : block.length = (le16 (payload.getD 2 0) (payload.getD 3 0)).toNat
  bounded : block.length ≤ mtkNvramBlockSize
  data : block = (payload.drop 4).take block.length

/-- Written back, the file is sent with the same size and the same bytes. -/
def SentBack (fs : LocalFs) (file : CString) (block : List UInt8) : Prop :=
  ∀ s argv dest, argv[1]? = some file → address argv 0 = .ok dest → s.pcap.compile ≠ -1 → s.pcap.setfilter ≠ -1 →
    ∃ r : SetNvramReq, r.nvramSize.toNat = block.length ∧ r.data.take block.length = block ∧
      NvramCommand.nvramWrite.sent s fs argv = [NvramCommand.requestFrame s dest r.wire]

/-- The command leaves all files alone, or its output file holds the block of the answer; what
it has read can be written back. -/
def ReadsBlock (s : Setting) (argv : List CString) (file : CString) (payload : List UInt8) : Prop :=
  ∀ fs, ∃ v fs', testNvramRead s fs argv = .ok (v, fs') ∧
    (fs' = fs ∨ ∃ block, CnfBlock payload block ∧ fs' = fs.write file block ∧
      (block.length % 4 = 0 → SentBack fs' file block))

/-- The answer tells of no failure, its size is not 0 and not too large, and it has arrived. -/
structure GoodCnf (payload : List UInt8) : Prop where
  result : payload.getD 0 0 = 0
  nonempty : 0 < (le16 (payload.getD 2 0) (payload.getD 3 0)).toNat
  bounded : (le16 (payload.getD 2 0) (payload.getD 3 0)).toNat ≤ mtkNvramBlockSize
  received : 4 + (le16 (payload.getD 2 0) (payload.getD 3 0)).toNat ≤ payload.length

/-! ## The exchange -/

theorem outcome_of_receives {s : Setting} {dest : Mac} {packets : List MmePacket} (h : Receives s dest packets)
    (mmeSent : RequestOf 1) :
    (mtkVsGetNvramSndrcv ⟨s.macAddr, dest, 1000, 0⟩ mmeSent s.behind s.pcap).outcome =
      .ok (hpavOk, packets.map fun packet => (storedCnf s.behind packet, packet.srcMacAddr)) := by
  obtain ⟨hcompile, hsetfilter, hsend, c, hloop, hdefrag⟩ := h
  have hencodes := encodes_mtkMme ⟨s.macAddr, dest, 1000, 0⟩ 0xA108 mmeSent
  have hfits : mtkMmeHeaderSize + 1 ≤ ethFrameMaxPayload := by decide
  have hwaits : (1000 : UInt32) > 0 := by decide
  have hreceived : (mtkVsGetNvramSndrcv ⟨s.macAddr, dest, 1000, 0⟩ mmeSent s.behind s.pcap).outcome = _ :=
    exchange_received s.behind hencodes hfits hcompile hsetfilter hsend
  rw [hreceived]
  show (if (1000 : UInt32) > 0 then _ else _) = _
  rw [if_pos hwaits]
  unfold receiveMmes
  rw [hloop, bind_ok]
  simp only [hdefrag]
  rfl

/-- What the command does with the first answer. -/
theorem testNvramRead_received {s : Setting} {argv : List CString} {file : CString} {dest : Mac}
    {packet : MmePacket} {rest : List MmePacket} (hfile : argv[1]? = some file) (hdest : address argv 0 = .ok dest)
    (h : Receives s dest (packet :: rest)) : ∃ v v', ∀ fs, testNvramRead s fs argv =
      if fs.writable file then do
        let data ← nvramData (storedCnf s.behind packet)
        .ok (v, fs.write file data)
      else .ok (v', fs) := by
  obtain ⟨hlong, -⟩ := List.getElem?_eq_some_iff.mp hfile
  have hleast : atLeast argv 2 = .ok () := atLeast_ok.mpr hlong
  have houtcome := outcome_of_receives h (requestOf 1 s.uninit [0])
  generalize hattempt : mtkVsGetNvramSndrcv ⟨s.macAddr, dest, 1000, 0⟩ (requestOf 1 s.uninit [0]) s.behind s.pcap =
    attempt at houtcome
  refine ⟨answered hpavOk attempt.sent (packet :: rest).length,
    ⟨-1, (answered hpavOk attempt.sent (packet :: rest).length).log ++ [.localError]⟩, ?_⟩
  intro fs
  have hparameters : (do
      atLeast argv 2
      let dest ← address argv 0
      .ok (dest, requestOf 1 s.uninit [0]) : Except Leave (Mac × RequestOf 1)) =
        .ok (dest, requestOf 1 s.uninit [0]) := by
    rw [hleast, hdest]
    rfl
  unfold testNvramRead
  simp only [hparameters, hattempt, houtcome, bind_ok, List.map_cons, List.head?_cons, hfile, List.length_cons,
    List.length_map, ne_eq, not_true_eq_false, if_false]

/-! ## The stored answer -/

section Stored

variable {behind : Nat → UInt8} {packet : MmePacket}

theorem length_storedCnf : (storedCnf behind packet).length = 1028 := by
  unfold storedCnf copyFrom
  simp only [List.length_map, List.length_range]

/-- As far as the payload goes it is what is stored. -/
theorem take_storedCnf {n : Nat} (hn : n ≤ packet.payload.length) (hstored : n ≤ 1028) :
    (storedCnf behind packet).take n = packet.payload.take n := by
  rcases Nat.eq_zero_or_pos n with rfl | hpos
  · rw [List.take_zero, List.take_zero]
  · have hlength : packet.payload.length = packet.data.length - mtkMmeHeaderSize := List.length_drop
    have hcopy := @val_copyFrom_getD packet.data behind mtkMmeHeaderSize n (by omega)
    unfold copyFrom at hcopy
    unfold storedCnf copyFrom
    simp only at hcopy ⊢
    rw [← List.map_take, List.take_range, min_eq_left hstored]
    exact hcopy

theorem getD_storedCnf {k : Nat} (hk : k < 4) (h : 4 ≤ packet.payload.length) :
    (storedCnf behind packet).getD k 0 = packet.payload.getD k 0 := by
  have htake := congrArg (fun xs : List UInt8 => xs[k]?) (@take_storedCnf behind packet 4 h (by decide))
  simp only [List.getElem?_take_of_lt hk] at htake
  rw [List.getD_eq_getElem?_getD, List.getD_eq_getElem?_getD, htake]

/-- Of an answer that has arrived its own block is taken. -/
theorem nvramData_storedCnf (h : GoodCnf packet.payload) :
    ∃ block, nvramData (storedCnf behind packet) = .ok block ∧ CnfBlock packet.payload block ∧ 0 < block.length := by
  obtain ⟨hresult, hsome, hbounded, hreceived⟩ := h
  generalize hsize : (le16 (packet.payload.getD 2 0) (packet.payload.getD 3 0)).toNat = size at *
  have hblock : ((storedCnf behind packet).drop 4).take size = (packet.payload.drop 4).take size := by
    have htake := @take_storedCnf behind packet (4 + size) hreceived (by simp only [mtkNvramBlockSize] at hbounded; omega)
    have hdrop := congrArg (List.drop 4) htake
    rw [List.drop_take, List.drop_take, Nat.add_sub_cancel_left] at hdrop
    exact hdrop
  have hlength : ((packet.payload.drop 4).take size).length = size := by
    rw [List.length_take, List.length_drop]
    omega
  refine ⟨(packet.payload.drop 4).take size, ?_, ?_, by omega⟩
  · unfold nvramData
    rw [getD_storedCnf (by decide) (by omega), getD_storedCnf (by decide) (by omega)]
    simp only [hsize]
    rw [load_ok, List.drop_zero, hblock]
    rw [List.length_drop, length_storedCnf]
    simp only [mtkNvramBlockSize] at hbounded
    omega
  · constructor
    · rw [hlength]
      exact hreceived
    · exact hresult
    · rw [hlength, hsize]
    · rw [hlength]
      exact hbounded
    · rw [hlength]

end Stored

/-! ## Reading and writing back -/

theorem sentBack_write {file : CString} {block : List UInt8} (hsome : 0 < block.length)
    (hbounded : block.length ≤ mtkNvramBlockSize) (hwhole : block.length % 4 = 0) (fs : LocalFs) :
    SentBack (fs.write file block) file block := by
  intro s argv dest hfile hdest hcompile hsetfilter
  obtain ⟨hlong, -⟩ := List.getElem?_eq_some_iff.mp hfile
  have hprepared : NvramCommand.nvramWrite.Prepared (fs.write file block) argv dest block block := by
    refine ⟨hlong, hdest, ⟨file, hfile, ?_⟩, if_neg (by omega)⟩
    rw [LocalFs.content_write, if_pos rfl]
  obtain ⟨mmeSent, hparameters, hval⟩ := hprepared.parameters hwhole s
  refine ⟨NvramCommand.nvramWrite.requestIn s argv block block, ?_, List.take_left, ?_⟩
  · show (UInt16.ofNat block.length).toNat = block.length
    rw [UInt16.toNat_ofNat']
    simp only [mtkNvramBlockSize] at hbounded
    omega
  · unfold NvramCommand.sent
    rw [hparameters]
    show (NvramCommand.transmission s dest mmeSent).sent = _
    rw [NvramCommand.transmission_sent_one dest mmeSent hcompile hsetfilter, hval]

/-- An empty file is not sent. -/
theorem not_sentBack_empty {fs : LocalFs} {file : CString} {s : Setting} {argv : List CString} {dest : Mac}
    (hfile : argv[1]? = some file) (hdest : address argv 0 = .ok dest) (hcompile : s.pcap.compile ≠ -1)
    (hsetfilter : s.pcap.setfilter ≠ -1) : ¬ SentBack (fs.write file []) file [] := by
  intro h
  obtain ⟨r, -, -, hsent⟩ := h s argv dest hfile hdest hcompile hsetfilter
  unfold NvramCommand.sent at hsent
  rcases hparameters : NvramCommand.nvramWrite.parameters s (fs.write file []) argv with leave | ⟨dest', mmeSent⟩
  · rw [hparameters] at hsent
    cases hsent
  · obtain ⟨content, data, hprepared, -⟩ := NvramCommand.parameters_ok.mp hparameters
    obtain ⟨file', hfile', hcontent⟩ := hprepared.file
    obtain rfl : file = file' := Option.some.inj (hfile.symm.trans hfile')
    rw [LocalFs.content_write, if_pos rfl] at hcontent
    obtain rfl : [] = content := Option.some.inj hcontent
    cases hprepared.read

section Reads

variable {s : Setting} {argv : List CString} {file : CString} {dest : Mac} {packet : MmePacket}
  {rest : List MmePacket}

theorem GoodCnf.readsBlock (h : GoodCnf packet.payload) (hfile : argv[1]? = some file)
    (hdest : address argv 0 = .ok dest) (hreceives : Receives s dest (packet :: rest)) :
    ReadsBlock s argv file packet.payload := by
  obtain ⟨v, v', hrun⟩ := testNvramRead_received hfile hdest hreceives
  obtain ⟨block, hdata, hblock, hsome⟩ := @nvramData_storedCnf s.behind packet h
  intro fs
  by_cases hwritable : fs.writable file = true
  · refine ⟨v, fs.write file block, ?_, Or.inr ⟨block, hblock, rfl, ?_⟩⟩
    · rw [hrun fs, if_pos hwritable, hdata]
      rfl
    · intro hwhole
      exact sentBack_write hsome hblock.bounded hwhole fs
  · refine ⟨v', fs, ?_, Or.inl rfl⟩
    rw [hrun fs, if_neg hwritable]

/-- On a host without files it is seen that the file is written whatever the answer is. -/
theorem goodCnf_of_readsBlock (hfile : argv[1]? = some file) (hdest : address argv 0 = .ok dest)
    (hreceives : Receives s dest (packet :: rest)) (h : ReadsBlock s argv file packet.payload) :
    GoodCnf packet.payload := by
  obtain ⟨v, v', hrun⟩ := testNvramRead_received hfile hdest hreceives
  obtain ⟨v'', fs', hread, hcases⟩ := h noFiles
  rw [hrun noFiles, if_pos (show noFiles.writable file = true from rfl)] at hread
  obtain ⟨data, -, hread⟩ := bind_eq_ok.mp hread
  injection hread with hread
  obtain ⟨-, hfs⟩ := Prod.mk.inj hread
  rcases hcases with hnone | ⟨block, hblock, hwritten, hback⟩
  · have hcontent := congrArg (fun fs : LocalFs => fs.content file) (hfs.trans hnone)
    simp only [LocalFs.content_write, if_true] at hcontent
    cases hcontent
  · refine ⟨hblock.result, ?_, hblock.size ▸ hblock.bounded, hblock.size ▸ hblock.received⟩
    rw [← hblock.size]
    by_contra hzero
    obtain rfl : block = [] := List.length_eq_zero_iff.mp (by omega)
    have hback := hback rfl
    rw [hwritten] at hback
    exact not_sentBack_empty hfile hdest hreceives.compile hreceives.setfilter hback

/-- The command reads the block of the answer, and nothing else, exactly if the answer tells of
no failure and holds the bytes it announces. -/
theorem readsBlock_iff (hfile : argv[1]? = some file) (hdest : address argv 0 = .ok dest)
    (hreceives : Receives s dest (packet :: rest)) :
    ReadsBlock s argv file packet.payload ↔ GoodCnf packet.payload := by
  constructor
  · intro h
    exact goodCnf_of_readsBlock hfile hdest hreceives h
  · intro h
    exact h.readsBlock hfile hdest hreceives

end Reads

/-! ## An answer in one frame -/

/-- The frame of an answer. -/
def cnfFrame (host station : Mac) (payload : List UInt8) : List UInt8 :=
  frameBytes host station (mtkMmeHeader 0xA109 ++ payload) ethFrameMinSize

/-- Whatever a station puts into one frame is received. -/
theorem receives_cnfFrame {s : Setting} {dest station : Mac} {payload : List UInt8}
    (hdelivers : Delivers s.pcap [cnfFrame s.macAddr station payload]) (hlong : 38 ≤ payload.length)
    (hfits : mtkMmeHeaderSize + payload.length ≤ ethFrameMaxPayload) :
    ∃ packet, packet.payload = payload ∧ Receives s dest [packet] := by
  have hlength : (mtkMmeHeader 0xA109 ++ payload).length = mtkMmeHeaderSize + payload.length := List.length_append
  have harea := length_frameBytes_le s.macAddr station ethFrameMinSize (hlength.trans_le hfits)
  have hsize : (cnfFrame s.macAddr station payload).length = ethHeaderSize + (mtkMmeHeaderSize + payload.length) := by
    unfold cnfFrame
    rw [length_frameBytes, hlength]
    show max _ 60 = _
    exact max_eq_left (by simp only [ethHeaderSize, mtkMmeHeaderSize]; omega)
  have hmin : 18 ≤ (cnfFrame s.macAddr station payload).length := by
    rw [hsize]
    simp only [ethHeaderSize, mtkMmeHeaderSize]
    omega
  -- the frame passes the filter and has room in the area it is copied to
  have hlegal : Legal s.macAddr 0xA109 (cnfFrame s.macAddr station payload) :=
    ⟨by omega, fun _ => by omega, fun _ => hmin, fun _ => harea⟩
  have hwanted : Wanted s.macAddr 0xA109 (cnfFrame s.macAddr station payload) := by
    unfold cnfFrame mtkMmeHeader
    rw [List.append_assoc]
    exact wanted_frameBytes s.macAddr station 0xA109 _ _
  obtain ⟨c, hloop, hkept⟩ := @dispatchLoop_captures s.macAddr dest 0xA109 0 (fun _ => false) _ _
    (by decide) hdelivers hlegal
  have hdefrag := @defragFrames_frameBytes s.macAddr station (mtkMmeHeader 0xA109 ++ payload) ethFrameMinSize harea
    (by rw [hlength]; simp only [mtkMmeHeaderSize]; omega) rfl
  -- it is long enough to be sent without padding
  have hpad : paddedMme (mtkMmeHeader 0xA109 ++ payload) ethFrameMinSize = mtkMmeHeader 0xA109 ++ payload := by
    unfold paddedMme
    rw [hlength]
    show _ ++ List.replicate (60 - (ethHeaderSize + _)) 0 = _
    rw [Nat.sub_eq_zero_of_le (by simp only [ethHeaderSize, mtkMmeHeaderSize]; omega)]
    exact List.append_nil _
  rw [hpad] at hdefrag
  refine ⟨⟨(mtkMmeHeader 0xA109 ++ payload).length, mtkMmeHeader 0xA109 ++ payload, s.macAddr, station⟩, ?_, ?_⟩
  · exact List.drop_left' rfl
  · refine ⟨hdelivers.compile, hdelivers.setfilter, hdelivers.sendpacket 0, c, hloop, ?_⟩
    rw [hkept, ← hdefrag]
    exact congrArg defragFrames (wantedFrames_cons_of_wanted hwanted harea)

/-- A host that one answer of the second station reaches. -/
def answeringSetting (payload : List UInt8) : Setting :=
  { nvramSetting with
    pcap := ⟨0, 0, fun _ => 0, [.packets [cnfFrame firstStation secondStation payload]]⟩ }

theorem delivers_one (packetData : List UInt8) : Delivers ⟨0, 0, fun _ => 0, [.packets [packetData]]⟩ [packetData] := by
  constructor
  · exact (by decide : (0 : Int) ≠ -1)
  · exact (by decide : (0 : Int) ≠ -1)
  · intro i
    rfl
  · intro h
    cases List.mem_singleton.mp h
  · rfl

/-- An answer with `nvram_size` 4. -/
def fourByteCnf (result : UInt8) : List UInt8 :=
  [result, 0, 4, 0, 1, 2, 3, 4] ++ List.replicate 30 0

theorem fourByteCnf_received (result : UInt8) : ∃ packet, packet.payload = fourByteCnf result ∧
    Receives (answeringSetting (fourByteCnf result)) secondStation [packet] := by
  have hlength : (fourByteCnf result).length = 38 := rfl
  have hdelivers : Delivers (answeringSetting (fourByteCnf result)).pcap
      [cnfFrame (answeringSetting (fourByteCnf result)).macAddr secondStation (fourByteCnf result)] := delivers_one _
  have hfits : mtkMmeHeaderSize + (fourByteCnf result).length ≤ ethFrameMaxPayload := by
    rw [hlength]
    decide
  exact @receives_cnfFrame (answeringSetting (fourByteCnf result)) secondStation secondStation _ hdelivers
    hlength.ge hfits

/-- Four bytes are read into the file. -/
theorem readsBlock_iff_fourBytes :
    ReadsBlock (answeringSetting (fourByteCnf 0)) nvramArguments (text "nvram.bin") (fourByteCnf 0) := by
  obtain ⟨packet, hpayload, hreceives⟩ := fourByteCnf_received 0
  have hgood : GoodCnf packet.payload := by
    rw [hpayload]
    exact ⟨by decide, by decide, by decide, by decide⟩
  have hreads := (@readsBlock_iff _ nvramArguments (text "nvram.bin") _ _ _ rfl rfl hreceives).mpr hgood
  rw [hpayload] at hreads
  exact hreads

/-- An answer that tells of a failure is written into the file as well. -/
theorem failure_not_readsBlock : ¬ ∀ (s : Setting) (argv : List CString) (file : CString) (dest : Mac)
    (packet : MmePacket) (rest : List MmePacket), argv[1]? = some file → address argv 0 = .ok dest →
    Receives s dest (packet :: rest) → ReadsBlock s argv file packet.payload := by
  intro h
  obtain ⟨packet, hpayload, hreceives⟩ := fourByteCnf_received 1
  have hreads := h _ nvramArguments (text "nvram.bin") _ _ _ rfl rfl hreceives
  have hresult := (goodCnf_of_readsBlock rfl rfl hreceives hreads).result
  rw [hpayload] at hresult
  exact absurd hresult (by decide)

end Hpav
