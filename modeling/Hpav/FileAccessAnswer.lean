import Mathlib.Tactic.Common
import Hpav.Fragmentation
import Hpav.FileAccessSystem

/-!
# Answers as frames

The frame a station sends for a confirmation, and that the receive path of the tool reads
the confirmation back out of it (`answerFrame_answers`); an exchange in which one such frame
is captured returns that confirmation (`fileAccessSndrcv_single`).
-/

namespace Hpav

open CMem Grouping MemTrace Transition

/-- A confirmation that fills its structure: the parameter and the data have their full
size, and the data is cleared behind its length. -/
structure FileAccessCnf.WellFormed (c : FileAccessCnf) : Prop where
  parameter : c.parameter.length = 32
  data : c.data.length = dataMaxLen
  cleared : c.length.toNat < dataMaxLen →
    c.data.drop c.length.toNat = List.replicate (dataMaxLen - c.length.toNat) 0

/-- The bytes of the packed structure. -/
def FileAccessCnf.wire (c : FileAccessCnf) : List UInt8 :=
  [c.mstatus, c.op, c.fileType] ++ c.parameter ++ bytes16 c.totalFragments ++
    bytes16 c.fragmentNumber ++ bytes32 c.offset ++ bytes16 c.length ++ c.data

theorem FileAccessCnf.WellFormed.length_wire {c : FileAccessCnf} (hc : c.WellFormed) :
    c.wire.length = fileAccessCnfSize := by
  simp only [FileAccessCnf.wire, List.length_append, List.length_cons, List.length_nil,
    length_bytes16, length_bytes32, hc.parameter, hc.data, dataMaxLen, fileAccessCnfSize]

/-! ## Reading a layout back -/

/-- Whatever was in the memory, the copied structure is the confirmation. -/
theorem FileAccessCnf.ofMemory_wire {c : FileAccessCnf} (hc : c.WellFormed) (uninit : Nat → UInt8) :
    FileAccessCnf.ofMemory (fun i => c.wire.getD i (uninit i)) c.staMacAddr = c := by
  have hp := hc.parameter
  have hd := hc.data
  have hrest : c.wire.drop 3 = c.parameter ++ (bytes16 c.totalFragments ++ (bytes16 c.fragmentNumber ++
      (bytes32 c.offset ++ (bytes16 c.length ++ c.data)))) := by
    simp only [FileAccessCnf.wire, List.append_assoc]
    rfl
  -- the numbers behind the parameter
  have htail : c.wire.drop 35 = bytes16 c.totalFragments ++ (bytes16 c.fragmentNumber ++
      (bytes32 c.offset ++ (bytes16 c.length ++ c.data))) := by
    rw [show 35 = 3 + 32 from rfl, ← List.drop_drop, hrest]
    exact List.drop_left' hp
  have hbyte : ∀ j, c.wire.getD (35 + j) (uninit (35 + j)) =
      (bytes16 c.totalFragments ++ (bytes16 c.fragmentNumber ++ (bytes32 c.offset ++
        (bytes16 c.length ++ c.data)))).getD j (uninit (35 + j)) := by
    intro j
    rw [getD_drop, htail]
  have hparameter : (List.range 32).map (fun i => c.wire.getD (3 + i) (uninit (3 + i))) =
      c.parameter := by
    refine map_getD_eq c.wire c.parameter ?_ hp (fun i => uninit (3 + i))
    rw [hrest]
    exact List.take_left' hp
  have hdata : (List.range dataMaxLen).map (fun i => c.wire.getD (45 + i) (uninit (45 + i))) =
      c.data := by
    refine map_getD_eq c.wire c.data ?_ hd (fun i => uninit (45 + i))
    rw [show 45 = 35 + 10 from rfl, ← List.drop_drop, htail]
    exact List.take_of_length_le (le_of_eq hd)
  have hlength : le16 (c.wire.getD 43 (uninit 43)) (c.wire.getD 44 (uninit 44)) = c.length := by
    rw [hbyte 8, hbyte 9]
    exact le16_bytes16 c.length
  have htotal : le16 (c.wire.getD 35 (uninit 35)) (c.wire.getD 36 (uninit 36)) = c.totalFragments := by
    rw [hbyte 0, hbyte 1]
    exact le16_bytes16 c.totalFragments
  have hnumber : le16 (c.wire.getD 37 (uninit 37)) (c.wire.getD 38 (uninit 38)) = c.fragmentNumber := by
    rw [hbyte 2, hbyte 3]
    exact le16_bytes16 c.fragmentNumber
  have hoffset : UInt32.ofNat ((c.wire.getD 39 (uninit 39)).toNat +
      256 * (c.wire.getD 40 (uninit 40)).toNat + 65536 * (c.wire.getD 41 (uninit 41)).toNat +
      16777216 * (c.wire.getD 42 (uninit 42)).toNat) = c.offset := by
    rw [hbyte 4, hbyte 5, hbyte 6, hbyte 7]
    exact le32_bytes32 c.offset
  unfold FileAccessCnf.ofMemory
  simp only [hparameter, hdata, hlength, htotal, hnumber, hoffset]
  have hcleared : (if c.length.toNat < dataMaxLen then
      c.data.take c.length.toNat ++ List.replicate (dataMaxLen - c.length.toNat) 0 else c.data) = c.data := by
    split
    · rename_i hlt
      rw [← hc.cleared hlt, List.take_append_drop]
    · rfl
  rw [hcleared]
  rfl

/-! ## The frame of a confirmation -/

theorem length_oui :
    mmeHeaderSize + ([0x00, 0x13, 0xD7] : List UInt8).length = sizeOfMmeHeader mmtypeMtkVsFileAccessCnf := rfl

/-- The confirmation as a message to the host: one piece, vendor-specific. -/
def answerMessage (host : Mac) (c : FileAccessCnf) (hc : c.WellFormed) : Message where
  dst := host
  src := c.staMacAddr
  mmv := 0x01
  mmtype := mmtypeMtkVsFileAccessCnf
  fmsn := 0
  oui := [0x00, 0x13, 0xD7]
  pieces := [c.wire]
  oui_length := length_oui
  pieces_pos := by simp
  pieces_le := by simp
  piece_fits := by
    intro p hp
    rw [List.mem_singleton.mp hp, hc.length_wire]
    decide

/-- The frame of a confirmation. -/
def answerFrame (host : Mac) (c : FileAccessCnf) (hc : c.WellFormed) : EthFrame :=
  (answerMessage host c hc).frame 0 c.wire
    ((answerMessage host c hc).piece_fits c.wire List.mem_cons_self)

theorem sizeOfMmeHeader_answer : sizeOfMmeHeader mmtypeMtkVsFileAccessCnf = mtkMmeHeaderSize := by
  decide

theorem answerFrame_answers (host : Mac) (c : FileAccessCnf) (hc : c.WellFormed) :
    AnswerFrame host (answerFrame host c hc) c := by
  have hfrag : IsFragment (answerMessage host c hc) 0 c.wire (answerFrame host c hc) :=
    (answerMessage host c hc).frame_isFragment 0 c.wire _
  have hsize : (answerFrame host c hc).frameSize = ethHeaderSize + (mtkMmeHeaderSize + fileAccessCnfSize) := by
    rw [hfrag.frameSize, hc.length_wire, ← sizeOfMmeHeader_answer, Nat.add_assoc]
    rfl
  have hdataSize : (framePacket (answerFrame host c hc)).dataSize = mtkMmeHeaderSize + fileAccessCnfSize := by
    show (answerFrame host c hc).frameSize - ethHeaderSize = _
    rw [hsize, Nat.add_sub_cancel_left]
  have hdata : (framePacket (answerFrame host c hc)).data = (answerMessage host c hc).header 0 ++ c.wire :=
    hfrag.mme
  refine ⟨?_, ?_⟩
  · unfold rxAccepted
    rw [hfrag.dst, hfrag.mmtype]
    simp [answerMessage]
  · intro uninit
    refine ⟨hfrag.fmiNfFn, ?_, ?_⟩
    · rw [hsize]
      omega
    · -- the decoder copies the structure from behind the header
      have hcopy : (List.range fileAccessCnfSize).map
          (fun i => (framePacket (answerFrame host c hc)).data.getD (mtkMmeHeaderSize + i) 0) = c.wire := by
        refine map_getD_eq _ c.wire ?_ hc.length_wire (fun _ => 0)
        have hheader : ((answerMessage host c hc).header 0).length = mtkMmeHeaderSize :=
          ((answerMessage host c hc).length_header 0).trans sizeOfMmeHeader_answer
        rw [hdata, List.drop_left' hheader]
        exact List.take_of_length_le (le_of_eq hc.length_wire)
      unfold decodeFileAccess
      rw [hdataSize, if_neg (by decide)]
      have hval : (decodeMtkVsFileAccessCnf ⟨UInt32.ofNat (mtkMmeHeaderSize + fileAccessCnfSize),
          fun i => (framePacket (answerFrame host c hc)).data.getD i 0,
          (framePacket (answerFrame host c hc)).srcMacAddr⟩).val = (c.wire, c.staMacAddr) := by
        have hsrc : (framePacket (answerFrame host c hc)).srcMacAddr = c.staMacAddr := hfrag.src
        have hleft : (UInt32.ofNat (mtkMmeHeaderSize + fileAccessCnfSize) - 5 - 3).toNat =
            fileAccessCnfSize := by
          decide
        simp only [decodeMtkVsFileAccessCnf, decodeMtkMme, smartCopyMtkVsFileAccessCnf, val_bind,
          val_pure, uSub, copyFrom, hleft, hcopy, hsrc]
      simp only [hval, hc.length_wire]
      rw [if_pos (by decide), FileAccessCnf.ofMemory_wire hc]

/-! ## An exchange with one answer -/

theorem fileAccessSndrcv_single {host : Mac} {f : EthFrame} {c : FileAccessCnf}
    (h : AnswerFrame host f c) (uninit : Nat → UInt8) :
    fileAccessSndrcv uninit host false ⟨true, [.packets [f]]⟩ = .ok (.received [c]) := by
  rcases h.2 uninit with ⟨hnfFn, hsize, hdecode⟩
  have hloop : receiveLoop host false [.packets [f]] [] = some [f] := by
    simp [receiveLoop, h.1]
  have hdefrag : defragFrames [f] = .ok [framePacket f] := by
    rw [defragFrames_single hsize, if_pos hnfFn]
  unfold fileAccessSndrcv
  rw [if_neg (by simp)]
  simp only [hloop, hdefrag, bind_ok, List.mapM_cons, hdecode, List.mapM_nil]
  rfl

section System

variable {β : Type} {host mac : Mac} {cmd : FileAccessCommand} {sta : Station β} {fs : LocalFs} {b : β}

/-- A turn of the program in which the frame `f` of an earlier answer is captured. -/
theorem Transfer.reachable_captured {t : Transfer β} {s s' : Sender} {f : EthFrame}
    {c : FileAccessCnf} {fs' : LocalFs} {turn : Turn}
    (h : (transferMachine host mac cmd sta fs b).Reachable t) (hscan : cmd.op ≠ opScanSta)
    (hcontrol : t.control = .sending s) (hprep : prepareRequest cmd s = .ok s')
    (hf : f ∈ t.answers) (hframe : AnswerFrame host f c)
    (hrecv : receiveResponse [] cmd t.fs s' (.received [c]) = .ok (fs', turn)) :
    (transferMachine host mac cmd sta fs b).Reachable
      { t with fs := fs', control := turn.control, requests := s'.mmeSent :: t.requests } := by
  have hsent := h.step (Transfer.Step.send hcontrol hprep)
  refine hsent.step (Transfer.Step.receive ⟨true, [.packets [f]]⟩ (fun _ => 0) rfl ?_ ?_ hrecv)
  · intro g hg _
    have heq : g = f := by simpa [ChannelRun.captured] using hg
    exact heq ▸ hf
  · rw [decide_eq_false hscan]
    exact fileAccessSndrcv_single hframe _

/-- A turn in which nothing is lost: the request is served and its answer captured. -/
theorem Transfer.steps_exchanged {t : Transfer β} {s s' : Sender} {c : FileAccessCnf}
    {fs' : LocalFs} {turn : Turn} (host : Mac) (sta : Station β) (hscan : cmd.op ≠ opScanSta)
    (hcontrol : t.control = .sending s) (hprep : prepareRequest cmd s = .ok s')
    (hc : c.WellFormed) (hanswers : sta.Answers t.station s'.mmeSent c)
    (hrecv : receiveResponse [] cmd t.fs s' (.received [c]) = .ok (fs', turn)) :
    ∃ t₁ t₂, Transfer.Step host cmd sta t .send t₁ ∧
      Transfer.Step host cmd sta t₁ (.deliver s'.mmeSent) t₂ ∧ t₂.control = .waiting s' ∧
      Transfer.Step host cmd sta t₂ (.receive (.received [c]))
        { fs := fs'
          control := turn.control
          requests := s'.mmeSent :: t.requests
          delivered := s'.mmeSent :: t.delivered
          answers := answerFrame host c hc :: t.answers
          station := sta.serve t.station s'.mmeSent } := by
  have hframe := answerFrame_answers host c hc
  refine ⟨_, _, .send hcontrol hprep, .deliver List.mem_cons_self hanswers hframe, rfl, ?_⟩
  refine Transfer.Step.receive ⟨true, [.packets [answerFrame host c hc]]⟩ (fun _ => 0) rfl ?_ ?_
    hrecv
  · intro g hg _
    have heq : g = answerFrame host c hc := by simpa [ChannelRun.captured] using hg
    exact heq ▸ List.mem_cons_self
  · rw [decide_eq_false hscan]
    exact fileAccessSndrcv_single hframe _

theorem Transfer.reachable_exchanged {t : Transfer β} {s s' : Sender} {c : FileAccessCnf}
    {fs' : LocalFs} {turn : Turn}
    (h : (transferMachine host mac cmd sta fs b).Reachable t) (hscan : cmd.op ≠ opScanSta)
    (hcontrol : t.control = .sending s) (hprep : prepareRequest cmd s = .ok s')
    (hc : c.WellFormed) (hanswers : sta.Answers t.station s'.mmeSent c)
    (hrecv : receiveResponse [] cmd t.fs s' (.received [c]) = .ok (fs', turn)) :
    (transferMachine host mac cmd sta fs b).Reachable
      { fs := fs'
        control := turn.control
        requests := s'.mmeSent :: t.requests
        delivered := s'.mmeSent :: t.delivered
        answers := answerFrame host c hc :: t.answers
        station := sta.serve t.station s'.mmeSent } := by
  rcases Transfer.steps_exchanged host sta hscan hcontrol hprep hc hanswers hrecv with
    ⟨_, _, hsend, hdeliver, _, hreceive⟩
  exact ((h.step hsend).step hdeliver).step hreceive

/-- A turn in which the request is served, and nothing is captured: the answer is lost. -/
theorem Transfer.reachable_unanswered {t : Transfer β} {s s' : Sender} {c : FileAccessCnf}
    {fs' : LocalFs} {turn : Turn}
    (h : (transferMachine host mac cmd sta fs b).Reachable t)
    (hcontrol : t.control = .sending s) (hprep : prepareRequest cmd s = .ok s')
    (hc : c.WellFormed) (hanswers : sta.Answers t.station s'.mmeSent c)
    (hrecv : receiveResponse [] cmd t.fs s' (.received []) = .ok (fs', turn)) :
    (transferMachine host mac cmd sta fs b).Reachable
      { fs := fs'
        control := turn.control
        requests := s'.mmeSent :: t.requests
        delivered := s'.mmeSent :: t.delivered
        answers := answerFrame host c hc :: t.answers
        station := sta.serve t.station s'.mmeSent } := by
  have hsent := h.step (Transfer.Step.send hcontrol hprep)
  have hserved := hsent.step (.deliver List.mem_cons_self hanswers (answerFrame_answers host c hc))
  refine hserved.step (Transfer.Step.receive ⟨true, []⟩ (fun _ => 0) rfl ?_ rfl hrecv)
  intro f hf
  cases hf

end System

end Hpav
