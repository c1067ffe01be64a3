import Mathlib.Tactic.Common
import Hpav.CaptureBounds
import Hpav.SendReport

/-!
# CM_SET_KEY in the clear and encrypted

One answer of a station, once captured as it is by `hpav_cm_set_key_sndrcv`, and once taken
out of a CM_ENCRYPTED_PAYLOAD.IND by `hpav_cm_set_key_encrypted_sndrcv`. The callback looks at
destination and type of what is captured; nobody looks at those of what was encrypted.
-/

namespace Hpav

open CMem MemTrace

/-! ## An exchange that one packet reaches -/

/-- A run of pcap without an error, in which the given packets are captured. -/
structure Delivers (pcap : PcapRun) (packets : List (List UInt8)) : Prop where
  compile : pcap.compile ≠ -1
  setfilter : pcap.setfilter ≠ -1
  sendpacket : ∀ i, pcap.sendpacket i = 0
  noError : .error ∉ pcap.dispatches
  packets : (batches pcap.dispatches).flatten = packets

/-- Dispatches without a packet change nothing. -/
theorem dispatchLoop_quiet (enough : CallbackData → Bool) {events : List PcapEvent} (c : Capture)
    (herror : .error ∉ events) (h : (batches events).flatten = []) : dispatchLoop enough events c = .ok (some c) := by
  induction events with
  | nil => rfl
  | cons event rest ih =>
    have hrest : .error ∉ rest := fun hmem => herror (List.mem_cons_of_mem _ hmem)
    cases event with
    | packets captured =>
      rw [batches, List.flatten_cons, List.append_eq_nil_iff] at h
      obtain ⟨rfl, h⟩ := h
      unfold dispatchLoop
      simp only [List.foldlM_nil]
      show (if _ then _ else _) = _
      split
      · rfl
      · exact ih hrest h
    | error => exact absurd List.mem_cons_self herror
    | breakLoop =>
      unfold dispatchLoop
      split
      · rfl
      · exact ih hrest h

/-- One packet is captured, wherever it comes. -/
theorem dispatchLoop_one (enough : CallbackData → Bool) {events : List PcapEvent} {c c' : Capture} {packetData : List UInt8}
    (herror : .error ∉ events) (h : (batches events).flatten = [packetData]) (hstop : c.user.stop = false)
    (hpacket : rxCallback c packetData = .ok c') : dispatchLoop enough events c = .ok (some c') := by
  -- dispatches without a packet, one with the packet, and quiet ones behind it
  induction events with
  | nil => cases h
  | cons event rest ih =>
    have hrest : .error ∉ rest := fun hmem => herror (List.mem_cons_of_mem _ hmem)
    cases event with
    | packets captured =>
      rw [batches, List.flatten_cons] at h
      unfold dispatchLoop
      cases captured with
      | nil =>
        rw [List.nil_append] at h
        show (if _ then _ else _) = _
        rw [if_neg (by simp [hstop])]
        exact ih hrest h
      | cons first others =>
        rw [List.cons_append, List.cons.injEq, List.append_eq_nil_iff] at h
        obtain ⟨rfl, rfl, hquiet⟩ := h
        rw [List.foldlM_cons, hpacket, bind_ok, List.foldlM_nil]
        show (if _ then _ else _) = _
        split
        · rfl
        · exact dispatchLoop_quiet enough c' hrest hquiet
    | error => exact absurd List.mem_cons_self herror
    | breakLoop =>
      rw [batches] at h
      unfold dispatchLoop
      rw [if_neg (by simp [hstop])]
      exact ih hrest h

/-- What is decoded of the frames received. -/
def decodedFrames {α : Type} (decode : RxPacket → Trace (α × Mac)) (behind : Nat → UInt8) (frames : List EthFrame) :
    Except Fault (List (α × Mac)) := do
  let packets ← defragFrames frames
  .ok (packets.map fun packet => (decode (packet.received behind)).val)

/-- One packet is captured, and what is kept of it is its frame, if it is wanted. -/
theorem dispatchLoop_captures {host sta : Mac} {mmtype : UInt16} {numFragments : UInt32} (enough : CallbackData → Bool)
    {pcap : PcapRun} {packetData : List UInt8} (htype : mmtype ≠ 0) (hdelivers : Delivers pcap [packetData])
    (hlegal : Legal host mmtype packetData) :
    ∃ c, dispatchLoop enough pcap.dispatches (Capture.start host sta mmtype numFragments) = .ok (some c) ∧
      receivedFrames c = wantedFrames host mmtype [packetData] := by
  have hall : ∀ p ∈ [packetData], Legal host mmtype p := by simpa using hlegal
  rcases receivedFrames_of_legal host sta mmtype numFragments hall with ⟨c, hrun, hframes⟩
  have hpacket : rxCallback (Capture.start host sta mmtype numFragments) packetData = .ok c := by
    rw [← hrun, List.foldlM_cons]
    simp only [List.foldlM_nil]
    exact (bind_ok_right _).symm
  refine ⟨c, dispatchLoop_one enough hdelivers.noError hdelivers.packets rfl hpacket, ?_⟩
  rw [hframes]
  exact if_neg htype

theorem receiveMmes_one {α : Type} {call : Call} {expected : Expected α} (behind : Nat → UInt8) {pcap : PcapRun}
    {packetData : List UInt8} (htype : expected.mmtype ≠ 0) (hdelivers : Delivers pcap [packetData])
    (hlegal : Legal call.macAddr expected.mmtype packetData) :
    receiveMmes call expected behind pcap.dispatches =
      (decodedFrames expected.decode behind (wantedFrames call.macAddr expected.mmtype [packetData]) >>=
        fun response => .ok (hpavOk, response)) := by
  obtain ⟨c, hloop, hkept⟩ := @dispatchLoop_captures call.macAddr call.staMacAddr expected.mmtype
    expected.numFragments expected.enough _ _ htype hdelivers hlegal
  unfold receiveMmes decodedFrames
  rw [hloop, bind_ok]
  simp only [hkept]
  cases defragFrames (wantedFrames call.macAddr expected.mmtype [packetData]) with
  | error e => rfl
  | ok packets => rfl

/-- An exchange whose request fits a frame comes down to what is received. -/
theorem exchange_delivers {α : Type} {call : Call} {packet : Except Fault MmePacket} {expected : Expected α} {mmeSize : Nat}
    (behind : Nat → UInt8) {pcap : PcapRun} {packets : List (List UInt8)} (hencodes : Encodes call packet mmeSize)
    (hfits : mmeSize ≤ ethFrameMaxPayload) (hdelivers : Delivers pcap packets) :
    (exchange call packet expected behind pcap).outcome =
      if call.timeoutMs > 0 then receiveMmes call expected behind pcap.dispatches else .ok (hpavOk, []) :=
  exchange_received behind hencodes hfits hdelivers.compile hdelivers.setfilter (hdelivers.sendpacket 0)

/-- One packet reaches it. -/
theorem exchange_one {α : Type} {call : Call} {packet : Except Fault MmePacket} {expected : Expected α} {mmeSize : Nat}
    (behind : Nat → UInt8) {pcap : PcapRun} {packetData : List UInt8} (hencodes : Encodes call packet mmeSize)
    (hfits : mmeSize ≤ ethFrameMaxPayload) (htype : expected.mmtype ≠ 0) (hdelivers : Delivers pcap [packetData])
    (hlegal : Legal call.macAddr expected.mmtype packetData) :
    (exchange call packet expected behind pcap).outcome =
      if call.timeoutMs > 0 then
        decodedFrames expected.decode behind (wantedFrames call.macAddr expected.mmtype [packetData]) >>=
          fun response => .ok (hpavOk, response)
      else .ok (hpavOk, []) := by
  rw [exchange_delivers behind hencodes hfits hdelivers, receiveMmes_one behind htype hdelivers hlegal]

/-! ## The answer in its frame -/

theorem EthFrame.bytesFrom_eq (f : EthFrame) (off : Nat) : f.bytesFrom off = f.bytes.drop off :=
  (List.drop_take).symm

theorem EthFrame.fmiNfFn_eq {f : EthFrame} (h : 17 < f.frameSize) : f.fmiNfFn = f.bytes.getD 17 0 := by
  unfold EthFrame.fmiNfFn EthFrame.byte EthFrame.bytes
  rw [List.getD_eq_getElem?_getD, List.getD_eq_getElem?_getD, List.getElem?_take_of_lt h]

theorem EthFrame.srcMacAddr_eq {f : EthFrame} (h : 12 ≤ f.frameSize) :
    f.srcMacAddr.bytes = (f.bytes.drop 6).take 6 := by
  show (f.mem.drop 6).take 6 = ((f.mem.take f.frameSize).drop 6).take 6
  rw [List.drop_take, List.take_take, Nat.min_eq_left (by omega)]

theorem val_decodeCmSetKeyCnf (behind : Nat → UInt8) {packet : MmePacket} (h : 19 ≤ packet.data.length) :
    (decodeCmSetKeyCnf (packet.received behind)).val = ((packet.data.drop 5).take 14, packet.srcMacAddr) := by
  have hcopy := val_copyFrom_getD packet.data behind (show 5 + 14 ≤ packet.data.length from h)
  unfold decodeCmSetKeyCnf decodeMme smartCopyImpl MmePacket.received
  simp only [val_bind, val_pure, mmeHeaderSize, hcopy]

/-- The fields and the address of the sender, if the frame is not a fragment. -/
theorem decodedFrames_single (behind : Nat → UInt8) {f : EthFrame} (hlong : 33 ≤ f.frameSize) :
    decodedFrames decodeCmSetKeyCnf behind [f] =
      .ok (if f.bytes.getD 17 0 = 0 then [((f.bytes.drop 19).take 14, f.srcMacAddr)] else []) := by
  have hdata : 19 ≤ (framePacket f).data.length := by
    show 19 ≤ (f.bytesFrom ethHeaderSize).length
    rw [f.length_bytesFrom, ethHeaderSize]
    omega
  have hfields : ((framePacket f).data.drop 5).take 14 = (f.bytes.drop 19).take 14 := by
    show ((f.bytesFrom 14).drop 5).take 14 = _
    rw [f.bytesFrom_eq, List.drop_drop]
  unfold decodedFrames
  rw [defragFrames_single (by rw [ethHeaderSize]; omega), bind_ok, EthFrame.fmiNfFn_eq (by omega)]
  split
  · rw [List.map_cons, List.map_nil, val_decodeCmSetKeyCnf behind hdata, hfields]
    rfl
  · rfl

/-- What is decoded of one frame goes by the bytes of the frame only. -/
theorem decodedFrames_congr (behind behind' : Nat → UInt8) {f f' : EthFrame} (hbytes : f.bytes = f'.bytes)
    (hlong : 33 ≤ f.bytes.length) :
    decodedFrames decodeCmSetKeyCnf behind [f] = decodedFrames decodeCmSetKeyCnf behind' [f'] := by
  have hlong' : 33 ≤ f'.frameSize := by rw [← f'.length_bytes, ← hbytes]; exact hlong
  rw [f.length_bytes] at hlong
  have hsrc : f.srcMacAddr = f'.srcMacAddr := by
    apply Mac.ext_bytes
    rw [EthFrame.srcMacAddr_eq (by omega), EthFrame.srcMacAddr_eq (by omega), hbytes]
  rw [decodedFrames_single behind hlong, decodedFrames_single behind' hlong', hbytes, hsrc]

/-! ## The answer in a payload -/

/-- The payload is a valid message around an answer: filler, answer and what follows it, with
the length of the filler at the end, encrypted with the key that is selected. -/
structure Wraps (cipher : Cipher) (request : CmSetKeyReq) (answer : List UInt8) (payload : EncryptedPayload) : Prop where
  content : ∃ filler tail, filler.length < 256 ∧
    payload.encryptedDataLength.toNat = (filler ++ answer ++ tail ++ [UInt8.ofNat filler.length]).length ∧
    ((payload.peks = 0 ∧ 16 ∣ payload.encryptedDataLength.toNat ∧
        payload.encryptedData = (cipher.lib.aesCbcEncrypt (cipher.lib.generateDak cipher.devicePassword) payload.aesIv
          (filler ++ answer ++ tail ++ [UInt8.ofNat filler.length])).1) ∨
      (payload.peks = 1 ∧ 16 ∣ payload.encryptedDataLength.toNat ∧
        payload.encryptedData = (cipher.lib.aesCbcEncrypt (newKey request) payload.aesIv
          (filler ++ answer ++ tail ++ [UInt8.ofNat filler.length])).1) ∨
      (payload.peks = 15 ∧ payload.encryptedData = filler ++ answer ++ tail ++ [UInt8.ofNat filler.length]))
  mmeLength : payload.mmeLength.toNat = answer.length
  fits : payload.encryptedDataLength.toNat ≤ 1471

/-- The frame taken out of a payload is the answer. -/
theorem decrypt_wrapped {cipher : Cipher} (laws : CbcLaws cipher.lib) (uninit : Nat → UInt8) {request : CmSetKeyReq}
    {answer : List UInt8} {payload : EncryptedPayload} (h : Wraps cipher request answer payload) :
    ∃ node, decrypt cipher.lib uninit (some payload.toCmEncryptedPayloadMme) cipher.devicePassword (newKey request) =
      .ok (some node) ∧ node.val.bytes = answer := by
  rcases h.content with ⟨filler, tail, hfiller, hlength, hkey⟩
  generalize hplain : filler ++ answer ++ tail ++ [UInt8.ofNat filler.length] = plain at hlength hkey
  -- whichever key `peks` names, the blocks are undone to the plain text
  have hclear : clearPayload cipher.lib payload.toCmEncryptedPayloadMme cipher.devicePassword (newKey request) = some plain := by
    unfold clearPayload
    rcases hkey with ⟨hpeks, hblocks, hdata⟩ | ⟨hpeks, hblocks, hdata⟩ | ⟨hpeks, hdata⟩
    · rw [if_pos hpeks, hdata, laws.decrypt_encrypt _ _ _ (hlength ▸ hblocks)]
    · rw [if_neg (by rw [hpeks]; decide), if_pos hpeks, hdata, laws.decrypt_encrypt _ _ _ (hlength ▸ hblocks)]
    · rw [if_neg (by rw [hpeks]; decide), if_neg (by rw [hpeks]; decide), if_pos hpeks, hdata]
  -- the last byte says how long the filler is
  have hfillerLength : fillerLength plain = filler.length := by
    unfold fillerLength
    rw [← hplain, List.getLastD_concat, UInt8.toNat_ofNat', Nat.mod_eq_of_lt hfiller]
  have hsum : plain.length = filler.length + answer.length + tail.length + 1 := by
    rw [← hplain]
    simp only [List.length_append, List.length_singleton]
  have hmme := h.mmeLength
  have hfits := h.fits
  have hinside : Inside payload.toCmEncryptedPayloadMme plain := by
    refine ⟨by omega, by rw [hfillerLength]; omega, ?_⟩
    simp only [ethFrameArea]
    omega
  rcases framePayload_of_inside uninit hlength.symm hinside with ⟨node, hnode⟩
  refine ⟨node, ?_, ?_⟩
  · rw [decrypt_eq, hclear]
    simp only [hnode, bind_ok]
  · rw [(takenFrom_of_framePayload hlength.symm hnode).bytes, hfillerLength, hmme, ← hplain, List.append_assoc,
      List.append_assoc, List.drop_left' rfl, List.take_left' rfl]

/-! ## The two exchanges -/

/-- An answer that is captured as it is. -/
theorem cmSetKeySndrcv_one (call : Call) (request : CmSetKeyReq) (behind : Nat → UInt8) {pcap : PcapRun}
    {answer : List UInt8} (hdelivers : Delivers pcap [answer]) (hlong : 33 ≤ answer.length)
    (hfits : answer.length ≤ ethFrameArea) :
    (cmSetKeySndrcv call request behind pcap).outcome =
      if call.timeoutMs > 0 then
        decodedFrames decodeCmSetKeyCnf behind (wantedFrames call.macAddr 0x6009 [answer]) >>=
          fun response => .ok (hpavOk, response)
      else .ok (hpavOk, []) := by
  have hlegal : Legal call.macAddr 0x6009 answer :=
    ⟨by omega, fun _ => by omega, fun _ => by omega, fun _ => hfits⟩
  exact exchange_one behind (encodes_mme call 0x6008 request) (by decide) (show (0x6009 : UInt16) ≠ 0 by decide)
    hdelivers hlegal

/-- An MME of the expected type for the host is taken by the callback. -/
theorem wanted_frameBytes (host station : Mac) (mmtype : UInt16) (content : List UInt8) (minSize : MinSize) :
    Wanted host mmtype (frameBytes host station (mmeHeader mmtype ++ content) minSize) := by
  have hheader := length_ethHeader host station
  have htype : ∀ i < 2, (frameBytes host station (mmeHeader mmtype ++ content) minSize).getD (15 + i) 0 =
      (bytes16 mmtype).getD i 0 := by
    intro i hi
    have hoff : 15 + i = ethHeaderSize + (1 + i) := by
      rw [ethHeaderSize]
      omega
    have hmmv : [(0x01 : UInt8)].length = 1 := rfl
    rw [frameBytes_eq, hoff, getD_drop, List.drop_left' hheader]
    unfold paddedMme mmeHeader
    simp only [List.append_assoc]
    rw [getD_drop, List.drop_left' hmmv, List.getD_append _ _ _ _ (by simpa using hi)]
  refine ⟨?_, Or.inl ?_⟩
  · unfold frameBytes
    simp only [List.append_assoc]
    exact List.take_left' host.length_eq
  · rw [htype 0 (by omega), htype 1 (by omega)]
    exact le16_bytes16 mmtype

theorem wanted_payloadFrame (host station : Mac) (payload : EncryptedPayload) :
    Wanted host 0x6006 (frameBytes host station payload.mme ethFrameMinSize) := by
  unfold EncryptedPayload.mme
  rw [List.append_assoc]
  exact wanted_frameBytes host station 0x6006 _ _

/-- An answer that arrives wrapped: the payload is what is received. -/
theorem cmEncryptedPayloadSndrcv_one (call : Call) (request : EncryptedPayload) {payload : EncryptedPayload}
    (behind : Nat → UInt8) {pcap : PcapRun} {station : Mac} (hrequest : request.encryptedDataLength.toNat ≤ 1471)
    (hlong : 17 ≤ payload.encryptedDataLength.toNat) (hfits : payload.encryptedDataLength.toNat ≤ 1471)
    (hdelivers : Delivers pcap [frameBytes call.macAddr station payload.mme ethFrameMinSize])
    (htimeout : call.timeoutMs > 0) :
    ∃ ind, (cmEncryptedPayloadSndrcv call request.toCmEncryptedPayloadMme behind pcap).outcome =
        .ok (hpavOk, [(ind, station)]) ∧ ind.toMme = payload.toCmEncryptedPayloadMme := by
  have hmme : payload.mme.length ≤ ethFrameMaxPayload := by
    rw [payload.length_mme, ethFrameMaxPayload]
    omega
  have harea := length_frameBytes_le call.macAddr station ethFrameMinSize hmme
  have hsize : 18 ≤ (frameBytes call.macAddr station payload.mme ethFrameMinSize).length := by
    rw [length_frameBytes]
    simp only [ethFrameMinSize]
    omega
  have hlegal : Legal call.macAddr 0x6006 (frameBytes call.macAddr station payload.mme ethFrameMinSize) :=
    ⟨by omega, fun _ => by omega, fun _ => hsize, fun _ => harea⟩
  have hwanted : wantedFrames call.macAddr 0x6006 [frameBytes call.macAddr station payload.mme ethFrameMinSize] =
      [EthFrame.ofCapture _ harea] :=
    wantedFrames_cons_of_wanted (wanted_payloadFrame call.macAddr station payload) harea
  rcases decode_payloadFrame behind hfits harea with ⟨packet, hdefrag, hval⟩
  have hrequestSize : mmeHeaderSize + 24 + request.encryptedDataLength.toNat ≤ ethFrameMaxPayload := by
    rw [ethFrameMaxPayload, mmeHeaderSize]
    omega
  -- one answer of one frame is taken as it is
  have hrun : (exchange call (encodeCmEncryptedPayloadInd call.staMacAddr call.macAddr request.toCmEncryptedPayloadMme)
      ⟨0x6006, call.numFragments, fun _ => false, decodeCmEncryptedPayloadInd⟩ behind pcap).outcome = _ :=
    exchange_one behind (encodes_encryptedPayload call request) hrequestSize
      (show (0x6006 : UInt16) ≠ 0 by decide) hdelivers hlegal
  rw [EncryptedPayload.extended_of_long hlong] at hval
  refine ⟨_, ?_, toMme_unencrypted payload payload.encryptedData payload.encryptedDataLength⟩
  unfold cmEncryptedPayloadSndrcv mmeSndrcv
  rw [hrun, if_pos htimeout, hwanted]
  unfold decodedFrames
  rw [hdefrag, bind_ok, List.map_cons, List.map_nil, hval]
  rfl

/-- Wrapped, the answer is decoded whatever its destination and its type. -/
theorem cmSetKeyEncryptedSndrcv_one {cipher : Cipher} (laws : CbcLaws cipher.lib) (hlib : CbcWrites cipher.lib)
    (call : Call) (request : CmSetKeyReq) {answer : List UInt8} (hlong : 33 ≤ answer.length) {payload : EncryptedPayload}
    (hwraps : Wraps cipher request answer payload) {station : Mac} (uninit behind : Nat → UInt8) {pcap : PcapRun}
    (hdelivers : Delivers pcap [frameBytes call.macAddr station payload.mme ethFrameMinSize])
    (htimeout : call.timeoutMs > 0) :
    ∃ frame : EthFrame, frame.bytes = answer ∧
      (cmSetKeyEncryptedSndrcv cipher uninit call request behind pcap).outcome =
        (decodedFrames decodeCmSetKeyCnf behind [frame] >>= fun response => .ok (hpavOk, response)) := by
  rcases encryptRequest_eq hlib call request with ⟨txPayload, hencrypt, hlength⟩
  rcases hwraps.content with ⟨filler, tail, -, hplain, -⟩
  have hsum : payload.encryptedDataLength.toNat = filler.length + answer.length + tail.length + 1 := by
    rw [hplain]
    simp only [List.length_append, List.length_singleton]
  rcases cmEncryptedPayloadSndrcv_one call txPayload behind (by omega) (by omega) hwraps.fits hdelivers htimeout with
    ⟨ind, hreceive, hind⟩
  rcases decrypt_wrapped laws uninit hwraps with ⟨node, hdecrypt, hbytes⟩
  refine ⟨node.val, hbytes, ?_⟩
  unfold cmSetKeyEncryptedSndrcv
  rw [hencrypt]
  simp only [hreceive, bind_ok, List.head?_cons, Option.map_some, hind]
  unfold decryptResponse
  rw [hdecrypt]
  rfl

/-- Without a timeout nothing is received, and nothing is decrypted. -/
theorem cmSetKeyEncryptedSndrcv_noTimeout {cipher : Cipher} (hlib : CbcWrites cipher.lib) (call : Call)
    (request : CmSetKeyReq) (uninit behind : Nat → UInt8) {pcap : PcapRun} {packets : List (List UInt8)}
    (hdelivers : Delivers pcap packets) (htimeout : call.timeoutMs = 0) :
    (cmSetKeyEncryptedSndrcv cipher uninit call request behind pcap).outcome = .ok (hpavOk, []) := by
  rcases encryptRequest_eq hlib call request with ⟨txPayload, hencrypt, hlength⟩
  have hfits : mmeHeaderSize + 24 + txPayload.encryptedDataLength.toNat ≤ ethFrameMaxPayload := by
    rw [hlength]
    decide
  have hreceive : (cmEncryptedPayloadSndrcv call txPayload.toCmEncryptedPayloadMme behind pcap).outcome = _ :=
    exchange_delivers behind (encodes_encryptedPayload call txPayload) hfits hdelivers
  rw [if_neg (by rw [htimeout]; decide)] at hreceive
  unfold cmSetKeyEncryptedSndrcv
  rw [hencrypt]
  simp only [hreceive, bind_ok]
  rfl

/-- Both exchanges come to the same response. -/
def Agree {α : Type} (encrypted plain : Transmission (Int × List α)) : Prop :=
  ∃ response, encrypted.outcome = .ok (hpavOk, response) ∧ plain.outcome = .ok (hpavOk, response)

section Answer

variable {cipher : Cipher} (laws : CbcLaws cipher.lib) (hlib : CbcWrites cipher.lib) (call : Call) (request : CmSetKeyReq)
  {answer : List UInt8} (hlong : 33 ≤ answer.length) {payload : EncryptedPayload}
  (hwraps : Wraps cipher request answer payload) (station : Mac) (uninit behind behind' : Nat → UInt8)
  {plainRun encryptedRun : PcapRun} (hplain : Delivers plainRun [answer])
  (hencrypted : Delivers encryptedRun [frameBytes call.macAddr station payload.mme ethFrameMinSize])

theorem Wraps.length_le {cipher : Cipher} {request : CmSetKeyReq} {answer : List UInt8} {payload : EncryptedPayload}
    (h : Wraps cipher request answer payload) : answer.length ≤ ethFrameArea := by
  rcases h.content with ⟨filler, tail, -, hlength, -⟩
  have h1471 := h.fits
  rw [hlength] at h1471
  simp only [List.length_append, List.length_singleton] at h1471
  rw [ethFrameArea]
  omega

include hwraps hlong hplain in
/-- An answer the callback does not take brings nothing when it is captured as it is. -/
theorem cmSetKeySndrcv_unwanted (hnot : ¬ Wanted call.macAddr 0x6009 answer) :
    (cmSetKeySndrcv call request behind plainRun).outcome = .ok (hpavOk, []) := by
  rw [cmSetKeySndrcv_one call request behind hplain hlong hwraps.length_le, wantedFrames_cons_of_unwanted hnot]
  show (if call.timeoutMs > 0 then _ else _) = _
  split
  · rfl
  · rfl

include laws hlib hlong hwraps hplain hencrypted in
/-- Where both agree nothing is waited for, or the callback takes the answer, or it is a
fragment. -/
theorem Agree.taken (h : Agree (cmSetKeyEncryptedSndrcv cipher uninit call request behind' encryptedRun)
      (cmSetKeySndrcv call request behind plainRun)) :
    call.timeoutMs = 0 ∨ Wanted call.macAddr 0x6009 answer ∨ answer.getD 17 0 ≠ 0 := by
  by_contra hnot
  rw [not_or, not_or, not_not] at hnot
  obtain ⟨htimeout, hunwanted, hzero⟩ := hnot
  have hpos : call.timeoutMs > 0 := UInt32.pos_iff_ne_zero.mpr htimeout
  rcases cmSetKeyEncryptedSndrcv_one laws hlib call request hlong hwraps uninit behind' hencrypted hpos with
    ⟨frame, hframe, hwrapped⟩
  have hframeSize : 33 ≤ frame.frameSize := by
    rw [← frame.length_bytes, hframe]
    exact hlong
  rw [decodedFrames_single behind' hframeSize, bind_ok, hframe, if_pos hzero] at hwrapped
  rcases h with ⟨response, hencryptedOk, hplainOk⟩
  rw [cmSetKeySndrcv_unwanted call request hlong hwraps behind hplain hunwanted] at hplainOk
  cases hplainOk
  rw [hwrapped] at hencryptedOk
  cases hencryptedOk

include laws hlib hlong hwraps hplain hencrypted in
/-- A fragment brings nothing either way, and an answer the callback takes the same. -/
theorem agree_of_taken (hpos : call.timeoutMs > 0)
    (h : Wanted call.macAddr 0x6009 answer ∨ answer.getD 17 0 ≠ 0) :
    Agree (cmSetKeyEncryptedSndrcv cipher uninit call request behind' encryptedRun)
      (cmSetKeySndrcv call request behind plainRun) := by
  have hdirect := cmSetKeySndrcv_one call request behind hplain hlong hwraps.length_le
  rw [if_pos hpos] at hdirect
  rcases cmSetKeyEncryptedSndrcv_one laws hlib call request hlong hwraps uninit behind' hencrypted hpos with
    ⟨frame, hframe, hwrapped⟩
  have hframeSize : 33 ≤ frame.frameSize := by
    rw [← frame.length_bytes, hframe]
    exact hlong
  have hsingle := decodedFrames_single behind' hframeSize
  rw [hsingle, bind_ok] at hwrapped
  by_cases hwanted : Wanted call.macAddr 0x6009 answer
  · have hcaptured : (EthFrame.ofCapture answer hwraps.length_le).bytes = frame.bytes := by
      rw [hframe]
      exact List.take_left
    have hsame := decodedFrames_congr behind behind' hcaptured (by rw [hcaptured, hframe]; exact hlong)
    rw [wantedFrames_cons_of_wanted hwanted hwraps.length_le] at hdirect
    refine ⟨_, hwrapped, ?_⟩
    rw [hdirect]
    show decodedFrames decodeCmSetKeyCnf behind [EthFrame.ofCapture answer hwraps.length_le] >>= _ = _
    rw [hsame, hsingle, bind_ok]
  · have hfragment : answer.getD 17 0 ≠ 0 := h.resolve_left hwanted
    refine ⟨[], ?_, cmSetKeySndrcv_unwanted call request hlong hwraps behind hplain hwanted⟩
    rw [hwrapped, hframe, if_neg hfragment]

end Answer

/-- An answer brings the same response in the clear and wrapped in a message exactly if the
callback takes it, or if it is a fragment, of which neither makes anything. -/
theorem agree_iff {cipher : Cipher} (laws : CbcLaws cipher.lib) (hlib : CbcWrites cipher.lib) (call : Call)
    (request : CmSetKeyReq) {answer : List UInt8} (hlong : 33 ≤ answer.length) {payload : EncryptedPayload}
    (hwraps : Wraps cipher request answer payload) (station : Mac) (uninit behind behind' : Nat → UInt8)
    {plainRun encryptedRun : PcapRun} (hplain : Delivers plainRun [answer])
    (hencrypted : Delivers encryptedRun [frameBytes call.macAddr station payload.mme ethFrameMinSize]) :
    Agree (cmSetKeyEncryptedSndrcv cipher uninit call request behind' encryptedRun)
        (cmSetKeySndrcv call request behind plainRun) ↔
      call.timeoutMs = 0 ∨ Wanted call.macAddr 0x6009 answer ∨ answer.getD 17 0 ≠ 0 := by
  constructor
  · exact Agree.taken laws hlib call request hlong hwraps station uninit behind behind' hplain hencrypted
  · intro h
    by_cases htimeout : call.timeoutMs = 0
    · refine ⟨[], cmSetKeyEncryptedSndrcv_noTimeout hlib call request uninit behind' hencrypted htimeout, ?_⟩
      rw [cmSetKeySndrcv_one call request behind hplain hlong hwraps.length_le, if_neg (by rw [htimeout]; decide)]
    · exact agree_of_taken laws hlib call request hlong hwraps station uninit behind behind' hplain hencrypted
        (UInt32.pos_iff_ne_zero.mpr htimeout) (h.resolve_left htimeout)

/-- A frame of 60 bytes from the second station to the first. -/
def stationAnswer (mmtype : UInt16) : List UInt8 :=
  firstStation.bytes ++ secondStation.bytes ++ mmeEtherType ++ mmeHeader mmtype ++ [0x00, 0x44, 0x33, 0x22, 0x11] ++
    List.replicate 36 0

/-- A message around it that is not encrypted: no filler, and zeros behind the frame. -/
def clearMessage (mmtype : UInt16) : EncryptedPayload where
  peks := 15
  avlnStatus := 0
  pid := 0x04
  prn := 0x0001
  pmn := 0x05
  aesIv := List.replicate 16 0
  mmeLength := 60
  encryptedDataLength := 80
  encryptedData := stationAnswer mmtype ++ List.replicate 19 0 ++ [0]
  length_aesIv := rfl
  length_encryptedData := rfl

/-- The request in `setKeyFrame`. -/
def setKeyRequest : CmSetKeyReq :=
  ⟨(setKeyFrame.mem.drop 19).take 38, by decide +kernel⟩

theorem clearMessage_wraps (cipher : Cipher) (mmtype : UInt16) :
    Wraps cipher setKeyRequest (stationAnswer mmtype) (clearMessage mmtype) where
  content := ⟨[], List.replicate 19 0, by decide, rfl, Or.inr (Or.inr ⟨rfl, rfl⟩)⟩
  mmeLength := rfl
  fits := by
    show (80 : UInt16).toNat ≤ 1471
    decide

/-- The request in its frame of 57 bytes, with the filler and the padding of `setKeyRand`, and what
AES-128-CBC makes of it with the DAK of "HomePlugAV". -/
def requestText : KnownText where
  key := [0x68, 0x9F, 0x07, 0x4B, 0x8B, 0x02, 0x75, 0xA2, 0x71, 0x0B, 0x0B, 0x57, 0x79, 0xAD, 0x16, 0x30]
  iv := initialIv
  plain := [
    0xA0, 0xA1, 0xA2, 0xA3, 0xA4, 0x00, 0x13, 0xD7, 0x00, 0x00, 0x02, 0x00, 0x13, 0xD7, 0x00,
    0x00, 0x01, 0x88, 0xE1, 0x01, 0x08, 0x60, 0x00, 0x00, 0x01, 0x11, 0x22, 0x33, 0x44, 0x00,
    0x00, 0x00, 0x00, 0x04, 0x01, 0x00, 0x05, 0x00, 0xB0, 0xF2, 0xE6, 0x95, 0x66, 0x6B, 0x03,
    0x01, 0x50, 0xD3, 0xE4, 0x93, 0x3F, 0x85, 0x5B, 0x70, 0x40, 0x78, 0x4D, 0xF8, 0x15, 0xAA,
    0x8D, 0xB7, 0x32, 0x79, 0xA8, 0x59, 0x04, 0x01, 0x00, 0x05, 0xB0, 0xB1, 0xB2, 0xB3, 0xB4,
    0xB5, 0xB6, 0xB7, 0xB8, 0x05]
  cipher := [
    0xC3, 0xB6, 0x62, 0xAC, 0xEE, 0x75, 0x9D, 0x6D, 0x21, 0xE3, 0x80, 0x10, 0xDC, 0x45, 0xAC,
    0x35, 0x17, 0x17, 0xE0, 0x2E, 0xA3, 0x0C, 0x01, 0x66, 0x8A, 0xAD, 0x4B, 0x51, 0xFA, 0xFA,
    0x34, 0x70, 0x60, 0xD9, 0x52, 0xEE, 0xC0, 0x86, 0xCB, 0x76, 0xEF, 0x1C, 0x27, 0x7F, 0xCD,
    0x9A, 0x71, 0xCF, 0x58, 0x1C, 0xE3, 0x33, 0xE2, 0x24, 0xAD, 0x1F, 0x15, 0x94, 0xBD, 0x83,
    0x6C, 0x2F, 0x01, 0x35, 0x25, 0x4C, 0x57, 0xDB, 0x50, 0xBB, 0xBB, 0xC9, 0x48, 0xC1, 0xF9,
    0x77, 0x25, 0x5A, 0xDE, 0x70]
  length_cipher := rfl

/-- What a station sends behind its answer: checksum, PID, PRN, PMN and padding. -/
def answerTail : List UInt8 :=
  [0xE9, 0xBD, 0x37, 0xDB, 0x04, 0x02, 0x00, 0x05, 0xD0, 0xD1, 0xD2, 0xD3, 0xD4, 0xD5]

/-- A CM_SET_KEY.CNF as the station encrypts it with the new key. -/
def answerText : KnownText where
  key := newKey setKeyRequest
  iv := [0x00, 0x01, 0x02, 0x03, 0x04, 0x05, 0x06, 0x07, 0x08, 0x09, 0x0A, 0x0B, 0x0C, 0x0D, 0x0E, 0x0F]
  plain := [0xC0, 0xC1, 0xC2, 0xC3, 0xC4] ++ stationAnswer 0x6009 ++ answerTail ++ [5]
  cipher := [
    0xF8, 0xB3, 0x39, 0x70, 0x4A, 0x5E, 0x3B, 0xDE, 0x36, 0x91, 0x12, 0x4D, 0x0B, 0x2E, 0xDF,
    0xFC, 0x65, 0x1B, 0x0C, 0x5C, 0x43, 0xCB, 0xD5, 0x24, 0x69, 0x9C, 0xF7, 0xC1, 0x5D, 0x6D,
    0xD6, 0x89, 0xC4, 0xCB, 0x48, 0xF4, 0x65, 0x5C, 0xF6, 0x29, 0xA4, 0x2F, 0xA4, 0x35, 0x16,
    0x2A, 0xA8, 0xE9, 0xE8, 0x60, 0xDB, 0x43, 0x5D, 0xC4, 0xA1, 0x62, 0xA3, 0xE3, 0x09, 0x56,
    0x8E, 0x5A, 0x41, 0xE7, 0x9E, 0x67, 0x86, 0x1F, 0xE2, 0x68, 0xE3, 0xC9, 0x27, 0x45, 0xDD,
    0x67, 0x57, 0x9B, 0x7D, 0xC6]
  length_cipher := rfl

/-- The libraries, as they answer for the request and for the answer of the station. -/
def answeringCipher : Cipher where
  lib := knownLib (fun _ => requestText.key) [requestText, answerText]
  rand := setKeyRand
  devicePassword := setKeyPassword

/-- The answer in a message that is encrypted with the new key. -/
def nmkMessage : EncryptedPayload where
  peks := 1
  avlnStatus := 0
  pid := 0x04
  prn := 0x0002
  pmn := 0x05
  aesIv := answerText.iv
  mmeLength := 60
  encryptedDataLength := 80
  encryptedData := answerText.cipher
  length_aesIv := rfl
  length_encryptedData := rfl

theorem nmkMessage_wraps : Wraps answeringCipher setKeyRequest (stationAnswer 0x6009) nmkMessage where
  content := ⟨[0xC0, 0xC1, 0xC2, 0xC3, 0xC4], answerTail, by decide, rfl,
    Or.inr (Or.inl ⟨rfl, by decide, by decide +kernel⟩)⟩
  mmeLength := rfl
  fits := by
    show (80 : UInt16).toNat ≤ 1471
    decide

/-- A run of pcap in which one packet is captured. -/
def packetRun (packetData : List UInt8) : PcapRun :=
  { quietRun with dispatches := [.packets [packetData]] }

theorem packetRun_delivers (packetData : List UInt8) : Delivers (packetRun packetData) [packetData] where
  compile := by
    show (0 : Int) ≠ -1
    decide
  setfilter := by
    show (0 : Int) ≠ -1
    decide
  sendpacket := fun _ => rfl
  noError := by
    intro h
    cases h with
    | tail _ h => cases h
  packets := rfl

/-- A CM_SET_KEY.CNF to the host, encrypted with the new key, behind a request that is encrypted
with the DAK: checksums and ciphertexts are the real ones. -/
theorem agree_setKeyCnf :
    (∃ mme, encryptRequest answeringCipher secondCall setKeyRequest = .ok (some mme) ∧
      mme.encryptedData = requestText.cipher) ∧
    Agree (cmSetKeyEncryptedSndrcv answeringCipher (fun _ => 0xAA) secondCall setKeyRequest (fun _ => 0xAA)
        (packetRun (frameBytes firstStation secondStation nmkMessage.mme ethFrameMinSize)))
      (cmSetKeySndrcv secondCall setKeyRequest (fun _ => 0xAA) (packetRun (stationAnswer 0x6009))) := by
  constructor
  · have hwrites : CbcWrites answeringCipher.lib := knownLib_writes _ _
    rcases encryptRequest_eq hwrites secondCall setKeyRequest with ⟨payload, hencrypt, -⟩
    have hcipher : (encryptRequest answeringCipher secondCall setKeyRequest).toOption.bind (·.map (·.encryptedData)) =
        some requestText.cipher := by
      decide +kernel
    rw [hencrypt] at hcipher
    exact ⟨_, hencrypt, Option.some.inj hcipher⟩
  · exact (agree_iff (knownLib_laws _ _) (knownLib_writes _ _) secondCall setKeyRequest (by decide) nmkMessage_wraps
      secondStation (fun _ => 0xAA) (fun _ => 0xAA) (fun _ => 0xAA) (packetRun_delivers _) (packetRun_delivers _)).mpr
      (Or.inr (Or.inl (by decide)))

/-- A CM_AMP_MAP.CNF to the host: in the clear it is passed over, in a message it is decoded as
a CM_SET_KEY.CNF. -/
theorem agree_ampMapCnf :
    ¬ Agree (cmSetKeyEncryptedSndrcv answeringCipher (fun _ => 0xAA) secondCall setKeyRequest (fun _ => 0xAA)
        (packetRun (frameBytes firstStation secondStation (clearMessage 0x601D).mme ethFrameMinSize)))
      (cmSetKeySndrcv secondCall setKeyRequest (fun _ => 0xAA) (packetRun (stationAnswer 0x601D))) := by
  intro h
  exact absurd (h.taken (knownLib_laws _ _) (knownLib_writes _ _) secondCall setKeyRequest (by decide)
    (clearMessage_wraps answeringCipher 0x601D) secondStation (fun _ => 0xAA) (fun _ => 0xAA) (fun _ => 0xAA)
    (packetRun_delivers _) (packetRun_delivers _)) (by decide)

end Hpav
