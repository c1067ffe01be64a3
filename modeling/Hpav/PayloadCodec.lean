import Mathlib.Tactic.Common
import Hpav.Encode
import Hpav.EncryptBounds
import Hpav.Fragmentation

/-!
# An encrypted payload on its way

A CM_ENCRYPTED_PAYLOAD.IND through `hpav_encode_cm_encrypted_payload_ind`,
`hpav_build_frames`, `hpav_defrag_frames` and `hpav_decode_cm_encrypted_payload_ind`. The
length of the data is not sent: it is what is left of the frame, and a frame has a minimum
size.
-/

namespace Hpav

open CMem Grouping MemTrace

/-! ## Frames of MMEs -/

/-- The bytes of an MME and the zeros behind it, as a frame carries them. -/
def paddedMme (mme : List UInt8) (minSize : MinSize) : List UInt8 :=
  mme ++ List.replicate (minSize.val - (ethHeaderSize + mme.length)) 0

section MmeFrame

variable {dstMacAddr srcMacAddr : Mac} {mme : List UInt8} {minSize : MinSize}
  (h : (frameBytes dstMacAddr srcMacAddr mme minSize).length ≤ ethFrameArea)

theorem frameBytes_eq : frameBytes dstMacAddr srcMacAddr mme minSize =
    (dstMacAddr.bytes ++ srcMacAddr.bytes ++ mmeEtherType) ++ paddedMme mme minSize :=
  List.append_assoc _ _ _

theorem bytesFrom_frameBytes :
    (EthFrame.ofCapture (frameBytes dstMacAddr srcMacAddr mme minSize) h).bytesFrom ethHeaderSize =
      paddedMme mme minSize := by
  generalize hbytes : frameBytes dstMacAddr srcMacAddr mme minSize = bytes at h
  rw [frameBytes_eq] at hbytes
  subst hbytes
  have hfrom := EthFrame.bytesFrom_ofCapture _ _ h
  rw [length_ethHeader] at hfrom
  exact hfrom

theorem dstMacAddr_frameBytes :
    (EthFrame.ofCapture (frameBytes dstMacAddr srcMacAddr mme minSize) h).dstMacAddr = dstMacAddr := by
  apply Mac.ext_bytes
  show (frameBytes dstMacAddr srcMacAddr mme minSize ++ _).take 6 = dstMacAddr.bytes
  unfold frameBytes
  simp only [List.append_assoc]
  exact List.take_left' dstMacAddr.length_eq

theorem srcMacAddr_frameBytes :
    (EthFrame.ofCapture (frameBytes dstMacAddr srcMacAddr mme minSize) h).srcMacAddr = srcMacAddr := by
  apply Mac.ext_bytes
  show ((frameBytes dstMacAddr srcMacAddr mme minSize ++ _).drop 6).take 6 = srcMacAddr.bytes
  unfold frameBytes
  simp only [List.append_assoc]
  rw [List.drop_left' dstMacAddr.length_eq]
  exact List.take_left' srcMacAddr.length_eq

/-- An unfragmented MME comes out of reassembly as it was put into its frame. -/
theorem defragFrames_frameBytes (hheader : 4 ≤ mme.length) (hzero : mme.getD 3 0 = 0) :
    defragFrames [EthFrame.ofCapture (frameBytes dstMacAddr srcMacAddr mme minSize) h] =
      .ok [⟨(paddedMme mme minSize).length, paddedMme mme minSize, dstMacAddr, srcMacAddr⟩] := by
  have hsize : (EthFrame.ofCapture (frameBytes dstMacAddr srcMacAddr mme minSize) h).frameSize =
      ethHeaderSize + (paddedMme mme minSize).length := by
    show (frameBytes dstMacAddr srcMacAddr mme minSize).length = _
    rw [frameBytes_eq, List.length_append, length_ethHeader]
  have hlong : mme.length ≤ (paddedMme mme minSize).length := by
    unfold paddedMme
    rw [List.length_append]
    omega
  have hfirst : (EthFrame.ofCapture (frameBytes dstMacAddr srcMacAddr mme minSize) h).fmiNfFn = 0 := by
    show (EthFrame.ofCapture _ h).byte (ethHeaderSize + 3) = 0
    rw [EthFrame.byte_eq _ 3 (by rw [hsize]; omega), bytesFrom_frameBytes]
    unfold paddedMme
    rw [List.getD_append _ _ _ _ (by omega), hzero]
  rw [defragFrames_single (by rw [hsize]; omega), if_pos hfirst]
  unfold framePacket
  rw [bytesFrom_frameBytes, dstMacAddr_frameBytes, srcMacAddr_frameBytes, hsize, Nat.add_sub_cancel_left]

end MmeFrame

/-! ## Values that can be sent -/

/-- A payload whose fields have the sizes they have in C. -/
structure EncryptedPayload extends CmEncryptedPayloadMme where
  length_aesIv : aesIv.length = 16
  length_encryptedData : encryptedData.length = encryptedDataLength.toNat

/-- The MME of a payload. -/
def EncryptedPayload.mme (payload : EncryptedPayload) : List UInt8 :=
  mmeHeader 0x6006 ++ payload.unencrypted ++ payload.encryptedData

theorem EncryptedPayload.length_unencrypted (payload : EncryptedPayload) : payload.unencrypted.length = 24 := by
  unfold CmEncryptedPayloadMme.unencrypted
  simp only [List.length_append, List.length_cons, List.length_nil, length_bytes16, payload.length_aesIv]

theorem EncryptedPayload.length_mme (payload : EncryptedPayload) :
    payload.mme.length = 29 + payload.encryptedDataLength.toNat := by
  unfold EncryptedPayload.mme mmeHeader
  simp only [List.length_append, List.length_cons, List.length_nil, length_bytes16, payload.length_unencrypted,
    payload.length_encryptedData]

theorem encodeCmEncryptedPayloadInd_eq (staMacAddr srcMacAddr : Mac) (payload : EncryptedPayload) :
    encodeCmEncryptedPayloadInd staMacAddr srcMacAddr payload.toCmEncryptedPayloadMme =
      .ok ⟨payload.mme.length, payload.mme, staMacAddr, srcMacAddr⟩ := by
  have hunencrypted : load payload.unencrypted 0 24 = .ok payload.unencrypted := by
    rw [load_ok (by rw [payload.length_unencrypted]), List.drop_zero, ← payload.length_unencrypted, List.take_length]
  have hencrypted : load payload.encryptedData 0 payload.encryptedDataLength.toNat = .ok payload.encryptedData := by
    rw [load_ok (by rw [payload.length_encryptedData]; omega), List.drop_zero, ← payload.length_encryptedData,
      List.take_length]
  unfold encodeCmEncryptedPayloadInd
  simp only [hunencrypted, hencrypted, bind_ok]
  have hsize : (mmeHeader 0x6006).length + (payload.unencrypted ++ payload.encryptedData).length =
      mmeHeaderSize + 24 + payload.encryptedDataLength.toNat := by
    rw [List.length_append, payload.length_unencrypted, payload.length_encryptedData, ← Nat.add_assoc]
    rfl
  rw [newPacket_eq staMacAddr srcMacAddr hsize, payload.length_mme]
  unfold EncryptedPayload.mme
  rw [List.append_assoc]

/-! ## Decoding -/

/-- A packet as a decoder gets it, with other memory behind its data. -/
def MmePacket.received (behind : Nat → UInt8) (packet : MmePacket) : RxPacket :=
  ⟨UInt32.ofNat packet.dataSize, fun i => packet.data.getD i (behind i), packet.srcMacAddr⟩

/-- `hpav_decode_cm_encrypted_payload_ind`, as the fields of each value and its
`sta_mac_addr`. -/
def decodeCmEncryptedPayloads (behind : Nat → UInt8) (packets : List MmePacket) : List (CmEncryptedPayloadMme × Mac) :=
  packets.map fun packet =>
    let (ind, staMacAddr) := (decodeCmEncryptedPayloadInd (packet.received behind)).val
    (ind.toMme, staMacAddr)

/-- The fields read back are the fields laid out. -/
theorem toMme_unencrypted (payload : EncryptedPayload) (data : List UInt8) (length : UInt16) :
    (CmEncryptedPayloadInd.mk payload.unencrypted length data).toMme =
      { payload.toCmEncryptedPayloadMme with encryptedDataLength := length, encryptedData := data } := by
  obtain ⟨⟨peks, avlnStatus, pid, prn, pmn, aesIv, mmeLength, l, d⟩, hiv, hd⟩ := payload
  have hlayout : CmEncryptedPayloadMme.unencrypted ⟨peks, avlnStatus, pid, prn, pmn, aesIv, mmeLength, l, d⟩ =
      [peks, avlnStatus, pid, UInt8.ofNat (prn.toNat % 256), UInt8.ofNat (prn.toNat / 256), pmn] ++
        (aesIv ++ bytes16 mmeLength) := by
    unfold CmEncryptedPayloadMme.unencrypted
    simp only [bytes16, List.cons_append, List.nil_append]
  have hiv16 : aesIv.length = 16 := hiv
  have htail : ∀ i, (aesIv ++ bytes16 mmeLength).getD (16 + i) 0 = (bytes16 mmeLength).getD i 0 := by
    intro i
    rw [getD_drop, List.drop_left' hiv16]
  unfold CmEncryptedPayloadInd.toMme
  simp only [hlayout]
  have hmmeLength : le16 ((aesIv ++ bytes16 mmeLength).getD 16 0) ((aesIv ++ bytes16 mmeLength).getD 17 0) = mmeLength := by
    rw [htail 0, htail 1]
    exact le16_bytes16 mmeLength
  have hprn := le16_bytes16 prn
  have htake : ((aesIv ++ bytes16 mmeLength).drop 0).take 16 = aesIv := List.take_left' hiv16
  congr 1

/-- What is left behind the unencrypted fields is the data. -/
theorem val_decodeCmEncryptedPayloadInd (behind : Nat → UInt8) {header unencrypted : List UInt8} (data : List UInt8)
    (dstMacAddr srcMacAddr : Mac) (hheader : header.length = 5) (hunencrypted : unencrypted.length = 24)
    (hdata : data.length < 65536) :
    (decodeCmEncryptedPayloadInd (MmePacket.received behind
        ⟨(header ++ unencrypted ++ data).length, header ++ unencrypted ++ data, dstMacAddr, srcMacAddr⟩)).val =
      (⟨unencrypted, UInt16.ofNat data.length, data⟩, srcMacAddr) := by
  have hlength : (header ++ unencrypted ++ data).length = 29 + data.length := by
    rw [List.length_append, List.length_append, hheader, hunencrypted]
  have hleft : (UInt32.ofNat (header ++ unencrypted ++ data).length - 5 - 24).toNat = data.length := by
    rw [hlength, UInt32.toNat_sub, UInt32.toNat_sub, UInt32.toNat_ofNat']
    simp only [UInt32.reduceToNat]
    omega
  have hshort : (UInt32.ofNat (header ++ unencrypted ++ data).length - 5 - 24).toUInt16 = UInt16.ofNat data.length := by
    apply UInt16.toNat.inj
    rw [UInt32.toNat_toUInt16, hleft, UInt16.toNat_ofNat']
  have hshortNat : (UInt16.ofNat data.length).toNat = data.length := by
    rw [UInt16.toNat_ofNat', Nat.mod_eq_of_lt hdata]
  have hfields : (copyFrom (fun i => (header ++ unencrypted ++ data).getD i (behind i)) 5 24).val = unencrypted := by
    rw [val_copyFrom_getD _ _ (by rw [hlength]; omega), List.append_assoc, List.drop_left' hheader,
      List.take_left' hunencrypted]
  have hrest : (copyFrom (fun i => (header ++ unencrypted ++ data).getD i (behind i)) 29 data.length).val = data := by
    have hprefix : (header ++ unencrypted).length = 29 := by rw [List.length_append, hheader, hunencrypted]
    rw [val_copyFrom_getD _ _ (by rw [hlength]), List.drop_left' hprefix, List.take_length]
  unfold decodeCmEncryptedPayloadInd decodeMme smartCopyCmEncryptedPayloadInd MmePacket.received
  simp only [val_bind, val_pure, uSub, toShort, mmeHeaderSize, cmEncryptedPayloadUnencryptedSize, hshort, hshortNat,
    hfields, hrest]

/-! ## The way through -/

/-- Encode, frame, reassemble, decode. -/
def payloadExchange (behind : Nat → UInt8) (staMacAddr srcMacAddr : Mac) (payload : CmEncryptedPayloadMme) :
    Except Fault (List (CmEncryptedPayloadMme × Mac)) := do
  let packet ← encodeCmEncryptedPayloadInd staMacAddr srcMacAddr payload
  let frames ← buildFrames packet ethFrameMinSize
  let packets ← defragFrames frames
  .ok (decodeCmEncryptedPayloads behind packets)

/-- A payload whose data is zero-extended to the minimum size. -/
def EncryptedPayload.extended (payload : EncryptedPayload) : CmEncryptedPayloadMme :=
  let data := payload.encryptedData ++ List.replicate (17 - payload.encryptedDataLength.toNat) 0
  { payload.toCmEncryptedPayloadMme with encryptedDataLength := UInt16.ofNat data.length, encryptedData := data }

/-- What is decoded of the frame of a payload. -/
theorem decode_payloadFrame (behind : Nat → UInt8) {dstMacAddr srcMacAddr : Mac} {payload : EncryptedPayload}
    (h : payload.encryptedDataLength.toNat ≤ 1471)
    (harea : (frameBytes dstMacAddr srcMacAddr payload.mme ethFrameMinSize).length ≤ ethFrameArea) :
    ∃ packet, defragFrames [EthFrame.ofCapture (frameBytes dstMacAddr srcMacAddr payload.mme ethFrameMinSize) harea] =
        .ok [packet] ∧
      (decodeCmEncryptedPayloadInd (packet.received behind)).val =
        (⟨payload.unencrypted, payload.extended.encryptedDataLength, payload.extended.encryptedData⟩, srcMacAddr) := by
  have hpad : ethFrameMinSize.val - (ethHeaderSize + payload.mme.length) = 17 - payload.encryptedDataLength.toNat := by
    rw [payload.length_mme]
    simp only [ethFrameMinSize, ethHeaderSize]
    omega
  have hpadded : paddedMme payload.mme ethFrameMinSize = mmeHeader 0x6006 ++ payload.unencrypted ++
      (payload.encryptedData ++ List.replicate (17 - payload.encryptedDataLength.toNat) 0) := by
    unfold paddedMme
    rw [hpad]
    unfold EncryptedPayload.mme
    rw [List.append_assoc _ payload.encryptedData]
  have hdata : (payload.encryptedData ++ List.replicate (17 - payload.encryptedDataLength.toNat) 0).length < 65536 := by
    rw [List.length_append, payload.length_encryptedData, List.length_replicate]
    omega
  have hheader : (mmeHeader 0x6006).length = 5 := rfl
  refine ⟨_, defragFrames_frameBytes _ (by rw [payload.length_mme]; omega) rfl, ?_⟩
  rw [hpadded]
  exact val_decodeCmEncryptedPayloadInd behind _ dstMacAddr srcMacAddr hheader payload.length_unencrypted hdata

theorem payloadExchange_fits (behind : Nat → UInt8) (staMacAddr srcMacAddr : Mac) (payload : EncryptedPayload)
    (h : payload.encryptedDataLength.toNat ≤ 1471) :
    payloadExchange behind staMacAddr srcMacAddr payload.toCmEncryptedPayloadMme =
      .ok [(payload.extended, srcMacAddr)] := by
  have hfits : payload.mme.length ≤ ethFrameMaxPayload := by
    rw [payload.length_mme]
    simp only [ethFrameMaxPayload]
    omega
  rcases decode_payloadFrame behind h (length_frameBytes_le staMacAddr srcMacAddr ethFrameMinSize hfits) with
    ⟨packet, hdefrag, hval⟩
  unfold payloadExchange
  rw [encodeCmEncryptedPayloadInd_eq, bind_ok, buildFrames_fits _ _ _ hfits, bind_ok, hdefrag, bind_ok]
  unfold decodeCmEncryptedPayloads
  rw [List.map_cons, List.map_nil, hval]
  simp only [toMme_unencrypted]
  rfl

/-- Beyond that nothing is sent. -/
theorem payloadExchange_tooLong (behind : Nat → UInt8) (staMacAddr srcMacAddr : Mac) (payload : EncryptedPayload)
    (h : 1471 < payload.encryptedDataLength.toNat) :
    payloadExchange behind staMacAddr srcMacAddr payload.toCmEncryptedPayloadMme = .ok [] := by
  have hlarge : ethFrameMaxPayload < payload.mme.length := by
    rw [payload.length_mme]
    simp only [ethFrameMaxPayload]
    omega
  unfold payloadExchange
  rw [encodeCmEncryptedPayloadInd_eq, bind_ok, buildFrames_tooLarge _ hlarge]
  rfl

theorem EncryptedPayload.extended_of_long {payload : EncryptedPayload} (h : 17 ≤ payload.encryptedDataLength.toNat) :
    payload.extended = payload.toCmEncryptedPayloadMme := by
  have hdata : payload.encryptedData ++ List.replicate (17 - payload.encryptedDataLength.toNat) 0 =
      payload.encryptedData := by
    rw [Nat.sub_eq_zero_of_le h, List.replicate_zero, List.append_nil]
  have hlength : UInt16.ofNat payload.encryptedData.length = payload.encryptedDataLength := by
    rw [payload.length_encryptedData, UInt16.ofNat_toNat]
  unfold EncryptedPayload.extended
  simp only [hdata, hlength]

theorem EncryptedPayload.extended_of_short {payload : EncryptedPayload} (h : payload.encryptedDataLength.toNat < 17) :
    payload.extended = { payload.toCmEncryptedPayloadMme with
      encryptedDataLength := 17
      encryptedData := payload.encryptedData ++ List.replicate (17 - payload.encryptedDataLength.toNat) 0 } := by
  have hlength : (payload.encryptedData ++ List.replicate (17 - payload.encryptedDataLength.toNat) 0).length = 17 := by
    rw [List.length_append, payload.length_encryptedData, List.length_replicate]
    omega
  unfold EncryptedPayload.extended
  simp only [hlength]
  rfl

/-- A payload that fits one frame arrives as it was sent, from the address it was sent from;
data below the minimum size arrives zero-extended. -/
theorem payloadExchange_roundTrip (behind : Nat → UInt8) (staMacAddr srcMacAddr : Mac) (payload : EncryptedPayload) :
    (17 ≤ payload.encryptedDataLength.toNat → payload.encryptedDataLength.toNat ≤ 1471 →
      payloadExchange behind staMacAddr srcMacAddr payload.toCmEncryptedPayloadMme =
        .ok [(payload.toCmEncryptedPayloadMme, srcMacAddr)]) ∧
    (payload.encryptedDataLength.toNat < 17 →
      payloadExchange behind staMacAddr srcMacAddr payload.toCmEncryptedPayloadMme =
        .ok [({ payload.toCmEncryptedPayloadMme with
          encryptedDataLength := 17
          encryptedData := payload.encryptedData ++
            List.replicate (17 - payload.encryptedDataLength.toNat) 0 }, srcMacAddr)]) := by
  constructor
  · intro hlong hfits
    rw [payloadExchange_fits behind staMacAddr srcMacAddr payload hfits, EncryptedPayload.extended_of_long hlong]
  · intro hshort
    rw [payloadExchange_fits behind staMacAddr srcMacAddr payload (by omega), EncryptedPayload.extended_of_short hshort]

/-- The ciphertext of a CM_SET_KEY.REQ, 80 bytes. -/
def setKeyPayload : EncryptedPayload where
  peks := 0
  avlnStatus := 0
  pid := 0x04
  prn := 0x0001
  pmn := 0x05
  aesIv := initialIv
  mmeLength := 60
  encryptedDataLength := 80
  encryptedData := setKeyCiphertext
  length_aesIv := rfl
  length_encryptedData := rfl

theorem payloadExchange_setKey :
    payloadExchange (fun _ => 0xAA) secondStation firstStation setKeyPayload.toCmEncryptedPayloadMme =
      .ok [(setKeyPayload.toCmEncryptedPayloadMme, firstStation)] :=
  (payloadExchange_roundTrip (fun _ => 0xAA) secondStation firstStation setKeyPayload).1 (by decide) (by decide)

end Hpav
