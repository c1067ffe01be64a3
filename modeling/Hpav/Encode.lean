import Mathlib.Tactic.Common
import Hpav.Channel
import Hpav.Encrypt

/-!
# Encoding requests

The encoders of `hpav_mme.c` and `hpav_mtk_mme.c`, and `hpav_build_frames`. An encoder
computes the size of its MME, allocates as much and copies a header and the request into it.
An MME that is too large for one frame leads to no frame at all, and not to an error.
-/

namespace Hpav

open CMem

/-! ## Framing -/

/-- `ETH_FRAME_MAX_PAYLOAD` -/
abbrev ethFrameMaxPayload : Nat := 1500

/-- A minimum size of frames: the structure has as many bytes. -/
abbrev MinSize := {size : Nat // size ≤ ethFrameArea}

/-- `ETH_FRAME_MIN_SIZE` -/
def ethFrameMinSize : MinSize :=
  ⟨60, by decide⟩

/-- No minimum. -/
def noMinSize : MinSize :=
  ⟨0, by decide⟩

/-- A frame is not sent with fewer bytes. -/
def EthFrame.padTo (frame : EthFrame) (minSize : MinSize) : EthFrame :=
  if frame.frameSize < minSize.val then { frame with frameSize := minSize.val, size_le := minSize.property } else frame

/-- The Ethernet type of MMEs. -/
def mmeEtherType : List UInt8 :=
  [0x88, 0xE1]

/-- `hpav_build_frames`. Fragmentation is not supported: there is one frame, or none. -/
def buildFrames (packet : MmePacket) (minSize : MinSize) : Except Fault (List EthFrame) :=
  if packet.dataSize ≤ ethFrameMaxPayload then do
    let mmeData ← load packet.data 0 packet.dataSize
    let newFrame ← copyPacket (packet.dstMacAddr.bytes ++ packet.srcMacAddr.bytes ++ mmeEtherType ++ mmeData)
    .ok [newFrame.padTo minSize]
  else
    .ok []

/-! ## The encoders -/

/-- The header of a standard MME. -/
def mmeHeader (mmtype : UInt16) : List UInt8 :=
  [0x01] ++ bytes16 mmtype ++ [0x00, 0x00]

/-- The header of a vendor-specific MME. -/
def mtkMmeHeader (mmtype : UInt16) : List UInt8 :=
  mmeHeader mmtype ++ [0x00, 0x13, 0xD7]

/-- The packet of an MME: its header and its content are copied into `mme_size` fresh bytes. -/
def newPacket (staMacAddr srcMacAddr : Mac) (mmeSize : Nat) (header content : List UInt8) : Except Fault MmePacket := do
  let newMme ← store (mallocBuf mmeSize) 0 header
  let newMme ← store newMme header.length content
  .ok ⟨mmeSize, contents newMme, staMacAddr, srcMacAddr⟩

/-- A request structure of fixed size, as it lies in memory. -/
abbrev RequestOf (size : Nat) := {bytes : List UInt8 // bytes.length = size}

/-- `HPAV_ENCODE_MME_IMPL` -/
def encodeMme (size : Nat) (mmtype : UInt16) (staMacAddr srcMacAddr : Mac) (request : RequestOf size) :
    Except Fault MmePacket :=
  newPacket staMacAddr srcMacAddr (mmeHeaderSize + size) (mmeHeader mmtype) request.val

/-- `HPAV_ENCODE_MTK_MME_IMPL` -/
def encodeMtkMme (size : Nat) (mmtype : UInt16) (staMacAddr srcMacAddr : Mac) (request : RequestOf size) :
    Except Fault MmePacket :=
  newPacket staMacAddr srcMacAddr (mtkMmeHeaderSize + size) (mtkMmeHeader mmtype) request.val

/-- `struct hpav_cm_set_key_req` -/
abbrev CmSetKeyReq := RequestOf 38

def encodeCmSetKeyReq := encodeMme 38 0x6008

/-- `struct hpav_cm_amp_map_req` -/
structure CmAmpMapReq where
  mapLength : UInt16
  mapData : List UInt8
  length_mapData : mapData.length = 2000

/-- The bytes of a map: two of its entries are one byte. -/
def CmAmpMapReq.mapDataSize (request : CmAmpMapReq) : Nat :=
  request.mapLength.toNat / 2 + request.mapLength.toNat % 2

/-- `hpav_encode_cm_amp_map_req` -/
def encodeCmAmpMapReq (staMacAddr srcMacAddr : Mac) (request : CmAmpMapReq) : Except Fault MmePacket := do
  let mmeSize := mmeHeaderSize + 2 + request.mapDataSize
  let mapData ← load request.mapData 0 request.mapDataSize
  newPacket staMacAddr srcMacAddr mmeSize (mmeHeader 0x601C) (bytes16 request.mapLength ++ mapData)

/-- The bytes of the structure in front of `encrypted_data_length`. -/
def CmEncryptedPayloadMme.unencrypted (mme : CmEncryptedPayloadMme) : List UInt8 :=
  [mme.peks, mme.avlnStatus, mme.pid] ++ bytes16 mme.prn ++ [mme.pmn] ++ mme.aesIv ++ bytes16 mme.mmeLength

/-- `hpav_encode_cm_encrypted_payload_ind` -/
def encodeCmEncryptedPayloadInd (staMacAddr srcMacAddr : Mac) (request : CmEncryptedPayloadMme) :
    Except Fault MmePacket := do
  let mmeSize := mmeHeaderSize + 24 + request.encryptedDataLength.toNat
  let unencrypted ← load request.unencrypted 0 24
  let encrypted ← load request.encryptedData 0 request.encryptedDataLength.toNat
  newPacket staMacAddr srcMacAddr mmeSize (mmeHeader 0x6006) (unencrypted ++ encrypted)

def encodeMtkVsSetNvramReq := encodeMtkMme 1031 0xA104
def encodeMtkVsGetVersionReq := encodeMtkMme 4 0xA000
def encodeMtkVsResetReq := encodeMtkMme 4 0xA008
def encodeMtkVsResetInd := encodeMtkMme 4 0xA00A
def encodeMtkVsGetNvramReq := encodeMtkMme 1 0xA108
def encodeMtkVsGetTonemaskReq := encodeMtkMme 6 0xA01C
def encodeMtkVsGetEthPhyReq := encodeMtkMme 4 0xA020
def encodeMtkVsEthStatsReq := encodeMtkMme 1 0xA024
def encodeMtkVsGetStatusReq := encodeMtkMme 4 0xA030
def encodeMtkVsGetTonemapReq := encodeMtkMme 10 0xA034
def encodeMtkVsSetCaptureStateReq := encodeMtkMme 9 0xA100
def encodeMtkVsGetSnrReq := encodeMtkMme 9 0xA038
def encodeMtkVsGetLinkStatsReq := encodeMtkMme 11 0xA040
def encodeMtkVsGetPwmStatsReq := encodeMtkMme 4 0xA10C
def encodeMtkVsGetPwmConfReq := encodeMtkMme 4 0xA110
def encodeMtkVsSetPwmConfReq := encodeMtkMme 15 0xA114
def encodeMtkVsPwmGenerationReq := encodeMtkMme 5 0xA118
def encodeMtkVsFileAccessReq := encodeMtkMme 1072 0xA4FC
def encodeMtkVsGetNwInfoReq := encodeMtkMme 4 0xA0FC
def encodeMtkVsSpiStatsReq := encodeMtkMme 1 0xA11C
def encodeMtkVsSetTxCaliReq := encodeMtkMme 1 0xA128
def encodeVcVsSetSnifferConfReq := encodeMtkMme 1 0xA138
def encodeVcVsSetRemoteAccessReq := encodeMtkMme 1 0xA13C
def encodeVcVsGetRemoteAccessReq := encodeMtkMme 4 0xA140

/-- What `hpav_send_raw_mme` is called with: a header, and data whose size is an `unsigned int`. -/
structure RawMme where
  header : RequestOf mmeHeaderSize
  mmeData : List UInt8
  length_lt : mmeData.length < 2 ^ 32

/-- The packet of `hpav_send_raw_mme`. The size of the MME is computed unsigned. -/
def encodeRawMme (staMacAddr srcMacAddr : Mac) (raw : RawMme) : Except Fault MmePacket :=
  newPacket staMacAddr srcMacAddr ((mmeHeaderSize + raw.mmeData.length) % 2 ^ 32) raw.header.val raw.mmeData

/-! ## What they make -/

/-- An MME that fills the bytes allocated for it. -/
theorem newPacket_eq (staMacAddr srcMacAddr : Mac) {mmeSize : Nat} {header content : List UInt8}
    (h : header.length + content.length = mmeSize) :
    newPacket staMacAddr srcMacAddr mmeSize header content =
      .ok ⟨mmeSize, header ++ content, staMacAddr, srcMacAddr⟩ := by
  have hfields := storeFields_malloc [header, content] mmeSize (by simpa using h)
  unfold storeFields storeFields storeFields at hfields
  rw [Nat.zero_add] at hfields
  unfold newPacket
  cases hheader : store (mallocBuf mmeSize) 0 header with
  | error e =>
    rw [hheader] at hfields
    cases hfields
  | ok newMme =>
    rw [hheader, bind_ok, bind_ok_right] at hfields
    rw [bind_ok, hfields, bind_ok, contents_once]
    simp

/-- Too few bytes are overrun. -/
theorem newPacket_overrun (staMacAddr srcMacAddr : Mac) {mmeSize : Nat} {header content : List UInt8}
    (h : mmeSize < header.length + content.length) :
    ∃ e, newPacket staMacAddr srcMacAddr mmeSize header content = .error e := by
  unfold newPacket
  cases hheader : store (mallocBuf mmeSize) 0 header with
  | error e => exact ⟨e, rfl⟩
  | ok newMme =>
    refine ⟨.outOfBounds, ?_⟩
    have hlength := length_store hheader
    rw [length_mallocBuf] at hlength
    rw [bind_ok]
    unfold store
    rw [if_neg (by omega)]
    rfl

/-- The bytes of a frame: the Ethernet header, the MME, and zeros up to the minimum size. -/
def frameBytes (dstMacAddr srcMacAddr : Mac) (mme : List UInt8) (minSize : MinSize) : List UInt8 :=
  dstMacAddr.bytes ++ srcMacAddr.bytes ++ mmeEtherType ++ mme ++
    List.replicate (minSize.val - (ethHeaderSize + mme.length)) 0

theorem length_ethHeader (dstMacAddr srcMacAddr : Mac) :
    (dstMacAddr.bytes ++ srcMacAddr.bytes ++ mmeEtherType).length = ethHeaderSize := by
  rw [List.length_append, List.length_append, dstMacAddr.length_eq, srcMacAddr.length_eq]
  rfl

theorem length_frameBytes (dstMacAddr srcMacAddr : Mac) (mme : List UInt8) (minSize : MinSize) :
    (frameBytes dstMacAddr srcMacAddr mme minSize).length = max (ethHeaderSize + mme.length) minSize.val := by
  unfold frameBytes
  rw [List.length_append, List.length_append, length_ethHeader, List.length_replicate]
  omega

theorem length_frameBytes_le (dstMacAddr srcMacAddr : Mac) {mme : List UInt8} (minSize : MinSize)
    (h : mme.length ≤ ethFrameMaxPayload) :
    (frameBytes dstMacAddr srcMacAddr mme minSize).length ≤ ethFrameArea := by
  have hmin := minSize.property
  rw [length_frameBytes]
  simp only [ethFrameMaxPayload, ethFrameArea, ethHeaderSize] at h hmin ⊢
  omega

/-- A padded frame is a capture of the padded bytes. -/
theorem padTo_ofCapture {bytes : List UInt8} (h : bytes.length ≤ ethFrameArea) (minSize : MinSize)
    (h' : (bytes ++ List.replicate (minSize.val - bytes.length) 0).length ≤ ethFrameArea) :
    (EthFrame.ofCapture bytes h).padTo minSize =
      EthFrame.ofCapture (bytes ++ List.replicate (minSize.val - bytes.length) 0) h' := by
  unfold EthFrame.padTo EthFrame.ofCapture
  simp only
  split
  · rename_i hlt
    congr 1
    · rw [List.append_assoc, List.replicate_append_replicate, List.length_append, List.length_replicate]
      congr 2
      rw [List.length_append, List.length_replicate] at h'
      omega
    · rw [List.length_append, List.length_replicate]
      omega
  · rename_i hnot
    have hzero : minSize.val - bytes.length = 0 := by omega
    simp [hzero]

/-- An MME that fits is sent in one frame. -/
theorem buildFrames_fits (dstMacAddr srcMacAddr : Mac) {mme : List UInt8} (minSize : MinSize)
    (h : mme.length ≤ ethFrameMaxPayload) :
    buildFrames ⟨mme.length, mme, dstMacAddr, srcMacAddr⟩ minSize =
      .ok [EthFrame.ofCapture (frameBytes dstMacAddr srcMacAddr mme minSize)
        (length_frameBytes_le dstMacAddr srcMacAddr minSize h)] := by
  have hlength : (dstMacAddr.bytes ++ srcMacAddr.bytes ++ mmeEtherType ++ mme).length = ethHeaderSize + mme.length := by
    rw [List.length_append, length_ethHeader]
  have harea : (dstMacAddr.bytes ++ srcMacAddr.bytes ++ mmeEtherType ++ mme).length ≤ ethFrameArea := by
    rw [hlength]
    simp only [ethFrameMaxPayload, ethFrameArea, ethHeaderSize] at h ⊢
    omega
  have hload : load mme 0 mme.length = .ok mme := by
    rw [load_ok (by omega), List.drop_zero, List.take_length]
  unfold buildFrames
  rw [if_pos h]
  show load mme 0 mme.length >>= _ = _
  rw [hload, bind_ok]
  unfold copyPacket
  rw [dif_pos harea, bind_ok, padTo_ofCapture harea minSize (by
    rw [hlength]
    exact length_frameBytes_le dstMacAddr srcMacAddr minSize h)]
  unfold frameBytes
  simp only [hlength]

/-- An MME that does not fit is not sent. -/
theorem buildFrames_tooLarge {packet : MmePacket} (minSize : MinSize) (h : ethFrameMaxPayload < packet.dataSize) :
    buildFrames packet minSize = .ok [] := by
  unfold buildFrames
  rw [if_neg (by omega)]

end Hpav
