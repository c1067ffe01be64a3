import Mathlib.Tactic.Common
import Hpav.Lib.MemTrace
import Hpav.Frame

/-!
# Decoding confirmations

The decoders of `hpav_mme.c` and `hpav_mtk_mme.c`: what the macros
`HPAV_DECODE_MME_IMPL` and `HPAV_DECODE_MTK_MME_IMPL` and the smart copies under them
read of one received packet. A smart copy gets a pointer into the packet's data and the
length that is left there.
-/

namespace Hpav

open MemTrace

/-- A received packet as a decoder sees it: the memory from `data` on, of which only the
first `data_size` bytes are the packet's. -/
structure RxPacket where
  dataSize : UInt32
  mem : Nat → UInt8
  srcMacAddr : Mac

/-- `hpav_smart_copy_*`: the memory, the offset `mme_data` points at, `mme_data_size`. -/
abbrev SmartCopy (α : Type) := (Nat → UInt8) → Nat → UInt32 → Trace α

/-! ## The two decoder macros -/

/-- The loop body of `HPAV_DECODE_MME_IMPL`: the standard header is skipped, the copy and
the address of the sender make up the user level MME. -/
def decodeMme {α : Type} (smartCopy : SmartCopy α) (packet : RxPacket) : Trace (α × Mac) := do
  let mmeDataSize ← uSub packet.dataSize 5
  let newMme ← smartCopy packet.mem mmeHeaderSize mmeDataSize
  return (newMme, packet.srcMacAddr)

/-- The loop body of `HPAV_DECODE_MTK_MME_IMPL`: the OUI is skipped as well. -/
def decodeMtkMme {α : Type} (smartCopy : SmartCopy α) (packet : RxPacket) : Trace (α × Mac) := do
  let mmeDataSize ← uSub packet.dataSize 5
  let mmeDataSize ← uSub mmeDataSize 3
  let newMme ← smartCopy packet.mem mtkMmeHeaderSize mmeDataSize
  return (newMme, packet.srcMacAddr)

/-- `HPAV_SMART_COPY_IMPL` for a structure of `size` bytes in front of the station address
and the link. The length received is ignored. -/
def smartCopyImpl (size : Nat) : SmartCopy (List UInt8) := fun mem mmeData _ =>
  copyFrom mem mmeData size

/-! ## Confirmations of fixed size -/

def decodeCmSetKeyCnf := decodeMme (smartCopyImpl 14)
def decodeCmAmpMapCnf := decodeMme (smartCopyImpl 1)
def decodeMtkVsSetNvramCnf := decodeMtkMme (smartCopyImpl 1)
def decodeMtkVsGetVersionCnf := decodeMtkMme (smartCopyImpl 164)
def decodeMtkVsResetCnf := decodeMtkMme (smartCopyImpl 1)
def decodeMtkVsResetRsp := decodeMtkMme (smartCopyImpl 0)
def decodeMtkVsGetNvramCnf := decodeMtkMme (smartCopyImpl 1028)
def decodeMtkVsGetTonemaskCnf := decodeMtkMme (smartCopyImpl 513)
def decodeMtkVsGetEthPhyCnf := decodeMtkMme (smartCopyImpl 5)
def decodeMtkVsEthStatsCnf := decodeMtkMme (smartCopyImpl 65)
def decodeMtkVsGetStatusCnf := decodeMtkMme (smartCopyImpl 43)
def decodeMtkVsGetLinkStatsCnf := decodeMtkMme (smartCopyImpl 66)
def decodeMtkVsSetCaptureStateCnf := decodeMtkMme (smartCopyImpl 1)
def decodeMtkVsSpiStatsCnf := decodeMtkMme (smartCopyImpl 63)
def decodeMtkVsPwmGenerationCnf := decodeMtkMme (smartCopyImpl 1)
def decodeVcVsSetSnifferConfCnf := decodeMtkMme (smartCopyImpl 2)
def decodeVcVsSetRemoteAccessCnf := decodeMtkMme (smartCopyImpl 1)
def decodeVcVsGetRemoteAccessCnf := decodeMtkMme (smartCopyImpl 1)

/-! ## Confirmations with a copy of their own -/

structure VsGetPwmStatsCnf where
  mstatus : UInt8
  pwmFreq : UInt16
  pwmDutyCycle : UInt16
  pwmVolt : UInt16
  pwmSaradc : UInt16

def smartCopyMtkVsGetPwmStatsCnf : SmartCopy VsGetPwmStatsCnf := fun mem mmeData _ => do
  let mstatus ← byteAt mem mmeData
  let mmeData := mmeData + 1
  let pwmFreq ← shortAt mem mmeData
  let mmeData := mmeData + 2
  let pwmDutyCycle ← shortAt mem mmeData
  let mmeData := mmeData + 2
  let pwmVolt ← shortAt mem mmeData
  let mmeData := mmeData + 2
  let pwmSaradc ← shortAt mem mmeData
  return { mstatus, pwmFreq, pwmDutyCycle, pwmVolt, pwmSaradc }

structure VsGetPwmConfCnf where
  pwmMode : UInt8
  pwmMeasures : UInt8
  pwmPeriod : UInt16
  pwmFreqThr : UInt16
  pwmDutyCycleThr : UInt16
  pwmVoltThr : UInt16
  pwmSaradcLsb : UInt16
  pwmVoltageBias : UInt16

def smartCopyMtkVsGetPwmConfCnf : SmartCopy VsGetPwmConfCnf := fun mem mmeData _ => do
  let pwmMode ← byteAt mem mmeData
  let mmeData := mmeData + 1
  let pwmMeasures ← byteAt mem mmeData
  let mmeData := mmeData + 1
  let pwmPeriod ← shortAt mem mmeData
  let mmeData := mmeData + 2
  let pwmFreqThr ← shortAt mem mmeData
  let mmeData := mmeData + 2
  let pwmDutyCycleThr ← shortAt mem mmeData
  let mmeData := mmeData + 2
  let pwmVoltThr ← shortAt mem mmeData
  let mmeData := mmeData + 2
  let pwmSaradcLsb ← shortAt mem mmeData
  let mmeData := mmeData + 2
  let pwmVoltageBias ← shortAt mem mmeData
  return { pwmMode, pwmMeasures, pwmPeriod, pwmFreqThr, pwmDutyCycleThr, pwmVoltThr,
           pwmSaradcLsb, pwmVoltageBias }

def smartCopyMtkVsSetPwmConfCnf : SmartCopy UInt8 := fun mem mmeData _ =>
  byteAt mem mmeData

def smartCopyMtkVsSetTxCaliCnf : SmartCopy UInt8 := fun mem mmeData _ =>
  byteAt mem mmeData

structure VsSetTxCaliInd where
  spectrumIdx : UInt16
  result : List UInt8

/-- `SNIF_GP_CAL_NUM_OF_SPECTRUM` -/
abbrev snifGpCalNumOfSpectrum : Nat := 1155

def smartCopyMtkVsSetTxCaliInd : SmartCopy VsSetTxCaliInd := fun mem mmeData _ => do
  let spectrumIdx ← shortAt mem mmeData
  let mmeData := mmeData + 2
  let result ← copyFrom mem mmeData snifGpCalNumOfSpectrum
  return { spectrumIdx, result }

/-- The whole rest of the packet is copied over the structure. -/
def smartCopyMtkVsFileAccessCnf : SmartCopy (List UInt8) := fun mem mmeData mmeDataSize =>
  copyFrom mem mmeData mmeDataSize.toNat

/-- `HPAV_CM_ENCRYPTED_PAYLOAD_UNENCRYPTED_SIZE` -/
abbrev cmEncryptedPayloadUnencryptedSize : Nat := 24

structure CmEncryptedPayloadInd where
  unencrypted : List UInt8
  encryptedDataLength : UInt16
  encryptedData : List UInt8

def smartCopyCmEncryptedPayloadInd : SmartCopy CmEncryptedPayloadInd :=
  fun mem mmeData mmeDataSize => do
    let unencrypted ← copyFrom mem mmeData cmEncryptedPayloadUnencryptedSize
    let size ← uSub mmeDataSize 24
    let encryptedDataLength ← toShort size
    let encryptedData ← copyFrom mem (mmeData + cmEncryptedPayloadUnencryptedSize)
      encryptedDataLength.toNat
    return { unencrypted, encryptedDataLength, encryptedData }

structure VsGetNwInfoCnf where
  nid : List UInt8
  snid : UInt8
  ccoTei : UInt8
  ccoMacAddr : List UInt8
  numNws : UInt8
  nwinfo : List UInt8

/-- `sizeof(struct hpav_mtk_vs_get_nw_info_entry)` -/
abbrev nwInfoEntrySize : Nat := 16

/-- The entries, if there are any. -/
def copyNwinfo (mem : Nat → UInt8) (mmeData : Nat) (numNws : UInt8) : Trace (List UInt8) :=
  if numNws ≠ 0 then copyFrom mem mmeData (numNws.toNat * nwInfoEntrySize) else pure []

def smartCopyMtkVsGetNwInfoCnf : SmartCopy VsGetNwInfoCnf := fun mem mmeData _ => do
  let nid ← copyFrom mem mmeData 7
  let mmeData := mmeData + 7
  let snid ← byteAt mem mmeData
  let mmeData := mmeData + 1
  let ccoTei ← byteAt mem mmeData
  let mmeData := mmeData + 1
  let ccoMacAddr ← copyFrom mem mmeData 6
  let mmeData := mmeData + 6
  let numNws ← byteAt mem mmeData
  let mmeData := mmeData + 1
  let nwinfo ← copyNwinfo mem mmeData numNws
  return { nid, snid, ccoTei, ccoMacAddr, numNws, nwinfo }

structure VsGetSnrCnf where
  result : UInt8
  intId : UInt8
  intLength : UInt8
  intData : List UInt8
  tmBer : UInt16
  carrierGroup : UInt8
  snrList : List UInt8

/-- `MTK_SNR_LIST_MAX_SIZE` -/
abbrev mtkSnrListMaxSize : Nat := 1024

def smartCopyMtkVsGetSnrCnf : SmartCopy VsGetSnrCnf := fun mem mmeData _ => do
  let result ← byteAt mem mmeData
  let mmeData := mmeData + 1
  let intId ← byteAt mem mmeData
  let mmeData := mmeData + 1
  let intLength ← byteAt mem mmeData
  let mmeData := mmeData + 1
  let intData ← copyFrom mem mmeData (intLength.toNat * 2)
  let mmeData := mmeData + intLength.toNat * 2
  let tmBer ← shortAt mem mmeData
  let mmeData := mmeData + 2
  let carrierGroup ← byteAt mem mmeData
  let mmeData := mmeData + 1
  let snrList ← copyFrom mem mmeData mtkSnrListMaxSize
  return { result, intId, intLength, intData, tmBer, carrierGroup, snrList }

structure VsGetTonemapCnf where
  result : UInt8
  beaconDelta : UInt32
  intId : UInt8
  tmiDefault : UInt8
  tmiLength : UInt8
  tmiData : List UInt8
  intLength : UInt8
  intData : List UInt8
  tmi : UInt8
  tmRxGain : UInt8
  tmFec : UInt8
  tmGi : UInt8
  tmPhyRate : UInt32
  carrierGroup : UInt8
  tonemapLength : UInt16
  modulationList : List UInt8

/-- `MTK_MODULATION_LIST_MAX_SIZE` -/
abbrev mtkModulationListMaxSize : Nat := 2048

/-- `sizeof(struct hpav_mtk_tonemap_int_entry)` -/
abbrev tonemapIntEntrySize : Nat := 10

/-- What is left of the packet is the modulation list. -/
def copyModulationList (mem : Nat → UInt8) (mmeData : Nat) (leftMmeDataSize : UInt32) :
    Trace (List UInt8) :=
  if leftMmeDataSize > 0 then copyFrom mem mmeData leftMmeDataSize.toNat else pure []

def smartCopyMtkVsGetTonemapCnf : SmartCopy VsGetTonemapCnf := fun mem mmeData mmeDataSize => do
  let leftMmeDataSize := mmeDataSize
  -- fixed fields at the beginning of the structure
  let result ← byteAt mem mmeData
  let mmeData := mmeData + 1
  let leftMmeDataSize ← uSub leftMmeDataSize 1
  let beaconDelta ← wordAt mem mmeData
  let mmeData := mmeData + 4
  let leftMmeDataSize ← uSub leftMmeDataSize 4
  let intId ← byteAt mem mmeData
  let mmeData := mmeData + 1
  let leftMmeDataSize ← uSub leftMmeDataSize 1
  let tmiDefault ← byteAt mem mmeData
  let mmeData := mmeData + 1
  let leftMmeDataSize ← uSub leftMmeDataSize 1
  -- variable size arrays
  let tmiLength ← byteAt mem mmeData
  let mmeData := mmeData + 1
  let leftMmeDataSize ← uSub leftMmeDataSize 1
  let tmiData ← copyFrom mem mmeData tmiLength.toNat
  let mmeData := mmeData + tmiLength.toNat
  let leftMmeDataSize ← uSub leftMmeDataSize tmiLength.toUInt32
  let intLength ← byteAt mem mmeData
  let mmeData := mmeData + 1
  let leftMmeDataSize ← uSub leftMmeDataSize 1
  let intData ← copyFrom mem mmeData (intLength.toNat * tonemapIntEntrySize)
  let mmeData := mmeData + intLength.toNat * tonemapIntEntrySize
  let leftMmeDataSize ← uSub leftMmeDataSize (intLength.toUInt32 * 10)
  -- other fixed fields
  let tmi ← byteAt mem mmeData
  let mmeData := mmeData + 1
  let leftMmeDataSize ← uSub leftMmeDataSize 1
  let tmRxGain ← byteAt mem mmeData
  let mmeData := mmeData + 1
  let leftMmeDataSize ← uSub leftMmeDataSize 1
  let tmFec ← byteAt mem mmeData
  let mmeData := mmeData + 1
  let leftMmeDataSize ← uSub leftMmeDataSize 1
  let tmGi ← byteAt mem mmeData
  let mmeData := mmeData + 1
  let leftMmeDataSize ← uSub leftMmeDataSize 1
  let tmPhyRate ← wordAt mem mmeData
  let mmeData := mmeData + 4
  let leftMmeDataSize ← uSub leftMmeDataSize 4
  let carrierGroup ← byteAt mem mmeData
  let mmeData := mmeData + 1
  let leftMmeDataSize ← uSub leftMmeDataSize 1
  -- modulation list
  let tonemapLength ← shortAt mem mmeData
  let mmeData := mmeData + 2
  let leftMmeDataSize ← uSub leftMmeDataSize 2
  let modulation ← copyModulationList mem mmeData leftMmeDataSize
  return { result, beaconDelta, intId, tmiDefault, tmiLength, tmiData, intLength, intData, tmi,
           tmRxGain, tmFec, tmGi, tmPhyRate, carrierGroup, tonemapLength,
           modulationList :=
             modulation ++ List.replicate (mtkModulationListMaxSize - modulation.length) 0 }

def decodeMtkVsGetPwmStatsCnf := decodeMtkMme smartCopyMtkVsGetPwmStatsCnf
def decodeMtkVsGetPwmConfCnf := decodeMtkMme smartCopyMtkVsGetPwmConfCnf
def decodeMtkVsSetPwmConfCnf := decodeMtkMme smartCopyMtkVsSetPwmConfCnf
def decodeMtkVsSetTxCaliCnf := decodeMtkMme smartCopyMtkVsSetTxCaliCnf
def decodeMtkVsSetTxCaliInd := decodeMtkMme smartCopyMtkVsSetTxCaliInd
def decodeMtkVsFileAccessCnf := decodeMtkMme smartCopyMtkVsFileAccessCnf
def decodeCmEncryptedPayloadInd := decodeMme smartCopyCmEncryptedPayloadInd
def decodeMtkVsGetNwInfoCnf := decodeMtkMme smartCopyMtkVsGetNwInfoCnf
def decodeMtkVsGetSnrCnf := decodeMtkMme smartCopyMtkVsGetSnrCnf
def decodeMtkVsGetTonemapCnf := decodeMtkMme smartCopyMtkVsGetTonemapCnf

/-! ## All decoders -/

/-- The confirmations and indications there is a decoder for. -/
inductive Confirmation where
  | cmEncryptedPayloadInd
  | cmSetKeyCnf
  | cmAmpMapCnf
  | mtkVsSetNvramCnf
  | mtkVsGetVersionCnf
  | mtkVsResetCnf
  | mtkVsResetRsp
  | mtkVsGetNvramCnf
  | mtkVsGetTonemaskCnf
  | mtkVsGetEthPhyCnf
  | mtkVsEthStatsCnf
  | mtkVsGetStatusCnf
  | mtkVsGetTonemapCnf
  | mtkVsSetCaptureStateCnf
  | mtkVsGetSnrCnf
  | mtkVsGetLinkStatsCnf
  | mtkVsGetNwInfoCnf
  | mtkVsGetPwmStatsCnf
  | mtkVsGetPwmConfCnf
  | mtkVsSetPwmConfCnf
  | mtkVsSpiStatsCnf
  | mtkVsPwmGenerationCnf
  | mtkVsFileAccessCnf
  | mtkVsSetTxCaliCnf
  | mtkVsSetTxCaliInd
  | vcVsSetSnifferConfCnf
  | vcVsGetRemoteAccessCnf
  | vcVsSetRemoteAccessCnf
  deriving DecidableEq, Repr

/-- What the decoder of a confirmation does to a packet. -/
def Confirmation.accesses : Confirmation → RxPacket → List Access
  | .cmEncryptedPayloadInd, p => (decodeCmEncryptedPayloadInd p).log
  | .cmSetKeyCnf, p => (decodeCmSetKeyCnf p).log
  | .cmAmpMapCnf, p => (decodeCmAmpMapCnf p).log
  | .mtkVsSetNvramCnf, p => (decodeMtkVsSetNvramCnf p).log
  | .mtkVsGetVersionCnf, p => (decodeMtkVsGetVersionCnf p).log
  | .mtkVsResetCnf, p => (decodeMtkVsResetCnf p).log
  | .mtkVsResetRsp, p => (decodeMtkVsResetRsp p).log
  | .mtkVsGetNvramCnf, p => (decodeMtkVsGetNvramCnf p).log
  | .mtkVsGetTonemaskCnf, p => (decodeMtkVsGetTonemaskCnf p).log
  | .mtkVsGetEthPhyCnf, p => (decodeMtkVsGetEthPhyCnf p).log
  | .mtkVsEthStatsCnf, p => (decodeMtkVsEthStatsCnf p).log
  | .mtkVsGetStatusCnf, p => (decodeMtkVsGetStatusCnf p).log
  | .mtkVsGetTonemapCnf, p => (decodeMtkVsGetTonemapCnf p).log
  | .mtkVsSetCaptureStateCnf, p => (decodeMtkVsSetCaptureStateCnf p).log
  | .mtkVsGetSnrCnf, p => (decodeMtkVsGetSnrCnf p).log
  | .mtkVsGetLinkStatsCnf, p => (decodeMtkVsGetLinkStatsCnf p).log
  | .mtkVsGetNwInfoCnf, p => (decodeMtkVsGetNwInfoCnf p).log
  | .mtkVsGetPwmStatsCnf, p => (decodeMtkVsGetPwmStatsCnf p).log
  | .mtkVsGetPwmConfCnf, p => (decodeMtkVsGetPwmConfCnf p).log
  | .mtkVsSetPwmConfCnf, p => (decodeMtkVsSetPwmConfCnf p).log
  | .mtkVsSpiStatsCnf, p => (decodeMtkVsSpiStatsCnf p).log
  | .mtkVsPwmGenerationCnf, p => (decodeMtkVsPwmGenerationCnf p).log
  | .mtkVsFileAccessCnf, p => (decodeMtkVsFileAccessCnf p).log
  | .mtkVsSetTxCaliCnf, p => (decodeMtkVsSetTxCaliCnf p).log
  | .mtkVsSetTxCaliInd, p => (decodeMtkVsSetTxCaliInd p).log
  | .vcVsSetSnifferConfCnf, p => (decodeVcVsSetSnifferConfCnf p).log
  | .vcVsGetRemoteAccessCnf, p => (decodeVcVsGetRemoteAccessCnf p).log
  | .vcVsSetRemoteAccessCnf, p => (decodeVcVsSetRemoteAccessCnf p).log

end Hpav
