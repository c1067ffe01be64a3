import Mathlib.Tactic.Common
import Hpav.Channel
import Hpav.DefragChain
import Hpav.Decode
import Hpav.PayloadCodec

/-!
# Sending a request and receiving its answers

`HPAV_MME_SNDRCV_IMPL` (`hpav_mme.h`), the exchanges written out by hand in
`hpav_mtk_mme.c`, `hpav_send_raw_mme` and `hpav_cm_set_key_encrypted_sndrcv`. What pcap does
is given; what is handed to `pcap_sendpacket` on the way is recorded.
-/

namespace Hpav

open CMem MemTrace

/-! ## What pcap does -/

/-- `HPAV_OK` -/
abbrev hpavOk : Int := 0

/-- `HPAV_ERROR_PCAP_ERROR` -/
abbrev hpavErrorPcapError : Int := 1

/-- The results of pcap during one operation. The dispatches end where the timeout is
reached. -/
structure PcapRun where
  compile : Int
  setfilter : Int
  sendpacket : Nat → Int
  dispatches : List PcapEvent

/-- The packets handed to `pcap_sendpacket`, and what the operation ended with. -/
structure Transmission (α : Type) where
  sent : List (List UInt8)
  outcome : Except Fault α

/-- The channel, the station addressed, and how long how many answers are waited for. -/
structure Call where
  macAddr : Mac
  staMacAddr : Mac
  timeoutMs : UInt32
  numFragments : UInt32

/-! ## The exchange -/

/-- The sending loop over a chain of frames: the packets handed over, and its result. -/
def sendFrames (pcap : PcapRun) : List EthFrame → Nat → List (List UInt8) × Int
  | [], _ => ([], hpavOk)
  | currentFrame :: rest, i =>
    if pcap.sendpacket i ≠ 0 then
      ([currentFrame.bytes], hpavErrorPcapError)
    else
      let (sent, result) := sendFrames pcap rest (i + 1)
      (currentFrame.bytes :: sent, result)

/-- The receiving loop. `none` is an error of pcap; `enough` is asked after a dispatch that
processed packets. -/
def dispatchLoop (enough : CallbackData → Bool) : List PcapEvent → Capture → Except Fault (Option Capture)
  | [], c => .ok (some c)
  | .packets captured :: rest, c => do
    let c ← captured.foldlM rxCallback c
    if (captured ≠ [] ∧ enough c.user) ∨ c.user.stop then .ok (some c) else dispatchLoop enough rest c
  | .error :: _, _ => .ok none
  | .breakLoop :: rest, c => if c.user.stop then .ok (some c) else dispatchLoop enough rest c

/-- What is expected in answer to a request. -/
structure Expected (α : Type) where
  mmtype : UInt16
  numFragments : UInt32
  enough : CallbackData → Bool
  decode : RxPacket → Trace (α × Mac)

/-- The receiving half of an exchange. -/
def receiveMmes {α : Type} (call : Call) (expected : Expected α) (behind : Nat → UInt8) (events : List PcapEvent) :
    Except Fault (Int × List (α × Mac)) := do
  let c ← dispatchLoop expected.enough events
    (Capture.start call.macAddr call.staMacAddr expected.mmtype expected.numFragments)
  match c with
  | none => .ok (hpavErrorPcapError, [])
  | some c => do
    let rxMmePackets ← defragFrames (receivedFrames c)
    .ok (hpavOk, rxMmePackets.map fun packet => (expected.decode (packet.received behind)).val)

/-- The body of an exchange. The response is the list of decoded answers, at first empty. -/
def exchange {α : Type} (call : Call) (txMmePacket : Except Fault MmePacket) (expected : Expected α)
    (behind : Nat → UInt8) (pcap : PcapRun) : Transmission (Int × List (α × Mac)) :=
  match txMmePacket >>= fun packet => buildFrames packet ethFrameMinSize with
  | .error e => ⟨[], .error e⟩
  | .ok txFrames =>
    if pcap.compile = -1 then ⟨[], .ok (hpavErrorPcapError, [])⟩
    else if pcap.setfilter = -1 then ⟨[], .ok (hpavErrorPcapError, [])⟩
    else
      let (sent, result) := sendFrames pcap txFrames 0
      if result ≠ hpavOk then ⟨sent, .ok (result, [])⟩
      -- without a timeout no answer is waited for
      else if call.timeoutMs > 0 then ⟨sent, receiveMmes call expected behind pcap.dispatches⟩
      else ⟨sent, .ok (hpavOk, [])⟩

/-- An exchange for a request of type `ρ` with answers of type `α`. -/
abbrev Sndrcv (ρ α : Type) := Call → ρ → (Nat → UInt8) → PcapRun → Transmission (Int × List (α × Mac))

/-- `HPAV_MME_SNDRCV_IMPL` -/
def mmeSndrcv {ρ α : Type} (encode : Mac → Mac → ρ → Except Fault MmePacket) (mmtypeCnf : UInt16)
    (decode : RxPacket → Trace (α × Mac)) : Sndrcv ρ α :=
  fun call request => exchange call (encode call.staMacAddr call.macAddr request)
    ⟨mmtypeCnf, call.numFragments, fun _ => false, decode⟩

def cmEncryptedPayloadSndrcv := mmeSndrcv encodeCmEncryptedPayloadInd 0x6006 decodeCmEncryptedPayloadInd
def cmSetKeySndrcv := mmeSndrcv encodeCmSetKeyReq 0x6009 decodeCmSetKeyCnf
def cmAmpMapSndrcv := mmeSndrcv encodeCmAmpMapReq 0x601D decodeCmAmpMapCnf
def mtkVsSetNvramSndrcv := mmeSndrcv encodeMtkVsSetNvramReq 0xA105 decodeMtkVsSetNvramCnf
def mtkVsGetVersionSndrcv := mmeSndrcv encodeMtkVsGetVersionReq 0xA001 decodeMtkVsGetVersionCnf
def mtkVsResetSndrcv := mmeSndrcv encodeMtkVsResetReq 0xA009 decodeMtkVsResetCnf
def mtkVsGetNvramSndrcv := mmeSndrcv encodeMtkVsGetNvramReq 0xA109 decodeMtkVsGetNvramCnf
def mtkVsGetTonemaskSndrcv := mmeSndrcv encodeMtkVsGetTonemaskReq 0xA01D decodeMtkVsGetTonemaskCnf
def mtkVsGetEthPhySndrcv := mmeSndrcv encodeMtkVsGetEthPhyReq 0xA021 decodeMtkVsGetEthPhyCnf
def mtkVsEthStatsSndrcv := mmeSndrcv encodeMtkVsEthStatsReq 0xA025 decodeMtkVsEthStatsCnf
def mtkVsGetStatusSndrcv := mmeSndrcv encodeMtkVsGetStatusReq 0xA031 decodeMtkVsGetStatusCnf
def mtkVsGetTonemapSndrcv := mmeSndrcv encodeMtkVsGetTonemapReq 0xA035 decodeMtkVsGetTonemapCnf
def mtkVsSetCaptureStateSndrcv := mmeSndrcv encodeMtkVsSetCaptureStateReq 0xA101 decodeMtkVsSetCaptureStateCnf
def mtkVsGetSnrSndrcv := mmeSndrcv encodeMtkVsGetSnrReq 0xA039 decodeMtkVsGetSnrCnf
def mtkVsGetLinkStatsSndrcv := mmeSndrcv encodeMtkVsGetLinkStatsReq 0xA041 decodeMtkVsGetLinkStatsCnf
def mtkVsGetNwInfoSndrcv := mmeSndrcv encodeMtkVsGetNwInfoReq 0xA0FD decodeMtkVsGetNwInfoCnf
def mtkVsSpiStatsSndrcv := mmeSndrcv encodeMtkVsSpiStatsReq 0xA11D decodeMtkVsSpiStatsCnf
def mtkVsPwmGenerationSndrcv := mmeSndrcv encodeMtkVsPwmGenerationReq 0xA119 decodeMtkVsPwmGenerationCnf
def vcVsSetSnifferConfSndrcv := mmeSndrcv encodeVcVsSetSnifferConfReq 0xA139 decodeVcVsSetSnifferConfCnf
def vcVsSetRemoteAccessSndrcv := mmeSndrcv encodeVcVsSetRemoteAccessReq 0xA13D decodeVcVsSetRemoteAccessCnf
def vcVsGetRemoteAccessSndrcv := mmeSndrcv encodeVcVsGetRemoteAccessReq 0xA141 decodeVcVsGetRemoteAccessCnf
def mtkVsResetIndSndrcv := mmeSndrcv encodeMtkVsResetInd 0xA00B decodeMtkVsResetRsp

/-! ## Exchanges that end early -/

/-- As many frames as the latest of them announces. -/
def allFragments (user : CallbackData) : Bool :=
  user.rxFrames ≠ none ∧ user.numFragmentsReceived - 1 = user.fn

/-- The exchanges that end with a batch that completes a message. -/
def completeSndrcv {ρ α : Type} (encode : Mac → Mac → ρ → Except Fault MmePacket) (mmtypeCnf : UInt16)
    (decode : RxPacket → Trace (α × Mac)) : Sndrcv ρ α :=
  fun call request => exchange call (encode call.staMacAddr call.macAddr request)
    ⟨mmtypeCnf, call.numFragments, allFragments, decode⟩

def mtkVsGetPwmStatsSndrcv := completeSndrcv encodeMtkVsGetPwmStatsReq 0xA10D decodeMtkVsGetPwmStatsCnf
def mtkVsGetPwmConfSndrcv := completeSndrcv encodeMtkVsGetPwmConfReq 0xA111 decodeMtkVsGetPwmConfCnf
def mtkVsSetPwmConfSndrcv := completeSndrcv encodeMtkVsSetPwmConfReq 0xA115 decodeMtkVsSetPwmConfCnf

/-- `hpav_mtk_vs_set_tx_cali_sndrcv`: `num_fragments` is not passed on. -/
def mtkVsSetTxCaliSndrcv : Sndrcv (RequestOf 1) UInt8 :=
  fun call request => exchange call (encodeMtkVsSetTxCaliReq call.staMacAddr call.macAddr request)
    ⟨0xA129, 0, allFragments, decodeMtkVsSetTxCaliCnf⟩

theorem length_cleared : (List.replicate 6 (0 : UInt8)).length = 6 :=
  List.length_replicate

/-- `sta_mac_addr` where nothing is copied to it. -/
def clearedMacAddr : Mac :=
  ⟨List.replicate 6 0, length_cleared⟩

/-- `hpav_mtk_vs_set_tx_cali_ind_rcv`: nothing is sent, no station is named, and `num_fragments`
is not looked at. -/
def mtkVsSetTxCaliIndRcv (call : Call) (behind : Nat → UInt8) (pcap : PcapRun) :
    Except Fault (Int × List (VsSetTxCaliInd × Mac)) :=
  if pcap.compile = -1 then .ok (hpavErrorPcapError, [])
  else if pcap.setfilter = -1 then .ok (hpavErrorPcapError, [])
  else if call.timeoutMs > 0 then
    receiveMmes { call with staMacAddr := clearedMacAddr }
      ⟨0xA12A, 0, allFragments, decodeMtkVsSetTxCaliInd⟩ behind pcap.dispatches
  else .ok (hpavOk, [])

/-- `hpav_mtk_vs_file_access_sndrcv`: without `scan` the first batch with an answer is the last. -/
def mtkVsFileAccessSndrcv (scan : UInt8) : Sndrcv (RequestOf 1072) (List UInt8) :=
  fun call request => exchange call (encodeMtkVsFileAccessReq call.staMacAddr call.macAddr request)
    ⟨0xA4FD, call.numFragments, fun user => scan = 0 ∧ user.numFragmentsReceived > 0, decodeMtkVsFileAccessCnf⟩

/-! ## Other ways to send -/

/-- `hpav_send_raw_mme`. Nothing is received. -/
def sendRawMme (call : Call) (raw : RawMme) (pcap : PcapRun) : Transmission Int :=
  match encodeRawMme call.staMacAddr call.macAddr raw >>= fun packet => buildFrames packet ethFrameMinSize with
  | .error e => ⟨[], .error e⟩
  | .ok txFrames =>
    let (sent, result) := sendFrames pcap txFrames 0
    ⟨sent, .ok result⟩

/-- What an encrypted exchange is given besides the request: the libraries, what `RAND_bytes`
hands out, and the password of the device. -/
structure Cipher where
  lib : CryptoLib
  rand : RandBytes
  devicePassword : List UInt8

/-- `request->new_key` -/
def newKey (request : CmSetKeyReq) : List UInt8 :=
  (request.val.drop 22).take 16

/-- The message that goes out: the frame of the request, encrypted. It has no minimum size,
as it is not sent itself. -/
def encryptRequest (cipher : Cipher) (call : Call) (request : CmSetKeyReq) :
    Except Fault (Option CmEncryptedPayloadMme) := do
  let txMmePacket ← encodeCmSetKeyReq call.staMacAddr call.macAddr request
  let txFrames ← buildFrames txMmePacket noMinSize
  encryptWithDak cipher.lib cipher.rand txFrames.head? cipher.devicePassword

/-- What is made of the encrypted answers: the first is decrypted, reassembled and decoded. -/
def decryptResponse (cipher : Cipher) (request : CmSetKeyReq) (uninit behind : Nat → UInt8)
    (rxEncryptedMme : Option CmEncryptedPayloadMme) : Except Fault (List (List UInt8 × Mac)) := do
  let rxFrame ← decrypt cipher.lib uninit rxEncryptedMme cipher.devicePassword (newKey request)
  let rxMmePackets ← defragFrames (rxFrame.map (·.val)).toList
  .ok (rxMmePackets.map fun packet => (decodeCmSetKeyCnf (packet.received behind)).val)

/-- `hpav_cm_set_key_encrypted_sndrcv` -/
def cmSetKeyEncryptedSndrcv (cipher : Cipher) (uninit : Nat → UInt8) : Sndrcv CmSetKeyReq (List UInt8) :=
  fun call request behind pcap =>
    match encryptRequest cipher call request with
    | .error e => ⟨[], .error e⟩
    | .ok none => ⟨[], .error .nullDeref⟩
    | .ok (some txEncryptedMme) =>
      let attempt := cmEncryptedPayloadSndrcv call txEncryptedMme behind pcap
      { sent := attempt.sent
        outcome := do
          let (result, rxEncryptedMmes) ← attempt.outcome
          let response ← decryptResponse cipher request uninit behind
            (rxEncryptedMmes.head?.map fun rx => rx.1.toMme)
          .ok (result, response) }

end Hpav
