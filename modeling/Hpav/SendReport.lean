import Mathlib.Tactic.Common
import Hpav.Exchange

/-!
# What a send operation reports

`HPAV_OK` should mean that the MME was sent: all of it, in the frame that was handed to
`pcap_sendpacket`. The sending loops run over a chain of frames, and for an MME that does not
fit in a frame the chain is empty.
-/

namespace Hpav

open CMem

/-! ## The operations -/

/-- The requests of `hpav_send_raw_mme` and of every exchange. -/
inductive Operation where
  | rawMme (raw : RawMme)
  | cmEncryptedPayload (request : EncryptedPayload)
  | cmSetKey (request : CmSetKeyReq)
  | cmSetKeyEncrypted (request : CmSetKeyReq)
  | cmAmpMap (request : CmAmpMapReq)
  | mtkVsSetNvram (request : RequestOf 1031)
  | mtkVsGetVersion (request : RequestOf 4)
  | mtkVsReset (request : RequestOf 4)
  | mtkVsResetInd (request : RequestOf 4)
  | mtkVsGetNvram (request : RequestOf 1)
  | mtkVsGetTonemask (request : RequestOf 6)
  | mtkVsGetEthPhy (request : RequestOf 4)
  | mtkVsEthStats (request : RequestOf 1)
  | mtkVsGetStatus (request : RequestOf 4)
  | mtkVsGetTonemap (request : RequestOf 10)
  | mtkVsSetCaptureState (request : RequestOf 9)
  | mtkVsGetSnr (request : RequestOf 9)
  | mtkVsGetLinkStats (request : RequestOf 11)
  | mtkVsGetNwInfo (request : RequestOf 4)
  | mtkVsGetPwmStats (request : RequestOf 4)
  | mtkVsGetPwmConf (request : RequestOf 4)
  | mtkVsSetPwmConf (request : RequestOf 15)
  | mtkVsPwmGeneration (request : RequestOf 5)
  | mtkVsSpiStats (request : RequestOf 1)
  | mtkVsFileAccess (scan : UInt8) (request : RequestOf 1072)
  | mtkVsSetTxCali (request : RequestOf 1)
  | vcVsSetSnifferConf (request : RequestOf 1)
  | vcVsSetRemoteAccess (request : RequestOf 1)
  | vcVsGetRemoteAccess (request : RequestOf 4)

/-- The result of an exchange without its response. -/
def Transmission.code {β : Type} (attempt : Transmission (Int × β)) : Transmission Int :=
  ⟨attempt.sent, attempt.outcome.map (·.1)⟩

/-- The packet of an encrypted request. -/
def encodeEncrypted (cipher : Cipher) (call : Call) (request : CmSetKeyReq) : Except Fault MmePacket := do
  let txEncryptedMme ← encryptRequest cipher call request
  match txEncryptedMme with
  | none => .error .nullDeref
  | some payload => encodeCmEncryptedPayloadInd call.staMacAddr call.macAddr payload

namespace Operation

/-- The packet an operation is to send. -/
def encode (cipher : Cipher) (call : Call) : Operation → Except Fault MmePacket
  | .rawMme raw => encodeRawMme call.staMacAddr call.macAddr raw
  | .cmEncryptedPayload request =>
    encodeCmEncryptedPayloadInd call.staMacAddr call.macAddr request.toCmEncryptedPayloadMme
  | .cmSetKey request => encodeCmSetKeyReq call.staMacAddr call.macAddr request
  | .cmSetKeyEncrypted request => encodeEncrypted cipher call request
  | .cmAmpMap request => encodeCmAmpMapReq call.staMacAddr call.macAddr request
  | .mtkVsSetNvram request => encodeMtkVsSetNvramReq call.staMacAddr call.macAddr request
  | .mtkVsGetVersion request => encodeMtkVsGetVersionReq call.staMacAddr call.macAddr request
  | .mtkVsReset request => encodeMtkVsResetReq call.staMacAddr call.macAddr request
  | .mtkVsResetInd request => encodeMtkVsResetInd call.staMacAddr call.macAddr request
  | .mtkVsGetNvram request => encodeMtkVsGetNvramReq call.staMacAddr call.macAddr request
  | .mtkVsGetTonemask request => encodeMtkVsGetTonemaskReq call.staMacAddr call.macAddr request
  | .mtkVsGetEthPhy request => encodeMtkVsGetEthPhyReq call.staMacAddr call.macAddr request
  | .mtkVsEthStats request => encodeMtkVsEthStatsReq call.staMacAddr call.macAddr request
  | .mtkVsGetStatus request => encodeMtkVsGetStatusReq call.staMacAddr call.macAddr request
  | .mtkVsGetTonemap request => encodeMtkVsGetTonemapReq call.staMacAddr call.macAddr request
  | .mtkVsSetCaptureState request => encodeMtkVsSetCaptureStateReq call.staMacAddr call.macAddr request
  | .mtkVsGetSnr request => encodeMtkVsGetSnrReq call.staMacAddr call.macAddr request
  | .mtkVsGetLinkStats request => encodeMtkVsGetLinkStatsReq call.staMacAddr call.macAddr request
  | .mtkVsGetNwInfo request => encodeMtkVsGetNwInfoReq call.staMacAddr call.macAddr request
  | .mtkVsGetPwmStats request => encodeMtkVsGetPwmStatsReq call.staMacAddr call.macAddr request
  | .mtkVsGetPwmConf request => encodeMtkVsGetPwmConfReq call.staMacAddr call.macAddr request
  | .mtkVsSetPwmConf request => encodeMtkVsSetPwmConfReq call.staMacAddr call.macAddr request
  | .mtkVsPwmGeneration request => encodeMtkVsPwmGenerationReq call.staMacAddr call.macAddr request
  | .mtkVsSpiStats request => encodeMtkVsSpiStatsReq call.staMacAddr call.macAddr request
  | .mtkVsFileAccess _ request => encodeMtkVsFileAccessReq call.staMacAddr call.macAddr request
  | .mtkVsSetTxCali request => encodeMtkVsSetTxCaliReq call.staMacAddr call.macAddr request
  | .vcVsSetSnifferConf request => encodeVcVsSetSnifferConfReq call.staMacAddr call.macAddr request
  | .vcVsSetRemoteAccess request => encodeVcVsSetRemoteAccessReq call.staMacAddr call.macAddr request
  | .vcVsGetRemoteAccess request => encodeVcVsGetRemoteAccessReq call.staMacAddr call.macAddr request

/-- The operation, as far as its result goes. -/
def attempt (cipher : Cipher) (uninit behind : Nat → UInt8) (call : Call) (pcap : PcapRun) : Operation → Transmission Int
  | .rawMme raw => sendRawMme call raw pcap
  | .cmEncryptedPayload request =>
    (cmEncryptedPayloadSndrcv call request.toCmEncryptedPayloadMme behind pcap).code
  | .cmSetKey request => (cmSetKeySndrcv call request behind pcap).code
  | .cmSetKeyEncrypted request => (cmSetKeyEncryptedSndrcv cipher uninit call request behind pcap).code
  | .cmAmpMap request => (cmAmpMapSndrcv call request behind pcap).code
  | .mtkVsSetNvram request => (mtkVsSetNvramSndrcv call request behind pcap).code
  | .mtkVsGetVersion request => (mtkVsGetVersionSndrcv call request behind pcap).code
  | .mtkVsReset request => (mtkVsResetSndrcv call request behind pcap).code
  | .mtkVsResetInd request => (mtkVsResetIndSndrcv call request behind pcap).code
  | .mtkVsGetNvram request => (mtkVsGetNvramSndrcv call request behind pcap).code
  | .mtkVsGetTonemask request => (mtkVsGetTonemaskSndrcv call request behind pcap).code
  | .mtkVsGetEthPhy request => (mtkVsGetEthPhySndrcv call request behind pcap).code
  | .mtkVsEthStats request => (mtkVsEthStatsSndrcv call request behind pcap).code
  | .mtkVsGetStatus request => (mtkVsGetStatusSndrcv call request behind pcap).code
  | .mtkVsGetTonemap request => (mtkVsGetTonemapSndrcv call request behind pcap).code
  | .mtkVsSetCaptureState request => (mtkVsSetCaptureStateSndrcv call request behind pcap).code
  | .mtkVsGetSnr request => (mtkVsGetSnrSndrcv call request behind pcap).code
  | .mtkVsGetLinkStats request => (mtkVsGetLinkStatsSndrcv call request behind pcap).code
  | .mtkVsGetNwInfo request => (mtkVsGetNwInfoSndrcv call request behind pcap).code
  | .mtkVsGetPwmStats request => (mtkVsGetPwmStatsSndrcv call request behind pcap).code
  | .mtkVsGetPwmConf request => (mtkVsGetPwmConfSndrcv call request behind pcap).code
  | .mtkVsSetPwmConf request => (mtkVsSetPwmConfSndrcv call request behind pcap).code
  | .mtkVsPwmGeneration request => (mtkVsPwmGenerationSndrcv call request behind pcap).code
  | .mtkVsSpiStats request => (mtkVsSpiStatsSndrcv call request behind pcap).code
  | .mtkVsFileAccess scan request => (mtkVsFileAccessSndrcv scan call request behind pcap).code
  | .mtkVsSetTxCali request => (mtkVsSetTxCaliSndrcv call request behind pcap).code
  | .vcVsSetSnifferConf request => (vcVsSetSnifferConfSndrcv call request behind pcap).code
  | .vcVsSetRemoteAccess request => (vcVsSetRemoteAccessSndrcv call request behind pcap).code
  | .vcVsGetRemoteAccess request => (vcVsGetRemoteAccessSndrcv call request behind pcap).code

/-- The bytes of the MME: its header and all of its data. -/
def mmeSize : Operation → Nat
  | .rawMme raw => mmeHeaderSize + raw.mmeData.length
  | .cmEncryptedPayload request => mmeHeaderSize + 24 + request.encryptedDataLength.toNat
  | .cmSetKey _ => mmeHeaderSize + 38
  | .cmSetKeyEncrypted _ => mmeHeaderSize + 24 + 80
  | .cmAmpMap request => mmeHeaderSize + 2 + request.mapDataSize
  | .mtkVsSetNvram _ => mtkMmeHeaderSize + 1031
  | .mtkVsGetNvram _ | .mtkVsEthStats _ | .mtkVsSpiStats _ | .mtkVsSetTxCali _ | .vcVsSetSnifferConf _
  | .vcVsSetRemoteAccess _ => mtkMmeHeaderSize + 1
  | .mtkVsGetVersion _ | .mtkVsReset _ | .mtkVsResetInd _ | .mtkVsGetEthPhy _ | .mtkVsGetStatus _
  | .mtkVsGetNwInfo _ | .mtkVsGetPwmStats _ | .mtkVsGetPwmConf _ | .vcVsGetRemoteAccess _ => mtkMmeHeaderSize + 4
  | .mtkVsPwmGeneration _ => mtkMmeHeaderSize + 5
  | .mtkVsGetTonemask _ => mtkMmeHeaderSize + 6
  | .mtkVsSetCaptureState _ | .mtkVsGetSnr _ => mtkMmeHeaderSize + 9
  | .mtkVsGetTonemap _ => mtkMmeHeaderSize + 10
  | .mtkVsGetLinkStats _ => mtkMmeHeaderSize + 11
  | .mtkVsSetPwmConf _ => mtkMmeHeaderSize + 15
  | .mtkVsFileAccess _ _ => mtkMmeHeaderSize + 1072

end Operation

/-- Success is reported only if the whole MME was handed over in one frame, and an MME that
does not fit in one is reported. -/
structure SendsOrFails (cipher : Cipher) (call : Call) (op : Operation) : Prop where
  sends : ∀ uninit behind pcap, (op.attempt cipher uninit behind call pcap).outcome = .ok hpavOk →
    ∃ packet, op.encode cipher call = .ok packet ∧ packet.data.length = op.mmeSize ∧
      (op.attempt cipher uninit behind call pcap).sent =
        [frameBytes call.staMacAddr call.macAddr packet.data ethFrameMinSize]
  fails : ethFrameMaxPayload < op.mmeSize → ∀ uninit behind pcap,
    ∃ code, (op.attempt cipher uninit behind call pcap).outcome = .ok code ∧ code ≠ hpavOk

/-! ## The sending loop -/

/-- An operation that sends the frames of a packet: its success is that of the loop, and with
no frame nothing keeps it from success. -/
structure SendsFrames (packet : Except Fault MmePacket) (attempt : PcapRun → Transmission Int) : Prop where
  faulty : ∀ e, (packet >>= fun p => buildFrames p ethFrameMinSize) = .error e →
    ∀ pcap, (attempt pcap).outcome = .error e
  sent : ∀ txFrames, (packet >>= fun p => buildFrames p ethFrameMinSize) = .ok txFrames →
    ∀ pcap, (attempt pcap).outcome = .ok hpavOk → sendFrames pcap txFrames 0 = ((attempt pcap).sent, hpavOk)
  silent : (packet >>= fun p => buildFrames p ethFrameMinSize) = .ok [] →
    ∃ pcap, (attempt pcap).outcome = .ok hpavOk

/-- A run in which pcap reports no error, and no packet is captured. -/
def quietRun : PcapRun where
  compile := 0
  setfilter := 0
  sendpacket := fun _ => 0
  dispatches := []

/-- An exchange that succeeds has handed over all of its frames. -/
theorem exchange_outcome {α : Type} {call : Call} {packet : Except Fault MmePacket} {expected : Expected α}
    {behind : Nat → UInt8} {pcap : PcapRun} {txFrames : List EthFrame} {response : List (α × Mac)}
    (hframes : (packet >>= fun p => buildFrames p ethFrameMinSize) = .ok txFrames)
    (h : (exchange call packet expected behind pcap).outcome = .ok (hpavOk, response)) :
    sendFrames pcap txFrames 0 = ((exchange call packet expected behind pcap).sent, hpavOk) := by
  unfold exchange at h ⊢
  rw [hframes] at h ⊢
  simp only at h ⊢
  split at h
  · cases h
  · rename_i hcompile
    rw [if_neg hcompile]
    split at h
    · cases h
    · rename_i hsetfilter
      rw [if_neg hsetfilter]
      split at h
      · rename_i hresult
        injection h with h
        exact absurd (congrArg Prod.fst h) hresult
      · rename_i hresult
        rw [if_neg hresult]
        have hok : (sendFrames pcap txFrames 0).2 = hpavOk := not_not.mp hresult
        split
        · rw [← hok]
        · rw [← hok]

/-- On a silent channel everything is handed over. -/
theorem sendFrames_quiet (txFrames : List EthFrame) (i : Nat) : (sendFrames quietRun txFrames i).2 = hpavOk := by
  induction txFrames generalizing i with
  | nil => rfl
  | cons currentFrame rest ih => exact ih (i + 1)

/-- Without an error of pcap and without any packet the exchange ends well, with no answer. -/
theorem exchange_quiet {α : Type} {call : Call} {packet : Except Fault MmePacket} {expected : Expected α}
    {behind : Nat → UInt8} {txFrames : List EthFrame}
    (hframes : (packet >>= fun p => buildFrames p ethFrameMinSize) = .ok txFrames) :
    (exchange call packet expected behind quietRun).outcome = .ok (hpavOk, []) := by
  have hcompile : ¬ quietRun.compile = -1 := by decide
  have hsetfilter : ¬ quietRun.setfilter = -1 := by decide
  have hreceive : receiveMmes call expected behind quietRun.dispatches = .ok (hpavOk, []) := rfl
  unfold exchange
  simp only [hframes, if_neg hcompile, if_neg hsetfilter, sendFrames_quiet, hreceive, ne_eq, not_true_eq_false,
    ite_self]

/-- An exchange whose packet cannot be encoded faults. -/
theorem exchange_faulty {α : Type} {call : Call} {packet : Except Fault MmePacket} {expected : Expected α}
    {behind : Nat → UInt8} {pcap : PcapRun} {e : Fault}
    (hframes : (packet >>= fun p => buildFrames p ethFrameMinSize) = .error e) :
    (exchange call packet expected behind pcap).outcome = .error e := by
  unfold exchange
  rw [hframes]

/-- An exchange sends its frames or fails. -/
theorem exchange_sendsFrames {α : Type} (call : Call) (packet : Except Fault MmePacket) (expected : Expected α)
    (behind : Nat → UInt8) :
    SendsFrames packet fun pcap => (exchange call packet expected behind pcap).code := by
  refine ⟨?_, ?_, ?_⟩
  · intro e hframes pcap
    show ((exchange call packet expected behind pcap).outcome.map _) = _
    rw [exchange_faulty hframes]
    rfl
  · intro txFrames hframes pcap hok
    have hcode : (exchange call packet expected behind pcap).outcome.map (·.1) = .ok hpavOk := hok
    cases houtcome : (exchange call packet expected behind pcap).outcome with
    | error e =>
      rw [houtcome] at hcode
      cases hcode
    | ok result =>
      rw [houtcome] at hcode
      injection hcode with hcode
      obtain ⟨code, response⟩ := result
      obtain rfl : code = hpavOk := hcode
      exact exchange_outcome hframes houtcome
  · intro hframes
    refine ⟨quietRun, ?_⟩
    show ((exchange call packet expected behind quietRun).outcome.map _) = _
    rw [exchange_quiet hframes]
    rfl

/-- So does the sending of a raw MME. -/
theorem sendRawMme_sendsFrames (call : Call) (raw : RawMme) :
    SendsFrames (encodeRawMme call.staMacAddr call.macAddr raw) (sendRawMme call raw) := by
  refine ⟨?_, ?_, ?_⟩
  · intro e hframes pcap
    unfold sendRawMme
    rw [hframes]
  · intro txFrames hframes pcap hok
    unfold sendRawMme at hok ⊢
    rw [hframes] at hok ⊢
    injection hok with hok
    rw [← hok]
  · intro hframes
    refine ⟨quietRun, ?_⟩
    unfold sendRawMme
    rw [hframes]
    rfl

/-- So does the exchange of an encrypted key, with a plain one inside. -/
theorem cmSetKeyEncryptedSndrcv_sendsFrames (cipher : Cipher) (uninit : Nat → UInt8) (call : Call)
    (request : CmSetKeyReq) (behind : Nat → UInt8) :
    SendsFrames (encodeEncrypted cipher call request) fun pcap =>
      (cmSetKeyEncryptedSndrcv cipher uninit call request behind pcap).code := by
  unfold encodeEncrypted cmSetKeyEncryptedSndrcv
  cases encryptRequest cipher call request with
  | error e =>
    refine ⟨?_, ?_, ?_⟩
    · intro e' h pcap
      injection h with h
      rw [← h]
      rfl
    · intro txFrames h
      cases h
    · intro h
      cases h
  | ok payload =>
    cases payload with
    | none =>
      refine ⟨?_, ?_, ?_⟩
      · intro e' h pcap
        injection h with h
        rw [← h]
        rfl
      · intro txFrames h
        cases h
      · intro h
        cases h
    | some payload =>
      -- the request is wrapped: from here on it is the exchange of the payload
      simp only [bind_ok]
      refine ⟨?_, ?_, ?_⟩
      · intro e hframes pcap
        have hfaulty : (cmEncryptedPayloadSndrcv call payload behind pcap).outcome = .error e := exchange_faulty hframes
        unfold Transmission.code
        simp only [hfaulty, bind_error]
        rfl
      · intro txFrames hframes pcap hok
        unfold Transmission.code at hok
        simp only at hok
        cases houtcome : (cmEncryptedPayloadSndrcv call payload behind pcap).outcome with
        | error e =>
          rw [houtcome] at hok
          cases hok
        | ok result =>
          obtain ⟨code, rxEncryptedMmes⟩ := result
          rw [houtcome, bind_ok] at hok
          simp only at hok
          cases hresponse : decryptResponse cipher request uninit behind (rxEncryptedMmes.head?.map fun rx => rx.1.toMme) with
          | error e =>
            rw [hresponse] at hok
            cases hok
          | ok response =>
            rw [hresponse, bind_ok] at hok
            injection hok with hok
            obtain rfl : code = hpavOk := hok
            exact exchange_outcome hframes houtcome
      · intro hframes
        have hquiet : (cmEncryptedPayloadSndrcv call payload behind quietRun).outcome = .ok (hpavOk, []) :=
          exchange_quiet hframes
        refine ⟨quietRun, ?_⟩
        unfold Transmission.code
        simp only [hquiet, bind_ok]
        rfl

/-! ## The packets -/

/-- A request of a fixed size is put behind its header. -/
theorem encodeMme_eq {size : Nat} (mmtype : UInt16) (staMacAddr srcMacAddr : Mac) (request : RequestOf size) :
    encodeMme size mmtype staMacAddr srcMacAddr request =
      .ok ⟨mmeHeaderSize + size, mmeHeader mmtype ++ request.val, staMacAddr, srcMacAddr⟩ :=
  newPacket_eq staMacAddr srcMacAddr (by rw [request.property]; rfl)

/-- A request of the manufacturer is put behind the longer header. -/
theorem encodeMtkMme_eq {size : Nat} (mmtype : UInt16) (staMacAddr srcMacAddr : Mac) (request : RequestOf size) :
    encodeMtkMme size mmtype staMacAddr srcMacAddr request =
      .ok ⟨mtkMmeHeaderSize + size, mtkMmeHeader mmtype ++ request.val, staMacAddr, srcMacAddr⟩ :=
  newPacket_eq staMacAddr srcMacAddr (by rw [request.property]; rfl)

/-- The packet of an MME of so many bytes, all of which are in it. -/
def Encodes (call : Call) (packet : Except Fault MmePacket) (mmeSize : Nat) : Prop :=
  ∃ mme, packet = .ok ⟨mme.length, mme, call.staMacAddr, call.macAddr⟩ ∧ mme.length = mmeSize

/-- An exchange whose one packet goes out comes down to what is received. -/
theorem exchange_received {α : Type} {call : Call} {packet : Except Fault MmePacket} {expected : Expected α}
    {mmeSize : Nat} {pcap : PcapRun} (behind : Nat → UInt8) (hencodes : Encodes call packet mmeSize)
    (hfits : mmeSize ≤ ethFrameMaxPayload) (hcompile : pcap.compile ≠ -1) (hsetfilter : pcap.setfilter ≠ -1)
    (hsend : pcap.sendpacket 0 = 0) :
    (exchange call packet expected behind pcap).outcome =
      if call.timeoutMs > 0 then receiveMmes call expected behind pcap.dispatches else .ok (hpavOk, []) := by
  rcases hencodes with ⟨mme, rfl, hlength⟩
  have hframes := buildFrames_fits call.staMacAddr call.macAddr ethFrameMinSize (hlength.trans_le hfits)
  have hsent : ∀ frame, (sendFrames pcap [frame] 0).2 = hpavOk := by
    intro frame
    unfold sendFrames
    rw [if_neg (by rw [hsend]; decide)]
    rfl
  unfold exchange
  rw [bind_ok, hframes]
  simp only [if_neg hcompile, if_neg hsetfilter, hsent, ne_eq, not_true_eq_false, if_false]
  split
  · rfl
  · rfl

/-- Such a packet has the size of header and request. -/
theorem encodes_mme {size : Nat} (call : Call) (mmtype : UInt16) (request : RequestOf size) :
    Encodes call (encodeMme size mmtype call.staMacAddr call.macAddr request) (mmeHeaderSize + size) := by
  have hlength : (mmeHeader mmtype ++ request.val).length = mmeHeaderSize + size := by
    rw [List.length_append, request.property]
    rfl
  refine ⟨mmeHeader mmtype ++ request.val, ?_, hlength⟩
  rw [encodeMme_eq, hlength]

/-- Such a packet has the size of header and request. -/
theorem encodes_mtkMme {size : Nat} (call : Call) (mmtype : UInt16) (request : RequestOf size) :
    Encodes call (encodeMtkMme size mmtype call.staMacAddr call.macAddr request) (mtkMmeHeaderSize + size) := by
  have hlength : (mtkMmeHeader mmtype ++ request.val).length = mtkMmeHeaderSize + size := by
    rw [List.length_append, request.property]
    rfl
  refine ⟨mtkMmeHeader mmtype ++ request.val, ?_, hlength⟩
  rw [encodeMtkMme_eq, hlength]

/-- An encrypted payload has its length behind 24 bytes. -/
theorem encodes_encryptedPayload (call : Call) (payload : EncryptedPayload) :
    Encodes call (encodeCmEncryptedPayloadInd call.staMacAddr call.macAddr payload.toCmEncryptedPayloadMme)
      (mmeHeaderSize + 24 + payload.encryptedDataLength.toNat) :=
  ⟨payload.mme, encodeCmEncryptedPayloadInd_eq _ _ payload, payload.length_mme⟩

/-- The packet of a map: the length and as many bytes as it asks for. -/
theorem encodeCmAmpMapReq_eq (staMacAddr srcMacAddr : Mac) (request : CmAmpMapReq) (h : request.mapDataSize ≤ 2000) :
    encodeCmAmpMapReq staMacAddr srcMacAddr request = .ok ⟨mmeHeaderSize + 2 + request.mapDataSize,
      mmeHeader 0x601C ++ (bytes16 request.mapLength ++ request.mapData.take request.mapDataSize),
      staMacAddr, srcMacAddr⟩ := by
  have hdata := request.length_mapData
  have htake : (request.mapData.take request.mapDataSize).length = request.mapDataSize := by
    rw [List.length_take]
    omega
  have hlength : (mmeHeader 0x601C).length + (bytes16 request.mapLength ++ request.mapData.take request.mapDataSize).length =
      mmeHeaderSize + 2 + request.mapDataSize := by
    rw [List.length_append, htake, length_bytes16, ← Nat.add_assoc]
    rfl
  unfold encodeCmAmpMapReq
  rw [load_ok (by omega), bind_ok, List.drop_zero, newPacket_eq _ _ hlength]

/-- A map is encoded as far as its entries fit the array. -/
theorem encodes_cmAmpMap (call : Call) (request : CmAmpMapReq) (h : request.mapDataSize ≤ 2000) :
    Encodes call (encodeCmAmpMapReq call.staMacAddr call.macAddr request) (mmeHeaderSize + 2 + request.mapDataSize) := by
  have hdata := request.length_mapData
  have htake : (request.mapData.take request.mapDataSize).length = request.mapDataSize := by
    rw [List.length_take]
    omega
  have hlength : (mmeHeader 0x601C ++ (bytes16 request.mapLength ++ request.mapData.take request.mapDataSize)).length =
      mmeHeaderSize + 2 + request.mapDataSize := by
    rw [List.length_append, List.length_append, htake, length_bytes16, ← Nat.add_assoc]
    rfl
  refine ⟨_, ?_, hlength⟩
  rw [encodeCmAmpMapReq_eq _ _ request h, hlength]

/-- A map longer than its buffer is written behind it. -/
theorem encodeCmAmpMap_overrun (call : Call) (request : CmAmpMapReq) (h : 2000 < request.mapDataSize) :
    ∃ e, encodeCmAmpMapReq call.staMacAddr call.macAddr request = .error e := by
  have hdata := request.length_mapData
  have hload : load request.mapData 0 request.mapDataSize = .error .outOfBounds := by
    unfold load
    rw [if_neg (by omega)]
  refine ⟨.outOfBounds, ?_⟩
  unfold encodeCmAmpMapReq
  rw [hload]
  rfl

/-- A raw MME is encoded as far as its size does not wrap around. -/
theorem encodes_rawMme (call : Call) (raw : RawMme) (h : mmeHeaderSize + raw.mmeData.length < 2 ^ 32) :
    Encodes call (encodeRawMme call.staMacAddr call.macAddr raw) (mmeHeaderSize + raw.mmeData.length) := by
  have hlength : (raw.header.val ++ raw.mmeData).length = mmeHeaderSize + raw.mmeData.length := by
    rw [List.length_append, raw.header.property]
  refine ⟨raw.header.val ++ raw.mmeData, ?_, hlength⟩
  unfold encodeRawMme
  rw [Nat.mod_eq_of_lt h, newPacket_eq _ _ (by rw [raw.header.property]), hlength]

/-- Data whose length with the header does not fit 32 bits is written behind the buffer. -/
theorem encodeRawMme_overrun (call : Call) (raw : RawMme) (h : 2 ^ 32 ≤ mmeHeaderSize + raw.mmeData.length) :
    ∃ e, encodeRawMme call.staMacAddr call.macAddr raw = .error e := by
  have hlt := raw.length_lt
  apply newPacket_overrun
  rw [raw.header.property, Nat.mod_eq_sub_mod h]
  have hmod := Nat.mod_le (mmeHeaderSize + raw.mmeData.length - 2 ^ 32) (2 ^ 32)
  omega

/-- Encrypting, `AES_cbc_encrypt` writes as many bytes as it is told to read. -/
structure CbcWrites (lib : CryptoLib) : Prop where
  length_encrypt : ∀ key iv data, (lib.aesCbcEncrypt key iv data).1.length = data.length

/-- The frame of a CM_SET_KEY.REQ is 57 bytes, its ciphertext 80. -/
theorem encryptRequest_eq {cipher : Cipher} (hlib : CbcWrites cipher.lib) (call : Call) (request : CmSetKeyReq) :
    ∃ payload : EncryptedPayload, encryptRequest cipher call request = .ok (some payload.toCmEncryptedPayloadMme) ∧
      payload.encryptedDataLength.toNat = 80 := by
  have hmme : (mmeHeader 0x6008 ++ request.val).length = mmeHeaderSize + 38 := by
    rw [List.length_append, request.property]
    rfl
  have hfits : (mmeHeader 0x6008 ++ request.val).length ≤ ethFrameMaxPayload := by
    rw [hmme]
    decide
  have hencode : encodeCmSetKeyReq call.staMacAddr call.macAddr request =
      .ok ⟨(mmeHeader 0x6008 ++ request.val).length, mmeHeader 0x6008 ++ request.val, call.staMacAddr, call.macAddr⟩ := by
    rw [hmme]
    exact encodeMme_eq 0x6008 call.staMacAddr call.macAddr request
  have hbuild := buildFrames_fits call.staMacAddr call.macAddr noMinSize hfits
  generalize hframe : EthFrame.ofCapture (frameBytes call.staMacAddr call.macAddr
    (mmeHeader 0x6008 ++ request.val) noMinSize) (length_frameBytes_le _ _ _ hfits) = frame at hbuild
  -- 14 and 5 bytes of headers and 38 of the request
  have hsize : frame.frameSize = 57 := by
    rw [← hframe]
    show (frameBytes _ _ _ _).length = _
    rw [length_frameBytes, hmme]
    rfl
  -- padded to whole blocks
  have htotal : totalSize frame cipher.rand = 80 := by
    unfold totalSize
    rw [paddingSize_eq]
    unfold unpaddedSize randFillerSize
    rw [hsize]
  have hlength : ∀ data, data.length = totalSize frame cipher.rand →
      (cipher.lib.aesCbcEncrypt (cipher.lib.generateDak cipher.devicePassword) initialIv data).1.length = 80 := by
    intro data hdata
    rw [hlib.length_encrypt, hdata, htotal]
  refine ⟨⟨{
      peks := 0, avlnStatus := 0, pid := frame.setKeyPid, prn := frame.setKeyPrn,
      pmn := frame.setKeyPmn, aesIv := initialIv, mmeLength := UInt16.ofNat frame.frameSize,
      encryptedDataLength := UInt16.ofNat (totalSize frame cipher.rand),
      encryptedData := (cipher.lib.aesCbcEncrypt (cipher.lib.generateDak cipher.devicePassword) initialIv
        (plaintext cipher.lib cipher.rand frame)).1 }, rfl, ?_⟩, ?_, ?_⟩
  · rw [hlength _ (length_plaintext _ _ _)]
    simp only [htotal]
    rfl
  · unfold encryptRequest
    rw [hencode, bind_ok, hbuild, bind_ok, List.head?_cons, encryptWithDak_eq]
  · simp only [htotal]
    rfl

/-- An encrypted key is 80 bytes behind the headers. -/
theorem encodes_encrypted {cipher : Cipher} (hlib : CbcWrites cipher.lib) (call : Call) (request : CmSetKeyReq) :
    Encodes call (encodeEncrypted cipher call request) (mmeHeaderSize + 24 + 80) := by
  rcases encryptRequest_eq hlib call request with ⟨payload, hencrypt, hlength⟩
  have hencodes := encodes_encryptedPayload call payload
  rw [hlength] at hencodes
  unfold encodeEncrypted
  rw [hencrypt, bind_ok]
  exact hencodes

/-! ## The report -/

/-- An MME is encoded unless it is too large anyway. -/
theorem Operation.encodes {cipher : Cipher} (hlib : CbcWrites cipher.lib) (call : Call) (op : Operation) :
    Encodes call (op.encode cipher call) op.mmeSize ∨
      (ethFrameMaxPayload < op.mmeSize ∧ ∃ e, op.encode cipher call = .error e) := by
  cases op with
  | rawMme raw =>
    by_cases hwrap : mmeHeaderSize + raw.mmeData.length < 2 ^ 32
    · exact Or.inl (encodes_rawMme call raw hwrap)
    · refine Or.inr ⟨?_, encodeRawMme_overrun call raw (by omega)⟩
      show 1500 < mmeHeaderSize + raw.mmeData.length
      omega
  | cmAmpMap request =>
    by_cases hfits : request.mapDataSize ≤ 2000
    · exact Or.inl (encodes_cmAmpMap call request hfits)
    · refine Or.inr ⟨?_, encodeCmAmpMap_overrun call request (by omega)⟩
      show 1500 < mmeHeaderSize + 2 + request.mapDataSize
      omega
  | cmEncryptedPayload request => exact Or.inl (encodes_encryptedPayload call request)
  | cmSetKey request => exact Or.inl (encodes_mme call _ request)
  | cmSetKeyEncrypted request => exact Or.inl (encodes_encrypted hlib call request)
  | mtkVsFileAccess scan request => exact Or.inl (encodes_mtkMme call _ request)
  | _ request => exact Or.inl (encodes_mtkMme call _ request)

/-- Every operation sends the frames of its packet or fails. -/
theorem Operation.sendsFrames (cipher : Cipher) (uninit behind : Nat → UInt8) (call : Call) (op : Operation) :
    SendsFrames (op.encode cipher call) fun pcap => op.attempt cipher uninit behind call pcap := by
  cases op with
  | rawMme raw => exact sendRawMme_sendsFrames call raw
  | cmSetKeyEncrypted request => exact cmSetKeyEncryptedSndrcv_sendsFrames cipher uninit call request behind
  | mtkVsSetNvram request =>
    have h := exchange_sendsFrames call (encodeMtkVsSetNvramReq call.staMacAddr call.macAddr request)
      ⟨0xA105, call.numFragments, fun _ => false, decodeMtkVsSetNvramCnf⟩ behind
    exact h
  | mtkVsFileAccess scan request =>
    exact exchange_sendsFrames call (encodeMtkVsFileAccessReq call.staMacAddr call.macAddr request) _ behind
  | _ request => exact exchange_sendsFrames call _ _ behind

/-- With no frame to send an operation ends well, which it should not. -/
theorem SendsOrFails.fits {cipher : Cipher} {call : Call} {op : Operation} (h : SendsOrFails cipher call op)
    (hencodes : Encodes call (op.encode cipher call) op.mmeSize) : op.mmeSize ≤ ethFrameMaxPayload := by
  rcases hencodes with ⟨mme, hencode, hlength⟩
  by_contra hlarge
  have hframes : (op.encode cipher call >>= fun p => buildFrames p ethFrameMinSize) = .ok [] := by
    rw [hencode, bind_ok]
    apply buildFrames_tooLarge
    show ethFrameMaxPayload < mme.length
    omega
  rcases (op.sendsFrames cipher (fun _ => 0) (fun _ => 0) call).silent hframes with ⟨pcap, hok⟩
  rcases h.fails (by omega) (fun _ => 0) (fun _ => 0) pcap with ⟨code, hcode, hne⟩
  rw [hok] at hcode
  injection hcode with hcode
  exact hne hcode.symm

/-- Success is reported rightly exactly if the MME fits in one frame. -/
theorem sendsOrFails_iff {cipher : Cipher} (hlib : CbcWrites cipher.lib) (call : Call) (op : Operation) :
    SendsOrFails cipher call op ↔ op.mmeSize ≤ ethFrameMaxPayload := by
  rcases op.encodes hlib call with ⟨mme, hencode, hlength⟩ | ⟨hlarge, e, hencode⟩
  · constructor
    · intro h
      exact h.fits ⟨mme, hencode, hlength⟩
    · intro hfits
      have hsize : mme.length ≤ ethFrameMaxPayload := by omega
      have hframes := buildFrames_fits call.staMacAddr call.macAddr ethFrameMinSize hsize
      refine ⟨?_, fun hlarge => absurd hfits (by omega)⟩
      intro uninit behind pcap hok
      refine ⟨_, hencode, hlength, ?_⟩
      have hsent := (op.sendsFrames cipher uninit behind call).sent _ (by rw [hencode, bind_ok, hframes]) pcap hok
      -- one frame: it is sent, or the failure is not reported as success
      have hone : ∀ frame, sendFrames pcap [frame] 0 = ((op.attempt cipher uninit behind call pcap).sent, hpavOk) →
          (op.attempt cipher uninit behind call pcap).sent = [frame.bytes] := by
        intro frame hloop
        unfold sendFrames at hloop
        split at hloop
        · injection hloop with hsent _
          exact hsent.symm
        · injection hloop with hsent _
          exact hsent.symm
      rw [hone _ hsent]
      congr 1
      exact List.take_left
  · constructor
    · intro h
      -- too large: the encoder fails and no code is returned
      rcases h.fails hlarge (fun _ => 0) (fun _ => 0) quietRun with ⟨code, hcode, -⟩
      have hfaulty := (op.sendsFrames cipher (fun _ => 0) (fun _ => 0) call).faulty e (by rw [hencode]; rfl) quietRun
      rw [hfaulty] at hcode
      cases hcode
    · intro hfits
      omega

/-- The libraries and the password of the CM_SET_KEY.REQ that is encrypted. -/
def setKeyCipher : Cipher where
  lib := setKeyLib
  rand := setKeyRand
  devicePassword := setKeyPassword

/-- This library writes as many bytes as it reads. -/
theorem setKeyLib_writes : CbcWrites setKeyLib := by
  constructor
  intro key iv data
  have hlength : setKeyCiphertext.length = setKeyPlaintext.length := by decide
  have hne : setKeyCiphertext ≠ setKeyPlaintext := by decide
  unfold setKeyLib
  by_cases hplain : data = setKeyPlaintext
  · simp [hplain, hlength]
  · by_cases hcipher : data = setKeyCiphertext
    · simp [hcipher, hne, hlength]
    · simp [hplain, hcipher]

/-- A library of known texts writes as many bytes as it reads. -/
theorem knownLib_writes (generateDak : List UInt8 → List UInt8) (texts : List KnownText) :
    CbcWrites (knownLib generateDak texts) := by
  constructor
  intro key iv data
  exact length_exchanged texts key iv data

/-- A call that waits a second for one answer. -/
def secondCall : Call where
  macAddr := firstStation
  staMacAddr := secondStation
  timeoutMs := 1000
  numFragments := 1

/-- A request with a map of so many entries. -/
def mapRequest (mapLength : UInt16) : CmAmpMapReq where
  mapLength
  mapData := List.replicate 2000 0x11
  length_mapData := List.length_replicate

/-- The longest map that fits. -/
theorem sendsOrFails_map2986 : SendsOrFails setKeyCipher secondCall (.cmAmpMap (mapRequest 2986)) :=
  (sendsOrFails_iff setKeyLib_writes secondCall (.cmAmpMap (mapRequest 2986))).mpr (by decide)

/-- The longest map that the command accepts. -/
theorem sendsOrFails_map3528 : ¬ SendsOrFails setKeyCipher secondCall (.cmAmpMap (mapRequest 3528)) := by
  intro h
  exact absurd (h.fits (encodes_cmAmpMap secondCall (mapRequest 3528) (by decide))) (by decide)

end Hpav
