import Mathlib.Tactic.Common
import Hpav.Decode
import Hpav.Encrypt

/-!
# What is taken out of an encrypted payload

A received CM_ENCRYPTED_PAYLOAD.IND brings three lengths of its own: that of its data, that
of the MME in it and, in the last byte of the payload, that of the filler in front of the
MME. `hpav_decrypt` goes by all of them and checks none against another. `Inside` is what
has to hold for the frame to come out of the payload.
-/

namespace Hpav

open CMem MemTrace

/-! ## Received messages -/

/-- The structure a copied message is: its first 24 bytes lie over the fields. -/
def CmEncryptedPayloadInd.toMme (ind : CmEncryptedPayloadInd) : CmEncryptedPayloadMme where
  peks := ind.unencrypted.getD 0 0
  avlnStatus := ind.unencrypted.getD 1 0
  pid := ind.unencrypted.getD 2 0
  prn := le16 (ind.unencrypted.getD 3 0) (ind.unencrypted.getD 4 0)
  pmn := ind.unencrypted.getD 5 0
  aesIv := (ind.unencrypted.drop 6).take 16
  mmeLength := le16 (ind.unencrypted.getD 22 0) (ind.unencrypted.getD 23 0)
  encryptedDataLength := ind.encryptedDataLength
  encryptedData := ind.encryptedData

/-- What `hpav_decode_cm_encrypted_payload_ind` makes of a packet. -/
def receivedPayload (packet : RxPacket) : CmEncryptedPayloadMme :=
  (decodeCmEncryptedPayloadInd packet).val.1.toMme

/-- The data is as long as its length says, whatever the packet is like. -/
theorem length_encryptedData (packet : RxPacket) :
    (receivedPayload packet).encryptedData.length = (receivedPayload packet).encryptedDataLength.toNat := by
  show ((List.range _).map _).length = _
  rw [List.length_map, List.length_range]
  rfl

/-! ## The payload -/

/-- `AES_cbc_encrypt` writes as many bytes as it is told to. -/
structure CbcLength (lib : CryptoLib) : Prop where
  length_decrypt : ∀ key iv data, (lib.aesCbcDecrypt key iv data).1.length = data.length

/-- The payload in the clear; there is none for a key selection that is not known. -/
def clearPayload (lib : CryptoLib) (rx : CmEncryptedPayloadMme) (dpw nmk : List UInt8) : Option (List UInt8) :=
  if rx.peks = 0 then some (lib.aesCbcDecrypt (lib.generateDak dpw) rx.aesIv rx.encryptedData).1
  else if rx.peks = 1 then some (lib.aesCbcDecrypt nmk rx.aesIv rx.encryptedData).1
  else if rx.peks = 15 then some rx.encryptedData
  else none

/-- The length of the filler. -/
def fillerLength (payload : List UInt8) : Nat :=
  (payload.getLastD 0).toNat

/-- The three lengths fit together: there is a last byte, filler and MME end in the payload,
and the MME is no longer than the frame it is copied into. -/
structure Inside (rx : CmEncryptedPayloadMme) (payload : List UInt8) : Prop where
  lastByte : 1 ≤ rx.encryptedDataLength.toNat
  mme : fillerLength payload + rx.mmeLength.toNat ≤ rx.encryptedDataLength.toNat
  frame : rx.mmeLength.toNat ≤ ethFrameArea

instance (rx : CmEncryptedPayloadMme) (payload : List UInt8) : Decidable (Inside rx payload) :=
  decidable_of_iff (1 ≤ rx.encryptedDataLength.toNat ∧
      fillerLength payload + rx.mmeLength.toNat ≤ rx.encryptedDataLength.toNat ∧
      rx.mmeLength.toNat ≤ ethFrameArea)
    ⟨fun ⟨hlast, hmme, hframe⟩ => ⟨hlast, hmme, hframe⟩, fun h => ⟨h.lastByte, h.mme, h.frame⟩⟩

/-- A frame taken out of a payload: as long as the message says, and byte by byte what
stands behind the filler. -/
structure TakenFrom (rx : CmEncryptedPayloadMme) (payload : List UInt8) (frame : Node EthFrame) : Prop where
  inside : Inside rx payload
  frameSize : frame.val.frameSize = rx.mmeLength.toNat
  bytes : frame.val.bytes = (payload.drop (fillerLength payload)).take rx.mmeLength.toNat
  next : frame.next = none

/-- The keyed and the unkeyed way are one extraction from the payload in the clear. -/
theorem decrypt_eq (lib : CryptoLib) (uninit : Nat → UInt8) (rx : CmEncryptedPayloadMme) (dpw nmk : List UInt8) :
    decrypt lib uninit (some rx) dpw nmk =
      match clearPayload lib rx dpw nmk with
      | none => .ok none
      | some payload => framePayload uninit rx payload >>= fun frame => .ok (some frame) := by
  unfold decrypt clearPayload
  simp only
  split
  · rfl
  · split
    · rfl
    · split
      · rfl
      · rfl

/-- In the clear the payload is as long as it was. -/
theorem length_clearPayload {lib : CryptoLib} (hlib : CbcLength lib) {rx : CmEncryptedPayloadMme}
    {dpw nmk payload : List UInt8} (h : clearPayload lib rx dpw nmk = some payload) :
    payload.length = rx.encryptedData.length := by
  unfold clearPayload at h
  split at h
  · rw [← Option.some.inj h]
    exact hlib.length_decrypt _ _ _
  · split at h
    · rw [← Option.some.inj h]
      exact hlib.length_decrypt _ _ _
    · split at h
      · rw [← Option.some.inj h]
      · cases h

/-- The last byte of a payload. -/
theorem load_lastByte {payload : List UInt8} {n : Nat} (hlength : payload.length = n) (hpos : 1 ≤ n) :
    load payload (n - 1) 1 = .ok [payload.getLastD 0] := by
  rcases payload.eq_nil_or_concat with rfl | ⟨init, last, rfl⟩
  · rw [← hlength] at hpos
    cases hpos
  · rw [List.concat_eq_append, List.length_append, List.length_singleton] at hlength
    have hinit : init.length = n - 1 := by omega
    rw [load_ok (by rw [List.concat_eq_append, List.length_append, List.length_singleton]; omega),
      List.concat_eq_append, List.drop_left' hinit, List.getLastD_concat]
    rfl

/-- A frame that fits is the one made. -/
theorem newEthFrame_inv {uninit : Nat → UInt8} {bytes : List UInt8} {frame : Node EthFrame}
    (h : newEthFrame uninit bytes = .ok frame) :
    bytes.length ≤ ethFrameArea ∧ frame.next = none ∧ frame.val.frameSize = bytes.length ∧ frame.val.bytes = bytes := by
  by_cases hfits : bytes.length ≤ ethFrameArea
  · rcases newEthFrame_ok uninit bytes hfits with ⟨node, hnode, hrest⟩
    rw [hnode] at h
    cases h
    exact ⟨hfits, hrest⟩
  · unfold newEthFrame at h
    rw [dif_neg hfits] at h
    cases h

theorem load_inv {mem bytes : List UInt8} {off len : Nat} (h : load mem off len = .ok bytes) :
    off + len ≤ mem.length ∧ bytes = (mem.drop off).take len := by
  unfold load at h
  split at h
  · exact ⟨by assumption, (Except.ok.inj h).symm⟩
  · cases h

/-- An extraction that goes through took the frame out of the payload. -/
theorem takenFrom_of_framePayload {uninit : Nat → UInt8} {rx : CmEncryptedPayloadMme} {payload : List UInt8}
    {frame : Node EthFrame} (hlength : payload.length = rx.encryptedDataLength.toNat)
    (h : framePayload uninit rx payload = .ok frame) : TakenFrom rx payload frame := by
  unfold framePayload at h
  rcases hlast : load payload (rx.encryptedDataLength.toNat - 1) 1 with f | lastByte
  · rw [hlast] at h
    cases h
  · have hpos : 1 ≤ rx.encryptedDataLength.toNat := by
      have hin := (load_inv hlast).1
      omega
    rw [load_lastByte hlength hpos, bind_ok] at h
    rcases hbytes : load payload (fillerLength payload) rx.mmeLength.toNat with f | bytes
    · have hfault : (load payload (fillerLength payload) rx.mmeLength.toNat >>= newEthFrame uninit) = .ok frame := h
      rw [hbytes] at hfault
      cases hfault
    · have hframe : (load payload (fillerLength payload) rx.mmeLength.toNat >>= newEthFrame uninit) = .ok frame := h
      rw [hbytes, bind_ok] at hframe
      rcases load_inv hbytes with ⟨hin, hslice⟩
      rcases newEthFrame_inv hframe with ⟨hfits, hnext, hsize, hcopy⟩
      have hlen : bytes.length = rx.mmeLength.toNat := by
        rw [hslice, List.length_take, List.length_drop]
        omega
      exact ⟨⟨hpos, by omega, by omega⟩, by rw [hsize, hlen], by rw [hcopy, hslice], hnext⟩

/-- It goes through if the lengths fit together. -/
theorem framePayload_of_inside (uninit : Nat → UInt8) {rx : CmEncryptedPayloadMme} {payload : List UInt8}
    (hlength : payload.length = rx.encryptedDataLength.toNat) (h : Inside rx payload) :
    ∃ frame, framePayload uninit rx payload = .ok frame := by
  rcases h with ⟨hlast, hmme, hframe⟩
  have hbytes : load payload (fillerLength payload) rx.mmeLength.toNat =
      .ok ((payload.drop (fillerLength payload)).take rx.mmeLength.toNat) := load_ok (by omega)
  have hsize : ((payload.drop (fillerLength payload)).take rx.mmeLength.toNat).length ≤ ethFrameArea := by
    rw [List.length_take]
    omega
  rcases newEthFrame_ok uninit _ hsize with ⟨node, hnode, -⟩
  refine ⟨node, ?_⟩
  unfold framePayload
  rw [load_lastByte hlength hlast, bind_ok]
  show load payload (fillerLength payload) rx.mmeLength.toNat >>= _ = _
  rw [hbytes, bind_ok, hnode]

/-- Whatever a packet brings, `hpav_decrypt` returns NULL or a frame out of the payload
exactly if the lengths in it fit together. -/
theorem decrypt_inside_iff {lib : CryptoLib} (hlib : CbcLength lib) (uninit : Nat → UInt8) (packet : RxPacket)
    (dpw nmk : List UInt8) :
    (∃ result, decrypt lib uninit (some (receivedPayload packet)) dpw nmk = .ok result ∧
        ∀ frame, result = some frame → ∃ payload,
          clearPayload lib (receivedPayload packet) dpw nmk = some payload ∧
            TakenFrom (receivedPayload packet) payload frame) ↔
      ∀ payload, clearPayload lib (receivedPayload packet) dpw nmk = some payload →
        Inside (receivedPayload packet) payload := by
  have hdata := length_encryptedData packet
  generalize receivedPayload packet = rx at hdata ⊢
  rw [decrypt_eq]
  rcases hclear : clearPayload lib rx dpw nmk with _ | payload
  · constructor
    · intro _ payload hnone
      cases hnone
    · intro _
      exact ⟨none, rfl, fun frame hsome => nomatch hsome⟩
  · have hlength : payload.length = rx.encryptedDataLength.toNat := by
      rw [length_clearPayload hlib hclear, hdata]
    constructor
    · -- a run that ends has taken a frame, and it took it from inside
      rintro ⟨result, hrun, -⟩ payload' hsome
      cases hsome
      rcases hframe : framePayload uninit rx payload with f | frame
      · simp only [hframe, bind_error] at hrun
        cases hrun
      · exact (takenFrom_of_framePayload hlength hframe).inside
    · intro hinside
      rcases framePayload_of_inside uninit hlength (hinside payload rfl) with ⟨frame, hframe⟩
      refine ⟨some frame, ?_, ?_⟩
      · simp only [hframe, bind_ok]
      · intro frame' hsome
        cases hsome
        exact ⟨payload, rfl, takenFrom_of_framePayload hlength hframe⟩

/-- A packet with these bytes behind its MME header. -/
def payloadPacket (bytes : List UInt8) : RxPacket where
  dataSize := UInt32.ofNat (mmeHeaderSize + bytes.length)
  mem := fun i => bytes.getD (i - mmeHeaderSize) 0
  srcMacAddr := firstStation

/-- The 24 bytes in front of a payload that is not encrypted. -/
def clearFields (mmeLength : UInt16) : List UInt8 :=
  [15] ++ List.replicate 21 0 ++ bytes16 mmeLength

theorem setKeyLib_length : CbcLength setKeyLib := by
  constructor
  intro key iv data
  show (if data = setKeyCiphertext then _ else _ : List UInt8 × List UInt8).1.length = _
  split
  · rename_i hdata
    rw [hdata]
    rfl
  · split
    · rename_i hdata
      rw [hdata]
      rfl
    · rfl

/-- Four bytes behind a filler of two. -/
theorem decrypt_inside_fourBytes :
    ∃ result, decrypt setKeyLib (fun _ => 0)
        (some (receivedPayload (payloadPacket (clearFields 4 ++ [9, 9, 1, 2, 3, 4, 2])))) [] [] = .ok result ∧
      ∀ frame, result = some frame → ∃ payload,
        clearPayload setKeyLib (receivedPayload (payloadPacket (clearFields 4 ++ [9, 9, 1, 2, 3, 4, 2]))) [] [] =
            some payload ∧
          TakenFrom (receivedPayload (payloadPacket (clearFields 4 ++ [9, 9, 1, 2, 3, 4, 2]))) payload frame := by
  refine (decrypt_inside_iff setKeyLib_length (fun _ => 0) _ [] []).mpr ?_
  intro payload hpayload
  have hseven : clearPayload setKeyLib (receivedPayload (payloadPacket (clearFields 4 ++ [9, 9, 1, 2, 3, 4, 2])))
      [] [] = some [9, 9, 1, 2, 3, 4, 2] := by decide +kernel
  rw [hseven] at hpayload
  cases hpayload
  decide +kernel

/-- A message without data has no last byte. -/
theorem decrypt_noData : ¬ ∃ result,
    decrypt setKeyLib (fun _ => 0) (some (receivedPayload (payloadPacket (clearFields 0)))) [] [] = .ok result := by
  have hfault : decrypt setKeyLib (fun _ => 0) (some (receivedPayload (payloadPacket (clearFields 0)))) [] [] =
      .error .outOfBounds := by rfl
  rintro ⟨result, hresult⟩
  rw [hfault] at hresult
  cases hresult

end Hpav
