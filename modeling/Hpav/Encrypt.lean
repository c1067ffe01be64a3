import Mathlib.Logic.Equiv.Basic
import Mathlib.Tactic.Common
import Hpav.Lib.CMem
import Hpav.Frame

/-!
# Encrypted payloads

`hpav_encrypt_with_dak`, `hpav_decrypt` and the functions between them (`hpav_mme.c`).
The plaintext is laid out by a cursor that moves over a fresh buffer. What OpenSSL and
zlib compute is a parameter: `CryptoLib` holds their functions, and `CbcLaws` what the
code relies on.
-/

namespace Hpav

open CMem

/-! ## The libraries -/

/-- What the code calls of OpenSSL and zlib, and the key derivation on top of them.
`AES_cbc_encrypt` returns its output and the initialization vector it leaves behind. -/
structure CryptoLib where
  generateDak : List UInt8 → List UInt8
  crc32 : UInt32 → List UInt8 → UInt32
  aesCbcEncrypt : List UInt8 → List UInt8 → List UInt8 → List UInt8 × List UInt8
  aesCbcDecrypt : List UInt8 → List UInt8 → List UInt8 → List UInt8 × List UInt8

/-- On whole blocks decryption with the key and the vector of the encryption undoes it. -/
structure CbcLaws (lib : CryptoLib) : Prop where
  decrypt_encrypt : ∀ key iv data, 16 ∣ data.length →
    (lib.aesCbcDecrypt key iv (lib.aesCbcEncrypt key iv data).1).1 = data

/-- The bytes `RAND_bytes` hands out in one call of `hpav_encrypt_with_dak`. -/
structure RandBytes where
  randByte : UInt8
  filler : Nat → UInt8
  padding : Nat → UInt8

/-- `struct hpav_cm_encrypted_payload_ind` -/
structure CmEncryptedPayloadMme where
  peks : UInt8
  avlnStatus : UInt8
  pid : UInt8
  prn : UInt16
  pmn : UInt8
  aesIv : List UInt8
  mmeLength : UInt16
  encryptedDataLength : UInt16
  encryptedData : List UInt8

/-! ## Encryption -/

namespace EthFrame

/-- `mme_data.cm_set_key_req.pid` -/
def setKeyPid (f : EthFrame) : UInt8 :=
  f.byte 28

/-- `mme_data.cm_set_key_req.prn` -/
def setKeyPrn (f : EthFrame) : UInt16 :=
  le16 (f.byte 29) (f.byte 30)

/-- `mme_data.cm_set_key_req.pmn` -/
def setKeyPmn (f : EthFrame) : UInt8 :=
  f.byte 31

/-- The first `frame_size` bytes of the structure: the frame itself. -/
def bytes (f : EthFrame) : List UInt8 :=
  f.mem.take f.frameSize

end EthFrame

/-- Initialization vector per HPAV 1.1 spec (Table 13-6). -/
def initialIv : List UInt8 :=
  [0xFE, 0xDC, 0xBA, 0x98, 0x76, 0x54, 0x32, 0x10, 0xFE, 0xDC, 0xBA, 0x98, 0x76, 0x54, 0x32, 0x10]

/-- The size of the random filler. What is drawn for it is overwritten by a constant. -/
def randFillerSize (_randByte : UInt8) : Nat :=
  5

/-- The size of all fields but the padding. -/
def unpaddedSize (frame : EthFrame) (rand : RandBytes) : Nat :=
  randFillerSize rand.randByte + frame.frameSize + 4 + 1 + 2 + 1 + 1

/-- Pad for 128-bit alignment. -/
def paddingSize (frame : EthFrame) (rand : RandBytes) : Nat :=
  (16 - (unpaddedSize frame rand &&& 0xF)) &&& 0xF

def totalSize (frame : EthFrame) (rand : RandBytes) : Nat :=
  unpaddedSize frame rand + paddingSize frame rand

/-- `RAND_bytes(p, num)`, as the bytes it stores. -/
def randBytes (source : Nat → UInt8) (num : Nat) : List UInt8 :=
  (List.range num).map source

/-- `data_to_encrypt`: the plaintext, written field by field into a fresh buffer. -/
def dataToEncrypt (lib : CryptoLib) (rand : RandBytes) (frame : EthFrame) :
    Except Fault Buffer := do
  let fillerSize := randFillerSize rand.randByte
  let data := mallocBuf (totalSize frame rand)
  let currentData := 0
  -- random filler
  let data ← store data currentData (randBytes rand.filler fillerSize)
  let currentData := currentData + fillerSize
  -- payload: the whole frame, not only its MME
  let payload ← load frame.mem 0 frame.frameSize
  let data ← store data currentData payload
  let currentData := currentData + frame.frameSize
  -- CRC
  let dataCrc := lib.crc32 (lib.crc32 0 []) payload
  let data ← store data currentData (bytes32 dataCrc)
  let currentData := currentData + 4
  -- PID, PRN, PMN
  let data ← store data currentData [frame.setKeyPid]
  let currentData := currentData + 1
  let data ← store data currentData (bytes16 frame.setKeyPrn)
  let currentData := currentData + 2
  let data ← store data currentData [frame.setKeyPmn]
  let currentData := currentData + 1
  -- padding
  let data ← store data currentData (randBytes rand.padding (paddingSize frame rand))
  let currentData := currentData + paddingSize frame rand
  -- length of random filler
  store data currentData [UInt8.ofNat fillerSize]

/-- `hpav_encrypt_with_dak` -/
def encryptWithDak (lib : CryptoLib) (rand : RandBytes) (txEthFrame : Option EthFrame)
    (devicePassword : List UInt8) : Except Fault (Option CmEncryptedPayloadMme) :=
  match txEthFrame with
  | none => .ok none
  | some frame => do
    let data ← dataToEncrypt lib rand frame
    let dak := lib.generateDak devicePassword
    let (encryptedData, _) := lib.aesCbcEncrypt dak initialIv (contents data)
    return some {
      peks := 0
      avlnStatus := 0
      pid := frame.setKeyPid
      prn := frame.setKeyPrn
      pmn := frame.setKeyPmn
      aesIv := initialIv
      mmeLength := UInt16.ofNat frame.frameSize
      encryptedDataLength := UInt16.ofNat (totalSize frame rand)
      encryptedData }

/-! ## Decryption -/

/-- A fresh frame whose first bytes are copied into; the rest of its memory is what
`malloc` left there. Copying past `mme_data` overwrites the fields behind it. -/
def newEthFrame (uninit : Nat → UInt8) (bytes : List UInt8) : Except Fault (Node EthFrame) :=
  if h : bytes.length ≤ ethFrameArea then
    .ok {
      val := {
        mem := bytes ++ ((List.range ethFrameArea).map uninit).drop bytes.length
        frameSize := bytes.length
        mem_length := by simp [Nat.add_sub_cancel' h]
        size_le := h }
      next := none }
  else
    .error .outOfBounds

/-- Take the frame out of a payload: it starts behind the random filler, whose size the
last byte tells. -/
def framePayload (uninit : Nat → UInt8) (rx : CmEncryptedPayloadMme) (payload : List UInt8) :
    Except Fault (Node EthFrame) := do
  let lastByte ← load payload (rx.encryptedDataLength.toNat - 1) 1
  let randomFillerSize := (lastByte.headD 0).toNat
  let bytes ← load payload randomFillerSize rx.mmeLength.toNat
  newEthFrame uninit bytes

/-- `hpav_decrypt_with_key` -/
def decryptWithKey (lib : CryptoLib) (uninit : Nat → UInt8) (rx : CmEncryptedPayloadMme)
    (decryptKey : List UInt8) : Except Fault (Option (Node EthFrame)) := do
  let aesIv := rx.aesIv
  let (decryptedPayload, _) := lib.aesCbcDecrypt decryptKey aesIv rx.encryptedData
  let frame ← framePayload uninit rx decryptedPayload
  return some frame

/-- `hpav_decrypt_with_dpw` -/
def decryptWithDpw (lib : CryptoLib) (uninit : Nat → UInt8) (rx : CmEncryptedPayloadMme)
    (devicePassword : List UInt8) : Except Fault (Option (Node EthFrame)) :=
  decryptWithKey lib uninit rx (lib.generateDak devicePassword)

/-- `hpav_decrypt_nokey` -/
def decryptNokey (uninit : Nat → UInt8) (rx : CmEncryptedPayloadMme) :
    Except Fault (Option (Node EthFrame)) := do
  let frame ← framePayload uninit rx rx.encryptedData
  return some frame

/-- `hpav_decrypt`: the key goes by the value of PEKS. -/
def decrypt (lib : CryptoLib) (uninit : Nat → UInt8) (rxEncryptedMme : Option CmEncryptedPayloadMme)
    (dpw nmk : List UInt8) : Except Fault (Option (Node EthFrame)) :=
  match rxEncryptedMme with
  | none => .ok none
  | some rx =>
    if rx.peks = 0 then decryptWithDpw lib uninit rx dpw
    else if rx.peks = 1 then decryptWithKey lib uninit rx nmk
    else if rx.peks = 15 then decryptNokey uninit rx
    else .ok none

/-! ## The layout of the plaintext -/

/-- The fields of the plaintext, one behind the other. -/
def plaintextFields (lib : CryptoLib) (rand : RandBytes) (frame : EthFrame) : List (List UInt8) :=
  [randBytes rand.filler 5, frame.bytes, bytes32 (lib.crc32 (lib.crc32 0 []) frame.bytes),
    [frame.setKeyPid], bytes16 frame.setKeyPrn, [frame.setKeyPmn],
    randBytes rand.padding (paddingSize frame rand), [5]]

def plaintext (lib : CryptoLib) (rand : RandBytes) (frame : EthFrame) : List UInt8 :=
  (plaintextFields lib rand frame).flatten

@[simp] theorem length_randBytes (source : Nat → UInt8) (num : Nat) :
    (randBytes source num).length = num := by
  simp [randBytes]

theorem EthFrame.length_bytes (f : EthFrame) : f.bytes.length = f.frameSize := by
  have hmem := f.mem_length
  have hle := f.size_le
  simp only [EthFrame.bytes, List.length_take]
  omega

theorem paddingSize_eq (frame : EthFrame) (rand : RandBytes) :
    paddingSize frame rand = (16 - unpaddedSize frame rand % 16) % 16 := by
  unfold paddingSize
  have hmod : ∀ n : Nat, n &&& 0xF = n % 16 := fun n => Nat.and_two_pow_sub_one_eq_mod n 4
  rw [hmod, hmod]

theorem paddingSize_le (frame : EthFrame) (rand : RandBytes) : paddingSize frame rand ≤ 15 := by
  rw [paddingSize_eq]
  omega

/-- The sizes add up to whole blocks. -/
theorem dvd_totalSize (frame : EthFrame) (rand : RandBytes) : 16 ∣ totalSize frame rand := by
  unfold totalSize
  rw [paddingSize_eq]
  omega

theorem length_plaintext (lib : CryptoLib) (rand : RandBytes) (frame : EthFrame) :
    (plaintext lib rand frame).length = totalSize frame rand := by
  have hframe := frame.length_bytes
  simp only [plaintext, plaintextFields, totalSize, unpaddedSize, randFillerSize,
    List.flatten_cons, List.flatten_nil, List.length_append, List.length_cons, List.length_nil,
    length_randBytes, length_bytes32, length_bytes16]
  omega

/-- The cursor writes the plaintext, and every byte of the buffer exactly once. -/
theorem dataToEncrypt_eq (lib : CryptoLib) (rand : RandBytes) (frame : EthFrame) :
    dataToEncrypt lib rand frame = .ok (once (plaintext lib rand frame)) := by
  have hmem := frame.mem_length
  have hle := frame.size_le
  have hframe := frame.length_bytes
  have hload : load frame.mem 0 frame.frameSize = .ok frame.bytes := load_ok (by omega)
  have hfields := storeFields_malloc (plaintextFields lib rand frame) (totalSize frame rand)
    (length_plaintext lib rand frame)
  rw [← plaintext] at hfields
  rw [← hfields]
  unfold dataToEncrypt plaintextFields
  simp only [hload, bind_ok, storeFields, randFillerSize, length_randBytes, hframe, length_bytes32,
    length_bytes16, List.length_cons, List.length_nil, Nat.zero_add, bind_ok_right]
  rfl

/-! ## The round trip -/

/-- The plaintext ends with the length of its filler. -/
theorem plaintext_eq_append (lib : CryptoLib) (rand : RandBytes) (frame : EthFrame) :
    plaintext lib rand frame = (plaintextFields lib rand frame).dropLast.flatten ++
      [UInt8.ofNat (randFillerSize rand.randByte)] := by
  have hsplit : plaintextFields lib rand frame =
      (plaintextFields lib rand frame).dropLast ++ [[UInt8.ofNat (randFillerSize rand.randByte)]] := rfl
  unfold plaintext
  conv_lhs => rw [hsplit]
  rw [List.flatten_append]
  rfl

/-- Behind the filler the plaintext holds the frame. -/
theorem frame_of_plaintext (lib : CryptoLib) (rand : RandBytes) (frame : EthFrame) :
    ((plaintext lib rand frame).drop 5).take frame.frameSize = frame.bytes := by
  simp only [plaintext, plaintextFields, List.flatten_cons]
  rw [List.drop_left' (length_randBytes rand.filler 5), List.take_left' frame.length_bytes]

theorem totalSize_lt (frame : EthFrame) (rand : RandBytes) : totalSize frame rand < 65536 := by
  have hle : frame.frameSize ≤ 2021 := frame.size_le
  have hpad := paddingSize_le frame rand
  simp only [totalSize, unpaddedSize, randFillerSize]
  omega

/-- A fresh frame holds the bytes copied into it, and no other frame follows. -/
theorem newEthFrame_ok (uninit : Nat → UInt8) (bytes : List UInt8)
    (h : bytes.length ≤ ethFrameArea) :
    ∃ node, newEthFrame uninit bytes = .ok node ∧ node.next = none ∧
      node.val.frameSize = bytes.length ∧ node.val.bytes = bytes := by
  unfold newEthFrame
  rw [dif_pos h]
  refine ⟨_, rfl, rfl, rfl, ?_⟩
  unfold EthFrame.bytes
  exact List.take_left

/-- Taking the frame out of a plaintext gives the frame that was put in. -/
theorem framePayload_plaintext (lib : CryptoLib) (rand : RandBytes) (frame : EthFrame)
    (uninit : Nat → UInt8) (rx : CmEncryptedPayloadMme)
    (hmme : rx.mmeLength = UInt16.ofNat frame.frameSize)
    (hlen : rx.encryptedDataLength = UInt16.ofNat (totalSize frame rand)) :
    ∃ node, framePayload uninit rx (plaintext lib rand frame) = .ok node ∧ node.next = none ∧
      node.val.frameSize = frame.frameSize ∧ node.val.bytes = frame.bytes := by
  have hsize : frame.frameSize ≤ 2021 := frame.size_le
  have hpad := paddingSize_le frame rand
  have htotal := totalSize_lt frame rand
  have hlength := length_plaintext lib rand frame
  have hfields : totalSize frame rand = 5 + frame.frameSize + 9 + paddingSize frame rand := by
    simp only [totalSize, unpaddedSize, randFillerSize]
  have hmmeNat : rx.mmeLength.toNat = frame.frameSize := by
    rw [hmme, UInt16.toNat_ofNat']
    omega
  have hlenNat : rx.encryptedDataLength.toNat = totalSize frame rand := by
    rw [hlen, UInt16.toNat_ofNat', Nat.mod_eq_of_lt htotal]
  -- the last byte is the size of the random filler
  have hlast : load (plaintext lib rand frame) (totalSize frame rand - 1) 1 = .ok [5] := by
    rw [load_ok (by omega)]
    rw [plaintext_eq_append, List.length_append] at hlength
    have hpre : ((plaintextFields lib rand frame).dropLast.flatten).length =
        totalSize frame rand - 1 := by
      simpa using Nat.eq_sub_of_add_eq hlength
    rw [plaintext_eq_append, List.drop_left' hpre]
    rfl
  -- the frame stands behind the five bytes of the header
  have hframe : load (plaintext lib rand frame) 5 frame.frameSize = .ok frame.bytes := by
    rw [load_ok (by omega), frame_of_plaintext]
  rcases newEthFrame_ok uninit frame.bytes (by rw [frame.length_bytes]; exact frame.size_le) with
    ⟨node, hnode, hnext, hnodeSize, hbytes⟩
  refine ⟨node, ?_, hnext, by rw [hnodeSize, frame.length_bytes], hbytes⟩
  unfold framePayload
  rw [hlenNat, hlast, bind_ok, hmmeNat]
  change load (plaintext lib rand frame) 5 frame.frameSize >>= _ = _
  rw [hframe, bind_ok, hnode]

/-- The message `hpav_encrypt_with_dak` makes of a frame. -/
theorem encryptWithDak_eq (lib : CryptoLib) (rand : RandBytes) (frame : EthFrame) (password : List UInt8) :
    encryptWithDak lib rand (some frame) password = .ok (some {
      peks := 0, avlnStatus := 0, pid := frame.setKeyPid, prn := frame.setKeyPrn,
      pmn := frame.setKeyPmn, aesIv := initialIv, mmeLength := UInt16.ofNat frame.frameSize,
      encryptedDataLength := UInt16.ofNat (totalSize frame rand),
      encryptedData := (lib.aesCbcEncrypt (lib.generateDak password) initialIv
        (plaintext lib rand frame)).1 }) := by
  unfold encryptWithDak
  simp only [dataToEncrypt_eq, bind_ok, contents_once]
  rfl

/-- Decrypting what `hpav_encrypt_with_dak` made of a frame gives the frame back, whatever
the random bytes are; the plaintext on the way is whole blocks, every byte of it is written
once, and it ends with the length of its filler. -/
theorem decrypt_encryptWithDak (lib : CryptoLib) (laws : CbcLaws lib) (rand : RandBytes)
    (frame : EthFrame) (password nmk : List UInt8) (uninit : Nat → UInt8) :
    ∃ data mme node,
      dataToEncrypt lib rand frame = .ok data ∧
      16 ∣ data.length ∧ paddingSize frame rand ≤ 15 ∧
      (∀ cell ∈ data, cell.length = 1) ∧
      (contents data).getLast? = some (UInt8.ofNat (randFillerSize rand.randByte)) ∧
      encryptWithDak lib rand (some frame) password = .ok (some mme) ∧
      decrypt lib uninit (some mme) password nmk = .ok (some node) ∧
      node.next = none ∧ node.val.frameSize = frame.frameSize ∧ node.val.bytes = frame.bytes := by
  have hdata := dataToEncrypt_eq lib rand frame
  have hdvd : 16 ∣ (plaintext lib rand frame).length := by
    rw [length_plaintext]
    exact dvd_totalSize frame rand
  have honce : ∀ cell ∈ once (plaintext lib rand frame), cell.length = 1 := by
    intro cell hcell
    rcases List.mem_map.mp hcell with ⟨b, _, rfl⟩
    rfl
  have hundo := laws.decrypt_encrypt (lib.generateDak password) initialIv
    (plaintext lib rand frame) hdvd
  have hencrypt := encryptWithDak_eq lib rand frame password
  -- the message in which the frame is sent
  generalize hmme : ({
      peks := 0, avlnStatus := 0, pid := frame.setKeyPid, prn := frame.setKeyPrn,
      pmn := frame.setKeyPmn, aesIv := initialIv, mmeLength := UInt16.ofNat frame.frameSize,
      encryptedDataLength := UInt16.ofNat (totalSize frame rand),
      encryptedData := (lib.aesCbcEncrypt (lib.generateDak password) initialIv
        (plaintext lib rand frame)).1 } : CmEncryptedPayloadMme) = mme at hencrypt
  rcases framePayload_plaintext lib rand frame uninit mme (by rw [← hmme]) (by rw [← hmme]) with
    ⟨node, hnode, hnext, hsize, hbytes⟩
  refine ⟨_, mme, node, hdata, ?_, paddingSize_le frame rand, honce, ?_, hencrypt, ?_, hnext, hsize,
    hbytes⟩
  · rw [length_once]
    exact hdvd
  · rw [contents_once, plaintext_eq_append]
    exact List.getLast?_concat
  · -- `peks` is 0: the device password is the key for both directions
    have hpeks : mme.peks = 0 := by rw [← hmme]
    unfold decrypt decryptWithDpw decryptWithKey
    simp only [hpeks, if_true]
    have hpayload : (lib.aesCbcDecrypt (lib.generateDak password) mme.aesIv mme.encryptedData).1 =
        plaintext lib rand frame := by
      rw [← hmme]
      exact hundo
    rw [hpayload, hnode]
    rfl

/-- A CM_SET_KEY.REQ as it is framed for sending, 60 bytes with its padding. -/
def setKeyFrame : EthFrame :=
  EthFrame.ofCapture [
    0x00, 0x13, 0xD7, 0x00, 0x00, 0x02, 0x00, 0x13, 0xD7, 0x00, 0x00, 0x01, 0x88, 0xE1, 0x01,
    0x08, 0x60, 0x00, 0x00, 0x01, 0x11, 0x22, 0x33, 0x44, 0x00, 0x00, 0x00, 0x00, 0x04, 0x01,
    0x00, 0x05, 0x00, 0xB0, 0xF2, 0xE6, 0x95, 0x66, 0x6B, 0x03, 0x01, 0x50, 0xD3, 0xE4, 0x93,
    0x3F, 0x85, 0x5B, 0x70, 0x40, 0x78, 0x4D, 0xF8, 0x15, 0xAA, 0x8D, 0xB7, 0x00, 0x00, 0x00] (by decide)

def setKeyRand : RandBytes where
  randByte := 0x3C
  filler := fun i => 0xA0 + UInt8.ofNat i
  padding := fun i => 0xB0 + UInt8.ofNat i

/-- The plaintext of `setKeyFrame` under `setKeyRand`. -/
def setKeyPlaintext : List UInt8 :=
  [
    0xA0, 0xA1, 0xA2, 0xA3, 0xA4, 0x00, 0x13, 0xD7, 0x00, 0x00, 0x02, 0x00, 0x13, 0xD7, 0x00,
    0x00, 0x01, 0x88, 0xE1, 0x01, 0x08, 0x60, 0x00, 0x00, 0x01, 0x11, 0x22, 0x33, 0x44, 0x00,
    0x00, 0x00, 0x00, 0x04, 0x01, 0x00, 0x05, 0x00, 0xB0, 0xF2, 0xE6, 0x95, 0x66, 0x6B, 0x03,
    0x01, 0x50, 0xD3, 0xE4, 0x93, 0x3F, 0x85, 0x5B, 0x70, 0x40, 0x78, 0x4D, 0xF8, 0x15, 0xAA,
    0x8D, 0xB7, 0x00, 0x00, 0x00, 0xD0, 0x01, 0x5E, 0xFE, 0x04, 0x01, 0x00, 0x05, 0xB0, 0xB1,
    0xB2, 0xB3, 0xB4, 0xB5, 0x05]

/-- Its AES-128-CBC encryption under the DAK of "HomePlugAV" and the fixed vector. -/
def setKeyCiphertext : List UInt8 :=
  [
    0xC3, 0xB6, 0x62, 0xAC, 0xEE, 0x75, 0x9D, 0x6D, 0x21, 0xE3, 0x80, 0x10, 0xDC, 0x45, 0xAC,
    0x35, 0x17, 0x17, 0xE0, 0x2E, 0xA3, 0x0C, 0x01, 0x66, 0x8A, 0xAD, 0x4B, 0x51, 0xFA, 0xFA,
    0x34, 0x70, 0x60, 0xD9, 0x52, 0xEE, 0xC0, 0x86, 0xCB, 0x76, 0xEF, 0x1C, 0x27, 0x7F, 0xCD,
    0x9A, 0x71, 0xCF, 0x18, 0x04, 0x9D, 0x3A, 0x7D, 0xC5, 0x56, 0xBF, 0x30, 0x46, 0x2D, 0x09,
    0x88, 0xC6, 0x60, 0x70, 0x5A, 0x71, 0x8D, 0xCB, 0x0D, 0xA4, 0xB7, 0xF3, 0x48, 0xD5, 0x25,
    0xD9, 0x94, 0x15, 0x9B, 0x4F]

def setKeyPassword : List UInt8 :=
  [72, 111, 109, 101, 80, 108, 117, 103, 65, 86]

/-- The libraries, as they answer for `setKeyFrame` and the password "HomePlugAV". -/
def setKeyLib : CryptoLib where
  generateDak := fun _ =>
    [0x68, 0x9F, 0x07, 0x4B, 0x8B, 0x02, 0x75, 0xA2, 0x71, 0x0B, 0x0B, 0x57, 0x79, 0xAD, 0x16, 0x30]
  crc32 := fun _ bytes => if bytes.isEmpty then 0 else 0xFE5E01D0
  aesCbcEncrypt := fun _ _ data =>
    if data = setKeyPlaintext then (setKeyCiphertext, setKeyCiphertext.drop 64)
    else if data = setKeyCiphertext then (setKeyPlaintext, setKeyPlaintext.drop 64)
    else (data, data.drop (data.length - 16))
  aesCbcDecrypt := fun _ _ data =>
    if data = setKeyCiphertext then (setKeyPlaintext, setKeyCiphertext.drop 64)
    else if data = setKeyPlaintext then (setKeyCiphertext, setKeyPlaintext.drop 64)
    else (data, data.drop (data.length - 16))

theorem setKeyLib_laws : CbcLaws setKeyLib := by
  constructor
  intro key iv data _
  have hne : setKeyPlaintext ≠ setKeyCiphertext := by decide
  unfold setKeyLib
  by_cases hplain : data = setKeyPlaintext
  · simp [hplain]
  · by_cases hcipher : data = setKeyCiphertext
    · simp [hcipher, hne, Ne.symm hne]
    · simp [hplain, hcipher]

/-- With the real key, checksum and ciphertext of that frame. -/
theorem decrypt_encryptWithDak_setKey :
    (dataToEncrypt setKeyLib setKeyRand setKeyFrame = .ok (once setKeyPlaintext) ∧
      (setKeyLib.aesCbcEncrypt (setKeyLib.generateDak setKeyPassword) initialIv
        setKeyPlaintext).1 = setKeyCiphertext) ∧
    ∃ data mme node,
      dataToEncrypt setKeyLib setKeyRand setKeyFrame = .ok data ∧
      16 ∣ data.length ∧ paddingSize setKeyFrame setKeyRand ≤ 15 ∧
      (∀ cell ∈ data, cell.length = 1) ∧
      (contents data).getLast? = some (UInt8.ofNat (randFillerSize setKeyRand.randByte)) ∧
      encryptWithDak setKeyLib setKeyRand (some setKeyFrame) setKeyPassword = .ok (some mme) ∧
      decrypt setKeyLib (fun _ => 0) (some mme) setKeyPassword [] = .ok (some node) ∧
      node.next = none ∧ node.val.frameSize = setKeyFrame.frameSize ∧
      node.val.bytes = setKeyFrame.bytes :=
  ⟨⟨by decide +kernel, by decide +kernel⟩,
    decrypt_encryptWithDak setKeyLib setKeyLib_laws setKeyRand setKeyFrame setKeyPassword []
      (fun _ => 0)⟩

/-! ## The libraries on known texts -/

/-- So many bits are shifted out of the register of `crc32`. -/
def crcShift : Nat → UInt32 → UInt32
  | 0, c => c
  | n + 1, c => crcShift n (if c &&& 1 = 1 then (c >>> 1) ^^^ 0xEDB88320 else c >>> 1)

/-- `crc32` of zlib -/
def zlibCrc32 (crc : UInt32) (bytes : List UInt8) : UInt32 :=
  ~~~(bytes.foldl (fun c b => crcShift 8 (c ^^^ b.toUInt32)) (~~~crc))

/-- A text, and what it is encrypted to with a key and a vector. -/
structure KnownText where
  key : List UInt8
  iv : List UInt8
  plain : List UInt8
  cipher : List UInt8
  length_cipher : cipher.length = plain.length

/-- What is made of a text, and back: a known one is exchanged with its encryption. -/
def exchanged (texts : List KnownText) (key iv data : List UInt8) : List UInt8 :=
  match texts.find? fun t => t.key = key ∧ t.iv = iv with
  | some t => Equiv.swap t.plain t.cipher data
  | none => data

/-- Libraries that answer as OpenSSL does where they are asked for a known text. -/
def knownLib (generateDak : List UInt8 → List UInt8) (texts : List KnownText) : CryptoLib where
  generateDak
  crc32 := zlibCrc32
  aesCbcEncrypt key iv data :=
    (exchanged texts key iv data, (exchanged texts key iv data).drop (data.length - 16))
  aesCbcDecrypt key iv data := (exchanged texts key iv data, data.drop (data.length - 16))

/-- Exchanged twice, a text is as it was. -/
theorem exchanged_exchanged (texts : List KnownText) (key iv data : List UInt8) :
    exchanged texts key iv (exchanged texts key iv data) = data := by
  unfold exchanged
  cases texts.find? fun t => t.key = key ∧ t.iv = iv with
  | none => rfl
  | some t => exact Equiv.congr_fun (Equiv.swap_swap t.plain t.cipher) data

/-- An exchange leaves the length as it is. -/
theorem length_exchanged (texts : List KnownText) (key iv data : List UInt8) :
    (exchanged texts key iv data).length = data.length := by
  unfold exchanged
  cases texts.find? fun t => t.key = key ∧ t.iv = iv with
  | none => rfl
  | some t =>
    show (Equiv.swap t.plain t.cipher data).length = data.length
    rw [Equiv.swap_apply_def]
    split
    · rename_i hplain
      rw [hplain, t.length_cipher]
    · split
      · rename_i hcipher
        rw [hcipher, t.length_cipher]
      · rfl

theorem knownLib_laws (generateDak : List UInt8 → List UInt8) (texts : List KnownText) :
    CbcLaws (knownLib generateDak texts) := by
  constructor
  intro key iv data _
  exact exchanged_exchanged texts key iv data

end Hpav
