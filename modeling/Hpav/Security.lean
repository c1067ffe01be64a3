import Mathlib.Tactic.Common
import Hpav.SetKeyExchange
import Hpav.SetKeyText
import Hpav.Lib.Sha256

/-!
# Keys from passwords

`hpav_security.c` derives keys and network identifiers from passwords, `test_security.c` displays
them. The digest of OpenSSL is a parameter. What is displayed is what CM_SET_KEY takes: the request
of `test_mme_cm_set_key_req` carries the key and the identifier themselves, and the station that
decrypts it with the displayed DAK finds them in it (`keysShown_reachStation`).
-/

namespace Hpav

open CMem CScan CNumeral MemTrace

/-! ## The digest -/

/-- What is relied on of the digest of OpenSSL, which `SHA256_Final` makes of all the bytes that
`SHA256_Update` was given: it has `SHA256_DIGEST_LENGTH` bytes. -/
structure DigestLength (sha256 : List UInt8 → List UInt8) : Prop where
  length_digest : ∀ m, (sha256 m).length = 32

/-! ## The derivation -/

section Derivation

variable (sha256 : List UInt8 → List UInt8)

/-- The loop of `hpav_pbkdf1_sha256`, so many times. -/
def pbkdf1Loop : Nat → List UInt8 → List UInt8
  | 0, digest => digest
  | n + 1, digest => pbkdf1Loop n (sha256 digest)

/-- `hpav_pbkdf1_sha256`: the bytes that are written to `result`. -/
def pbkdf1Sha256 (password salt : List UInt8) (iterationCount resultSize : Nat) : List UInt8 :=
  let digest := pbkdf1Loop sha256 (iterationCount - 1) (sha256 (password ++ salt))
  if resultSize > 32 then digest else digest.take resultSize

/-- `hpav_generate_key` -/
def generateKey (password salt : List UInt8) : List UInt8 :=
  pbkdf1Sha256 sha256 password salt 1000 16

/-- `hpav_generate_nmk` -/
def generateNmk (password : CString) : List UInt8 :=
  generateKey sha256 password [0x08, 0x85, 0x6D, 0xAF, 0x7C, 0xF5, 0x81, 0x86]

/-- `hpav_generate_dak` -/
def generateDak (password : CString) : List UInt8 :=
  generateKey sha256 password [0x08, 0x85, 0x6D, 0xAF, 0x7C, 0xF5, 0x81, 0x85]

/-- The last byte of a NID: the four upper bits, and the security level in bits 4 and 5. -/
def nidLevel (byte securityLevel : UInt8) : UInt8 :=
  (byte >>> 4) ||| ((securityLevel &&& 3) <<< 4)

/-- `hpav_generate_nid` -/
def generateNid (nmk : List UInt8) (securityLevel : UInt8) : List UInt8 :=
  let result := pbkdf1Sha256 sha256 nmk [] 5 7
  result.set 6 (nidLevel (result.getD 6 0) securityLevel)

end Derivation

/-- The NID of the NMK that comes with every station. -/
example : generateNid Sha256.digest [0x50, 0xD3, 0xE4, 0x93, 0x3F, 0x85, 0x5B, 0x70, 0x40, 0x78, 0x4D, 0xF8, 0x15, 0xAA, 0x8D,
    0xB7] 0 = [0xB0, 0xF2, 0xE6, 0x95, 0x66, 0x6B, 0x03] := by decide +kernel

/-! ## The commands -/

/-- `hpav_md5sumtos` -/
def md5sumtos (md5sum : List UInt8) : CString :=
  md5sum.flatMap (byteText hexDigit)

/-- `hpav_aeskeytos` -/
def aeskeytos (aeskey : List UInt8) : CString :=
  md5sumtos aeskey

/-- `hpav_nidtos` -/
def nidtos (nid : List UInt8) : CString :=
  mactos nid

/-- What a command returns and what it prints. -/
structure Display where
  rv : Int
  output : CString

/-- The two lines of a command: what it was given, and what it made of it. -/
def generated (heading input label value : CString) : Display :=
  ⟨0, heading ++ input ++ text ">\n" ++ label ++ value ++ text "\n"⟩

section Commands

variable (sha256 : List UInt8 → List UInt8)

/-- `test_secu_gen_nmk` -/
def testSecuGenNmk (password : CString) : Display :=
  generated (text "Generated NMK from password : <") password (text "NMK                         : ")
    (aeskeytos (generateNmk sha256 password))

/-- `test_secu_gen_dak` -/
def testSecuGenDak (password : CString) : Display :=
  generated (text "Generated DAK from password : <") password (text "DAK                         : ")
    (aeskeytos (generateDak sha256 password))

/-- `security_level` as `test_secu_gen_nid` sets it. -/
def securityLevelOf (more : List CString) : UInt8 :=
  match more with
  | [] => 0
  | a :: _ => UInt8.ofInt (atoi a)

/-- `test_secu_gen_nid` -/
def testSecuGenNid (nmk : CString) (more : List CString) : Display :=
  generated (text "Generated NID from NMK      : <") nmk (text "NID                         : ")
    (nidtos (generateNid sha256 (hpavStomd5sum nmk) (securityLevelOf more)))

def testSecuUsage : Display :=
  ⟨exitUsage, text "Usage : hpav_test test_secu gen_nmk|gen_dak|gen_nid|encrypt input [security_level]\n"⟩

/-- `test_secu`. `none` is the encryption of the example of the specification. -/
def testSecu : List CString → Option Display
  | [] => some testSecuUsage
  | [word] => if word = text "encrypt" then none else some testSecuUsage
  | word :: input :: more =>
    if word = text "gen_nmk" then some (testSecuGenNmk sha256 input)
    else if word = text "gen_dak" then some (testSecuGenDak sha256 input)
    else if word = text "gen_nid" then some (testSecuGenNid sha256 input more)
    else some testSecuUsage

/-- The first word chooses the network key. -/
theorem testSecu_genNmk (input : CString) (more : List CString) :
    testSecu sha256 (text "gen_nmk" :: input :: more) = some (testSecuGenNmk sha256 input) := rfl

/-- The first word chooses the key of the device. -/
theorem testSecu_genDak (input : CString) (more : List CString) :
    testSecu sha256 (text "gen_dak" :: input :: more) = some (testSecuGenDak sha256 input) := rfl

/-- The first word chooses the identifier of the network. -/
theorem testSecu_genNid (input : CString) (more : List CString) :
    testSecu sha256 (text "gen_nid" :: input :: more) = some (testSecuGenNid sha256 input more) := rfl

end Commands

/-! ## What is displayed -/

/-- What stands on the last line, behind the label. -/
def shown (p : Display) : CString :=
  (p.output.dropLast.reverse.takeWhile (· ≠ 10)).reverse.drop 30

/-- What a command made of its input is shown, if it is one line. -/
theorem shown_generated (heading input : CString) {label value : CString} (hlength : label.length = 30)
    (hlabel : 10 ∉ label) (hvalue : 10 ∉ value) : shown (generated heading input label value) = value := by
  have hlast : (heading ++ input ++ text ">\n" ++ label ++ value).reverse.takeWhile (· ≠ 10) =
      (label ++ value).reverse := by
    have hline : ∀ b ∈ (label ++ value).reverse, (decide (b ≠ 10)) = true := by
      intro b hb
      rw [List.mem_reverse, List.mem_append] at hb
      apply decide_eq_true
      rintro rfl
      exact hb.elim hlabel hvalue
    -- the line in front ends
    have hfront : (heading ++ input ++ text ">\n").reverse = 10 :: 62 :: (heading ++ input).reverse := List.reverse_append
    rw [List.append_assoc, List.reverse_append, List.takeWhile_append_of_pos hline, hfront]
    exact List.append_nil _
  have houtput : (generated heading input label value).output =
      heading ++ input ++ text ">\n" ++ label ++ value ++ [10] := rfl
  unfold shown
  rw [houtput, List.dropLast_concat, hlast, List.reverse_reverse, List.drop_left' hlength]

/-- The text of a key is one line. -/
theorem newline_notMem_aeskeytos (key : List UInt8) : 10 ∉ aeskeytos key := by
  intro h
  exact absurd ((hexPairs_byteText hexDigit_value key).mem 10 h) (by decide)

/-- The text of an identifier is one line. -/
theorem newline_notMem_nidtos {nid : List UInt8} (h : nid ≠ []) : 10 ∉ nidtos nid := by
  intro hmem
  exact absurd ((colonHex_mactos h).mem 10 hmem) (by decide)

/-- What is displayed is the text of the network key. -/
theorem shown_testSecuGenNmk (sha256 : List UInt8 → List UInt8) (password : CString) :
    shown (testSecuGenNmk sha256 password) = aeskeytos (generateNmk sha256 password) :=
  shown_generated _ _ rfl (by decide) (newline_notMem_aeskeytos _)

/-- What is displayed is the text of the key of the device. -/
theorem shown_testSecuGenDak (sha256 : List UInt8 → List UInt8) (password : CString) :
    shown (testSecuGenDak sha256 password) = aeskeytos (generateDak sha256 password) :=
  shown_generated _ _ rfl (by decide) (newline_notMem_aeskeytos _)

/-! ## Sizes -/

section Sizes

variable {sha256 : List UInt8 → List UInt8} (hsha256 : DigestLength sha256)

include hsha256

/-- The loop goes from digest to digest. -/
theorem length_pbkdf1Loop (n : Nat) {digest : List UInt8} (h : digest.length = 32) :
    (pbkdf1Loop sha256 n digest).length = 32 := by
  induction n generalizing digest with
  | zero => exact h
  | succ n ih => exact ih (hsha256.length_digest digest)

/-- The derivation gives as many bytes as are asked for, up to a digest. -/
theorem length_pbkdf1Sha256 (password salt : List UInt8) (iterationCount : Nat) {resultSize : Nat}
    (h : resultSize ≤ 32) :
    (pbkdf1Sha256 sha256 password salt iterationCount resultSize).length = resultSize := by
  have hloop := length_pbkdf1Loop hsha256 (iterationCount - 1) (hsha256.length_digest (password ++ salt))
  unfold pbkdf1Sha256
  rw [if_neg (by omega), List.length_take, hloop, Nat.min_eq_left h]

/-- A key has 16 bytes. -/
theorem length_generateKey (password salt : List UInt8) : (generateKey sha256 password salt).length = 16 := by
  unfold generateKey
  rw [length_pbkdf1Sha256 hsha256 password salt 1000 (by decide)]

/-- A network key has 16 bytes. -/
theorem length_generateNmk (password : CString) : (generateNmk sha256 password).length = 16 := by
  unfold generateNmk
  rw [length_generateKey hsha256]

/-- The key of a device has 16 bytes. -/
theorem length_generateDak (password : CString) : (generateDak sha256 password).length = 16 := by
  unfold generateDak
  rw [length_generateKey hsha256]

/-- An identifier has 7 bytes. -/
theorem length_generateNid (nmk : List UInt8) (securityLevel : UInt8) :
    (generateNid sha256 nmk securityLevel).length = 7 := by
  unfold generateNid
  rw [List.length_set]
  exact length_pbkdf1Sha256 hsha256 _ _ _ (by decide)

/-- What is displayed is the text of the identifier. -/
theorem shown_testSecuGenNid (nmk : CString) (more : List CString) :
    shown (testSecuGenNid sha256 nmk more) =
      nidtos (generateNid sha256 (hpavStomd5sum nmk) (securityLevelOf more)) := by
  refine shown_generated _ _ rfl (by decide) (newline_notMem_nidtos ?_)
  rw [ne_eq, ← List.length_eq_zero_iff, length_generateNid hsha256]
  decide

end Sizes

/-! ## What is read back -/

/-- The text of a key is read as the key. -/
theorem hpavStomd5sum_aeskeytos {key : List UInt8} (h : key.length = 16) : hpavStomd5sum (aeskeytos key) = key :=
  hpavStomd5sum_eq (hexPairs_byteText hexDigit_value key) h

/-- The text of a NID is read as the NID. -/
theorem hpavStonid_nidtos {nid : List UInt8} (h : nid.length = 7) : hpavStonid (nidtos nid) = nid := by
  refine hpavStonid_eq (colonHex_mactos ?_) h
  rintro rfl
  cases h

/-- The security level is read off the last byte of a NID. -/
theorem level_generateNid {sha256 : List UInt8 → List UInt8} (hsha256 : DigestLength sha256) (nmk : List UInt8)
    (securityLevel : UInt8) : (generateNid sha256 nmk securityLevel).getD 6 0 >>> 4 = securityLevel &&& 3 := by
  have hshift : ∀ b : UInt8, (b >>> 4) >>> 4 = 0 ∧ ((b &&& 3) <<< 4) >>> 4 = b &&& 3 := by
    intro b
    have hall : ∀ b : Fin 256, (UInt8.ofFin b >>> 4) >>> 4 = 0 ∧
        ((UInt8.ofFin b &&& 3) <<< 4) >>> 4 = UInt8.ofFin b &&& 3 := by
      decide +kernel
    exact hall b.toFin
  have hlength : (pbkdf1Sha256 sha256 nmk [] 5 7).length = 7 := length_pbkdf1Sha256 hsha256 nmk [] 5 (by decide)
  unfold generateNid nidLevel
  simp only
  rw [List.getD_eq_getElem?_getD, List.getElem?_set_self (by rw [hlength]; decide), Option.getD_some,
    UInt8.shiftRight_or, (hshift _).1, (hshift _).2, UInt8.zero_or]

/-! ## What the station makes of it -/

/-- What a station with a DAK makes of a frame: it reassembles the message, decrypts its payload, and
takes the requests out of the frame inside. -/
def stationRequests (lib : CryptoLib) (behind uninit : Nat → UInt8) (dak : List UInt8) (frame : EthFrame) :
    Except Fault (List (List UInt8)) := do
  let packets ← defragFrames [frame]
  let inner ← (decodeCmEncryptedPayloads behind packets).mapM fun ind => decryptWithKey lib uninit ind.1 dak
  let requests ← defragFrames (inner.filterMap fun node => node.map (·.val))
  .ok (requests.map fun packet => (packet.data.drop mmeHeaderSize).take 38)

/-- The message made of a request is decrypted with the DAK of the password to the frame of the request. -/
theorem encryptRequest_decrypts {cipher : Cipher} (laws : CbcLaws cipher.lib) (hlib : CbcWrites cipher.lib) (call : Call)
    (request : CmSetKeyReq) :
    ∃ payload : EncryptedPayload, encryptRequest cipher call request = .ok (some payload.toCmEncryptedPayloadMme) ∧
      payload.encryptedDataLength.toNat = 80 ∧
      ∀ uninit, ∃ node,
        decryptWithKey cipher.lib uninit payload.toCmEncryptedPayloadMme
          (cipher.lib.generateDak cipher.devicePassword) = .ok (some node) ∧
        node.val.bytes = frameBytes call.staMacAddr call.macAddr (mmeHeader 0x6008 ++ request.val) noMinSize := by
  obtain ⟨payload, hencrypt, hlength⟩ := encryptRequest_eq hlib call request
  refine ⟨payload, hencrypt, hlength, ?_⟩
  intro uninit
  have hmme : (mmeHeader 0x6008 ++ request.val).length = mmeHeaderSize + 38 := by
    rw [List.length_append, request.property]
    rfl
  have hencode : encodeCmSetKeyReq call.staMacAddr call.macAddr request =
      .ok ⟨(mmeHeader 0x6008 ++ request.val).length, mmeHeader 0x6008 ++ request.val, call.staMacAddr, call.macAddr⟩ := by
    rw [hmme]
    exact encodeMme_eq 0x6008 call.staMacAddr call.macAddr request
  have hfits : (mmeHeader 0x6008 ++ request.val).length ≤ ethFrameMaxPayload := by
    rw [hmme]
    decide
  have hbuild := buildFrames_fits call.staMacAddr call.macAddr noMinSize hfits
  -- the payload is the encrypted frame
  unfold encryptRequest at hencrypt
  rw [hencode, bind_ok, hbuild, bind_ok, List.head?_cons, encryptWithDak_eq] at hencrypt
  generalize hframe : EthFrame.ofCapture (frameBytes call.staMacAddr call.macAddr
    (mmeHeader 0x6008 ++ request.val) noMinSize) (length_frameBytes_le _ _ _ hfits) = frame at hencrypt
  injection hencrypt with hencrypt
  injection hencrypt with hencrypt
  have hdvd : 16 ∣ (plaintext cipher.lib cipher.rand frame).length := by
    rw [length_plaintext]
    exact dvd_totalSize frame cipher.rand
  have hundo := laws.decrypt_encrypt (cipher.lib.generateDak cipher.devicePassword) initialIv _ hdvd
  rcases framePayload_plaintext cipher.lib cipher.rand frame uninit payload.toCmEncryptedPayloadMme
    (by rw [← hencrypt]) (by rw [← hencrypt]) with ⟨node, hnode, -, -, hbytes⟩
  refine ⟨node, ?_, ?_⟩
  · unfold decryptWithKey
    have hpayload : (cipher.lib.aesCbcDecrypt (cipher.lib.generateDak cipher.devicePassword)
        payload.aesIv payload.encryptedData).1 = plaintext cipher.lib cipher.rand frame := by
      rw [← hencrypt]
      exact hundo
    simp only [hpayload, hnode, bind_ok]
    rfl
  · rw [hbytes, ← hframe]
    exact List.take_left

/-- The request in its frame, as reassembly hands it on. -/
theorem requests_of_frame {f : EthFrame} {dst src : Mac} {request : CmSetKeyReq}
    (h : f.bytes = frameBytes dst src (mmeHeader 0x6008 ++ request.val) noMinSize) :
    (defragFrames [f] >>= fun requests =>
      Except.ok (requests.map fun packet => (packet.data.drop mmeHeaderSize).take 38)) =
        (.ok [request.val] : Except Fault (List (List UInt8))) := by
  have hheader := length_ethHeader dst src
  have hmme : (mmeHeader 0x6008).length = 5 := rfl
  have hbytes : f.bytes = (dst.bytes ++ src.bytes ++ mmeEtherType) ++ (mmeHeader 0x6008 ++ request.val) := by
    rw [h, frameBytes_eq]
    unfold paddedMme noMinSize
    rw [Nat.zero_sub, List.replicate_zero, List.append_nil]
  have hsize : f.frameSize = 57 := by
    rw [← f.length_bytes, hbytes, List.length_append, hheader, List.length_append, hmme, request.property]
  have hfirst : f.fmiNfFn = 0 := by
    have hoff : 17 = ethHeaderSize + 3 := rfl
    rw [EthFrame.fmiNfFn_eq (by omega), hbytes, hoff, getD_drop, List.drop_left' hheader,
      List.getD_append _ _ _ _ (by rw [hmme]; decide)]
    rfl
  have hdata : (framePacket f).data = mmeHeader 0x6008 ++ request.val := by
    show f.bytesFrom 14 = _
    rw [f.bytesFrom_eq, hbytes, List.drop_left' hheader]
  rw [defragFrames_single (by rw [hsize]; decide), if_pos hfirst, bind_ok, List.map_cons, List.map_nil, hdata]
  have hrequest : ((mmeHeader 0x6008 ++ request.val).drop mmeHeaderSize).take 38 = request.val := by
    rw [List.drop_left' hmme]
    exact List.take_of_length_le (by rw [request.property])
  rw [hrequest]

/-- The frame of the encrypted message gives the request. -/
theorem stationRequests_eq {cipher : Cipher} (laws : CbcLaws cipher.lib) (hlib : CbcWrites cipher.lib) (call : Call)
    (request : CmSetKeyReq) (behind uninit : Nat → UInt8) :
    ∃ payload : EncryptedPayload, encryptRequest cipher call request = .ok (some payload.toCmEncryptedPayloadMme) ∧
      ∃ hfits : payload.mme.length ≤ ethFrameMaxPayload,
        stationRequests cipher.lib behind uninit (cipher.lib.generateDak cipher.devicePassword)
          (EthFrame.ofCapture (frameBytes call.staMacAddr call.macAddr payload.mme ethFrameMinSize)
            (length_frameBytes_le _ _ _ hfits)) = .ok [request.val] := by
  obtain ⟨payload, hencrypt, hlength, hdecrypts⟩ := encryptRequest_decrypts laws hlib call request
  have hfits : payload.mme.length ≤ ethFrameMaxPayload := by
    rw [payload.length_mme, hlength]
    decide
  refine ⟨payload, hencrypt, hfits, ?_⟩
  obtain ⟨packet, hdefrag, hval⟩ :=
    decode_payloadFrame behind (by omega) (length_frameBytes_le call.staMacAddr call.macAddr ethFrameMinSize hfits)
  obtain ⟨node, hnode, hbytes⟩ := hdecrypts uninit
  have hdecoded : decodeCmEncryptedPayloads behind [packet] = [(payload.toCmEncryptedPayloadMme, call.macAddr)] := by
    unfold decodeCmEncryptedPayloads
    rw [List.map_cons, List.map_nil, hval, EncryptedPayload.extended_of_long (by omega)]
    simp only [toMme_unencrypted]
  unfold stationRequests
  rw [hdefrag, bind_ok, hdecoded, List.mapM_cons, List.mapM_nil]
  simp only [hnode, bind_ok]
  exact requests_of_frame hbytes

/-- An exchange hands over its one frame, unless pcap fails in front of it. -/
theorem sent_exchange_one {α : Type} {call : Call} {packet : Except Fault MmePacket} (expected : Expected α)
    (behind : Nat → UInt8) (pcap : PcapRun) {frame : EthFrame}
    (h : (packet >>= fun p => buildFrames p ethFrameMinSize) = .ok [frame]) :
    (exchange call packet expected behind pcap).sent =
      if pcap.compile = -1 ∨ pcap.setfilter = -1 then [] else [frame.bytes] := by
  have hloop : (sendFrames pcap [frame] 0).1 = [frame.bytes] := by
    unfold sendFrames sendFrames
    split
    · rfl
    · rfl
  unfold exchange
  rw [h]
  by_cases hcompile : pcap.compile = -1
  · rw [if_pos (Or.inl hcompile)]
    simp only [hcompile, if_true]
  by_cases hsetfilter : pcap.setfilter = -1
  · rw [if_pos (Or.inr hsetfilter)]
    simp only [hcompile, hsetfilter, if_true, if_false]
  rw [if_neg (by simp only [hcompile, hsetfilter, or_self, not_false_eq_true])]
  simp only [hcompile, hsetfilter, if_false]
  rw [← hloop]
  split
  · rfl
  · split
    · rfl
    · rfl

/-- What is displayed for two passwords, given to CM_SET_KEY, reaches the station that knows the
displayed DAK: the message that is sent decrypts to the request that was meant, whose new key is the
NMK of the password, and whose NID is the one of this NMK, with the security level in it. -/
theorem keysShown_reachStation {sha256 : List UInt8 → List UInt8} (hsha256 : DigestLength sha256) {s : Setting}
    (laws : CbcLaws s.lib) (hwrites : CbcWrites s.lib) (hdak : s.lib.generateDak = generateDak sha256)
    {password devicePassword : CString} {more : List CString}
    {pnmk pnid pdak : Display} (hpnmk : testSecu sha256 [text "gen_nmk", password] = some pnmk)
    (hpnid : testSecu sha256 (text "gen_nid" :: shown pnmk :: more) = some pnid)
    (hpdak : testSecu sha256 [text "gen_dak", devicePassword] = some pdak) {argv : List CString} {a : CString} {dest : Mac}
    (ha : argv[0]? = some a) (hdest : stomac a = some dest) (hnid : argv[8]? = some (shown pnid))
    (hnmk : argv[10]? = some (shown pnmk)) (hpassword : argv[11]? = some devicePassword) (behind uninit : Nat → UInt8) :
    ∃ (request : CmSetKeyReq) (frame : EthFrame),
      newKey request = generateNmk sha256 password ∧
      requestNid request = generateNid sha256 (generateNmk sha256 password) (securityLevelOf more) ∧
      (requestNid request).getD 6 0 >>> 4 = securityLevelOf more &&& 3 ∧
      setKeySent s argv = (if s.pcap.compile = -1 ∨ s.pcap.setfilter = -1 then [] else [frame.bytes]) ∧
      frame.dstMacAddr = dest ∧
      stationRequests s.lib behind uninit (hpavStomd5sum (shown pdak)) frame = .ok [request.val] := by
  have hshownNmk : shown pnmk = aeskeytos (generateNmk sha256 password) := by
    rw [← Option.some.inj ((testSecu_genNmk sha256 password []).symm.trans hpnmk), shown_testSecuGenNmk]
  have hshownNid : shown pnid = nidtos (generateNid sha256 (generateNmk sha256 password) (securityLevelOf more)) := by
    rw [← Option.some.inj ((testSecu_genNid sha256 (shown pnmk) more).symm.trans hpnid),
      shown_testSecuGenNid hsha256, hshownNmk, hpavStomd5sum_aeskeytos (length_generateNmk hsha256 password)]
  have hshownDak : hpavStomd5sum (shown pdak) = s.lib.generateDak devicePassword := by
    rw [← Option.some.inj ((testSecu_genDak sha256 devicePassword []).symm.trans hpdak), shown_testSecuGenDak,
      hpavStomd5sum_aeskeytos (length_generateDak hsha256 devicePassword), hdak]
  -- the arguments make the request
  have hlength : 12 ≤ argv.length := (List.getElem?_eq_some_iff.mp hpassword).1
  obtain ⟨nid, key, request, hargNid, hargKey, hparameters, hrequestNid, hnewKey⟩ :=
    setKeyParameters_ok s (by omega) ha hdest
  obtain rfl : shown pnid = nid := Option.some.inj (hnid.symm.trans hargNid)
  obtain rfl : shown pnmk = key := Option.some.inj (hnmk.symm.trans hargKey)
  rw [hshownNid, hpavStonid_nidtos (length_generateNid hsha256 _ _)] at hrequestNid
  rw [hshownNmk, hpavStomd5sum_aeskeytos (length_generateNmk hsha256 password)] at hnewKey
  -- and the request goes out in a message
  obtain ⟨payload, hencrypt, hfits, hstation⟩ :=
    @stationRequests_eq ⟨s.lib, s.rand, devicePassword⟩ laws hwrites ⟨s.macAddr, dest, 1000, 1⟩ request behind uninit
  have hframes := buildFrames_fits dest s.macAddr ethFrameMinSize hfits
  refine ⟨request, _, hnewKey, hrequestNid, ?_, ?_, ?_, hshownDak ▸ hstation⟩
  · rw [hrequestNid, level_generateNid hsha256]
  · unfold setKeySent setKeySndrcv
    rw [hparameters, hpassword]
    simp only
    unfold cmSetKeyEncryptedSndrcv
    rw [hencrypt]
    refine sent_exchange_one _ _ _ ?_
    rw [encodeCmEncryptedPayloadInd_eq, bind_ok, hframes]
  · exact dstMacAddr_frameBytes _

/-- The arguments of CM_SET_KEY, with what is displayed for the password of a new station. -/
def newStationArguments : List CString :=
  [text "00:13:d7:00:00:01", text "1", text "0", text "0", text "4", text "1", text "5", text "0",
    shown (testSecuGenNid Sha256.digest (shown (testSecuGenNmk Sha256.digest (text "HomePlugAV"))) [text "1"]), text "1",
    shown (testSecuGenNmk Sha256.digest (text "HomePlugAV")), text "HomePlugAV"]

/-- The request of these arguments in its frame, with its checksum and with the filler and the
padding of `setKeyRand`, and what AES-128-CBC makes of it with the DAK of "HomePlugAV". -/
def newStationText : KnownText where
  key := [0x68, 0x9F, 0x07, 0x4B, 0x8B, 0x02, 0x75, 0xA2, 0x71, 0x0B, 0x0B, 0x57, 0x79, 0xAD, 0x16, 0x30]
  iv := initialIv
  plain := [
    0xA0, 0xA1, 0xA2, 0xA3, 0xA4, 0x00, 0x13, 0xD7, 0x00, 0x00, 0x01, 0x00, 0x13, 0xD7, 0x00,
    0x00, 0x02, 0x88, 0xE1, 0x01, 0x08, 0x60, 0x00, 0x00, 0x01, 0x00, 0x00, 0x00, 0x00, 0x00,
    0x00, 0x00, 0x00, 0x04, 0x01, 0x00, 0x05, 0x00, 0xB0, 0xF2, 0xE6, 0x95, 0x66, 0x6B, 0x13,
    0x01, 0x50, 0xD3, 0xE4, 0x93, 0x3F, 0x85, 0x5B, 0x70, 0x40, 0x78, 0x4D, 0xF8, 0x15, 0xAA,
    0x8D, 0xB7, 0x28, 0x7B, 0xA7, 0x18, 0x04, 0x01, 0x00, 0x05, 0xB0, 0xB1, 0xB2, 0xB3, 0xB4,
    0xB5, 0xB6, 0xB7, 0xB8, 0x05]
  cipher := [
    0x36, 0xCE, 0x91, 0x6D, 0xE1, 0xD2, 0x23, 0xC5, 0x47, 0xB2, 0xA0, 0xF2, 0x34, 0xC3, 0xA9,
    0x15, 0x88, 0x7F, 0x97, 0xBF, 0x7A, 0x9D, 0xD3, 0xF9, 0x5D, 0x86, 0x2A, 0xC7, 0x9E, 0x6C,
    0x62, 0x53, 0xA7, 0x1B, 0x60, 0x5C, 0x77, 0x38, 0xA8, 0x6A, 0xF8, 0xFD, 0x24, 0x26, 0x95,
    0xFB, 0x64, 0x56, 0x1E, 0x20, 0x6B, 0x43, 0x77, 0x68, 0xC8, 0x4B, 0xCB, 0x6E, 0x4A, 0x61,
    0xD8, 0x00, 0x2F, 0x38, 0x0F, 0xBE, 0xCD, 0xFA, 0x73, 0xC2, 0x13, 0x9E, 0x42, 0x1A, 0x0F,
    0x44, 0xA8, 0xF4, 0xC1, 0xFC]
  length_cipher := rfl

/-- The host, with libraries that answer for this request. -/
def newStationSetting : Setting :=
  { openSetting with macAddr := secondStation, lib := knownLib (generateDak Sha256.digest) [newStationText] }

/-- The keys displayed for the password "HomePlugAV" reach a station that knows it. -/
theorem keysShown_reachStation_new :
    ∃ (request : CmSetKeyReq) (frame : EthFrame),
      newKey request = generateNmk Sha256.digest (text "HomePlugAV") ∧
      requestNid request =
        generateNid Sha256.digest (generateNmk Sha256.digest (text "HomePlugAV")) (securityLevelOf [text "1"]) ∧
      (requestNid request).getD 6 0 >>> 4 = securityLevelOf [text "1"] &&& 3 ∧
      setKeySent newStationSetting newStationArguments =
        (if newStationSetting.pcap.compile = -1 ∨ newStationSetting.pcap.setfilter = -1 then [] else [frame.bytes]) ∧
      frame.dstMacAddr = firstStation ∧
      stationRequests newStationSetting.lib (fun _ => 0) (fun _ => 0)
        (hpavStomd5sum (shown (testSecuGenDak Sha256.digest (text "HomePlugAV")))) frame = .ok [request.val] := by
  have hdigest : DigestLength Sha256.digest := ⟨Sha256.length_digest⟩
  have hlaws : CbcLaws newStationSetting.lib := knownLib_laws _ _
  have hwrites : CbcWrites newStationSetting.lib := knownLib_writes _ _
  have hgenerate : newStationSetting.lib.generateDak = generateDak Sha256.digest := by
    simp only [newStationSetting, knownLib]
  have haddress : stomac (text "00:13:d7:00:00:01") = some firstStation := rfl
  have hnmk := testSecu_genNmk Sha256.digest (text "HomePlugAV") []
  have hnid := testSecu_genNid Sha256.digest (shown (testSecuGenNmk Sha256.digest (text "HomePlugAV"))) [text "1"]
  have hdak := testSecu_genDak Sha256.digest (text "HomePlugAV") []
  have h0 : newStationArguments[0]? = some (text "00:13:d7:00:00:01") := rfl
  have h8 : newStationArguments[8]? = some (shown (testSecuGenNid Sha256.digest
    (shown (testSecuGenNmk Sha256.digest (text "HomePlugAV"))) [text "1"])) := rfl
  have h10 : newStationArguments[10]? = some (shown (testSecuGenNmk Sha256.digest (text "HomePlugAV"))) := rfl
  have h11 : newStationArguments[11]? = some (text "HomePlugAV") := rfl
  exact keysShown_reachStation hdigest hlaws hwrites hgenerate hnmk hnid hdak h0 haddress h8 h10 h11 (fun _ => 0)
    (fun _ => 0)

end Hpav
