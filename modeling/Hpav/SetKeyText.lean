import Mathlib.Tactic.Common
import Hpav.ExitCode
import Hpav.NvramWrite
import Hpav.MacText

/-!
# The texts of CM_SET_KEY

`test_mme_cm_set_key_req` reads the NID and the new key from its arguments. `hpav_stonid` and
`hpav_stomd5sum` make zeros of what they cannot read, and do not say so: the request goes out,
with a NID or a key of zeros, or with what the conversions made of a text that is not in the
expected format (`setKey_meets_iff`).
-/

namespace Hpav

open CMem CScan CNumeral

/-! ## What is sent -/

/-- The parameters of `test_mme_cm_set_key_req`. -/
def setKeyParameters (s : Setting) (argv : List CString) : Except Leave (Mac × CmSetKeyReq) := do
  atLeast argv 11
  let dest ← destMac argv
  let keyType ← number argv 1
  let myNonce ← argument argv 2
  let yourNonce ← argument argv 3
  let pid ← number argv 4
  let prn ← number argv 5
  let pmn ← number argv 6
  let ccoCap ← number argv 7
  let nid ← argument argv 8
  let newEks ← number argv 9
  let newKey ← argument argv 10
  .ok (dest, requestOf 38 s.uninit ([UInt8.ofInt keyType] ++ unsignedAt s 1 myNonce ++
    unsignedAt s 5 yourNonce ++ [UInt8.ofInt pid] ++ short prn ++ [UInt8.ofInt pmn, UInt8.ofInt ccoCap] ++
    hpavStonid nid ++ [UInt8.ofInt newEks] ++ hpavStomd5sum newKey))

/-- The exchange: with a password the request is encrypted. -/
def setKeySndrcv (s : Setting) (argv : List CString) : Sndrcv CmSetKeyReq (List UInt8) :=
  match argv[11]? with
  | some devicePassword => cmSetKeyEncryptedSndrcv ⟨s.lib, s.rand, devicePassword⟩ s.uninit
  | none => cmSetKeySndrcv

theorem testMmeCmSetKeyReq_eq (s : Setting) (fs : LocalFs) (argv : List CString) :
    testMmeCmSetKeyReq s fs argv = testMme (setKeySndrcv s argv) 1000 1 s (setKeyParameters s argv) := by
  unfold testMmeCmSetKeyReq setKeySndrcv
  cases argv[11]? with
  | none => rfl
  | some devicePassword => rfl

/-- The packets the command hands over to pcap. -/
def setKeySent (s : Setting) (argv : List CString) : List (List UInt8) :=
  match setKeyParameters s argv with
  | .error _ => []
  | .ok (dest, mmeSent) => (setKeySndrcv s argv ⟨s.macAddr, dest, 1000, 1⟩ mmeSent s.behind s.pcap).sent

/-- The log of the command names these packets. -/
theorem setKeySent_of_run {s : Setting} {fs : LocalFs} {argv : List CString} {v : Verdict} {result : Int}
    {packets : List (List UInt8)} {answers : Nat} (h : testMmeCmSetKeyReq s fs argv = .ok v)
    (hlog : .mme result packets answers ∈ v.log) : packets = setKeySent s argv := by
  rw [testMmeCmSetKeyReq_eq] at h
  unfold testMme at h
  unfold setKeySent
  rcases hparameters : setKeyParameters s argv with leave | ⟨dest, mmeSent⟩
  · rw [hparameters] at h
    rcases leave.log h with hnone | hnone
    · rw [hnone] at hlog
      cases List.mem_singleton.mp hlog
    · rw [hnone] at hlog
      cases List.mem_singleton.mp hlog
  · rw [hparameters] at h
    obtain ⟨⟨code, response⟩, -, h⟩ := bind_eq_ok.mp h
    injection h with h
    rw [← h] at hlog
    injection List.mem_singleton.mp hlog

/-! ## The parameters -/

theorem length_unsignedAt (s : Setting) (offset : Nat) (a : CString) : (unsignedAt s offset a).length = 4 := by
  unfold unsignedAt
  split
  · rfl
  · exact length_bytes32 _

theorem length_hpavStonid (nid : CString) : (hpavStonid nid).length = 7 := by
  unfold hpavStonid
  simp only
  split
  · exact List.length_replicate
  · rename_i h
    exact not_not.mp h

theorem length_hpavStomd5sum (md5sum : CString) : (hpavStomd5sum md5sum).length = 16 := by
  unfold hpavStomd5sum
  simp only
  split
  · exact List.length_replicate
  · rename_i h
    exact not_not.mp h

/-- `request->nid` -/
def requestNid (request : CmSetKeyReq) : List UInt8 :=
  (request.val.drop 14).take 7

/-- What the command makes of its arguments if they are enough and the station is an address. -/
theorem setKeyParameters_ok (s : Setting) {argv : List CString} {a : CString} {dest : Mac} (hlength : 11 ≤ argv.length)
    (ha : argv[0]? = some a) (hdest : stomac a = some dest) :
    ∃ nid key mmeSent, argv[8]? = some nid ∧ argv[10]? = some key ∧
      setKeyParameters s argv = .ok (dest, mmeSent) ∧
      requestNid mmeSent = hpavStonid nid ∧ newKey mmeSent = hpavStomd5sum key := by
  obtain ⟨a0, a1, a2, a3, a4, a5, a6, a7, a8, a9, a10, rest, rfl⟩ : ∃ a0 a1 a2 a3 a4 a5 a6 a7 a8 a9 a10 rest,
      argv = a0 :: a1 :: a2 :: a3 :: a4 :: a5 :: a6 :: a7 :: a8 :: a9 :: a10 :: rest := by
    match argv, hlength with
    | a0 :: a1 :: a2 :: a3 :: a4 :: a5 :: a6 :: a7 :: a8 :: a9 :: a10 :: rest, _ =>
      exact ⟨a0, a1, a2, a3, a4, a5, a6, a7, a8, a9, a10, rest, rfl⟩
  obtain rfl : a0 = a := by simpa using ha
  have hatLeast := atLeast_ok.mpr hlength
  have hstation : destMac (a0 :: a1 :: a2 :: a3 :: a4 :: a5 :: a6 :: a7 :: a8 :: a9 :: a10 :: rest) = .ok dest := by
    unfold destMac address argument
    simp only [List.length_cons, List.getElem?_cons_zero, bind, Except.bind, hdest]
    rfl
  -- the fourteen bytes in front of the NID
  let front := [UInt8.ofInt (atoi a1)] ++ unsignedAt s 1 a2 ++ unsignedAt s 5 a3 ++ [UInt8.ofInt (atoi a4)] ++
    short (atoi a5) ++ [UInt8.ofInt (atoi a6), UInt8.ofInt (atoi a7)]
  have hfront : front.length = 14 := by
    simp only [front, List.length_append, List.length_cons, List.length_nil, length_unsignedAt]
    rfl
  have hbytes : (front ++ hpavStonid a8 ++ [UInt8.ofInt (atoi a9)] ++ hpavStomd5sum a10).length = 38 := by
    rw [List.length_append, List.length_append, List.length_append, hfront, length_hpavStonid, length_hpavStomd5sum]
    rfl
  refine ⟨a8, a10, requestOf 38 s.uninit (front ++ hpavStonid a8 ++ [UInt8.ofInt (atoi a9)] ++ hpavStomd5sum a10),
    rfl, rfl, ?_, ?_, ?_⟩
  · unfold setKeyParameters
    rw [hatLeast, hstation]
    rfl
  · unfold requestNid
    rw [requestOf_val _ hbytes.le, List.append_assoc, List.append_assoc, List.append_assoc, List.drop_left' hfront]
    exact List.take_left' (length_hpavStonid a8)
  · have hbefore : (front ++ hpavStonid a8 ++ [UInt8.ofInt (atoi a9)]).length = 22 := by
      rw [List.length_append, List.length_append, hfront, length_hpavStonid]
      rfl
    unfold newKey
    rw [requestOf_val _ hbytes.le, List.append_assoc, List.drop_left' hbefore]
    exact List.take_left' (length_hpavStomd5sum a10)

/-- Without enough arguments or without an address nothing is sent. -/
theorem setKeySent_nil (s : Setting) {argv : List CString}
    (h : argv.length < 11 ∨ ∃ a, argv[0]? = some a ∧ stomac a = none) : setKeySent s argv = [] := by
  have hleave : ∃ leave, setKeyParameters s argv = .error leave := by
    unfold setKeyParameters
    by_cases hlength : argv.length < 11
    · refine ⟨.usage, ?_⟩
      have hatLeast : atLeast argv 11 = .error .usage := if_pos hlength
      rw [hatLeast]
      rfl
    · rcases h with hfew | ⟨a, ha, hnone⟩
      · exact absurd hfew hlength
      · refine ⟨.usage, ?_⟩
        have hstation : destMac argv = .error .usage := by
          unfold destMac address argument
          rw [if_pos (by omega), ha]
          simp only [bind, Except.bind, hnone]
        rw [atLeast_ok.mpr (by omega), hstation]
        rfl
  obtain ⟨leave, hleave⟩ := hleave
  unfold setKeySent
  rw [hleave]

/-! ## A setting in which the request goes out -/

/-- pcap reports no error, nobody answers. -/
def openSetting : Setting :=
  (quietMachine.around 0).setting

theorem cmSetKeySndrcv_quiet (call : Call) (request : CmSetKeyReq) (behind : Nat → UInt8) :
    (cmSetKeySndrcv call request behind quietRun).sent ≠ [] := by
  obtain ⟨mme, hencode, hlength⟩ := encodes_mme call 0x6008 request
  have hframes := buildFrames_fits call.staMacAddr call.macAddr ethFrameMinSize
    (hlength.trans_le (by decide : mmeHeaderSize + 38 ≤ ethFrameMaxPayload))
  have houtcome : (cmSetKeySndrcv call request behind quietRun).outcome = .ok (hpavOk, []) :=
    exchange_quiet (by
      show encodeMme 38 0x6008 _ _ _ >>= _ = _
      rw [hencode, bind_ok, hframes])
  exact sends_cmSetKey request _ _ _ _ houtcome

theorem cmSetKeyEncryptedSndrcv_quiet (cipher : Cipher) (hlib : CbcWrites cipher.lib) (uninit : Nat → UInt8)
    (call : Call) (request : CmSetKeyReq) (behind : Nat → UInt8) :
    (cmSetKeyEncryptedSndrcv cipher uninit call request behind quietRun).sent ≠ [] := by
  obtain ⟨payload, hpayload, hlength⟩ := encryptRequest_eq hlib call request
  obtain ⟨mme, hencode, hsize⟩ := encodes_encryptedPayload call payload
  have hfits : mme.length ≤ ethFrameMaxPayload := by
    rw [hsize, hlength]
    decide
  have hframes := buildFrames_fits call.staMacAddr call.macAddr ethFrameMinSize hfits
  have houtcome : (cmEncryptedPayloadSndrcv call payload.toCmEncryptedPayloadMme behind quietRun).outcome =
      .ok (hpavOk, []) :=
    exchange_quiet (by
      show encodeCmEncryptedPayloadInd _ _ _ >>= _ = _
      rw [hencode, bind_ok, hframes])
  have hoverall : (cmSetKeyEncryptedSndrcv cipher uninit call request behind quietRun).outcome = .ok (hpavOk, []) := by
    unfold cmSetKeyEncryptedSndrcv
    rw [hpayload]
    simp only [houtcome, bind_ok]
    rfl
  exact sends_cmSetKeyEncrypted hlib uninit request _ _ _ _ hoverall

/-- Given enough arguments and an address the request goes out, whatever the texts are. -/
theorem setKeySent_openSetting {argv : List CString} {a : CString} {dest : Mac} (hlength : 11 ≤ argv.length)
    (ha : argv[0]? = some a) (hdest : stomac a = some dest) : setKeySent openSetting argv ≠ [] := by
  obtain ⟨nid, key, mmeSent, -, -, hparameters, -, -⟩ := setKeyParameters_ok openSetting hlength ha hdest
  unfold setKeySent
  rw [hparameters]
  show (setKeySndrcv openSetting argv _ mmeSent _ quietRun).sent ≠ []
  unfold setKeySndrcv
  cases argv[11]? with
  | none => exact cmSetKeySndrcv_quiet _ _ _
  | some devicePassword => exact cmSetKeyEncryptedSndrcv_quiet _ setKeyLib_writes _ _ _ _

/-! ## When only well-formed texts are sent -/

/-- The NID and the key of the arguments are in the expected format; their bytes. -/
structure SetKeyTexts (argv : List CString) (nid key : List UInt8) : Prop where
  nidText : ∃ a, argv[8]? = some a ∧ ColonHex a nid
  length_nid : nid.length = 7
  keyText : ∃ a, argv[10]? = some a ∧ HexPairs a key
  length_key : key.length = 16

/-- A request is sent only with a NID and a key in the expected format, and carries them. -/
def SetKeyMeets (argv : List CString) : Prop :=
  ∀ s, setKeySent s argv ≠ [] → ∃ nid key dest mmeSent, SetKeyTexts argv nid key ∧
    setKeyParameters s argv = .ok (dest, mmeSent) ∧ requestNid mmeSent = nid ∧ newKey mmeSent = key

theorem hpavStonid_eq {a nid : List UInt8} (h : ColonHex a nid) (hlength : nid.length = 7) : hpavStonid a = nid := by
  have hscan := h.scanColonHex_eq
  rw [hlength] at hscan
  unfold hpavStonid
  simp only [hscan, hlength, ne_eq, not_true_eq_false, if_false]

theorem hpavStomd5sum_eq {a key : List UInt8} (h : HexPairs a key) (hlength : key.length = 16) :
    hpavStomd5sum a = key := by
  have hscan := h.scanHexPairs_eq
  rw [hlength] at hscan
  unfold hpavStomd5sum
  simp only [hscan, hlength, ne_eq, not_true_eq_false, if_false]

/-- Texts in the expected format are what goes into the request. -/
theorem SetKeyTexts.meets {argv : List CString} {nid key : List UInt8} (h : SetKeyTexts argv nid key) :
    SetKeyMeets argv := by
  intro s hsent
  obtain ⟨anid, hanid, hnid⟩ := h.nidText
  obtain ⟨akey, hakey, hkey⟩ := h.keyText
  have hlength : 11 ≤ argv.length := (List.getElem?_eq_some_iff.mp hakey).1
  obtain ⟨a, ha⟩ : ∃ a, argv[0]? = some a := ⟨_, List.getElem?_eq_getElem (by omega)⟩
  cases hdest : stomac a with
  | none => exact absurd (setKeySent_nil s (Or.inr ⟨a, ha, hdest⟩)) hsent
  | some dest =>
    obtain ⟨anid', akey', mmeSent, hanid', hakey', hparameters, hrequestNid, hnewKey⟩ :=
      setKeyParameters_ok s hlength ha hdest
    obtain rfl : anid = anid' := Option.some.inj (hanid.symm.trans hanid')
    obtain rfl : akey = akey' := Option.some.inj (hakey.symm.trans hakey')
    refine ⟨nid, key, dest, mmeSent, h, hparameters, ?_, ?_⟩
    · rw [hrequestNid, hpavStonid_eq hnid h.length_nid]
    · rw [hnewKey, hpavStomd5sum_eq hkey h.length_key]

/-- The command keeps malformed texts back exactly if it sends nothing at all: with fewer than
eleven arguments, or without the address of a station. -/
theorem setKey_meets_iff (argv : List CString) : SetKeyMeets argv ↔
    argv.length < 11 ∨ (∃ a, argv[0]? = some a ∧ stomac a = none) ∨ ∃ nid key, SetKeyTexts argv nid key := by
  constructor
  · intro h
    by_cases hlength : argv.length < 11
    · exact Or.inl hlength
    obtain ⟨a, ha⟩ : ∃ a, argv[0]? = some a := ⟨_, List.getElem?_eq_getElem (by omega)⟩
    cases hdest : stomac a with
    | none => exact Or.inr (Or.inl ⟨a, ha, hdest⟩)
    | some dest =>
      obtain ⟨nid, key, _, _, htexts, -, -, -⟩ :=
        h openSetting (setKeySent_openSetting (by omega) ha hdest)
      exact Or.inr (Or.inr ⟨nid, key, htexts⟩)
  · rintro (hfew | hnone | ⟨nid, key, htexts⟩)
    · intro s hsent
      exact absurd (setKeySent_nil s (Or.inl hfew)) hsent
    · intro s hsent
      exact absurd (setKeySent_nil s (Or.inr hnone)) hsent
    · exact htexts.meets

/-- A key that is no key goes out as sixteen zeros. -/
theorem zeroKey_not_meets : ¬ ∀ argv, SetKeyMeets argv := by
  intro h
  let argv := [text "00:13:d7:00:00:01", text "1", text "0", text "0", text "0", text "0", text "0", text "0",
    text "01:02:03:04:05:06:07", text "1", text "secret"]
  have haddress : stomac (text "00:13:d7:00:00:01") = some ⟨[0x00, 0x13, 0xd7, 0, 0, 1], rfl⟩ := rfl
  have hsent : setKeySent openSetting argv ≠ [] := setKeySent_openSetting (by decide) rfl haddress
  obtain ⟨nid, key, dest, mmeSent, htexts, -⟩ := h argv openSetting hsent
  obtain ⟨a, ha, hkey⟩ := htexts.keyText
  obtain rfl : text "secret" = a := Option.some.inj ha
  cases hkey with
  | cons hs _ _ => exact absurd hs (by decide)

end Hpav
