import Mathlib.Tactic.Common
import Hpav.ExitCode

/-!
# The amplitude map

CM_AMP_MAP.REQ carries a list of amplitudes, two of them in a byte. `test_mme_cm_amp_map_req`
reads the list from a file, checks each entry and packs it; the encoder copies as many bytes as
the length asks for. The check admits sixteen, which does not fit into four bits, and the last
byte of a list of odd length is packed with an element of `am_data` that was never written: the
request says what the list is if and only if no entry is sixteen and the length is even
(`ampMap_determined_iff`).
-/

namespace Hpav

open CMem

/-! ## The list of a request -/

/-- The list that `test_mme_cm_amp_map_req` has in `am_data` behind all its checks. -/
structure AcceptsAmData (s : Setting) (fs : LocalFs) (argv : List CString) (amData : List Int) : Prop where
  length_le : amData.length ≤ 3528
  parameters : ∃ dest, ampMapParameters argv = .ok (dest, (amData.length : Int))
  read : ∃ file content, argument argv 2 = .ok file ∧ fs.content file = some content ∧
    readAmdata s.behindBuf content 0 amData.length = .ok amData

/-- Four bits of the data of a map: of even entries the low ones, of odd entries the high ones. -/
def nibble (mapData : List UInt8) (i : Nat) : Nat :=
  (mapData.getD (i / 2) 0).toNat / 16 ^ (i % 2) % 16

/-- The content of CM_AMP_MAP.REQ says what the list is; `pad` stands where an odd list ends. -/
structure CarriesAmData (pad : Nat) (amData : List Int) (payload : List UInt8) : Prop where
  mapLength : payload.take 2 = bytes16 (UInt16.ofNat amData.length)
  length_mapData : (payload.drop 2).length = (amData.length + 1) / 2
  entries : ∀ i v, amData[i]? = some v → (nibble (payload.drop 2) i : Int) = v
  padding : amData.length % 2 = 1 → nibble (payload.drop 2) amData.length = pad

/-- The requests made of a list determine it, whatever the memory of the process holds. -/
def AmpMapDetermined (fs : LocalFs) (argv : List CString) (amData : List Int) : Prop :=
  ∃ pad, ∀ s, AcceptsAmData s fs argv amData →
    ∃ mmeSent, ampMapReq s fs argv amData.length = .ok mmeSent ∧
      ∀ staMacAddr srcMacAddr, ∃ packet, encodeCmAmpMapReq staMacAddr srcMacAddr mmeSent = .ok packet ∧
        CarriesAmData pad amData (packet.data.drop mmeHeaderSize)

/-! ## What passes the check -/

theorem readAmdata_range {behindBuf content : List UInt8} {n : Nat} :
    ∀ {dataCount : Nat} {amData : List Int}, readAmdata behindBuf content dataCount n = .ok amData →
      amData.length = n ∧ ∀ v ∈ amData, 0 ≤ v ∧ v ≤ 16 := by
  induction n with
  | zero =>
    intro dataCount amData h
    injection h with h
    subst h
    exact ⟨rfl, by simp⟩
  | succ n ih =>
    intro dataCount amData h
    unfold readAmdata at h
    simp only at h
    split at h
    · cases h
    split at h
    · cases h
    next hrange =>
      obtain ⟨rest, hrest, h⟩ := bind_eq_ok.mp h
      injection h with h
      subst h
      obtain ⟨hlength, hall⟩ := ih hrest
      constructor
      · rw [List.length_cons, hlength]
      · intro v hmem
        rcases List.mem_cons.mp hmem with rfl | hmem
        · omega
        · exact hall v hmem

/-- With the list at hand the command goes on to its exchange. -/
theorem AcceptsAmData.command {s : Setting} {fs : LocalFs} {argv : List CString} {amData : List Int}
    (h : AcceptsAmData s fs argv amData) :
    ∃ dest mmeSent, ampMapReq s fs argv amData.length = .ok mmeSent ∧
      testMmeCmAmpMapReq s fs argv = testMme cmAmpMapSndrcv 1000 1 s (.ok (dest, mmeSent)) := by
  obtain ⟨dest, hparameters⟩ := h.parameters
  obtain ⟨file, content, hfile, hcontent, hread⟩ := h.read
  have hrequest : ∃ mmeSent, ampMapReq s fs argv amData.length = .ok mmeSent := by
    unfold ampMapReq
    rw [hfile]
    simp only [bind, Except.bind, hcontent, Int.toNat_natCast, hread]
    exact ⟨_, rfl⟩
  obtain ⟨mmeSent, hrequest⟩ := hrequest
  refine ⟨dest, mmeSent, hrequest, ?_⟩
  have hrange : ¬ ((amData.length : Int) > 3528 ∨ (amData.length : Int) < 0) := by
    have := h.length_le
    omega
  have hgiven : ¬ argv.length ≤ 2 := by
    rcases List.getElem?_eq_some_iff.mp (argument_ok.mp hfile) with ⟨hlt, -⟩
    omega
  unfold testMmeCmAmpMapReq
  rw [hparameters]
  simp only [if_neg hrange, if_neg hgiven, hrequest]
  rfl

/-! ## What the packing keeps -/

theorem nibble_zero (b : UInt8) (mapData : List UInt8) : nibble (b :: mapData) 0 = b.toNat % 16 := by
  show b.toNat / 1 % 16 = _
  rw [Nat.div_one]

theorem nibble_one (b : UInt8) (mapData : List UInt8) : nibble (b :: mapData) 1 = b.toNat / 16 % 16 := rfl

theorem nibble_add_two (b : UInt8) (mapData : List UInt8) (i : Nat) :
    nibble (b :: mapData) (i + 2) = nibble mapData i := by
  unfold nibble
  rw [Nat.add_div_right i (by decide), Nat.add_mod_right, List.getD_cons_succ]

theorem nibble_lt (mapData : List UInt8) (i : Nat) : nibble mapData i < 16 :=
  Nat.mod_lt _ (by decide)

theorem length_packAmdata (uninit : UInt8) (amData : List Int) :
    (packAmdata uninit amData).length = (amData.length + 1) / 2 := by
  induction amData using packAmdata.induct with
  | case1 => rfl
  | case2 v => simp [packAmdata]
  | case3 v w rest ih =>
    simp only [packAmdata, List.length_cons, ih]
    omega

/-- A byte takes eight bits of an `int`. -/
theorem toNat_uint8_ofInt (v : Int) : ((UInt8.ofInt v).toNat : Int) = v % 256 := by
  show ((UInt8.ofNat (v % 2 ^ 8).toNat).toNat : Int) = v % 256
  rw [UInt8.toNat_ofNat']
  omega

/-- Entries of four bits are packed without loss. -/
theorem nibble_packAmdata {uninit : UInt8} {amData : List Int} :
    (∀ v ∈ amData, 0 ≤ v ∧ v ≤ 15) → ∀ i v, amData[i]? = some v →
      (nibble (packAmdata uninit amData) i : Int) = v := by
  induction amData using packAmdata.induct with
  | case1 =>
    intro _ i v h
    simp at h
  | case2 v =>
    intro hrange i w h
    obtain ⟨rfl, rfl⟩ : i = 0 ∧ v = w := by
      cases i with
      | zero => simpa using h
      | succ i => simp at h
    have hv := hrange v (List.mem_singleton_self v)
    have hbyte := toNat_uint8_ofInt (v + uninit.toNat * 16)
    -- what is left of the uninitialized element is in the high half
    rw [packAmdata, nibble_zero]
    omega
  | case3 v w rest ih =>
    intro hrange i x h
    have hv := hrange v List.mem_cons_self
    have hw := hrange w (List.mem_cons_of_mem v List.mem_cons_self)
    have hbyte := toNat_uint8_ofInt (v + w * 16)
    rw [packAmdata]
    match i with
    | 0 =>
      obtain rfl : v = x := by simpa using h
      rw [nibble_zero]
      omega
    | 1 =>
      obtain rfl : w = x := by simpa using h
      rw [nibble_one]
      omega
    | i + 2 =>
      rw [nibble_add_two]
      apply ih
      · intro y hy
        exact hrange y (List.mem_cons_of_mem v (List.mem_cons_of_mem w hy))
      · simpa using h

/-- The last four bits of a list of odd length are what `am_data` holds behind the list. -/
theorem nibble_packAmdata_length {amData : List Int} : amData.length % 2 = 1 →
    ∃ c, ∀ uninit, nibble (packAmdata uninit amData) amData.length = (c + uninit.toNat) % 16 := by
  induction amData using packAmdata.induct with
  | case1 =>
    intro hodd
    simp at hodd
  | case2 v =>
    intro _
    refine ⟨(v / 16 % 16).toNat, fun uninit => ?_⟩
    have hbyte := toNat_uint8_ofInt (v + uninit.toNat * 16)
    rw [packAmdata]
    show nibble _ 1 = _
    rw [nibble_one]
    omega
  | case3 v w rest ih =>
    intro hodd
    obtain ⟨c, hc⟩ := ih (by simp only [List.length_cons] at hodd; omega)
    refine ⟨c, fun uninit => ?_⟩
    rw [packAmdata]
    show nibble _ (rest.length + 2) = _
    rw [nibble_add_two, hc uninit]

/-- The content of the request is the length of the list and its packed entries. -/
theorem AcceptsAmData.payload {s : Setting} {fs : LocalFs} {argv : List CString} {amData : List Int}
    {mmeSent : CmAmpMapReq} (h : AcceptsAmData s fs argv amData)
    (hrequest : ampMapReq s fs argv amData.length = .ok mmeSent) (staMacAddr srcMacAddr : Mac) :
    ∃ packet, encodeCmAmpMapReq staMacAddr srcMacAddr mmeSent = .ok packet ∧
      packet.data.drop mmeHeaderSize =
        bytes16 (UInt16.ofNat amData.length) ++ packAmdata (s.uninit 2002) amData := by
  obtain ⟨file, content, hfile, hcontent, hread⟩ := h.read
  unfold ampMapReq at hrequest
  rw [hfile] at hrequest
  simp only [bind, Except.bind, hcontent, Int.toNat_natCast, hread] at hrequest
  injection hrequest with hrequest
  have hle := h.length_le
  have hmapLength : mmeSent.mapLength = UInt16.ofNat amData.length := by
    rw [← hrequest]
    apply UInt16.toNat.inj
    rw [toNat_ofInt (by omega) (by omega), UInt16.toNat_ofNat']
    omega
  have hsize : mmeSent.mapDataSize = (amData.length + 1) / 2 := by
    unfold CmAmpMapReq.mapDataSize
    rw [hmapLength, UInt16.toNat_ofNat']
    omega
  have hmapData : mmeSent.mapData.take mmeSent.mapDataSize = packAmdata (s.uninit 2002) amData := by
    have hpacked := length_packAmdata (s.uninit 2002) amData
    rw [hsize, ← hrequest]
    apply List.ext_getElem
    · rw [List.length_take, List.length_map, List.length_range, hpacked]
      omega
    · intro i hi hi'
      rw [List.getElem_take, List.getElem_map, List.getElem_range, List.getD_eq_getElem _ _ hi']
  refine ⟨_, encodeCmAmpMapReq_eq _ _ mmeSent (by omega), ?_⟩
  rw [hmapLength, hmapData]
  exact List.drop_left' rfl

/-! ## When the request determines the list -/

/-- Another content of the memory of the process changes nothing that is checked. -/
theorem AcceptsAmData.uninit {s : Setting} {fs : LocalFs} {argv : List CString} {amData : List Int}
    (h : AcceptsAmData s fs argv amData) (uninit : Nat → UInt8) :
    AcceptsAmData { s with uninit := uninit } fs argv amData :=
  ⟨h.length_le, h.parameters, h.read⟩

/-- The padding of an odd list comes out of the memory of the process. -/
theorem AmpMapDetermined.even {s : Setting} {fs : LocalFs} {argv : List CString} {amData : List Int}
    (haccepts : AcceptsAmData s fs argv amData) (h : AmpMapDetermined fs argv amData) : amData.length % 2 = 0 := by
  obtain ⟨pad, hdetermined⟩ := h
  by_contra hne
  have hodd : amData.length % 2 = 1 := by omega
  obtain ⟨c, hc⟩ := nibble_packAmdata_length hodd
  have hpad : ∀ u : UInt8, (c + u.toNat) % 16 = pad := by
    intro u
    have haccepts' := haccepts.uninit (fun _ => u)
    obtain ⟨mmeSent, hrequest, hencode⟩ := hdetermined _ haccepts'
    obtain ⟨packet, hpacket, hcarries⟩ := hencode broadcast broadcast
    obtain ⟨packet', hpacket', hpayload⟩ := haccepts'.payload hrequest broadcast broadcast
    obtain rfl : packet = packet' := Except.ok.inj (hpacket.symm.trans hpacket')
    have hpadding := hcarries.padding hodd
    rw [hpayload, List.drop_left' (length_bytes16 _), hc u] at hpadding
    exact hpadding
  have hzero : (c + 0) % 16 = pad := hpad 0
  have hone : (c + 1) % 16 = pad := hpad 1
  omega

/-- Four bits hold nothing above fifteen. -/
theorem AmpMapDetermined.entries_le {s : Setting} {fs : LocalFs} {argv : List CString} {amData : List Int}
    (haccepts : AcceptsAmData s fs argv amData) (h : AmpMapDetermined fs argv amData) : ∀ v ∈ amData, v ≤ 15 := by
  obtain ⟨pad, hdetermined⟩ := h
  obtain ⟨mmeSent, -, hencode⟩ := hdetermined s haccepts
  obtain ⟨packet, -, hcarries⟩ := hencode broadcast broadcast
  intro v hmem
  obtain ⟨i, hi⟩ := List.getElem?_of_mem hmem
  have hnibble := hcarries.entries i v hi
  have hlt := nibble_lt (packet.data.drop mmeHeaderSize |>.drop 2) i
  omega

/-- Entries of four bits in whole bytes are what the request carries. -/
theorem AcceptsAmData.carries {s : Setting} {fs : LocalFs} {argv : List CString} {amData : List Int}
    (haccepts : AcceptsAmData s fs argv amData) (hle : ∀ v ∈ amData, v ≤ 15) (heven : amData.length % 2 = 0)
    (pad : Nat) :
    CarriesAmData pad amData (bytes16 (UInt16.ofNat amData.length) ++ packAmdata (s.uninit 2002) amData) := by
  obtain ⟨_, _, _, _, hread⟩ := haccepts.read
  obtain ⟨-, hrange⟩ := readAmdata_range hread
  have hlength := length_bytes16 (UInt16.ofNat amData.length)
  constructor
  · exact List.take_left' hlength
  · rw [List.drop_left' hlength]
    exact length_packAmdata _ _
  · rw [List.drop_left' hlength]
    apply nibble_packAmdata
    intro v hmem
    exact ⟨(hrange v hmem).1, hle v hmem⟩
  · intro hodd
    omega

/-- The request determines an accepted list exactly if the list has no entry of sixteen and an
even length. -/
theorem ampMap_determined_iff {s : Setting} {fs : LocalFs} {argv : List CString} {amData : List Int}
    (haccepts : AcceptsAmData s fs argv amData) :
    AmpMapDetermined fs argv amData ↔ (∀ v ∈ amData, v ≤ 15) ∧ amData.length % 2 = 0 := by
  constructor
  · intro h
    exact ⟨h.entries_le haccepts, h.even haccepts⟩
  · rintro ⟨hle, heven⟩
    refine ⟨0, ?_⟩
    intro s' haccepts'
    obtain ⟨_, mmeSent, hrequest, -⟩ := haccepts'.command
    refine ⟨mmeSent, hrequest, ?_⟩
    intro staMacAddr srcMacAddr
    obtain ⟨packet, hpacket, hpayload⟩ := haccepts'.payload hrequest staMacAddr srcMacAddr
    refine ⟨packet, hpacket, ?_⟩
    rw [hpayload]
    exact haccepts'.carries hle heven 0

/-- A host whose only file is a map. -/
def ampMapFs (content : List UInt8) : LocalFs :=
  ⟨fun p => if p = text "am.txt" then some content else none, fun _ => false⟩

def ampMapArguments (amlen : String) : List CString :=
  [text "00:13:d7:00:00:01", text amlen, text "am.txt"]

theorem accepts_twoEntries : AcceptsAmData (quietMachine.around 0).setting (ampMapFs (text "15, 03, "))
    (ampMapArguments "2") [15, 3] :=
  ⟨by decide, ⟨⟨[0x00, 0x13, 0xd7, 0, 0, 1], rfl⟩, rfl⟩, ⟨text "am.txt", text "15, 03, ", rfl, rfl, rfl⟩⟩

theorem accepts_sixteen : AcceptsAmData (quietMachine.around 0).setting (ampMapFs (text "16, 03, "))
    (ampMapArguments "2") [16, 3] :=
  ⟨by decide, ⟨⟨[0x00, 0x13, 0xd7, 0, 0, 1], rfl⟩, rfl⟩, ⟨text "am.txt", text "16, 03, ", rfl, rfl, rfl⟩⟩

/-- Fifteen and three make one byte. -/
theorem ampMap_determined_twoEntries :
    AmpMapDetermined (ampMapFs (text "15, 03, ")) (ampMapArguments "2") [15, 3] := by
  apply (ampMap_determined_iff accepts_twoEntries).mpr
  decide

/-- Sixteen and three are accepted, and sent as the byte of zero and four. -/
theorem sixteen_not_determined : ¬ ∀ (s : Setting) (fs : LocalFs) (argv : List CString) (amData : List Int),
    AcceptsAmData s fs argv amData → AmpMapDetermined fs argv amData := by
  intro h
  have hle := (h _ _ _ _ accepts_sixteen).entries_le accepts_sixteen
  exact absurd hle (by decide)

end Hpav
