import Mathlib.Tactic.Common
import Hpav.Lib.MemTrace
import Hpav.Frame
import Hpav.Decode
import Hpav.DecodeBounds

/-!
# The confirmations with arrays

What the decoders of VS_GET_TONEMAP.CNF, VS_GET_SNR.CNF and VS_GET_NW_INFO.CNF give back of a
packet that holds the wire form of a value: the fields one behind the other, little endian,
each array behind its count. The structures behind the pointers of a confirmation are read
where the decoder has copied them.
-/

namespace Hpav

open MemTrace

/-! ## Fields -/

section Fields

variable {mem : Nat → UInt8} {off : Nat}

/-- A byte is held at its place. -/
theorem holds_byte {x : UInt8} : Holds mem off [x] ↔ mem off = x := by
  rw [holds_cons]
  exact and_iff_left holds_nil

/-- The two bytes of a number are read as the number. -/
theorem val_shortAt {x : UInt16} (h : Holds mem off (bytes16 x)) : (shortAt mem off).val = x := by
  obtain ⟨hlo, hhi, _⟩ := (holds_cons.trans (and_congr_right fun _ => holds_cons)).mp h
  unfold shortAt
  rw [hlo, hhi]
  exact le16_bytes16 x

/-- The four bytes of a number are read as the number. -/
theorem val_wordAt {x : UInt32} (h : Holds mem off (bytes32 x)) : (wordAt mem off).val = x := by
  unfold bytes32 at h
  simp only [holds_cons] at h
  obtain ⟨h0, h1, h2, h3, _⟩ := h
  simp only [Nat.add_assoc, Nat.reduceAdd] at h2 h3
  unfold wordAt
  rw [h0, h1, h2, h3]
  exact le32_bytes32 x

end Fields

/-! ## The structures on the wire -/

/-- `struct hpav_mtk_tonemap_int_entry` -/
structure TonemapIntEntry where
  intEt : UInt16
  intTmi : UInt8
  intRxGain : Int8
  intFec : UInt8
  intGi : UInt8
  intPhyRate : UInt32
  deriving DecidableEq, Repr

/-- `struct hpav_mtk_vs_get_nw_info_entry` -/
structure NwInfoEntry where
  tei : UInt8
  staMacAddr : Mac
  phyTxCoded : UInt16
  phyTxRaw : UInt16
  phyRxCoded : UInt16
  phyRxRaw : UInt16
  agcGain : Int8
  deriving DecidableEq, Repr

def TonemapIntEntry.wire (e : TonemapIntEntry) : List UInt8 :=
  bytes16 e.intEt ++ [e.intTmi] ++ [e.intRxGain.toUInt8] ++ [e.intFec] ++ [e.intGi] ++
    bytes32 e.intPhyRate

def NwInfoEntry.wire (e : NwInfoEntry) : List UInt8 :=
  [e.tei] ++ e.staMacAddr.bytes ++ bytes16 e.phyTxCoded ++ bytes16 e.phyTxRaw ++
    bytes16 e.phyRxCoded ++ bytes16 e.phyRxRaw ++ [e.agcGain.toUInt8]

/-- An interval of a tonemap has its size. -/
theorem TonemapIntEntry.length_wire (e : TonemapIntEntry) : e.wire.length = tonemapIntEntrySize := rfl

/-- An entry of the network information has its size. -/
theorem NwInfoEntry.length_wire (e : NwInfoEntry) : e.wire.length = nwInfoEntrySize := by
  simp only [NwInfoEntry.wire, List.length_append, List.length_singleton, length_bytes16,
    e.staMacAddr.length_eq]

/-- A structure read at an address. -/
def tonemapIntEntryAt (mem : Nat → UInt8) (off : Nat) : TonemapIntEntry where
  intEt := (shortAt mem off).val
  intTmi := mem (off + 2)
  intRxGain := (mem (off + 3)).toInt8
  intFec := mem (off + 4)
  intGi := mem (off + 5)
  intPhyRate := (wordAt mem (off + 6)).val

/-- An address is six bytes. -/
theorem length_macAt (mem : Nat → UInt8) (off : Nat) : (copyFrom mem off 6).val.length = 6 := by
  simp [copyFrom]

def nwInfoEntryAt (mem : Nat → UInt8) (off : Nat) : NwInfoEntry where
  tei := mem off
  staMacAddr := ⟨(copyFrom mem (off + 1) 6).val, length_macAt mem (off + 1)⟩
  phyTxCoded := (shortAt mem (off + 7)).val
  phyTxRaw := (shortAt mem (off + 9)).val
  phyRxCoded := (shortAt mem (off + 11)).val
  phyRxRaw := (shortAt mem (off + 13)).val
  agcGain := (mem (off + 15)).toInt8

/-- An interval is read as it was sent. -/
theorem tonemapIntEntryAt_eq (mem : Nat → UInt8) (off : Nat) (e : TonemapIntEntry)
    (h : Holds mem off e.wire) : tonemapIntEntryAt mem off = e := by
  unfold TonemapIntEntry.wire at h
  simp only [holds_append, holds_byte, List.length_append, List.length_singleton, length_bytes16,
    Nat.reduceAdd] at h
  obtain ⟨⟨⟨⟨⟨het, htmi⟩, hgain⟩, hfec⟩, hgi⟩, hrate⟩ := h
  unfold tonemapIntEntryAt
  rw [val_shortAt het, val_wordAt hrate, htmi, hgain, hfec, hgi]
  rfl

/-- An entry of the network information is read as it was sent. -/
theorem nwInfoEntryAt_eq (mem : Nat → UInt8) (off : Nat) (e : NwInfoEntry)
    (h : Holds mem off e.wire) : nwInfoEntryAt mem off = e := by
  unfold NwInfoEntry.wire at h
  simp only [holds_append, holds_byte, List.length_append, List.length_singleton, length_bytes16,
    e.staMacAddr.length_eq, Nat.reduceAdd] at h
  obtain ⟨⟨⟨⟨⟨⟨htei, hmac⟩, htxCoded⟩, htxRaw⟩, hrxCoded⟩, hrxRaw⟩, hgain⟩ := h
  have haddr : (copyFrom mem (off + 1) 6).val = e.staMacAddr.bytes :=
    hmac.val_copyFrom e.staMacAddr.length_eq.symm
  unfold nwInfoEntryAt
  simp only [val_shortAt htxCoded, val_shortAt htxRaw, val_shortAt hrxCoded, val_shortAt hrxRaw,
    htei, hgain, haddr]
  rfl

/-! ## What the pointers of a confirmation lead to -/

/-- `response->int_data[i]` -/
def VsGetTonemapCnf.intEntries (r : VsGetTonemapCnf) : List TonemapIntEntry :=
  (List.range r.intLength.toNat).map fun i =>
    tonemapIntEntryAt (fun j => r.intData.getD j 0) (tonemapIntEntrySize * i)

/-- `response->int_data[i]` -/
def VsGetSnrCnf.intEntries (r : VsGetSnrCnf) : List UInt16 :=
  (List.range r.intLength.toNat).map fun i => (shortAt (fun j => r.intData.getD j 0) (2 * i)).val

/-- `response->nwinfo[i]` -/
def VsGetNwInfoCnf.nwEntries (r : VsGetNwInfoCnf) : List NwInfoEntry :=
  (List.range r.numNws.toNat).map fun i =>
    nwInfoEntryAt (fun j => r.nwinfo.getD j 0) (nwInfoEntrySize * i)

/-- The entries of an array that holds their wire forms. -/
theorem map_read_getD {α : Type} {wire : α → List UInt8} {read : (Nat → UInt8) → Nat → α} {size : Nat}
    (hsize : ∀ a, (wire a).length = size) (hread : ∀ mem off a, Holds mem off (wire a) → read mem off = a)
    (entries : List α) {n : Nat} (hn : n = entries.length) :
    (List.range n).map (fun i => read (fun j => (entries.flatMap wire).getD j 0) (size * i)) = entries := by
  have h := (holds_getD (entries.flatMap wire) 0).map_read hsize hread
  rw [hn]
  simpa only [Nat.zero_add] using h

/-! ## The values -/

/-- What a station says in a VS_GET_TONEMAP.CNF. -/
structure TonemapReply where
  result : UInt8
  beaconDelta : Int32
  intId : UInt8
  tmiDefault : UInt8
  tmiData : List UInt8
  intData : List TonemapIntEntry
  tmi : UInt8
  tmRxGain : Int8
  tmFec : UInt8
  tmGi : UInt8
  tmPhyRate : UInt32
  carrierGroup : UInt8
  tonemapLength : UInt16
  modulations : List UInt8
  tmiData_le : tmiData.length ≤ 255
  intData_le : intData.length ≤ 255

/-- What a station says in a VS_GET_SNR.CNF. -/
structure SnrReply where
  result : UInt8
  intId : UInt8
  intData : List UInt16
  tmBer : UInt16
  carrierGroup : UInt8
  snrList : List UInt8
  intData_le : intData.length ≤ 255
  length_snrList : snrList.length = mtkSnrListMaxSize

/-- What a station says in a VS_GET_NW_INFO.CNF. -/
structure NwInfoReply where
  nid : List UInt8
  snid : UInt8
  ccoTei : UInt8
  ccoMacAddr : Mac
  nwinfo : List NwInfoEntry
  length_nid : nid.length = 7
  nwinfo_le : nwinfo.length ≤ 255

/-- The count of an array. -/
def countByte {α : Type} (xs : List α) : UInt8 :=
  UInt8.ofNat xs.length

/-- A list of up to 255 elements is counted in a byte. -/
theorem toNat_countByte {α : Type} {xs : List α} (h : xs.length ≤ 255) :
    (countByte xs).toNat = xs.length := by
  unfold countByte
  rw [UInt8.toNat_ofNat']
  omega

/-- The fields in front of the modulation list. -/
def TonemapReply.head (v : TonemapReply) : List UInt8 :=
  [v.result] ++ bytes32 v.beaconDelta.toUInt32 ++ [v.intId] ++ [v.tmiDefault] ++
    [countByte v.tmiData] ++ v.tmiData ++
    [countByte v.intData] ++ v.intData.flatMap TonemapIntEntry.wire ++
    [v.tmi] ++ [v.tmRxGain.toUInt8] ++ [v.tmFec] ++ [v.tmGi] ++ bytes32 v.tmPhyRate ++
    [v.carrierGroup] ++ bytes16 v.tonemapLength

def TonemapReply.wire (v : TonemapReply) : List UInt8 :=
  v.head ++ v.modulations

def SnrReply.wire (v : SnrReply) : List UInt8 :=
  [v.result] ++ [v.intId] ++ [countByte v.intData] ++ v.intData.flatMap bytes16 ++
    bytes16 v.tmBer ++ [v.carrierGroup] ++ v.snrList

def NwInfoReply.wire (v : NwInfoReply) : List UInt8 :=
  v.nid ++ [v.snid] ++ [v.ccoTei] ++ v.ccoMacAddr.bytes ++ [countByte v.nwinfo] ++
    v.nwinfo.flatMap NwInfoEntry.wire

/-- The packet's payload is the wire form. -/
structure RxPacket.Carries (p : RxPacket) (wire : List UInt8) : Prop where
  size : p.dataSize.toNat = 8 + wire.length
  payload : Holds p.mem 8 wire

/-! ## What is decoded -/

/-- Every field and every array entry is the value's; of the modulations the list takes what it
has room for, and is zero behind them. -/
structure TonemapReply.DecodedAs (v : TonemapReply) (r : VsGetTonemapCnf) : Prop where
  result : r.result = v.result
  beaconDelta : r.beaconDelta.toInt32 = v.beaconDelta
  intId : r.intId = v.intId
  tmiDefault : r.tmiDefault = v.tmiDefault
  tmiLength : r.tmiLength.toNat = v.tmiData.length
  tmiData : r.tmiData = v.tmiData
  intLength : r.intLength.toNat = v.intData.length
  intEntries : r.intEntries = v.intData
  tmi : r.tmi = v.tmi
  tmRxGain : r.tmRxGain.toInt8 = v.tmRxGain
  tmFec : r.tmFec = v.tmFec
  tmGi : r.tmGi = v.tmGi
  tmPhyRate : r.tmPhyRate = v.tmPhyRate
  carrierGroup : r.carrierGroup = v.carrierGroup
  tonemapLength : r.tonemapLength = v.tonemapLength
  modulationList : r.modulationList = v.modulations.take mtkModulationListMaxSize ++
    List.replicate (mtkModulationListMaxSize - v.modulations.length) 0

structure SnrReply.DecodedAs (v : SnrReply) (r : VsGetSnrCnf) : Prop where
  result : r.result = v.result
  intId : r.intId = v.intId
  intLength : r.intLength.toNat = v.intData.length
  intEntries : r.intEntries = v.intData
  tmBer : r.tmBer = v.tmBer
  carrierGroup : r.carrierGroup = v.carrierGroup
  snrList : r.snrList = v.snrList

structure NwInfoReply.DecodedAs (v : NwInfoReply) (r : VsGetNwInfoCnf) : Prop where
  nid : r.nid = v.nid
  snid : r.snid = v.snid
  ccoTei : r.ccoTei = v.ccoTei
  ccoMacAddr : r.ccoMacAddr = v.ccoMacAddr.bytes
  numNws : r.numNws.toNat = v.nwinfo.length
  nwEntries : r.nwEntries = v.nwinfo

/-! ## Network information and SNR -/

/-- Entries of one size take that size each. -/
theorem length_flatMap_wire {α : Type} {wire : α → List UInt8} {size : Nat}
    (hsize : ∀ a, (wire a).length = size) (entries : List α) :
    (entries.flatMap wire).length = entries.length * size := by
  rw [List.length_flatMap, List.map_congr_left (fun a _ => hsize a), List.map_const',
    List.sum_replicate_nat]

/-- The network information is decoded as it was sent. -/
theorem nwInfo_decodedAs (v : NwInfoReply) {p : RxPacket} (h : Holds p.mem 8 v.wire) :
    v.DecodedAs (decodeMtkVsGetNwInfoCnf p).val.1 := by
  have hcount := toNat_countByte v.nwinfo_le
  have hentries := length_flatMap_wire NwInfoEntry.length_wire v.nwinfo
  unfold NwInfoReply.wire at h
  simp only [holds_append, holds_byte, List.length_append, List.length_singleton, v.length_nid,
    v.ccoMacAddr.length_eq, Nat.reduceAdd] at h
  obtain ⟨⟨⟨⟨⟨hnid, hsnid⟩, htei⟩, hmac⟩, hnum⟩, hnwinfo⟩ := h
  have hcopy : (copyNwinfo p.mem 24 (countByte v.nwinfo)).val = v.nwinfo.flatMap NwInfoEntry.wire := by
    unfold copyNwinfo
    -- nothing is allocated and nothing copied for a count of zero
    by_cases hnone : countByte v.nwinfo = 0
    · rw [if_neg (not_not_intro hnone)]
      have hzero : v.nwinfo.length = 0 := by
        rw [← hcount, hnone]
        rfl
      rw [List.length_eq_zero_iff.mp hzero]
      rfl
    · rw [if_pos hnone]
      exact hnwinfo.val_copyFrom (by rw [hcount, hentries])
  have hval : (decodeMtkVsGetNwInfoCnf p).val.1 =
      { nid := (copyFrom p.mem 8 7).val, snid := p.mem 15, ccoTei := p.mem 16,
        ccoMacAddr := (copyFrom p.mem 17 6).val, numNws := p.mem 23,
        nwinfo := (copyNwinfo p.mem 24 (p.mem 23)).val } := rfl
  rw [hval, hnum, hcopy]
  constructor
  · exact hnid.val_copyFrom v.length_nid.symm
  · exact hsnid
  · exact htei
  · exact hmac.val_copyFrom v.ccoMacAddr.length_eq.symm
  · exact hcount
  · exact map_read_getD NwInfoEntry.length_wire nwInfoEntryAt_eq v.nwinfo hcount

/-- The SNR is decoded as it was sent. -/
theorem snr_decodedAs (v : SnrReply) {p : RxPacket} (h : Holds p.mem 8 v.wire) :
    v.DecodedAs (decodeMtkVsGetSnrCnf p).val.1 := by
  have hcount := toNat_countByte v.intData_le
  have hentries := length_flatMap_wire length_bytes16 v.intData
  unfold SnrReply.wire at h
  simp only [holds_append, holds_byte, List.length_append, List.length_singleton, hentries,
    length_bytes16, Nat.reduceAdd] at h
  obtain ⟨⟨⟨⟨⟨⟨hresult, hid⟩, hlength⟩, hdata⟩, hber⟩, hgroup⟩, hlist⟩ := h
  have hval : (decodeMtkVsGetSnrCnf p).val.1 =
      { result := p.mem 8, intId := p.mem 9, intLength := p.mem 10,
        intData := (copyFrom p.mem 11 ((p.mem 10).toNat * 2)).val,
        tmBer := (shortAt p.mem (11 + (p.mem 10).toNat * 2)).val,
        carrierGroup := p.mem (11 + (p.mem 10).toNat * 2 + 2),
        snrList := (copyFrom p.mem (11 + (p.mem 10).toNat * 2 + 2 + 1) mtkSnrListMaxSize).val } := rfl
  simp only [← Nat.add_assoc] at hber hgroup hlist
  simp only [Nat.reduceAdd] at hber hgroup hlist
  rw [hval, hlength, hcount]
  constructor
  · exact hresult
  · exact hid
  · exact hcount
  · have hcopy : (copyFrom p.mem 11 (v.intData.length * 2)).val = v.intData.flatMap bytes16 :=
      hdata.val_copyFrom hentries.symm
    rw [hcopy]
    exact map_read_getD length_bytes16 (fun _ _ _ h => val_shortAt h) v.intData hcount
  · exact val_shortAt hber
  · exact hgroup
  · have hcopy := hlist.val_copyFrom v.length_snrList.symm
    rw [hcopy]

/-! ## The tonemap -/

/-- The head of a tonemap has the length of its lists. -/
theorem TonemapReply.length_head (v : TonemapReply) :
    v.head.length = 20 + v.tmiData.length + v.intData.length * tonemapIntEntrySize := by
  have hentries := length_flatMap_wire TonemapIntEntry.length_wire v.intData
  unfold TonemapReply.head
  simp only [List.length_append, List.length_singleton, length_bytes16, length_bytes32, hentries]
  omega

/-- The decoder as a function of what it reads. -/
theorem val_tonemap (p : RxPacket) (left : UInt32) :
    (smartCopyMtkVsGetTonemapCnf p.mem 8 left).val =
      let fields := tonemapFields p.tmiLength p.tonemapIntLength
      let ints := 16 + p.tmiLength.toNat + 1
      let rest := ints + p.tonemapIntLength.toNat * tonemapIntEntrySize
      let modulation := (copyModulationList p.mem (rest + 11) (walkLeft fields left)).val
      { result := p.mem 8, beaconDelta := (wordAt p.mem 9).val, intId := p.mem 13, tmiDefault := p.mem 14,
        tmiLength := p.tmiLength, tmiData := (copyFrom p.mem 16 p.tmiLength.toNat).val,
        intLength := p.tonemapIntLength,
        intData := (copyFrom p.mem ints (p.tonemapIntLength.toNat * tonemapIntEntrySize)).val,
        tmi := p.mem rest, tmRxGain := p.mem (rest + 1), tmFec := p.mem (rest + 2),
        tmGi := p.mem (rest + 3), tmPhyRate := (wordAt p.mem (rest + 4)).val,
        carrierGroup := p.mem (rest + 8), tonemapLength := (shortAt p.mem (rest + 9)).val,
        modulationList := modulation ++
          List.replicate (mtkModulationListMaxSize - modulation.length) 0 } := by
  rfl

/-- Behind the fields the count is the number of modulations. -/
theorem toNat_walkLeft (v : TonemapReply) {p : RxPacket} (h : p.Carries v.wire)
    (htmi : p.tmiLength.toNat = v.tmiData.length) (hint : p.tonemapIntLength.toNat = v.intData.length) :
    (walkLeft (tonemapFields p.tmiLength p.tonemapIntLength) (p.dataSize - 5 - 3)).toNat =
      v.modulations.length := by
  have hsize := h.size
  unfold TonemapReply.wire at hsize
  rw [List.length_append, v.length_head] at hsize
  have hleft := @mtkLeft_eq p (by omega)
  have hend : walkEnd (tonemapFields p.tmiLength p.tonemapIntLength) 8 =
      28 + v.tmiData.length + v.intData.length * tonemapIntEntrySize := by
    simp only [walkEnd, tonemapFields, List.map_cons, List.map_nil, List.sum_cons, List.sum_nil,
      toNat_intData, UInt8.toNat_toUInt32, UInt32.reduceToNat, htmi, hint]
    omega
  have hwalk := walkLeft_of_fits (tonemapFields p.tmiLength p.tonemapIntLength) 8 _ hleft (by omega)
  omega

/-- The list of modulations is copied as it was sent. -/
theorem val_copyModulationList {mem : Nat → UInt8} {off : Nat} {left : UInt32} {xs : List UInt8}
    (h : Holds mem off xs) (hleft : left.toNat = xs.length) :
    (copyModulationList mem off left).val = xs := by
  unfold copyModulationList
  by_cases hpos : left > 0
  · rw [if_pos hpos]
    exact h.val_copyFrom hleft
  · rw [if_neg hpos]
    have hzero : xs.length = 0 := by
      rw [← hleft]
      by_contra hne
      exact hpos (UInt32.lt_iff_toNat_lt.mpr (Nat.pos_of_ne_zero hne))
    rw [List.length_eq_zero_iff.mp hzero]
    rfl

/-- A list with zeros behind it is a list of the given size exactly if it is not longer. -/
theorem zeroFilled_iff (xs : List UInt8) (size : Nat) :
    xs ++ List.replicate (size - xs.length) 0 = xs.take size ++ List.replicate (size - xs.length) 0 ↔
      xs.length ≤ size := by
  rw [List.append_left_inj]
  constructor
  · intro h
    have hlen := congrArg List.length h
    rw [List.length_take] at hlen
    omega
  · intro h
    rw [List.take_of_length_le h]

/-- The copy of the modulations has no bound: the value is decoded if they fit. -/
theorem tonemap_decodedAs_iff (v : TonemapReply) {p : RxPacket} (h : p.Carries v.wire) :
    v.DecodedAs (decodeMtkVsGetTonemapCnf p).val.1 ↔
      v.modulations.length ≤ mtkModulationListMaxSize := by
  have htmiCount := toNat_countByte v.tmiData_le
  have hintCount := toNat_countByte v.intData_le
  have hentries := length_flatMap_wire TonemapIntEntry.length_wire v.intData
  have hpayload := h.payload
  unfold TonemapReply.wire TonemapReply.head at hpayload
  simp only [holds_append, holds_byte, List.length_append, List.length_singleton, hentries,
    length_bytes16, length_bytes32, Nat.reduceAdd] at hpayload
  simp only [← Nat.add_assoc] at hpayload
  simp only [Nat.reduceAdd] at hpayload
  obtain ⟨⟨⟨⟨⟨⟨⟨⟨⟨⟨⟨⟨⟨⟨⟨hresult, hdelta⟩, hid⟩, hdefault⟩, htmiLength⟩, htmiData⟩, hintLength⟩, hintData⟩,
    htmi⟩, hgain⟩, hfec⟩, hgi⟩, hrate⟩, hgroup⟩, hlength⟩, hmodulations⟩ := hpayload
  have htmi' : p.tmiLength = countByte v.tmiData := htmiLength
  have htmiNat : p.tmiLength.toNat = v.tmiData.length := by rw [htmi', htmiCount]
  have hint' : p.tonemapIntLength = countByte v.intData := by
    unfold RxPacket.tonemapIntLength
    rw [htmiNat]
    exact hintLength
  have hintNat : p.tonemapIntLength.toNat = v.intData.length := by rw [hint', hintCount]
  -- what is left of the packet behind the fields is taken for the modulations
  have hleft := toNat_walkLeft v h htmiNat hintNat
  have hcopied := val_copyModulationList hmodulations hleft
  have hr := val_tonemap p (p.dataSize - 5 - 3)
  simp only [htmiNat, hintNat] at hr
  have hlist := zeroFilled_iff v.modulations mtkModulationListMaxSize
  have hval : (decodeMtkVsGetTonemapCnf p).val.1 =
      (smartCopyMtkVsGetTonemapCnf p.mem 8 (p.dataSize - 5 - 3)).val := rfl
  -- and all of it is copied, whether the list has room for it or not
  have hmodulationList : (decodeMtkVsGetTonemapCnf p).val.1.modulationList =
      v.modulations ++ List.replicate (mtkModulationListMaxSize - v.modulations.length) 0 := by
    rw [hval, hr, ← hcopied]
  constructor
  · intro hdecoded
    rw [← hlist, ← hmodulationList]
    exact hdecoded.modulationList
  · intro hfits
    constructor
    case modulationList =>
      rw [hmodulationList]
      exact hlist.mpr hfits
    all_goals rw [hval, hr]
    · exact hresult
    · simp only [val_wordAt hdelta]
      rfl
    · exact hid
    · exact hdefault
    · exact htmiNat
    · exact htmiData.val_copyFrom rfl
    · exact hintNat
    · have hcopy := hintData.val_copyFrom hentries.symm
      simp only [VsGetTonemapCnf.intEntries, hcopy]
      exact map_read_getD TonemapIntEntry.length_wire tonemapIntEntryAt_eq v.intData hintNat
    · exact htmi
    · simp only [hgain]
      rfl
    · exact hfec
    · exact hgi
    · exact val_wordAt hrate
    · exact hgroup
    · exact val_shortAt hlength

/-! ## The three of them -/

/-- What a station says in a confirmation with arrays. -/
inductive VariableReply where
  | tonemap (v : TonemapReply)
  | snr (v : SnrReply)
  | nwInfo (v : NwInfoReply)

namespace VariableReply

def wire : VariableReply → List UInt8
  | tonemap v => v.wire
  | snr v => v.wire
  | nwInfo v => v.wire

/-- The decoder of the confirmation gives the value back. -/
def DecodedFrom : VariableReply → RxPacket → Prop
  | tonemap v, p => v.DecodedAs (decodeMtkVsGetTonemapCnf p).val.1
  | snr v, p => v.DecodedAs (decodeMtkVsGetSnrCnf p).val.1
  | nwInfo v, p => v.DecodedAs (decodeMtkVsGetNwInfoCnf p).val.1

/-- There is room for the modulations. -/
def Fits : VariableReply → Prop
  | tonemap v => v.modulations.length ≤ mtkModulationListMaxSize
  | snr _ => True
  | nwInfo _ => True

/-- Decoding the wire form of a value gives the value back, whatever the counts are, exactly
if a modulation list is no longer than the structure has room for. -/
theorem decodedFrom_iff (v : VariableReply) {p : RxPacket} (h : p.Carries v.wire) :
    v.DecodedFrom p ↔ v.Fits := by
  cases v with
  | tonemap v => exact tonemap_decodedAs_iff v h
  | snr v => exact iff_of_true (snr_decodedAs v h.payload) trivial
  | nwInfo v => exact iff_of_true (nwInfo_decodedAs v h.payload) trivial

end VariableReply

/-- A packet with a payload. -/
def packetOf (wire : List UInt8) : RxPacket where
  dataSize := UInt32.ofNat (8 + wire.length)
  mem := fun i => wire.getD (i - 8) 0
  srcMacAddr := firstStation

/-- A packet of the right size carries its bytes. -/
theorem packetOf_carries {wire : List UInt8} (h : 8 + wire.length < 4294967296) :
    (packetOf wire).Carries wire where
  size := by
    unfold packetOf
    rw [UInt32.toNat_ofNat']
    exact Nat.mod_eq_of_lt h
  payload := by
    have hself := holds_getD wire 0
    unfold Holds at hself ⊢
    simpa only [packetOf, Nat.add_sub_cancel_left, Nat.zero_add] using hself

/-- A tonemap with two intervals. -/
def twoIntervals : TonemapReply where
  result := 0
  beaconDelta := -5
  intId := 1
  tmiDefault := 2
  tmiData := [3, 4, 5]
  intData := [⟨100, 3, -2, 1, 0, 1200⟩, ⟨65535, 4, 7, 0, 2, 987654321⟩]
  tmi := 4
  tmRxGain := -7
  tmFec := 1
  tmGi := 2
  tmPhyRate := 300000
  carrierGroup := 3
  tonemapLength := 6
  modulations := [0x21, 0x43, 0x65]
  tmiData_le := by decide
  intData_le := by decide

/-- A network of two stations. -/
def twoStations : NwInfoReply where
  nid := [1, 2, 3, 4, 5, 6, 7]
  snid := 8
  ccoTei := 1
  ccoMacAddr := firstStation
  nwinfo := [⟨2, secondStation, 300, 290, 310, 305, -3⟩, ⟨3, firstStation, 65535, 0, 1, 256, 5⟩]
  length_nid := rfl
  nwinfo_le := by decide

/-- Both are decoded from the packets that hold them. -/
theorem decodedFrom_iff_twoEntries :
    (VariableReply.tonemap twoIntervals).DecodedFrom (packetOf twoIntervals.wire) ∧
      (VariableReply.nwInfo twoStations).DecodedFrom (packetOf twoStations.wire) := by
  constructor
  · have hfits : (VariableReply.tonemap twoIntervals).Fits := by
      show twoIntervals.modulations.length ≤ mtkModulationListMaxSize
      decide
    exact (VariableReply.decodedFrom_iff (.tonemap twoIntervals) (packetOf_carries (by decide))).mpr hfits
  · exact (VariableReply.decodedFrom_iff (.nwInfo twoStations) (packetOf_carries (by decide))).mpr trivial

/-- A tonemap without intervals. -/
def tonemapOf (modulations : List UInt8) : TonemapReply where
  result := 0
  beaconDelta := 0
  intId := 0
  tmiDefault := 0
  tmiData := []
  intData := []
  tmi := 0
  tmRxGain := 0
  tmFec := 0
  tmGi := 0
  tmPhyRate := 0
  carrierGroup := 0
  tonemapLength := 16384
  modulations
  tmiData_le := Nat.zero_le 255
  intData_le := Nat.zero_le 255

/-- One modulation byte more than there is room for. -/
theorem decodedFrom_not_all : ¬ ∀ (v : VariableReply) (p : RxPacket), p.Carries v.wire → v.DecodedFrom p := by
  intro h
  have hlen : (tonemapOf (List.replicate 2049 0)).wire.length = 2069 := by
    unfold TonemapReply.wire
    rw [List.length_append, TonemapReply.length_head]
    simp only [tonemapOf, List.length_nil, List.length_replicate, Nat.zero_mul]
  have hcarries := @packetOf_carries (tonemapOf (List.replicate 2049 0)).wire (by omega)
  have hdecoded := h (.tonemap (tonemapOf (List.replicate 2049 0))) _ hcarries
  have hfits := (tonemap_decodedAs_iff _ hcarries).mp hdecoded
  simp only [tonemapOf, List.length_replicate, mtkModulationListMaxSize] at hfits
  omega

end Hpav
