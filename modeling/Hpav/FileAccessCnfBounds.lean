import Mathlib.Tactic.Common
import Hpav.Lib.MemTrace
import Hpav.DecodeBounds
import Hpav.FileAccessAnswer

/-!
# What a VS_FILE_ACCESS confirmation initialises, and what is read of it

The smart copy of a confirmation takes the whole payload and then clears the data behind
`length`, a field of what it has copied; the consumer reads as much of the data as `length`
says again. So the size of the packet and the length in it have to fit each other, and the
length the operation.
-/

namespace Hpav

open CMem MemTrace

/-! ## Decoding -/

/-- A confirmation as it was received: eight bytes of headers and the payload. -/
structure CnfMessage where
  header : List UInt8
  payload : List UInt8
  src : Mac
  dst : Mac
  length_header : header.length = mtkMmeHeaderSize
  length_lt : mtkMmeHeaderSize + payload.length < 4294967296

def CnfMessage.packet (m : CnfMessage) : MmePacket where
  dataSize := mtkMmeHeaderSize + m.payload.length
  data := m.header ++ m.payload
  dstMacAddr := m.dst
  srcMacAddr := m.src

/-- `sizeof(struct hpav_mtk_vs_file_access_cnf)` -/
abbrev fileAccessCnfStructSize : Nat := fileAccessCnfSize + 6 + 8

/-- The copy runs over the structure, on top of what `malloc` left there. -/
theorem decodeFileAccess_packet (uninit : Nat → UInt8) (m : CnfMessage) :
    decodeFileAccess uninit m.packet =
      if m.payload.length ≤ fileAccessCnfStructSize then
        .ok (FileAccessCnf.ofMemory (fun i => m.payload.getD i (uninit i)) m.src)
      else .error .outOfBounds := by
  have hlt := m.length_lt
  have hsize : (UInt32.ofNat m.packet.dataSize).toNat = mtkMmeHeaderSize + m.payload.length := by
    rw [UInt32.toNat_ofNat']
    exact Nat.mod_eq_of_lt hlt
  have hleft := @mtkLeft_eq ⟨UInt32.ofNat m.packet.dataSize, fun i => m.packet.data.getD i 0, m.src⟩
    (by rw [hsize]; exact Nat.le_add_right 8 _)
  have hlen : (UInt32.ofNat m.packet.dataSize - 5 - 3).toNat = m.payload.length := by
    simp only [mtkMmeHeaderSize] at hsize hleft
    omega
  have hcopy : (List.range m.payload.length).map (fun i => m.packet.data.getD (mtkMmeHeaderSize + i) 0) =
      m.payload := by
    refine map_getD_eq m.packet.data m.payload ?_ rfl fun _ => 0
    show ((m.header ++ m.payload).drop mtkMmeHeaderSize).take m.payload.length = m.payload
    rw [List.drop_left' m.length_header, List.take_length]
  have hval : (decodeMtkVsFileAccessCnf ⟨UInt32.ofNat m.packet.dataSize,
      fun i => m.packet.data.getD i 0, m.packet.srcMacAddr⟩).val = (m.payload, m.src) := by
    have hrun : (decodeMtkVsFileAccessCnf ⟨UInt32.ofNat m.packet.dataSize,
        fun i => m.packet.data.getD i 0, m.packet.srcMacAddr⟩).val =
        ((List.range (UInt32.ofNat m.packet.dataSize - 5 - 3).toNat).map
          (fun i => m.packet.data.getD (mtkMmeHeaderSize + i) 0), m.src) := rfl
    rw [hrun, hlen, hcopy]
  unfold decodeFileAccess
  rw [if_neg (by exact Nat.not_lt.mpr (Nat.le_add_right mtkMmeHeaderSize m.payload.length))]
  simp only [hval]

/-- The bytes of the fields in front of the data. -/
def FileAccessCnf.header (c : FileAccessCnf) : List UInt8 :=
  [c.mstatus, c.op, c.fileType] ++ c.parameter ++ bytes16 c.totalFragments ++
    bytes16 c.fragmentNumber ++ bytes32 c.offset ++ bytes16 c.length

/-- Every field in front of the data was received, and so was the data up to `length`; it is
zero from there on. -/
structure FileAccessCnf.Received (c : FileAccessCnf) (payload : List UInt8) : Prop where
  header : c.header = payload.take 45
  data : ∀ i < dataMaxLen, c.data[i]? = if i < c.length.toNat then payload[45 + i]? else some 0

/-- `length`, as a payload has it. -/
def cnfLength (payload : List UInt8) : UInt16 :=
  le16 (payload.getD 43 0) (payload.getD 44 0)

/-- The payload has all the data it announces, and no more than there is room for. -/
structure CompleteCnf (payload : List UInt8) : Prop where
  all : 45 + min (cnfLength payload).toNat dataMaxLen ≤ payload.length
  room : payload.length ≤ fileAccessCnfStructSize

/-- The header of the structure is the first 45 bytes of its memory. -/
theorem FileAccessCnf.header_ofMemory (mem : Nat → UInt8) (sta : Mac) :
    (FileAccessCnf.ofMemory mem sta).header = (List.range 45).map mem := by
  unfold FileAccessCnf.header FileAccessCnf.ofMemory
  simp only [bytes16_le16, bytes32_le32]
  rfl

theorem FileAccessCnf.length_ofMemory (mem : Nat → UInt8) (sta : Mac) :
    (FileAccessCnf.ofMemory mem sta).length = le16 (mem 43) (mem 44) := rfl

/-- The data of the structure, cleared behind `length`. -/
theorem FileAccessCnf.data_ofMemory (mem : Nat → UInt8) (sta : Mac) {i : Nat} (hi : i < dataMaxLen) :
    (FileAccessCnf.ofMemory mem sta).data[i]? =
      if i < (le16 (mem 43) (mem 44)).toNat then some (mem (45 + i)) else some 0 := by
  have hdata : ((List.range dataMaxLen).map fun i => mem (45 + i))[i]? = some (mem (45 + i)) := by
    rw [List.getElem?_map, List.getElem?_range hi]
    rfl
  unfold FileAccessCnf.ofMemory
  simp only
  by_cases hshort : (le16 (mem 43) (mem 44)).toNat < dataMaxLen
  · rw [if_pos hshort]
    have hlen : (((List.range dataMaxLen).map fun i => mem (45 + i)).take
        (le16 (mem 43) (mem 44)).toNat).length = (le16 (mem 43) (mem 44)).toNat := by
      rw [List.length_take, List.length_map, List.length_range]
      omega
    by_cases hbefore : i < (le16 (mem 43) (mem 44)).toNat
    · rw [if_pos hbefore, List.getElem?_append_left (by omega), List.getElem?_take_of_lt hbefore, hdata]
    · rw [if_neg hbefore, List.getElem?_append_right (by omega), List.getElem?_replicate,
        if_pos (by omega)]
  · rw [if_neg hshort, if_pos (by omega), hdata]

theorem getD_payload {payload : List UInt8} {i : Nat} (h : i < payload.length) (d : UInt8) :
    payload.getD i d = payload.getD i 0 := by
  rw [List.getD_eq_getElem?_getD, List.getD_eq_getElem?_getD, List.getElem?_eq_getElem h]
  rfl

theorem cnfLength_eq {payload : List UInt8} (h : 45 ≤ payload.length) (uninit : Nat → UInt8) :
    le16 (payload.getD 43 (uninit 43)) (payload.getD 44 (uninit 44)) = cnfLength payload := by
  rw [getD_payload (show 43 < payload.length by omega), getD_payload (show 44 < payload.length by omega)]
  rfl

/-- A complete confirmation is decoded the same whatever was in the memory. -/
theorem received_of_complete {payload : List UInt8} (h : CompleteCnf payload) (uninit : Nat → UInt8) (sta : Mac) :
    (FileAccessCnf.ofMemory (fun i => payload.getD i (uninit i)) sta).Received payload := by
  have hall := h.all
  have hlength := @cnfLength_eq payload (by omega) uninit
  constructor
  · rw [FileAccessCnf.header_ofMemory]
    have hmap := @map_getD_eq payload (payload.take 45) 0 45 (by rw [List.drop_zero])
      (by rw [List.length_take]; omega) uninit
    simpa only [Nat.zero_add] using hmap
  · intro i hi
    rw [FileAccessCnf.data_ofMemory _ sta hi, FileAccessCnf.length_ofMemory, hlength]
    by_cases hbefore : i < (cnfLength payload).toNat
    · have hin : 45 + i < payload.length := by omega
      rw [if_pos hbefore, if_pos hbefore, List.getElem?_eq_getElem hin, List.getD_eq_getElem?_getD,
        List.getElem?_eq_getElem hin]
      rfl
    · rw [if_neg hbefore, if_neg hbefore]

/-- A confirmation whose every byte was received is complete. -/
theorem complete_of_received {payload : List UInt8} {uninit : Nat → UInt8} {sta : Mac}
    (h : (FileAccessCnf.ofMemory (fun i => payload.getD i (uninit i)) sta).Received payload) :
    45 + min (cnfLength payload).toNat dataMaxLen ≤ payload.length := by
  have hheader := congrArg List.length h.header
  rw [FileAccessCnf.header_ofMemory, List.length_map, List.length_range, List.length_take] at hheader
  have hlength := @cnfLength_eq payload (by omega) uninit
  rcases Nat.eq_zero_or_pos (min (cnfLength payload).toNat dataMaxLen) with hzero | hpos
  · omega
  · -- the last byte that was received
    have hlast := h.data (min (cnfLength payload).toNat dataMaxLen - 1) (by omega)
    rw [FileAccessCnf.data_ofMemory _ sta (by omega), FileAccessCnf.length_ofMemory, hlength,
      if_pos (by omega), if_pos (by omega)] at hlast
    obtain ⟨hin, _⟩ := List.getElem?_eq_some_iff.mp hlast.symm
    omega

/-- The decoder writes inside the structure and initialises it, whatever was in the memory,
exactly if the payload is complete. -/
theorem decode_received_iff (m : CnfMessage) :
    (∀ uninit, ∃ c, decodeFileAccess uninit m.packet = .ok c ∧ c.Received m.payload) ↔
      CompleteCnf m.payload := by
  constructor
  · intro h
    obtain ⟨c, hdecode, hreceived⟩ := h fun _ => 0
    rw [decodeFileAccess_packet] at hdecode
    by_cases hroom : m.payload.length ≤ fileAccessCnfStructSize
    · rw [if_pos hroom] at hdecode
      injection hdecode with hc
      subst hc
      exact ⟨complete_of_received hreceived, hroom⟩
    · rw [if_neg hroom] at hdecode
      cases hdecode
  · intro h uninit
    refine ⟨_, ?_, received_of_complete h uninit m.src⟩
    rw [decodeFileAccess_packet, if_pos h.room]

/-- Two memories that agree up to the end of the data hold the same confirmation. -/
theorem FileAccessCnf.ofMemory_congr {mem mem' : Nat → UInt8} (sta : Mac)
    (h : ∀ i < 45 + min (le16 (mem 43) (mem 44)).toNat dataMaxLen, mem i = mem' i) :
    FileAccessCnf.ofMemory mem sta = FileAccessCnf.ofMemory mem' sta := by
  have hhead : ∀ i < 45, mem i = mem' i := fun i hi => h i (by omega)
  have hparameter : (List.range 32).map (fun i => mem (3 + i)) = (List.range 32).map fun i => mem' (3 + i) := by
    refine List.map_congr_left fun i hi => ?_
    exact hhead _ (by have := List.mem_range.mp hi; omega)
  have hlength : le16 (mem' 43) (mem' 44) = le16 (mem 43) (mem 44) := by
    rw [hhead 43 (by omega), hhead 44 (by omega)]
  have hdata : ∀ n, n ≤ min (le16 (mem 43) (mem 44)).toNat dataMaxLen →
      ((List.range dataMaxLen).map fun i => mem (45 + i)).take n =
        ((List.range dataMaxLen).map fun i => mem' (45 + i)).take n := by
    intro n hn
    rw [← List.map_take, ← List.map_take, List.take_range]
    refine List.map_congr_left fun i hi => ?_
    exact h _ (by have := List.mem_range.mp hi; omega)
  unfold FileAccessCnf.ofMemory
  simp only [hlength, hparameter, hhead 0 (by omega), hhead 1 (by omega), hhead 2 (by omega),
    hhead 35 (by omega), hhead 36 (by omega), hhead 37 (by omega), hhead 38 (by omega),
    hhead 39 (by omega), hhead 40 (by omega), hhead 41 (by omega), hhead 42 (by omega)]
  by_cases hshort : (le16 (mem 43) (mem 44)).toNat < dataMaxLen
  · rw [if_pos hshort, if_pos hshort, hdata _ (by omega)]
  · have hall := hdata dataMaxLen (by omega)
    rw [List.take_of_length_le (by simp), List.take_of_length_le (by simp)] at hall
    rw [if_neg hshort, if_neg hshort, hall]

/-- The confirmation as the payload has it. -/
def CnfMessage.cnf (m : CnfMessage) : FileAccessCnf :=
  FileAccessCnf.ofMemory (fun i => m.payload.getD i 0) m.src

theorem decode_complete {m : CnfMessage} (h : CompleteCnf m.payload) (uninit : Nat → UInt8) :
    decodeFileAccess uninit m.packet = .ok m.cnf := by
  have hall := h.all
  rw [decodeFileAccess_packet, if_pos h.room]
  congr 1
  refine FileAccessCnf.ofMemory_congr m.src ?_
  rw [cnfLength_eq (by omega)]
  intro i hi
  exact getD_payload (by omega) _

/-! ## Consuming -/

/-- What `process_mtk_vs_file_access_cnf` does with the data of a confirmation. -/
inductive CnfAccess where
  /-- the first bytes of `data` are read -/
  | readData (len : Nat)
  /-- bytes are copied into the variable `mac` -/
  | copyMac (len : Nat)
  deriving DecidableEq, Repr

/-- The data has 1024 bytes, the variable 8. -/
def CnfAccess.Safe : CnfAccess → Prop
  | readData len => len ≤ dataMaxLen
  | copyMac len => len ≤ 8

/-- How far `%s` reads: to the first NUL, or past the end of the data. -/
def stringRead (data : List UInt8) : Nat :=
  (data.takeWhile (· ≠ 0)).length + 1

/-- What `test_mtk_printf` reads of a text: nothing at all where `silence` is set, as
`conf_file` sets it. -/
def printfAccesses (silence : Bool) (data : List UInt8) : List CnfAccess :=
  if silence then [] else [.readData (stringRead data)]

/-- The accesses of one turn of the loop. `writable` says whether the file to save to could be
opened. What is read or listed is copied out of the data before it is printed. -/
def FileAccessCnf.accesses (silence writable : Bool) (response : FileAccessCnf) : List CnfAccess :=
  if response.mstatus = 0 then
    (if response.op = opRead ∨ response.op = opListDir then
      [.readData response.length.toNat]
    else if response.op = opScanSta then
      [.readData response.length.toNat, .copyMac response.length.toNat]
    else []) ++
    (if response.op = opSave ∧ writable then [.readData response.length.toNat] else [])
  else
    printfAccesses silence response.data

/-- The accesses of the loop, which ends behind the first failure. -/
def processAccesses (silence writable : Bool) : List FileAccessCnf → List CnfAccess
  | [] => []
  | response :: rest =>
    if response.mstatus = 0 then
      response.accesses silence writable ++ processAccesses silence writable rest
    else
      response.accesses silence writable

/-- What a turn needs: no more data than there is, no more of a scanned address than the
variable takes, and a NUL in the text of an error if it is printed. -/
def FileAccessCnf.Consumable (silence writable : Bool) (c : FileAccessCnf) : Prop :=
  if c.mstatus = 0 then
    (c.op = opRead ∨ c.op = opListDir ∨ (c.op = opSave ∧ writable) → c.length.toNat ≤ dataMaxLen) ∧
      (c.op = opScanSta → c.length.toNat ≤ 8)
  else silence = false → 0 ∈ c.data

/-- The confirmations the loop comes to. -/
def reached : List FileAccessCnf → List FileAccessCnf
  | [] => []
  | c :: rest => if c.mstatus = 0 then c :: reached rest else [c]

theorem stringRead_le_iff (data : List UInt8) : stringRead data ≤ data.length ↔ 0 ∈ data := by
  unfold stringRead
  induction data with
  | nil => simp
  | cons b data ih =>
    by_cases hb : b = 0
    · rw [List.takeWhile_cons_of_neg (by simpa using hb), hb]
      exact iff_of_true (by simp) List.mem_cons_self
    · rw [List.takeWhile_cons_of_pos (by simpa using hb), List.length_cons, List.length_cons,
        List.mem_cons, or_iff_right (Ne.symm hb), ← ih]
      omega

section Operations

variable {c : FileAccessCnf} {silence : Bool}

/-- The operations a turn tells apart. -/
theorem turn_cases (c : FileAccessCnf) :
    ((c.op = opRead ∨ c.op = opListDir) ∧ c.op ≠ opScanSta ∧ c.op ≠ opSave) ∨
      (¬ (c.op = opRead ∨ c.op = opListDir) ∧ c.op = opScanSta ∧ c.op ≠ opSave) ∨
      (¬ (c.op = opRead ∨ c.op = opListDir) ∧ c.op ≠ opScanSta ∧ c.op = opSave) ∨
      (¬ (c.op = opRead ∨ c.op = opListDir) ∧ c.op ≠ opScanSta ∧ c.op ≠ opSave) := by
  by_cases hread : c.op = opRead ∨ c.op = opListDir
  · refine Or.inl ⟨hread, ?_, ?_⟩
    · rcases hread with h | h <;> rw [h] <;> decide
    · rcases hread with h | h <;> rw [h] <;> decide
  by_cases hscan : c.op = opScanSta
  · refine Or.inr (Or.inl ⟨hread, hscan, ?_⟩)
    rw [hscan]
    decide
  by_cases hsave : c.op = opSave
  · exact Or.inr (Or.inr (Or.inl ⟨hread, hscan, hsave⟩))
  · exact Or.inr (Or.inr (Or.inr ⟨hread, hscan, hsave⟩))

theorem consumable_success_iff (writable : Bool) (hstatus : c.mstatus = 0) :
    c.Consumable silence writable ↔
      (c.op = opRead ∨ c.op = opListDir ∨ (c.op = opSave ∧ writable) → c.length.toNat ≤ dataMaxLen) ∧
        (c.op = opScanSta → c.length.toNat ≤ 8) := by
  unfold FileAccessCnf.Consumable
  rw [if_pos hstatus]

theorem consumable_read (writable : Bool) (hstatus : c.mstatus = 0) (hread : c.op = opRead ∨ c.op = opListDir)
    (hscan : c.op ≠ opScanSta) : c.Consumable silence writable ↔ c.length.toNat ≤ dataMaxLen := by
  rw [consumable_success_iff writable hstatus]
  constructor
  · rintro ⟨hlen, -⟩
    exact hlen (or_assoc.mp (Or.inl hread))
  · intro hlen
    exact ⟨fun _ => hlen, fun h => absurd h hscan⟩

theorem consumable_scan (writable : Bool) (hstatus : c.mstatus = 0) (hread : ¬ (c.op = opRead ∨ c.op = opListDir))
    (hscan : c.op = opScanSta) (hsave : c.op ≠ opSave) : c.Consumable silence writable ↔ c.length.toNat ≤ 8 := by
  rw [consumable_success_iff writable hstatus]
  constructor
  · rintro ⟨-, hmac⟩
    exact hmac hscan
  · intro hmac
    refine ⟨?_, fun _ => hmac⟩
    rintro (h | h | ⟨h, -⟩)
    · exact absurd (Or.inl h) hread
    · exact absurd (Or.inr h) hread
    · exact absurd h hsave

theorem consumable_save (writable : Bool) (hstatus : c.mstatus = 0) (hread : ¬ (c.op = opRead ∨ c.op = opListDir))
    (hscan : c.op ≠ opScanSta) (hsave : c.op = opSave) :
    c.Consumable silence writable ↔ (writable = true → c.length.toNat ≤ dataMaxLen) := by
  rw [consumable_success_iff writable hstatus]
  constructor
  · rintro ⟨hlen, -⟩ hwritable
    exact hlen (Or.inr (Or.inr ⟨hsave, hwritable⟩))
  · intro hlen
    refine ⟨?_, fun h => absurd h hscan⟩
    rintro (h | h | ⟨-, hwritable⟩)
    · exact absurd (Or.inl h) hread
    · exact absurd (Or.inr h) hread
    · exact hlen hwritable

theorem consumable_other (writable : Bool) (hstatus : c.mstatus = 0) (hread : ¬ (c.op = opRead ∨ c.op = opListDir))
    (hscan : c.op ≠ opScanSta) (hsave : c.op ≠ opSave) : c.Consumable silence writable := by
  rw [consumable_success_iff writable hstatus]
  refine ⟨?_, fun h => absurd h hscan⟩
  rintro (h | h | ⟨h, -⟩)
  · exact absurd (Or.inl h) hread
  · exact absurd (Or.inr h) hread
  · exact absurd h hsave

end Operations

/-- A text is printed safely if it holds a NUL, or not at all. -/
theorem printf_safe_iff {data : List UInt8} (silence : Bool) (hdata : data.length = dataMaxLen) :
    (∀ a ∈ printfAccesses silence data, a.Safe) ↔ (silence = false → 0 ∈ data) := by
  unfold printfAccesses
  cases silence with
  | true => exact iff_of_true (fun a ha => absurd ha List.not_mem_nil) (by rintro ⟨⟩)
  | false =>
    rw [if_neg Bool.false_ne_true, List.forall_mem_singleton, imp_iff_right rfl, ← stringRead_le_iff, hdata]
    exact Iff.rfl

/-- A turn stays inside the data and the variable exactly if it has what it needs. -/
theorem confirmation_safe_iff {c : FileAccessCnf} (silence writable : Bool) (hdata : c.data.length = dataMaxLen) :
    (∀ a ∈ c.accesses silence writable, a.Safe) ↔ c.Consumable silence writable := by
  by_cases hstatus : c.mstatus = 0
  · unfold FileAccessCnf.accesses
    rw [if_pos hstatus, List.forall_mem_append]
    have hnone : ∀ a ∈ ([] : List CnfAccess), a.Safe := fun a ha => absurd ha List.not_mem_nil
    rcases turn_cases c with ⟨hread, hscan, hsave⟩ | ⟨hread, hscan, hsave⟩ | ⟨hread, hscan, hsave⟩ | ⟨hread, hscan, hsave⟩
    · rw [if_pos hread, if_neg fun h => hsave h.1, consumable_read writable hstatus hread hscan, List.forall_mem_singleton]
      exact and_iff_left hnone
    · rw [if_neg hread, if_pos hscan, if_neg fun h => hsave h.1, consumable_scan writable hstatus hread hscan hsave,
        and_iff_left hnone, List.forall_mem_cons, List.forall_mem_singleton]
      refine and_iff_right_of_imp ?_
      intro hmac
      have hle : c.length.toNat ≤ 8 := hmac
      show c.length.toNat ≤ 1024
      omega
    · rw [if_neg hread, if_neg hscan, consumable_save writable hstatus hread hscan hsave, and_iff_right hnone]
      by_cases hwritable : writable = true
      · rw [if_pos ⟨hsave, hwritable⟩, List.forall_mem_singleton]
        exact (imp_iff_right hwritable).symm
      · rw [if_neg fun h => hwritable h.2]
        exact iff_of_true hnone fun h => absurd h hwritable
    · rw [if_neg hread, if_neg hscan, if_neg fun h => hsave h.1]
      exact iff_of_true ⟨hnone, hnone⟩ (consumable_other writable hstatus hread hscan hsave)
  · unfold FileAccessCnf.accesses FileAccessCnf.Consumable
    rw [if_neg hstatus, if_neg hstatus]
    exact printf_safe_iff silence hdata

/-- The loop does so exactly if each turn it comes to does. -/
theorem processAccesses_safe_iff {cs : List FileAccessCnf} (silence writable : Bool)
    (hdata : ∀ c ∈ cs, c.data.length = dataMaxLen) :
    (∀ a ∈ processAccesses silence writable cs, a.Safe) ↔ ∀ c ∈ reached cs, c.Consumable silence writable := by
  induction cs with
  | nil => simp [processAccesses, reached]
  | cons c rest ih =>
    rw [List.forall_mem_cons] at hdata
    unfold processAccesses reached
    by_cases hstatus : c.mstatus = 0
    · rw [if_pos hstatus, if_pos hstatus, List.forall_mem_append, List.forall_mem_cons,
        confirmation_safe_iff silence writable hdata.1, ih hdata.2]
    · rw [if_neg hstatus, if_neg hstatus, List.forall_mem_singleton, confirmation_safe_iff silence writable hdata.1]

/-- The loop of the model goes on only behind turns of that kind. -/
theorem processSuccess_consumable {command : FileAccessCommand} {s s' : ProcessState} {c : FileAccessCnf}
    (silence : Bool) (hstatus : c.mstatus = 0) (h : processSuccess command s c = .ok s') :
    c.Consumable silence (s.fs.writable command.fileName) ∧ s'.fs.writable = s.fs.writable := by
  unfold processSuccess at h
  -- the four branches: read or list, scan, save, anything else
  rcases turn_cases c with ⟨hread, hscan, hsave⟩ | ⟨hread, hscan, hsave⟩ | ⟨hread, hscan, hsave⟩ | ⟨hread, hscan, hsave⟩
  · rw [consumable_read _ hstatus hread hscan]
    rw [if_pos hread] at h
    by_cases hlen : c.length.toNat ≤ dataMaxLen
    · rw [if_pos hlen, bind_ok] at h
      simp only [if_neg hsave] at h
      injection h with h
      rw [← h]
      exact ⟨hlen, rfl⟩
    · rw [if_neg hlen] at h
      cases h
  · rw [consumable_scan _ hstatus hread hscan hsave]
    rw [if_neg hread, if_pos hscan] at h
    by_cases hlen : 8 < c.length.toNat
    · rw [if_pos hlen] at h
      cases h
    · rw [if_neg hlen] at h
      refine ⟨Nat.le_of_not_lt hlen, ?_⟩
      -- the stream may be open for a save that came before
      cases hfp : s.fp with
      | null =>
        simp only [hfp, bind_ok, if_neg hsave] at h
        injection h with h
        rw [← h]
      | opened path =>
        simp only [hfp, bind_ok, if_neg hsave] at h
        injection h with h
        rw [← h]
        rfl
      | closed =>
        simp only [hfp] at h
        cases h
  · rw [consumable_save _ hstatus hread hscan hsave]
    rw [if_neg hread, if_neg hscan, bind_ok] at h
    beta_reduce at h
    rw [if_pos hsave] at h
    by_cases hlen : dataMaxLen < c.length.toNat
    · rw [if_pos hlen] at h
      cases h
    · rw [if_neg hlen] at h
      refine ⟨fun _ => Nat.le_of_not_lt hlen, ?_⟩
      split at h
      · injection h with h
        rw [← h]
        simp only
        split <;> rfl
      · injection h with h
        rw [← h]
  · rw [if_neg hread, if_neg hscan, bind_ok] at h
    beta_reduce at h
    rw [if_neg hsave] at h
    injection h with h
    rw [← h]
    exact ⟨consumable_other _ hstatus hread hscan hsave, rfl⟩

/-- A run of the loop without a fault has consumed what it came to, up to a failure. -/
theorem processLoop_consumable {command : FileAccessCommand} {s : ProcessState} {cs : List FileAccessCnf}
    {r : ProcessState × Bool} (silence : Bool) (h : processLoop command s cs = .ok r) :
    ∀ c ∈ reached cs, c.mstatus = 0 → c.Consumable silence (s.fs.writable command.fileName) := by
  induction cs generalizing s with
  | nil => simp [reached]
  | cons c rest ih =>
    unfold reached
    unfold processLoop at h
    by_cases hstatus : c.mstatus = 0
    · rw [if_pos hstatus] at h ⊢
      rcases hturn : processSuccess command s c with e | s'
      · rw [hturn] at h
        cases h
      · rw [hturn, bind_ok] at h
        obtain ⟨hconsumable, hwritable⟩ := processSuccess_consumable silence hstatus hturn
        rw [List.forall_mem_cons]
        refine ⟨fun _ => hconsumable, ?_⟩
        rw [← hwritable]
        exact ih h
    · rw [if_neg hstatus, List.forall_mem_singleton]
      exact fun h => absurd h hstatus

/-! ## A chain of confirmations -/

theorem mapM_decode_complete {ms : List CnfMessage} (h : ∀ m ∈ ms, CompleteCnf m.payload) (uninit : Nat → UInt8) :
    (ms.map CnfMessage.packet).mapM (decodeFileAccess uninit) = .ok (ms.map CnfMessage.cnf) := by
  induction ms with
  | nil => rfl
  | cons m ms ih =>
    rw [List.forall_mem_cons] at h
    rw [List.map_cons, List.mapM_cons, decode_complete h.1, bind_ok, ih h.2, bind_ok]
    rfl

/-- Every confirmation of a chain is decoded into its structure and initialises it, and the
consumer stays inside the data and the variable, exactly if the payloads are complete and
the lengths in those the consumer comes to fit their operation. -/
theorem fileAccessCnf_bounds_iff (silence writable : Bool) (ms : List CnfMessage) :
    ((∀ m ∈ ms, ∀ uninit, ∃ c, decodeFileAccess uninit m.packet = .ok c ∧ c.Received m.payload) ∧
      ∀ uninit cs, (ms.map CnfMessage.packet).mapM (decodeFileAccess uninit) = .ok cs →
        ∀ a ∈ processAccesses silence writable cs, a.Safe) ↔
    (∀ m ∈ ms, CompleteCnf m.payload) ∧ ∀ c ∈ reached (ms.map CnfMessage.cnf), c.Consumable silence writable := by
  have hdecoded : (∀ m ∈ ms, ∀ uninit, ∃ c, decodeFileAccess uninit m.packet = .ok c ∧ c.Received m.payload) ↔
      ∀ m ∈ ms, CompleteCnf m.payload := forall₂_congr fun m _ => decode_received_iff m
  rw [hdecoded]
  refine and_congr_right fun hcomplete => ?_
  have hdata : ∀ c ∈ ms.map CnfMessage.cnf, c.data.length = dataMaxLen := by
    intro c hc
    obtain ⟨m, _, rfl⟩ := List.mem_map.mp hc
    exact FileAccessCnf.length_data_ofMemory _ _
  rw [← processAccesses_safe_iff silence writable hdata]
  constructor
  · intro h
    exact h (fun _ => 0) _ (mapM_decode_complete hcomplete _)
  · intro h uninit cs hcs
    rw [mapM_decode_complete hcomplete uninit] at hcs
    injection hcs with hcs
    rw [← hcs]
    exact h

/-- The payload of a frame of the minimal Ethernet size, all zero. -/
def shortCnf : CnfMessage where
  header := List.replicate 8 0
  payload := List.replicate 38 0
  src := firstStation
  dst := secondStation
  length_header := List.length_replicate
  length_lt := by
    rw [List.length_replicate]
    decide

/-- It ends within the fields in front of the data. -/
theorem shortCnf_not_received : ¬ ∀ (silence writable : Bool) (ms : List CnfMessage),
    (∀ m ∈ ms, ∀ uninit, ∃ c, decodeFileAccess uninit m.packet = .ok c ∧ c.Received m.payload) ∧
      ∀ uninit cs, (ms.map CnfMessage.packet).mapM (decodeFileAccess uninit) = .ok cs →
        ∀ a ∈ processAccesses silence writable cs, a.Safe := by
  intro h
  obtain ⟨hdecoded, _⟩ := h false true [shortCnf]
  have hcomplete := (decode_received_iff shortCnf).mp (hdecoded shortCnf (List.mem_singleton_self _))
  have hall := hcomplete.all
  have hlen : shortCnf.payload.length = 38 := List.length_replicate
  omega

end Hpav
