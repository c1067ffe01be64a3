import Mathlib.Data.List.Basic
import Mathlib.Tactic.Common
import Hpav.Lib.CMem

/-!
# Ethernet frames and MME packets

The data model of `hpav_api.h` and `hpav_mme.h`. A frame is the memory of its
`header` and `mme_data` fields together with `frame_size`; the header fields are
read out of that memory at the offsets the packed structures give them. Chains of
frames (`next`) are lists.
-/

namespace Hpav

/-! ## Sizes of the packed structures -/

/-- `sizeof(struct hpav_eth_header)`: two MAC addresses and the Ethernet type. -/
abbrev ethHeaderSize : Nat := 14

/-- `sizeof(struct hpav_mme_header)`. -/
abbrev mmeHeaderSize : Nat := 5

/-- `sizeof(struct hpav_mtk_mme_header)`: the MME header and the OUI. -/
abbrev mtkMmeHeaderSize : Nat := 8

/-- The bytes of `header` and `mme_data` in `struct hpav_eth_frame`: the union of
`hpav_mme_frame` is as large as `hpav_cm_amp_map_req`, 2002 bytes. -/
abbrev ethFrameArea : Nat := 2021

/-! ## Bytes -/

/-- A little-endian `unsigned short`. -/
def le16 (lo hi : UInt8) : UInt16 :=
  UInt16.ofNat (lo.toNat + 256 * hi.toNat)

/-- The two bytes of an `unsigned short`, low byte first. -/
def bytes16 (n : UInt16) : List UInt8 :=
  [UInt8.ofNat (n.toNat % 256), UInt8.ofNat (n.toNat / 256)]

/-- The four bytes of an `unsigned int`, low byte first. -/
def bytes32 (n : UInt32) : List UInt8 :=
  [UInt8.ofNat (n.toNat % 256), UInt8.ofNat (n.toNat / 256 % 256),
    UInt8.ofNat (n.toNat / 65536 % 256), UInt8.ofNat (n.toNat / 16777216)]

@[simp] theorem length_bytes16 (n : UInt16) : (bytes16 n).length = 2 := rfl

@[simp] theorem length_bytes32 (n : UInt32) : (bytes32 n).length = 4 := rfl

theorem le16_bytes16 (n : UInt16) :
    le16 (UInt8.ofNat (n.toNat % 256)) (UInt8.ofNat (n.toNat / 256)) = n := by
  have hn := n.toNat_lt
  have hlo : (UInt8.ofNat (n.toNat % 256)).toNat = n.toNat % 256 := by
    rw [UInt8.toNat_ofNat']
    omega
  have hhi : (UInt8.ofNat (n.toNat / 256)).toNat = n.toNat / 256 := by
    rw [UInt8.toNat_ofNat']
    omega
  rw [le16, hlo, hhi, Nat.mod_add_div]
  exact UInt16.ofNat_toNat

theorem bytes16_le16 (lo hi : UInt8) : bytes16 (le16 lo hi) = [lo, hi] := by
  have hlo := lo.toNat_lt
  have hhi := hi.toNat_lt
  have hval : (le16 lo hi).toNat = lo.toNat + 256 * hi.toNat := by
    unfold le16
    rw [UInt16.toNat_ofNat']
    omega
  unfold bytes16
  rw [hval]
  have h0 : (lo.toNat + 256 * hi.toNat) % 256 = lo.toNat := by omega
  have h1 : (lo.toNat + 256 * hi.toNat) / 256 = hi.toNat := by omega
  rw [h0, h1, UInt8.ofNat_toNat, UInt8.ofNat_toNat]

theorem le32_bytes32 (n : UInt32) :
    UInt32.ofNat ((UInt8.ofNat (n.toNat % 256)).toNat + 256 * (UInt8.ofNat (n.toNat / 256 % 256)).toNat +
      65536 * (UInt8.ofNat (n.toNat / 65536 % 256)).toNat +
      16777216 * (UInt8.ofNat (n.toNat / 16777216)).toNat) = n := by
  have hn := n.toNat_lt
  simp only [UInt8.toNat_ofNat']
  have hsum : n.toNat % 256 % 2 ^ 8 + 256 * (n.toNat / 256 % 256 % 2 ^ 8) +
      65536 * (n.toNat / 65536 % 256 % 2 ^ 8) + 16777216 * (n.toNat / 16777216 % 2 ^ 8) = n.toNat := by
    omega
  rw [hsum]
  exact UInt32.ofNat_toNat

theorem bytes32_le32 (b0 b1 b2 b3 : UInt8) :
    bytes32 (UInt32.ofNat (b0.toNat + 256 * b1.toNat + 65536 * b2.toNat + 16777216 * b3.toNat)) =
      [b0, b1, b2, b3] := by
  have hb0 := b0.toNat_lt
  have hb1 := b1.toNat_lt
  have hb2 := b2.toNat_lt
  have hb3 := b3.toNat_lt
  have hval : (UInt32.ofNat (b0.toNat + 256 * b1.toNat + 65536 * b2.toNat + 16777216 * b3.toNat)).toNat =
      b0.toNat + 256 * b1.toNat + 65536 * b2.toNat + 16777216 * b3.toNat := by
    rw [UInt32.toNat_ofNat']
    omega
  unfold bytes32
  rw [hval]
  have h0 : (b0.toNat + 256 * b1.toNat + 65536 * b2.toNat + 16777216 * b3.toNat) % 256 = b0.toNat := by omega
  have h1 : (b0.toNat + 256 * b1.toNat + 65536 * b2.toNat + 16777216 * b3.toNat) / 256 % 256 = b1.toNat := by
    omega
  have h2 : (b0.toNat + 256 * b1.toNat + 65536 * b2.toNat + 16777216 * b3.toNat) / 65536 % 256 = b2.toNat := by
    omega
  have h3 : (b0.toNat + 256 * b1.toNat + 65536 * b2.toNat + 16777216 * b3.toNat) / 16777216 = b3.toNat := by
    omega
  rw [h0, h1, h2, h3, UInt8.ofNat_toNat, UInt8.ofNat_toNat, UInt8.ofNat_toNat, UInt8.ofNat_toNat]

theorem bytes16_injective {m n : UInt16} (h : bytes16 m = bytes16 n) : m = n := by
  injection h with hlo hrest
  injection hrest with hhi _
  rw [← le16_bytes16 m, ← le16_bytes16 n, hlo, hhi]

theorem bytes32_injective {m n : UInt32} (h : bytes32 m = bytes32 n) : m = n := by
  injection h with h0 hrest
  injection hrest with h1 hrest
  injection hrest with h2 hrest
  injection hrest with h3 _
  rw [← le32_bytes32 m, ← le32_bytes32 n, h0, h1, h2, h3]

/-- Counting below a bound that fits an `unsigned short` does not wrap around. -/
theorem toNat_add_one {n : UInt16} {m : Nat} (h : n.toNat < m) (hm : m ≤ 65535) :
    (n + 1).toNat = n.toNat + 1 := by
  rw [UInt16.toNat_add]
  show (n.toNat + 1) % 65536 = n.toNat + 1
  omega

/-- A MAC address: six bytes. -/
structure Mac where
  bytes : List UInt8
  length_eq : bytes.length = 6
  deriving DecidableEq, Repr

theorem Mac.ext_bytes {a b : Mac} (h : a.bytes = b.bytes) : a = b := by
  cases a
  cases b
  simpa using h

/-- Two stations of one network. -/
def firstStation : Mac :=
  ⟨[0x00, 0x13, 0xD7, 0x00, 0x00, 0x01], rfl⟩

def secondStation : Mac :=
  ⟨[0x00, 0x13, 0xD7, 0x00, 0x00, 0x02], rfl⟩

/-! ## Frames -/

/-- `struct hpav_eth_frame`: the memory of `header` and `mme_data`, and `frame_size`.
A frame chained by `rx_callback` never claims more bytes than that memory holds. -/
structure EthFrame where
  mem : List UInt8
  frameSize : Nat
  mem_length : mem.length = ethFrameArea
  size_le : frameSize ≤ ethFrameArea
  deriving DecidableEq

namespace EthFrame

/-- The frame `rx_callback` builds from the captured bytes: cleared, then copied into. -/
def ofCapture (packetData : List UInt8) (hcaplen : packetData.length ≤ ethFrameArea) : EthFrame where
  mem := packetData ++ List.replicate (ethFrameArea - packetData.length) 0
  frameSize := packetData.length
  mem_length := by simp [Nat.add_sub_cancel' hcaplen]
  size_le := hcaplen

/-- The byte at offset `i` of the structure. -/
def byte (f : EthFrame) (i : Nat) : UInt8 :=
  f.mem.getD i 0

/-- `header.dst_mac_addr` -/
def dstMacAddr (f : EthFrame) : Mac :=
  ⟨f.mem.take 6, by simp [f.mem_length, ethFrameArea]⟩

/-- `header.src_mac_addr` -/
def srcMacAddr (f : EthFrame) : Mac :=
  ⟨(f.mem.drop 6).take 6, by simp [f.mem_length, ethFrameArea]⟩

/-- `mme_data.header.mmv` -/
def mmv (f : EthFrame) : UInt8 :=
  f.byte 14

/-- `mme_data.header.mmtype` -/
def mmtype (f : EthFrame) : UInt16 :=
  le16 (f.byte 15) (f.byte 16)

/-- `mme_data.header.fmi_nf_fn` -/
def fmiNfFn (f : EthFrame) : UInt8 :=
  f.byte 17

/-- `mme_data.header.fmi_fmsn` -/
def fmiFmsn (f : EthFrame) : UInt8 :=
  f.byte 18

/-- The number of fragments of the message, less one. -/
def numFragments (f : EthFrame) : Nat :=
  ((f.fmiNfFn &&& 0x0F) >>> 0).toNat

/-- The position of the frame among the fragments of its message. -/
def fragmentNumber (f : EthFrame) : Nat :=
  ((f.fmiNfFn &&& 0xF0) >>> 4).toNat

end EthFrame

/-- Vendor-specific MMEs carry an OUI behind the standard header. -/
def sizeOfMmeHeader (mmtype : UInt16) : Nat :=
  if mmtype &&& 0xE000 = 0xA000 then mtkMmeHeaderSize else mmeHeaderSize

theorem numFragments_le (f : EthFrame) : f.numFragments ≤ 15 := by
  have h : ∀ b : UInt8, ((b &&& 0x0F) >>> 0).toNat ≤ 15 := by
    intro b
    have hand : (b &&& 0x0F).toNat ≤ 15 := by
      rw [UInt8.toNat_and]
      exact Nat.and_le_right
    simpa using hand
  exact h _

/-! ## Packets -/

/-- `struct hpav_mme_packet`: a whole MME, header included. -/
structure MmePacket where
  dataSize : Nat
  data : List UInt8
  dstMacAddr : Mac
  srcMacAddr : Mac
  deriving DecidableEq, Repr

end Hpav
