import Mathlib.Tactic.Common
import Hpav.Lib.MemTrace
import Hpav.Decode

/-!
# What the decoders read of a packet

A decoder stays inside the packet, and takes no difference that wraps around, exactly if
the packet is as long as the wire form that its count fields announce (`wireSize`). The
fixed copies, the cursors of the SNR and network information and the counted walk of the
tonemap all come down to that one bound.
-/

namespace Hpav

open MemTrace

/-! ## Behind the header -/

section Header

variable {α : Type} {smartCopy : SmartCopy α} {p : RxPacket}

/-- The length a smart copy is called with, the header being all there. -/
theorem decodeMme_safe_iff :
    SafeRun p.dataSize (decodeMme smartCopy p) ↔ 5 ≤ p.dataSize.toNat ∧
      SafeRun p.dataSize (smartCopy p.mem 5 (p.dataSize - 5)) := by
  unfold decodeMme
  rw [safeRun_bind_iff, safeRun_bind_iff]
  simp only [safeRun_pure, and_true]
  refine and_congr_left fun _ => ?_
  rw [safeRun_uSub_iff]
  rfl

/-- The header of the manufacturer has to be there, and what is copied behind it. -/
theorem decodeMtkMme_safe_iff :
    SafeRun p.dataSize (decodeMtkMme smartCopy p) ↔ 8 ≤ p.dataSize.toNat ∧
      SafeRun p.dataSize (smartCopy p.mem 8 (p.dataSize - 5 - 3)) := by
  unfold decodeMtkMme
  rw [safeRun_bind_iff, safeRun_bind_iff, safeRun_bind_iff]
  simp only [safeRun_pure, and_true, ← and_assoc]
  refine and_congr_left fun _ => ?_
  rw [safeRun_uSub_iff, safeRun_uSub_iff]
  change _ ∧ (3 : UInt32).toNat ≤ (p.dataSize - 5).toNat ↔ _
  constructor
  · rintro ⟨h5, h3⟩
    rw [toNat_uSub h5] at h3
    simp only [UInt32.reduceToNat] at h5 h3
    omega
  · intro h8
    have h5 : (5 : UInt32).toNat ≤ p.dataSize.toNat := by
      simp only [UInt32.reduceToNat]
      omega
    refine ⟨h5, ?_⟩
    rw [toNat_uSub h5]
    simp only [UInt32.reduceToNat]
    omega

/-- The length left behind the header is the distance to the end of the packet. -/
theorem mtkLeft_eq (h : 8 ≤ p.dataSize.toNat) :
    8 + (p.dataSize - 5 - 3).toNat = p.dataSize.toNat := by
  have h5 : (p.dataSize - 5).toNat = p.dataSize.toNat - 5 := toNat_uSub (by
    simp only [UInt32.reduceToNat]
    omega)
  have h3 : (p.dataSize - 5 - 3).toNat = (p.dataSize - 5).toNat - 3 := toNat_uSub (by
    simp only [UInt32.reduceToNat]
    omega)
  omega

end Header

/-! ## The copies -/

/-- A structure of a fixed size is copied from behind the header. -/
theorem decodeMme_fixed_safe_iff (size : Nat) (p : RxPacket) :
    SafeRun p.dataSize (decodeMme (smartCopyImpl size) p) ↔ 5 + size ≤ p.dataSize.toNat := by
  rw [decodeMme_safe_iff]
  constructor
  · rintro ⟨h5, hcopy⟩
    exact (safeRun_copyFrom_iff p.mem 5 size h5).mp hcopy
  · intro h
    exact ⟨by omega, (safeRun_copyFrom_iff p.mem 5 size (by omega)).mpr h⟩

/-- A structure of the manufacturer is copied from behind the longer header. -/
theorem decodeMtkMme_fixed_safe_iff (size : Nat) (p : RxPacket) :
    SafeRun p.dataSize (decodeMtkMme (smartCopyImpl size) p) ↔ 8 + size ≤ p.dataSize.toNat := by
  rw [decodeMtkMme_safe_iff]
  constructor
  · rintro ⟨h8, hcopy⟩
    exact (safeRun_copyFrom_iff p.mem 8 size h8).mp hcopy
  · intro h
    exact ⟨by omega, (safeRun_copyFrom_iff p.mem 8 size (by omega)).mpr h⟩

/-- A file access copies what there is behind its header. -/
theorem fileAccess_safe_iff (p : RxPacket) :
    SafeRun p.dataSize (decodeMtkVsFileAccessCnf p) ↔ 8 ≤ p.dataSize.toNat := by
  unfold decodeMtkVsFileAccessCnf
  rw [decodeMtkMme_safe_iff]
  refine ⟨And.left, fun h8 => ⟨h8, ?_⟩⟩
  have hleft := mtkLeft_eq h8
  exact (safeRun_copyFrom_iff p.mem 8 _ h8).mpr (by omega)

/-- An encrypted payload has a head, and a length that fits 16 bits. -/
theorem encryptedPayload_safe_iff (p : RxPacket) :
    SafeRun p.dataSize (decodeCmEncryptedPayloadInd p) ↔
      5 + 24 ≤ p.dataSize.toNat ∧ p.dataSize.toNat < 5 + 24 + 65536 := by
  unfold decodeCmEncryptedPayloadInd
  rw [decodeMme_safe_iff]
  have h24 : (24 : UInt32).toNat = 24 := rfl
  have hsub5 : 5 ≤ p.dataSize.toNat → (p.dataSize - 5).toNat = p.dataSize.toNat - 5 :=
    fun h5 => toNat_uSub h5
  simp only [smartCopyCmEncryptedPayloadInd, safeRun_bind_iff, safeRun_pure, and_true]
  -- 24 bytes of fields behind the five of the header, then a length of 16 bits
  constructor
  · rintro ⟨h5, hcopy, hsub, hnarrow, _⟩
    have hle := (safeRun_copyFrom_iff p.mem 5 24 h5).mp hcopy
    have hsub' : (24 : UInt32).toNat ≤ (p.dataSize - 5).toNat := (safeRun_uSub_iff _ _).mp hsub
    have hnarrow' : (p.dataSize - 5 - 24).toNat < 65536 := (safeRun_toShort_iff _).mp hnarrow
    rw [toNat_uSub hsub', hsub5 h5, h24] at hnarrow'
    omega
  · rintro ⟨hle, hlt⟩
    have h5 : 5 ≤ p.dataSize.toNat := by omega
    have hsub : (24 : UInt32).toNat ≤ (p.dataSize - 5).toNat := by
      rw [hsub5 h5, h24]
      omega
    have hrest : (p.dataSize - 5 - 24).toNat = p.dataSize.toNat - 29 := by
      rw [toNat_uSub hsub, hsub5 h5, h24]
      omega
    have hshort : (p.dataSize - 5 - 24).toUInt16.toNat = p.dataSize.toNat - 29 := by
      rw [UInt32.toNat_toUInt16, hrest]
      omega
    refine ⟨h5, (safeRun_copyFrom_iff p.mem 5 24 h5).mpr hle, (safeRun_uSub_iff _ _).mpr hsub, ?_, ?_⟩
    · rw [safeRun_toShort_iff]
      change (p.dataSize - 5 - 24).toNat < 65536
      omega
    · refine (safeRun_copyFrom_iff p.mem (5 + 24) _ hle).mpr ?_
      change 5 + 24 + (p.dataSize - 5 - 24).toUInt16.toNat ≤ p.dataSize.toNat
      rw [hshort]
      omega

/-! ## The cursors -/

/-- The statistics of the PWM have nine bytes. -/
theorem pwmStats_safe_iff (p : RxPacket) :
    SafeRun p.dataSize (decodeMtkVsGetPwmStatsCnf p) ↔ 8 + 9 ≤ p.dataSize.toNat := by
  unfold decodeMtkVsGetPwmStatsCnf
  rw [decodeMtkMme_safe_iff]
  simp only [smartCopyMtkVsGetPwmStatsCnf, safeRun_bind_iff, safeRun_pure, safeRun_byteAt_iff,
    safeRun_shortAt_iff, and_true]
  omega

/-- The configuration of the PWM has fourteen bytes. -/
theorem pwmConf_safe_iff (p : RxPacket) :
    SafeRun p.dataSize (decodeMtkVsGetPwmConfCnf p) ↔ 8 + 14 ≤ p.dataSize.toNat := by
  unfold decodeMtkVsGetPwmConfCnf
  rw [decodeMtkMme_safe_iff]
  simp only [smartCopyMtkVsGetPwmConfCnf, safeRun_bind_iff, safeRun_pure, safeRun_byteAt_iff,
    safeRun_shortAt_iff, and_true]
  omega

/-- A status has one byte. -/
theorem mstatus_safe_iff (p : RxPacket) :
    SafeRun p.dataSize (decodeMtkVsSetPwmConfCnf p) ↔ 8 + 1 ≤ p.dataSize.toNat := by
  unfold decodeMtkVsSetPwmConfCnf
  rw [decodeMtkMme_safe_iff]
  simp only [smartCopyMtkVsSetPwmConfCnf, safeRun_byteAt_iff]
  omega

/-- The indication of a calibration has 1157 bytes. -/
theorem txCaliInd_safe_iff (p : RxPacket) :
    SafeRun p.dataSize (decodeMtkVsSetTxCaliInd p) ↔ 8 + 1157 ≤ p.dataSize.toNat := by
  unfold decodeMtkVsSetTxCaliInd
  rw [decodeMtkMme_safe_iff]
  simp only [smartCopyMtkVsSetTxCaliInd, safeRun_bind_iff, safeRun_pure, safeRun_shortAt_iff,
    and_true]
  constructor
  · rintro ⟨_, hidx, hcopy⟩
    exact (safeRun_copyFrom_iff p.mem 10 1155 hidx).mp hcopy
  · intro h
    exact ⟨by omega, by omega, (safeRun_copyFrom_iff p.mem 10 1155 (by omega)).mpr h⟩

/-- `num_nws` as the decoder reads it. -/
def RxPacket.numNws (p : RxPacket) : Nat :=
  (p.mem 23).toNat

/-- The network information has as many entries as it says. -/
theorem nwInfo_safe_iff (p : RxPacket) :
    SafeRun p.dataSize (decodeMtkVsGetNwInfoCnf p) ↔
      8 + 16 + p.numNws * nwInfoEntrySize ≤ p.dataSize.toNat := by
  unfold decodeMtkVsGetNwInfoCnf
  rw [decodeMtkMme_safe_iff]
  simp only [smartCopyMtkVsGetNwInfoCnf, safeRun_bind_iff, safeRun_pure, safeRun_byteAt_iff,
    and_true]
  have hentries : 8 + 16 ≤ p.dataSize.toNat →
      (SafeRun p.dataSize (copyNwinfo p.mem 24 (p.mem 23)) ↔
        8 + 16 + p.numNws * nwInfoEntrySize ≤ p.dataSize.toNat) := by
    intro hfixed
    unfold copyNwinfo
    by_cases hnone : p.mem 23 = 0
    · rw [if_neg (not_not_intro hnone), RxPacket.numNws, hnone]
      exact ⟨fun _ => by simpa using hfixed, fun _ => safeRun_pure _ _⟩
    · rw [if_pos hnone]
      exact safeRun_copyFrom_iff p.mem 24 _ hfixed
  constructor
  · rintro ⟨_, _, _, _, _, hnum, hcopy⟩
    exact (hentries hnum).mp hcopy
  · intro h
    have hfixed : 8 + 16 ≤ p.dataSize.toNat := by omega
    refine ⟨by omega, ?_, by omega, by omega, ?_, by omega, (hentries hfixed).mpr h⟩
    · exact (safeRun_copyFrom_iff p.mem 8 7 (by omega)).mpr (by omega)
    · exact (safeRun_copyFrom_iff p.mem 17 6 (by omega)).mpr (by omega)

/-- `int_length` as the SNR decoder reads it. -/
def RxPacket.snrIntLength (p : RxPacket) : Nat :=
  (p.mem 10).toNat

/-- The SNR has as many intervals as it says, and the list. -/
theorem snr_safe_iff (p : RxPacket) :
    SafeRun p.dataSize (decodeMtkVsGetSnrCnf p) ↔
      8 + 3 + p.snrIntLength * 2 + 3 + mtkSnrListMaxSize ≤ p.dataSize.toNat := by
  unfold decodeMtkVsGetSnrCnf
  rw [decodeMtkMme_safe_iff]
  simp only [smartCopyMtkVsGetSnrCnf, safeRun_bind_iff, safeRun_pure, safeRun_byteAt_iff,
    safeRun_shortAt_iff, and_true]
  change _ ∧ _ ∧ _ ∧ _ ∧ SafeRun _ (copyFrom p.mem 11 (p.snrIntLength * 2)) ∧
    11 + p.snrIntLength * 2 + 2 ≤ _ ∧ 11 + p.snrIntLength * 2 + 2 + 1 ≤ _ ∧
      SafeRun _ (copyFrom p.mem (11 + p.snrIntLength * 2 + 2 + 1) mtkSnrListMaxSize) ↔ _
  constructor
  · rintro ⟨_, _, _, _, _, _, hgroup, hlist⟩
    exact (safeRun_copyFrom_iff p.mem _ _ hgroup).mp hlist
  · intro h
    refine ⟨by omega, by omega, by omega, by omega, ?_, by omega, by omega, ?_⟩
    · exact (safeRun_copyFrom_iff p.mem 11 _ (by omega)).mpr (by omega)
    · exact (safeRun_copyFrom_iff p.mem _ _ (by omega)).mpr h

/-! ## The tonemap -/

/-- `tmi_length` and, behind the default tonemaps, `int_length` as the decoder reads them. -/
def RxPacket.tmiLength (p : RxPacket) : UInt8 :=
  p.mem 15

def RxPacket.tonemapIntLength (p : RxPacket) : UInt8 :=
  p.mem (16 + p.tmiLength.toNat)

/-- The sizes of the fields in front of the modulation list. -/
def tonemapFields (tmiLength intLength : UInt8) : List UInt32 :=
  [1, 4, 1, 1, 1, tmiLength.toUInt32, 1, intLength.toUInt32 * 10, 1, 1, 1, 1, 4, 1, 2]

/-- The bytes of the intervals are counted without wrapping. -/
theorem toNat_intData (intLength : UInt8) :
    (intLength.toUInt32 * 10).toNat = intLength.toNat * tonemapIntEntrySize := by
  have hlt := intLength.toNat_lt
  rw [UInt32.toNat_mul, UInt8.toNat_toUInt32]
  change intLength.toNat * 10 % 4294967296 = intLength.toNat * 10
  omega

/-- The decoder is a counted walk over its fields; what is left after it is copied. -/
theorem tonemap_log (p : RxPacket) (left : UInt32) :
    (smartCopyMtkVsGetTonemapCnf p.mem 8 left).log =
      walk (tonemapFields p.tmiLength p.tonemapIntLength) 8 left ++
        (copyModulationList p.mem (walkEnd (tonemapFields p.tmiLength p.tonemapIntLength) 8)
          (walkLeft (tonemapFields p.tmiLength p.tonemapIntLength) left)).log := by
  have hint := toNat_intData p.tonemapIntLength
  have htmi : p.tmiLength.toUInt32.toNat = p.tmiLength.toNat := UInt8.toNat_toUInt32 _
  have hend : walkEnd (tonemapFields p.tmiLength p.tonemapIntLength) 8 =
      16 + p.tmiLength.toNat + 1 + p.tonemapIntLength.toNat * tonemapIntEntrySize + 1 + 1 + 1 + 1 +
        4 + 1 + 2 := by
    simp only [walkEnd, tonemapFields, List.map_cons, List.map_nil, List.sum_cons, List.sum_nil,
      hint, htmi, UInt32.reduceToNat]
    omega
  rw [hend]
  simp only [tonemapFields, walk, hint, htmi, UInt32.reduceToNat]
  simp only [smartCopyMtkVsGetTonemapCnf, log_bind, log_pure, byteAt, wordAt, shortAt, copyFrom,
    uSub, List.append_nil, List.cons_append, List.nil_append]
  rfl

/-- A tonemap has as many indices and intervals as it says, and eleven bytes more. -/
theorem tonemap_safe_iff (p : RxPacket) :
    SafeRun p.dataSize (decodeMtkVsGetTonemapCnf p) ↔
      8 + 8 + p.tmiLength.toNat + 1 + p.tonemapIntLength.toNat * tonemapIntEntrySize + 11 ≤
        p.dataSize.toNat := by
  unfold decodeMtkVsGetTonemapCnf
  rw [decodeMtkMme_safe_iff]
  have hend : walkEnd (tonemapFields p.tmiLength p.tonemapIntLength) 8 =
      8 + 8 + p.tmiLength.toNat + 1 + p.tonemapIntLength.toNat * tonemapIntEntrySize + 11 := by
    simp only [walkEnd, tonemapFields, List.map_cons, List.map_nil, List.sum_cons, List.sum_nil,
      toNat_intData, UInt8.toNat_toUInt32, UInt32.reduceToNat]
    omega
  rw [← hend]
  have hsafe : 8 ≤ p.dataSize.toNat →
      (SafeRun p.dataSize (smartCopyMtkVsGetTonemapCnf p.mem 8 (p.dataSize - 5 - 3)) ↔
        walkEnd (tonemapFields p.tmiLength p.tonemapIntLength) 8 ≤ p.dataSize.toNat) := by
    intro h8
    have hleft := mtkLeft_eq h8
    unfold SafeRun
    rw [tonemap_log]
    simp only [List.mem_append, or_imp, forall_and]
    rw [walk_safe_iff _ 8 _ hleft]
    refine ⟨And.left, fun hfits => ⟨hfits, ?_⟩⟩
    -- the rest of the packet ends where the packet ends
    have hrest := walkLeft_of_fits _ 8 _ hleft hfits
    unfold copyModulationList
    split
    · exact (safeRun_copyFrom_iff p.mem _ _ hfits).mpr (Nat.le_of_eq hrest)
    · exact safeRun_pure _ _
  constructor
  · rintro ⟨h8, hrun⟩
    exact (hsafe h8).mp hrun
  · intro hfits
    have h8 : 8 ≤ p.dataSize.toNat := by omega
    exact ⟨h8, (hsafe h8).mpr hfits⟩

/-! ## All decoders -/

/-- The bytes a confirmation takes on the wire, headers included, as far as its decoder
looks: the fixed fields and what the count fields announce. -/
def Confirmation.wireSize : Confirmation → RxPacket → Nat
  | .cmEncryptedPayloadInd, _ => 5 + 24
  | .cmSetKeyCnf, _ => 5 + 14
  | .cmAmpMapCnf, _ => 5 + 1
  | .mtkVsSetNvramCnf, _ => 8 + 1
  | .mtkVsGetVersionCnf, _ => 8 + 164
  | .mtkVsResetCnf, _ => 8 + 1
  | .mtkVsResetRsp, _ => 8 + 0
  | .mtkVsGetNvramCnf, _ => 8 + 1028
  | .mtkVsGetTonemaskCnf, _ => 8 + 513
  | .mtkVsGetEthPhyCnf, _ => 8 + 5
  | .mtkVsEthStatsCnf, _ => 8 + 65
  | .mtkVsGetStatusCnf, _ => 8 + 43
  | .mtkVsGetTonemapCnf, p =>
    8 + 8 + p.tmiLength.toNat + 1 + p.tonemapIntLength.toNat * tonemapIntEntrySize + 11
  | .mtkVsSetCaptureStateCnf, _ => 8 + 1
  | .mtkVsGetSnrCnf, p => 8 + 3 + p.snrIntLength * 2 + 3 + mtkSnrListMaxSize
  | .mtkVsGetLinkStatsCnf, _ => 8 + 66
  | .mtkVsGetNwInfoCnf, p => 8 + 16 + p.numNws * nwInfoEntrySize
  | .mtkVsGetPwmStatsCnf, _ => 8 + 9
  | .mtkVsGetPwmConfCnf, _ => 8 + 14
  | .mtkVsSetPwmConfCnf, _ => 8 + 1
  | .mtkVsSpiStatsCnf, _ => 8 + 63
  | .mtkVsPwmGenerationCnf, _ => 8 + 1
  | .mtkVsFileAccessCnf, _ => 8
  | .mtkVsSetTxCaliCnf, _ => 8 + 1
  | .mtkVsSetTxCaliInd, _ => 8 + 1157
  | .vcVsSetSnifferConfCnf, _ => 8 + 2
  | .vcVsGetRemoteAccessCnf, _ => 8 + 1
  | .vcVsSetRemoteAccessCnf, _ => 8 + 1

/-- The only bound from above: the length of an encrypted payload is kept in 16 bits. -/
def Confirmation.maxSize : Confirmation → Nat
  | .cmEncryptedPayloadInd => 5 + 24 + 65535
  | _ => 4294967295

/-- The size of a packet fits 32 bits. -/
theorem toNat_dataSize_le (p : RxPacket) : p.dataSize.toNat ≤ 4294967295 := by
  have h := p.dataSize.toNat_lt
  omega

/-- A decoder reads only inside the packet, and no length it computes wraps around, exactly
if the packet is as long as its wire form. -/
theorem Confirmation.accesses_safe_iff (c : Confirmation) (p : RxPacket) :
    (∀ a ∈ c.accesses p, a.Safe p.dataSize) ↔
      c.wireSize p ≤ p.dataSize.toNat ∧ p.dataSize.toNat ≤ c.maxSize := by
  have hmax := toNat_dataSize_le p
  cases c with
  | cmEncryptedPayloadInd =>
    refine (encryptedPayload_safe_iff p).trans (and_congr_right fun _ => ?_)
    simp only [Confirmation.maxSize]
    omega
  | cmSetKeyCnf => exact (decodeMme_fixed_safe_iff 14 p).trans (and_iff_left hmax).symm
  | cmAmpMapCnf => exact (decodeMme_fixed_safe_iff 1 p).trans (and_iff_left hmax).symm
  | mtkVsGetTonemapCnf => exact (tonemap_safe_iff p).trans (and_iff_left hmax).symm
  | mtkVsGetSnrCnf => exact (snr_safe_iff p).trans (and_iff_left hmax).symm
  | mtkVsGetNwInfoCnf => exact (nwInfo_safe_iff p).trans (and_iff_left hmax).symm
  | mtkVsGetPwmStatsCnf => exact (pwmStats_safe_iff p).trans (and_iff_left hmax).symm
  | mtkVsGetPwmConfCnf => exact (pwmConf_safe_iff p).trans (and_iff_left hmax).symm
  | mtkVsSetPwmConfCnf => exact (mstatus_safe_iff p).trans (and_iff_left hmax).symm
  | mtkVsSetTxCaliCnf => exact (mstatus_safe_iff p).trans (and_iff_left hmax).symm
  | mtkVsSetTxCaliInd => exact (txCaliInd_safe_iff p).trans (and_iff_left hmax).symm
  | mtkVsFileAccessCnf => exact (fileAccess_safe_iff p).trans (and_iff_left hmax).symm
  | _ => exact (decodeMtkMme_fixed_safe_iff _ p).trans (and_iff_left hmax).symm

/-- The address of the station has six bytes. -/
theorem length_versionStation : ([0x00, 0x1A, 0x11, 0x00, 0x00, 0x02] : List UInt8).length = 6 := rfl

/-- The packet of a VS_GET_VERSION.CNF frame of the minimal Ethernet size, 60 bytes: the
MME takes 46 of them. -/
def shortVersionCnf : RxPacket where
  dataSize := 46
  mem := fun _ => 0
  srcMacAddr := ⟨[0x00, 0x1A, 0x11, 0x00, 0x00, 0x02], length_versionStation⟩

/-- Its decoder copies 164 bytes from offset 8. -/
theorem shortVersionCnf_not_safe :
    ¬ ∀ a ∈ Confirmation.mtkVsGetVersionCnf.accesses shortVersionCnf,
      a.Safe shortVersionCnf.dataSize := by
  intro h
  have hread : Access.read 8 164 ∈ Confirmation.mtkVsGetVersionCnf.accesses shortVersionCnf := by
    decide
  have hlast := h _ hread 38 (by decide)
  exact absurd hlast (by decide)

end Hpav
