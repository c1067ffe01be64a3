import Mathlib.Tactic.Common
import Hpav.Lib.MemTrace
import Hpav.Tonemap
import Hpav.TonemapRuns

/-!
# The memory a tonemap dump touches

A dump reads the bytes its bit count announces and, run-length encoded, stores the groups of
`TonemapRuns.lean` into a local list. Neither count is checked: the bit count is the
station's, and the groups can be as long as two nibbles say, with a modulation or without.
-/

namespace Hpav

open MemTrace

/-! ## What a dump reads -/

/-- The bytes a dump looks at: the whole ones, and the half one behind. -/
def readBytes (numBytes : Nat) (half : Prop) [Decidable half] : List Access :=
  (List.range numBytes).map (fun i => .read i 1) ++ if half then [.read numBytes 1] else []

theorem log_rleDecode (bitfield : Nat → UInt8) (numBits : Nat) :
    (rleDecode bitfield numBits).log = readBytes (numBits / 8) (numBits % 8 ≠ 0) := by
  have hloop := log_foldlM (fun (s : RleDecoder) i => do
    let x ← byteAt bitfield i
    return (s.nibble (getLowNibble x)).nibble (getHighNibble x))
    (fun s i => rfl : ∀ s i, _ = [Access.read i 1]) (List.range (numBits / 8)) {}
  unfold rleDecode readBytes
  rw [log_bind, hloop, ← List.map_eq_flatMap]
  by_cases hhalf : numBits % 8 ≠ 0
  · rw [if_pos hhalf, if_pos hhalf]
    rfl
  · rw [if_neg hhalf, if_neg hhalf]
    rfl

theorem log_dumpLine (bitfield : Nat → UInt8) (off lineBytes : Nat) :
    (dumpLine bitfield off lineBytes).log =
      (List.range lineBytes).map fun i => .read (off + i) 1 := by
  unfold dumpLine
  rw [log_foldlM _ (fun s i => rfl : ∀ s i, _ = [Access.read (off + i) 1]), ← List.map_eq_flatMap]

theorem log_dumpTrailing (bitfield : Nat → UInt8) (numBits left lineBytes i : Nat) :
    (dumpTrailing bitfield numBits left lineBytes i).log =
      if left = 0 ∧ numBits % 8 ≠ 0 then [.read (numBits / 8) 1] else [] := by
  unfold dumpTrailing
  by_cases hhalf : left = 0 ∧ numBits % 8 ≠ 0
  · rw [if_pos hhalf, if_pos ⟨by omega, hhalf.2⟩]
    rfl
  · rw [if_neg hhalf, if_neg (by omega)]
    rfl

/-- The bytes read by the lines still to come: the trailing one only if they are full. -/
theorem log_dumpLines (bitfield : Nat → UInt8) (numBits left i : Nat) (h : left ≤ numBits / 8) :
    (dumpLines bitfield numBits left i).log =
      (List.range left).map (fun j => .read (numBits / 8 - left + j) 1) ++
        if 0 < left ∧ left % 16 = 0 ∧ numBits % 8 ≠ 0 then [.read (numBits / 8) 1] else [] := by
  induction left using Nat.strong_induction_on generalizing i with
  | _ left ih =>
    rcases Nat.eq_zero_or_pos left with rfl | hpos
    · rw [dumpLines_nonpos bitfield numBits i (show ((0 : Nat) : Int) ≤ 0 by omega)]
      rfl
    rcases Nat.lt_or_ge left 16 with hlt | hge
    · rw [dumpLines_short bitfield numBits i hpos hlt, log_bind, log_dumpLine, if_neg (by omega)]
      rfl
    obtain ⟨left, rfl⟩ := Nat.exists_eq_add_of_le' hge
    rw [dumpLines_full, log_bind, log_bind, log_bind, log_pure, List.append_nil, log_dumpLine,
      log_dumpTrailing, ih left (by omega) (i + 16) (by omega), Nat.add_comm left 16,
      List.range_add, List.map_append, List.append_assoc, List.map_map]
    congr 1
    have hshift : ∀ j, numBits / 8 - (16 + left) + (16 + j) = numBits / 8 - left + j := by
      intro j
      omega
    simp only [Function.comp_def, hshift]
    rcases Nat.eq_zero_or_pos left with rfl | hpos'
    · simp
    · have hiff : (0 < 16 + left ∧ (16 + left) % 16 = 0 ∧ numBits % 8 ≠ 0) ↔
          0 < left ∧ left % 16 = 0 ∧ numBits % 8 ≠ 0 := by
        omega
      rw [if_neg (by omega), List.nil_append]
      simp only [hiff]

/-- Every byte of a dump is read; the half byte behind only where its nibble is printed. -/
theorem log_dumpTonemap (bitfield : Nat → UInt8) (numBits : Nat) (rleEnc : Int) :
    (dumpTonemap bitfield numBits rleEnc).log =
      readBytes (numBits / 8) (numBits % 8 ≠ 0 ∧
        (rleEnc = 0xFF ∨ 0 < numBits / 8 ∧ numBits / 8 % 16 = 0)) := by
  unfold dumpTonemap
  by_cases hrle : rleEnc = 0xFF
  · rw [if_pos hrle, log_bind, log_pure, List.append_nil, log_rleDecode]
    simp only [hrle, true_or, and_true]
  · rw [if_neg hrle, log_dumpLines bitfield numBits _ 0 le_rfl]
    have hiff : (0 < numBits / 8 ∧ numBits / 8 % 16 = 0 ∧ numBits % 8 ≠ 0) ↔
        numBits % 8 ≠ 0 ∧ (rleEnc = 0xFF ∨ 0 < numBits / 8 ∧ numBits / 8 % 16 = 0) := by
      constructor
      · rintro ⟨hpos, hfull, hhalf⟩
        exact ⟨hhalf, Or.inr ⟨hpos, hfull⟩⟩
      · rintro ⟨hhalf, hor⟩
        have hlines := hor.resolve_left hrle
        exact ⟨hlines.1, hlines.2, hhalf⟩
    simp only [readBytes, Nat.sub_self, Nat.zero_add, hiff]

/-- Bytes read one by one are inside a buffer if their number is. -/
theorem readBytes_safe_iff {numBytes : Nat} {half : Prop} [Decidable half] {size : UInt32} :
    (∀ a ∈ readBytes numBytes half, a.Safe size) ↔
      numBytes ≤ size.toNat ∧ (half → numBytes < size.toNat) := by
  unfold readBytes
  rw [List.forall_mem_append, List.forall_mem_map]
  refine and_congr ?_ ?_
  · constructor
    · intro h
      rcases Nat.eq_zero_or_pos numBytes with rfl | hpos
      · exact Nat.zero_le _
      · have hlast := (safe_read_iff Nat.one_pos).mp (h (numBytes - 1) (List.mem_range.mpr (by omega)))
        omega
    · intro h i hi
      rw [safe_read_iff Nat.one_pos]
      have hlt := List.mem_range.mp hi
      omega
  · by_cases hhalf : half
    · rw [if_pos hhalf, List.forall_mem_singleton, safe_read_iff Nat.one_pos]
      exact ⟨fun h _ => h, fun h => h hhalf⟩
    · rw [if_neg hhalf]
      exact iff_of_true (by simp) fun h => absurd h hhalf

/-- The size of `modulation_list` in a confirmation. -/
theorem dumpTonemap_reads_iff (bitfield : Nat → UInt8) (numBits : Nat) (rleEnc : Int) :
    (∀ a ∈ (dumpTonemap bitfield numBits rleEnc).log, a.Safe 2048) ↔ numBits ≤ 16384 := by
  rw [log_dumpTonemap, readBytes_safe_iff]
  change numBits / 8 ≤ 2048 ∧ (_ → numBits / 8 < 2048) ↔ _
  omega

/-! ## What a dump stores -/

theorem RunGroup.modulation_ne_iff (g : RunGroup) : g.modulation ≠ -1 ↔ g.symbol ≠ none := by
  obtain ⟨symbol, digits⟩ := g
  cases symbol with
  | none => simp
  | some s => simp [toNat_ne_neg_one s]

/-- A closed group without digits is one a modulation has closed. -/
theorem readGroups_symbol {ts : List UInt8} :
    ∀ g ∈ (readGroups ts).closed, g.digits = [] → g.symbol ≠ none := by
  induction ts using List.reverseRecOn with
  | nil =>
    intro g hg
    cases hg
  | append_singleton ts t ih =>
    rw [readGroups_concat]
    unfold Reading.nibble
    by_cases hmod : isModulationField t = true
    · rw [if_pos hmod]
      split
      · exact ih
      · rename_i s hs
        rw [List.forall_mem_append, List.forall_mem_singleton]
        refine ⟨ih, fun _ => ?_⟩
        rw [hs]
        exact Option.some_ne_none s
    · rw [if_neg hmod]
      split
      · exact ih
      · rw [List.forall_mem_append, List.forall_mem_singleton]
        refine ⟨ih, fun hnil => ?_⟩
        exact absurd hnil (List.append_ne_nil_of_right_ne_nil _ (List.cons_ne_nil t []))

theorem storedGroups_symbol {bitfield : Nat → UInt8} {numBits : Nat} :
    ∀ g ∈ storedGroups bitfield numBits, g.digits = [] → g.symbol ≠ none := by
  unfold storedGroups
  by_cases hhalf : numBits % 8 = 0
  · simp only [if_pos hhalf]
    exact readGroups_symbol
  · simp only [if_neg hhalf]
    unfold Reading.last
    split
    · rw [List.forall_mem_append, List.forall_mem_singleton]
      exact ⟨readGroups_symbol, fun _ => Option.some_ne_none _⟩
    · rw [List.forall_mem_append, List.forall_mem_singleton]
      refine ⟨readGroups_symbol, fun hnil => ?_⟩
      exact absurd hnil (List.append_ne_nil_of_right_ne_nil _ (List.cons_ne_nil _ []))

/-- No run is emitted without a modulation exactly if every stored group has one. -/
theorem runs_modulation_iff (bitfield : Nat → UInt8) (numBits : Nat) :
    (∀ run ∈ (rleDecode bitfield numBits).val.runs, run.1 ≠ -1) ↔
      ∀ g ∈ storedGroups bitfield numBits, g.symbol ≠ none := by
  rw [(rleDecode_storedGroups bitfield numBits).2]
  constructor
  · intro h g hg
    by_cases hdigits : g.digits = []
    · exact storedGroups_symbol g hg hdigits
    · rw [← g.modulation_ne_iff]
      refine h (g.modulation, g.length) (List.mem_flatMap.mpr ⟨g, hg, ?_⟩)
      unfold RunGroup.run
      rw [if_neg hdigits]
      exact List.mem_singleton_self _
  · intro h run hrun
    obtain ⟨g, hg, hmem⟩ := List.mem_flatMap.mp hrun
    unfold RunGroup.run at hmem
    split at hmem
    · cases hmem
    · rw [List.mem_singleton.mp hmem]
      exact g.modulation_ne_iff.mpr (h g hg)

theorem length_modulationList (bitfield : Nat → UInt8) (numBits : Nat) :
    (rleDecode bitfield numBits).val.modulationList.length =
      ((storedGroups bitfield numBits).map RunGroup.length).sum := by
  rw [(rleDecode_storedGroups bitfield numBits).1, List.length_flatMap]
  congr 1
  refine List.map_congr_left fun g _ => ?_
  exact List.length_replicate

/-- A dump of a confirmation stays inside `modulation_list`, and its decoder inside the local
list and behind a modulation, exactly if the tonemap length is at most 4096 nibbles and the
groups of an encoded list have a modulation each and come to at most 4097. -/
theorem dumpTonemap_safe_iff (bitfield : Nat → UInt8) (tonemapLength : UInt16)
    (carrierGroup : UInt8) :
    ((∀ a ∈ (dumpTonemap bitfield tonemapLength.toNat carrierGroup.toNat).log, a.Safe 2048) ∧
      (carrierGroup = 0xFF →
        (∀ m < (rleDecode bitfield tonemapLength.toNat).val.modulationList.length,
          m ≤ mtkPossibleCarriersMax) ∧
        ∀ run ∈ (rleDecode bitfield tonemapLength.toNat).val.runs, run.1 ≠ -1)) ↔
    tonemapLength.toNat ≤ 16384 ∧
      (carrierGroup = 0xFF →
        ((storedGroups bitfield tonemapLength.toNat).map RunGroup.length).sum ≤
          mtkPossibleCarriersMax + 1 ∧
        ∀ g ∈ storedGroups bitfield tonemapLength.toNat, g.symbol ≠ none) := by
  rw [dumpTonemap_reads_iff, runs_modulation_iff, length_modulationList]
  refine and_congr_right fun _ => imp_congr_right fun _ => and_congr_left fun _ => ?_
  constructor
  · intro h
    by_contra hlt
    have hlast := h (mtkPossibleCarriersMax + 1) (by omega)
    omega
  · intro h m hm
    omega

/-- The one byte `FF`: its two digits are a run without a modulation. -/
theorem dumpTonemap_not_safe : ¬ ∀ (bitfield : Nat → UInt8) (tonemapLength : UInt16)
    (carrierGroup : UInt8),
    (∀ a ∈ (dumpTonemap bitfield tonemapLength.toNat carrierGroup.toNat).log, a.Safe 2048) ∧
      (carrierGroup = 0xFF →
        (∀ m < (rleDecode bitfield tonemapLength.toNat).val.modulationList.length,
          m ≤ mtkPossibleCarriersMax) ∧
        ∀ run ∈ (rleDecode bitfield tonemapLength.toNat).val.runs, run.1 ≠ -1) := by
  intro h
  obtain ⟨_, hruns⟩ := (h (fun _ => 0xFF) 8 0xFF).2 rfl
  exact absurd rfl (hruns (-1, 58) (by decide))

end Hpav
