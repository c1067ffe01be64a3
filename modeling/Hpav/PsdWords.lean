import Mathlib.Algebra.BigOperators.Group.Finset.Basic
import Mathlib.Algebra.BigOperators.Intervals
import Mathlib.Tactic.Common
import Mathlib.Tactic.Ring
import Hpav.ConfFileModifySaves

/-!
# Unpacking and packing the amplitude map

`conf_file_modify_psd_cali` takes every word of `am_infile` apart and puts it together
again. The words that come out are those that went in, or the sums of sixteen's powers the
nibbles stand for, exactly if none of them has its top bit set and the accumulator, which is
not initialized, holds nothing that is not within the first word (`WordsKept`).
-/

namespace Hpav

open Binary64 CMem CScan

/-! ## Words as sums -/

/-- Word `m` of an array of nibbles. -/
def wordSum (nibble : Nat → Fin 16) (m : Nat) : Nat :=
  ∑ n ∈ Finset.range 8, (nibble (8 * m + n)).val * 16 ^ (7 - n)

/-- `backoff_array`, with as many nibbles as `count` words have. -/
def nibbleArray (nibble : Nat → Fin 16) (count : Nat) : List Nat :=
  (List.range (8 * count)).map fun i => (nibble i).val

theorem nibbles_nibbleArray (nibble : Nat → Fin 16) (count : Nat) :
    Nibbles (8 * count) (nibbleArray nibble count) := by
  constructor
  · unfold nibbleArray
    rw [List.length_map, List.length_range]
  · intro b hb
    unfold nibbleArray at hb
    rw [List.mem_map] at hb
    rcases hb with ⟨i, -, rfl⟩
    exact (nibble i).isLt

/-- The first eight nibbles of an array, and the array behind them. -/
theorem nibbleArray_succ (nibble : Nat → Fin 16) (count : Nat) :
    nibbleArray nibble (count + 1) =
      (List.range 8).map (fun i => (nibble i).val) ++ nibbleArray (fun i => nibble (8 + i)) count := by
  unfold nibbleArray
  rw [show 8 * (count + 1) = 8 + 8 * count by ring, List.range_add, List.map_append, List.map_map]
  rfl

theorem wordSum_zero (nibble : Nat → Fin 16) :
    wordSum nibble 0 = wordOf ((List.range 8).map fun i => (nibble i).val) := by
  unfold wordSum wordOf
  simp only [Finset.sum_range_succ, Finset.sum_range_zero, List.range_succ, List.range_zero, List.nil_append,
    List.cons_append, List.map_cons, List.map_nil, List.foldl_cons, List.foldl_nil, Nat.mul_zero, Nat.zero_add]
  ring

theorem wordSum_succ (nibble : Nat → Fin 16) (m : Nat) :
    wordSum nibble (m + 1) = wordSum (fun i => nibble (8 + i)) m := by
  unfold wordSum
  refine Finset.sum_congr rfl ?_
  intro n _
  rw [show 8 * (m + 1) + n = 8 + (8 * m + n) by ring]

theorem packedWords_append {chunk backoffs : List Nat} (h : chunk.length = 8) :
    packedWords (chunk ++ backoffs) = wordOf chunk :: packedWords backoffs := by
  rcases chunk with _ | ⟨b0, _ | ⟨b1, _ | ⟨b2, _ | ⟨b3, _ | ⟨b4, _ | ⟨b5, _ | ⟨b6, _ | ⟨b7, _ | ⟨b8, chunk⟩⟩⟩⟩⟩⟩⟩⟩⟩
  case cons.cons.cons.cons.cons.cons.cons.cons.nil => rfl
  all_goals
    simp only [List.length_cons, List.length_nil] at h
    omega

theorem packedWords_nibbleArray (nibble : Nat → Fin 16) (count : Nat) :
    packedWords (nibbleArray nibble count) = (List.range count).map (wordSum nibble) := by
  induction count generalizing nibble with
  | zero => rfl
  | succ count ih =>
    have hchunk : packedWords (nibbleArray nibble (count + 1)) =
        wordOf ((List.range 8).map fun i => (nibble i).val) ::
          packedWords (nibbleArray (fun i => nibble (8 + i)) count) := by
      rw [nibbleArray_succ, packedWords_append (by rw [List.length_map, List.length_range])]
    have hshift : (List.range count).map (wordSum fun i => nibble (8 + i)) =
        (List.range count).map (wordSum nibble ∘ Nat.succ) := by
      refine List.map_congr_left ?_
      intro m _
      rw [Function.comp_apply, Nat.succ_eq_add_one, wordSum_succ]
    rw [hchunk, ih, ← wordSum_zero, hshift, List.range_succ_eq_map, List.map_cons, List.map_map]

/-! ## Unpacking -/

theorem toUnsigned64_ofInt {n : Nat} (hn : n ≤ 2 ^ 53) : (Double.ofInt n).toUnsigned64 = n := by
  have hsmall : (n : Int).natAbs ≤ 2 ^ 53 := by
    rw [Int.natAbs_natCast]
    exact hn
  have hto := Double.toUnsigned64_eq (Double.trunc_ofInt hsmall) (Int.natCast_nonneg n) (by omega)
  exact_mod_cast hto

/-- The digits behind the first ones complete the word. -/
theorem foldl_digits (word k : Nat) :
    ((List.range k).reverse.map fun e => word / 16 ^ e % 16).foldl (fun high b => high * 16 + b) (word / 16 ^ k) =
      word := by
  induction k with
  | zero => exact Nat.div_one word
  | succ k ih =>
    have hstep : word / 16 ^ (k + 1) * 16 + word / 16 ^ k % 16 = word / 16 ^ k := by
      rw [Nat.pow_succ, ← Nat.div_div_eq_div_mul]
      exact Nat.div_add_mod' _ _
    rw [List.range_succ, List.reverse_append, List.reverse_singleton, List.singleton_append, List.map_cons,
      List.foldl_cons, hstep, ih]

/-- The nibbles of a word make the word. -/
theorem wordOf_nibbles {word : Nat} (hword : word < 2 ^ 32) : wordOf (nibbles word) = word := by
  have hdigit : ∀ e, (word >>> (4 * e)) &&& 0xF = word / 16 ^ e % 16 := by
    intro e
    rw [Nat.and_two_pow_sub_one_eq_mod _ 4, Nat.shiftRight_eq_div_pow, Nat.pow_mul]
  have hnibbles : nibbles word = (List.range 8).reverse.map fun e => word / 16 ^ e % 16 := by
    unfold nibbles
    simp only [hdigit]
    rfl
  have hnone : word / 16 ^ 8 = 0 := Nat.div_eq_of_lt hword
  rw [hnibbles, wordOf, ← hnone]
  exact foldl_digits word 8

/-- What was unpacked and is packed again is what it was. -/
theorem packedWords_backoffArray {words : List Nat} (h : ∀ word ∈ words, word < 2 ^ 32) :
    packedWords (backoffArray (numbers words)) = words := by
  induction words with
  | nil => rfl
  | cons word words ih =>
    have hword := h word List.mem_cons_self
    have hsplit : backoffArray (numbers (word :: words)) =
        nibbles (Double.ofInt word).toUnsigned64 ++ backoffArray (numbers words) := rfl
    rw [hsplit, toUnsigned64_ofInt (by omega), packedWords_append (by simp [nibbles]), wordOf_nibbles hword,
      ih fun w hw => h w (List.mem_cons_of_mem word hw)]

/-! ## The two round trips -/

/-- The words of a map, each of 32 bits. -/
def mapWords (words : List UInt32) : List Nat :=
  words.map UInt32.toNat

theorem mapWords_lt (words : List UInt32) : ∀ word ∈ mapWords words, word < 2 ^ 32 := by
  intro word hword
  unfold mapWords at hword
  rw [List.mem_map] at hword
  rcases hword with ⟨w, -, rfl⟩
  exact w.toNat_lt

/-- The packing loop stores the sums, each below `2 ^ 32`, exactly if `WordsKept`. -/
theorem packLoop_sums_iff (nibble : Nat → Fin 16) (count : Nat) (accumulator : UInt64) :
    (packLoop (nibbleArray nibble count) accumulator.toNat 0 [] = (List.range count).map (wordSum nibble) ∧
        ∀ word ∈ packLoop (nibbleArray nibble count) accumulator.toNat 0 [], word < 2 ^ 32) ↔
      WordsKept accumulator.toNat ((List.range count).map (wordSum nibble)) := by
  have hnibbles := nibbles_nibbleArray nibble count
  have hwords := packedWords_nibbleArray nibble count
  have hlt := packedWords_lt hnibbles.lt
  rw [packLoop_eq count hnibbles, List.nil_append, ← firstWord_eq_iff, ← hwords]
  constructor
  · rintro ⟨heq, -⟩
    exact heq
  · intro heq
    refine ⟨heq, ?_⟩
    rw [heq]
    exact hlt

/-- A calibration that changes no carrier leaves the tree as it is, exactly if `WordsKept`. -/
theorem psdCali_unchanged_iff {env : ModifyEnv} {inkaObj phy : Members} {input content : List UInt8}
    (words : List UInt32) (hphy : jsonObjectGetObject inkaObj (text "phy") = some phy)
    (hmap : jsonObjectGetArray phy (text "am_infile") = some (numbers (mapWords words)))
    (hfile : env.files.contents input = some content)
    (hsame : calibrated (numbers (mapWords words)) content = .ok (backoffArray (numbers (mapWords words)))) :
    (∃ inkaObj', confFileModifyPsdCali env inkaObj input = .ok inkaObj' ∧
        itemsAt [text "phy", text "am_infile"] (.object inkaObj') = some (numbers (mapWords words))) ↔
      WordsKept env.uninitialized.toNat (mapWords words) := by
  have hlt := mapWords_lt words
  have hpacked := packedWords_backoffArray hlt
  have hsaved := savedItems_eq env.uninitialized.toNat (nibbles_backoffArray (numbers (mapWords words)))
  rw [hpacked] at hsaved
  generalize hitems : numbers (firstWord env.uninitialized.toNat ((mapWords words).map signExtend)) = items at hsaved
  -- the command puts the saved words where the map was
  have hrun : confFileModifyPsdCali env inkaObj input =
      .ok (overwrite (text "phy") (.object (overwrite (text "am_infile") (.array items) phy)) inkaObj) := by
    unfold confFileModifyPsdCali inObject
    simp only [hfile, hphy, hmap, Option.getD_some, hsame, hsaved]
    rfl
  rcases exists_of_getArray hmap with ⟨old, hold⟩
  have hphy' := jsonObjectGetObject_overwrite hphy (overwrite (text "am_infile") (.array items) phy)
  have hread : itemsAt [text "phy", text "am_infile"] (.object (overwrite (text "phy")
      (.object (overwrite (text "am_infile") (.array items) phy)) inkaObj)) = some items := by
    rw [itemsAt_pair hphy']
    unfold jsonObjectGetArray
    rw [jsonObjectGetValue_overwrite hold]
    rfl
  rw [← firstWord_eq_iff]
  constructor
  · rintro ⟨inkaObj', hrun', hread'⟩
    rw [hrun] at hrun'
    cases hrun'
    rw [hread, ← hitems] at hread'
    exact numbers_injective (fun word hword => lt_trans (hlt word hword) (by decide)) (Option.some.inj hread')
  · intro hkept
    refine ⟨_, hrun, ?_⟩
    rw [hread, ← hitems, hkept]

/-- Unpacking and packing: the sums of the nibbles are stored, and a map whose carriers do
not change is saved as it was, exactly if `WordsKept`. -/
theorem repack_iff_wordsKept (nibble : Nat → Fin 16) (count : Nat) (accumulator : UInt64) {env : ModifyEnv}
    {inkaObj phy : Members} {input content : List UInt8} (words : List UInt32)
    (hphy : jsonObjectGetObject inkaObj (text "phy") = some phy)
    (hmap : jsonObjectGetArray phy (text "am_infile") = some (numbers (mapWords words)))
    (hfile : env.files.contents input = some content)
    (hsame : calibrated (numbers (mapWords words)) content = .ok (backoffArray (numbers (mapWords words)))) :
    ((packLoop (nibbleArray nibble count) accumulator.toNat 0 [] = (List.range count).map (wordSum nibble) ∧
          ∀ word ∈ packLoop (nibbleArray nibble count) accumulator.toNat 0 [], word < 2 ^ 32) ↔
        WordsKept accumulator.toNat ((List.range count).map (wordSum nibble))) ∧
      ((∃ inkaObj', confFileModifyPsdCali env inkaObj input = .ok inkaObj' ∧
          itemsAt [text "phy", text "am_infile"] (.object inkaObj') = some (numbers (mapWords words))) ↔
        WordsKept env.uninitialized.toNat (mapWords words)) := by
  constructor
  · exact packLoop_sums_iff nibble count accumulator
  · exact psdCali_unchanged_iff words hphy hmap hfile hsame

/-- The map of a configuration, and a calibration file without lines. -/
def mapObject (words : List UInt32) : Members :=
  [(text "phy", .object [(text "am_infile", .array (numbers (mapWords words)))])]

def blankCalibration : ModifyEnv where
  files :=
    { contents := fun name => if name = text "calibration.conf" then some [] else none
      writable := fun _ => true }
  uninitialized := 0

/-- A word without its top bit is saved as it was. -/
theorem repack_kept : ∃ inkaObj',
    confFileModifyPsdCali blankCalibration (mapObject [0x12345678]) (text "calibration.conf") = .ok inkaObj' ∧
      itemsAt [text "phy", text "am_infile"] (.object inkaObj') = some (numbers (mapWords [0x12345678])) :=
  (repack_iff_wordsKept (fun _ => 0) 1 0 [0x12345678] rfl rfl rfl rfl).2.mpr (by decide)

/-- A word with its top bit is not. -/
theorem repack_topBit : ¬ ∃ inkaObj',
    confFileModifyPsdCali blankCalibration (mapObject [0x80000000]) (text "calibration.conf") = .ok inkaObj' ∧
      itemsAt [text "phy", text "am_infile"] (.object inkaObj') = some (numbers (mapWords [0x80000000])) := by
  intro hsaved
  have hkept := (psdCali_unchanged_iff [0x80000000] rfl rfl rfl rfl).mp hsaved
  exact absurd hkept (by decide)

end Hpav
