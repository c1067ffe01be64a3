import Mathlib.Data.List.Induction
import Mathlib.Tactic.Common
import Hpav.Lib.MemTrace
import Hpav.Tonemap

/-!
# Run-length encoded tonemaps

What the decoding loop makes of a stream of nibbles. The stream falls into groups, each a
modulation and at most two run digits, of which the first may stand in front of the
modulation; a group is closed by its second digit or by the next modulation. The decoder
stores the closed groups. The group that is still open behind the last nibble is stored
only where that nibble is a digit in the last half byte, and a modulation in that half
byte is stored by itself.
-/

namespace Hpav

open MemTrace

/-! ## Groups -/

/-- A run as it is encoded, or part of one. -/
structure RunGroup where
  symbol : Option UInt8 := none
  digits : List UInt8 := []
  deriving DecidableEq, Repr

namespace RunGroup

/-- The run a group stands for: the low digit of its length first, in base 7. -/
def length (g : RunGroup) : Nat :=
  match g.digits with
  | [] => 1
  | [y] => y.toNat - 6
  | y :: x :: _ => 7 * (x.toNat - 8) + (y.toNat - 6)

/-- `modulation` while the group is read. -/
def modulation (g : RunGroup) : Int :=
  g.symbol.elim (-1) fun s => s.toNat

/-- `rle` while the group is read. -/
def rle (g : RunGroup) : Int :=
  g.digits.head?.elim (-1) fun y => y.toNat

/-- The modulations a group stands for. -/
def values (g : RunGroup) : List UInt8 :=
  List.replicate g.length (UInt8.ofInt g.modulation)

/-- The group as the decoder emits it; a bare modulation is not emitted as a run. -/
def run (g : RunGroup) : List (Int × Nat) :=
  if g.digits = [] then [] else [(g.modulation, g.length)]

/-- The nibbles of an encoded group. -/
def nibbles (g : RunGroup) : List UInt8 :=
  g.symbol.toList ++ g.digits

def addDigit (g : RunGroup) (t : UInt8) : RunGroup :=
  { g with digits := g.digits ++ [t] }

/-- The digits are digits. -/
def Digits (g : RunGroup) : Prop :=
  ∀ y ∈ g.digits, 9 ≤ y.toNat ∧ y.toNat ≤ 15

/-- What the encoding writes: a modulation and none, one or two digits. -/
structure Encoded (g : RunGroup) : Prop where
  symbol : ∃ s, g.symbol = some s ∧ s.toNat ≤ 8
  digits : g.Digits
  length_digits : g.digits.length ≤ 2

end RunGroup

/-- The groups read so far, and the group that is being read. -/
structure Reading where
  closed : List RunGroup := []
  opened : RunGroup := {}
  deriving DecidableEq, Repr

namespace Reading

/-- One more nibble. -/
def nibble (r : Reading) (t : UInt8) : Reading :=
  if isModulationField t then
    match r.opened.symbol with
    | none => { r with opened := { r.opened with symbol := some t } }
    | some _ => { closed := r.closed ++ [r.opened], opened := { symbol := some t } }
  else
    match r.opened.digits with
    | [] => { r with opened := r.opened.addDigit t }
    | _ => { closed := r.closed ++ [r.opened.addDigit t] }

/-- The groups stored when the last half byte is `t`. -/
def last (r : Reading) (t : UInt8) : List RunGroup :=
  if isModulationField t then
    r.closed ++ [{ symbol := some t }]
  else
    r.closed ++ [r.opened.addDigit t]

/-- The variables of the decoder that has read this. -/
def decoder (r : Reading) : RleDecoder where
  modulation := r.opened.modulation
  rle := r.opened.rle
  modulationList := r.closed.flatMap RunGroup.values
  runs := r.closed.flatMap RunGroup.run

/-- The open group has one digit at most. -/
structure Open (r : Reading) : Prop where
  digits : r.opened.Digits
  length_digits : r.opened.digits.length ≤ 1

end Reading

/-! ## The decoder reads groups -/

/-- What is no modulation is a digit of a length, from 9 to 15. -/
theorem isNibbleField_of_not {t : UInt8} (ht : t.toNat < 16) (h : ¬ isModulationField t = true) :
    isNibbleField t = true ∧ 9 ≤ t.toNat ∧ t.toNat ≤ 15 := by
  rw [isModulationField_iff] at h
  rw [isNibbleField_iff]
  omega

/-- `GET_RLE_LEN(8, y)` is the length of a run with one digit. -/
theorem getRleLen_one {y : UInt8} (hy : 9 ≤ y.toNat) :
    (getRleLen 8 y.toNat).toNat = y.toNat - 6 := by
  unfold getRleLen
  omega

/-- Two digits make a length in base 7, the first one counted from 1. -/
theorem getRleLen_two {x y : UInt8} (hx : 9 ≤ x.toNat) (hy : 9 ≤ y.toNat) :
    (getRleLen x.toNat y.toNat).toNat = 7 * (x.toNat - 8) + (y.toNat - 6) := by
  unfold getRleLen
  omega

/-- A digit more is still a group of digits. -/
theorem RunGroup.digits_addDigit {g : RunGroup} {t : UInt8} (hg : g.Digits)
    (ht : 9 ≤ t.toNat ∧ t.toNat ≤ 15) : (g.addDigit t).Digits := by
  intro y hy
  rcases List.mem_append.mp hy with hy | hy
  · exact hg y hy
  · rw [List.mem_singleton.mp hy]
    exact ht

/-- At the start a group is open. -/
theorem Reading.open_start : Open {} where
  digits := by
    intro y hy
    cases hy
  length_digits := Nat.zero_le 1

/-- A nibble leaves at most one digit open. -/
theorem Reading.open_nibble {r : Reading} {t : UInt8} (h : r.Open) (ht : t.toNat < 16) :
    (r.nibble t).Open := by
  obtain ⟨closed, symbol, digits⟩ := r
  unfold Reading.nibble
  by_cases hmod : isModulationField t = true
  · rw [if_pos hmod]
    cases symbol with
    | none => exact ⟨h.digits, h.length_digits⟩
    | some s => exact ⟨open_start.digits, open_start.length_digits⟩
  · rw [if_neg hmod]
    have hdigit := isNibbleField_of_not ht hmod
    cases digits with
    | nil => exact ⟨RunGroup.digits_addDigit h.digits hdigit.2, le_rfl⟩
    | cons y ys => exact ⟨open_start.digits, open_start.length_digits⟩

/-- A group without a symbol shows as -1. -/
@[simp] theorem RunGroup.modulation_none (digits : List UInt8) :
    (RunGroup.mk none digits).modulation = -1 := rfl

/-- A group shows its symbol. -/
@[simp] theorem RunGroup.modulation_some (s : UInt8) (digits : List UInt8) :
    (RunGroup.mk (some s) digits).modulation = s.toNat := rfl

/-- A group without digits shows as -1. -/
@[simp] theorem RunGroup.rle_nil (symbol : Option UInt8) : (RunGroup.mk symbol []).rle = -1 := rfl

/-- A group shows its first digit. -/
@[simp] theorem RunGroup.rle_cons (symbol : Option UInt8) (y : UInt8) (ys : List UInt8) :
    (RunGroup.mk symbol (y :: ys)).rle = y.toNat := rfl

/-- No symbol shows as -1. -/
theorem toNat_ne_neg_one (t : UInt8) : (t.toNat : Int) ≠ -1 := by
  omega

/-- Storing the run of a group is closing the group. -/
theorem Reading.storeRun_decoder (r : Reading) (g : RunGroup) {rle : Int}
    (hmod : r.opened.modulation = g.modulation) (hdigits : g.digits ≠ [])
    (hlen : rle.toNat = g.length) :
    r.decoder.storeRun rle =
      { r.decoder with
        modulationList := (r.closed ++ [g]).flatMap RunGroup.values
        runs := (r.closed ++ [g]).flatMap RunGroup.run } := by
  unfold RleDecoder.storeRun
  rw [hlen]
  simp only [Reading.decoder, hmod, List.flatMap_append, List.flatMap_singleton, RunGroup.values,
    RunGroup.run, if_neg hdigits]

/-- The second digit of an open group makes its length. -/
theorem Reading.toNat_rle_two {closed : List RunGroup} {symbol : Option UInt8} {x y : UInt8}
    (hx : 9 ≤ x.toNat) (hy : 9 ≤ y.toNat) :
    (getRleLen x.toNat (Reading.mk closed ⟨symbol, [y]⟩).decoder.rle).toNat =
      (RunGroup.mk symbol [y, x]).length :=
  getRleLen_two hx hy

/-- A modulation closes the open group, if that has one. -/
theorem Reading.endRun_decoder {closed : List RunGroup} {s : UInt8} {digits : List UInt8}
    (h : Reading.Open ⟨closed, some s, digits⟩) :
    (Reading.mk closed ⟨some s, digits⟩).decoder.endRun =
      (Reading.mk (closed ++ [⟨some s, digits⟩]) {}).decoder := by
  have hpending : (Reading.mk closed ⟨some s, digits⟩).decoder.modulation ≠ -1 :=
    toNat_ne_neg_one s
  unfold RleDecoder.endRun
  rw [if_pos hpending]
  match digits, h with
  | [], _ =>
    have hrle : (Reading.mk closed ⟨some s, []⟩).decoder.rle = -1 := rfl
    rw [if_pos hrle]
    simp [Reading.decoder, RleDecoder.store, RunGroup.values, RunGroup.run, RunGroup.length]
  | [y], h =>
    have hy := h.digits y (List.mem_singleton_self y)
    have hrle : (Reading.mk closed ⟨some s, [y]⟩).decoder.rle ≠ -1 := toNat_ne_neg_one y
    have hlen : (getRleLen 8 (Reading.mk closed ⟨some s, [y]⟩).decoder.rle).toNat =
        (RunGroup.mk (some s) [y]).length := getRleLen_one hy.1
    rw [if_neg hrle, Reading.storeRun_decoder ⟨closed, ⟨some s, [y]⟩⟩ ⟨some s, [y]⟩ rfl
      (List.cons_ne_nil y []) hlen]
    rfl

/-- The loop of the decoder on one nibble, read as groups. -/
theorem Reading.decoder_nibble {r : Reading} {t : UInt8} (h : r.Open) (ht : t.toNat < 16) :
    r.decoder.nibble t = (r.nibble t).decoder := by
  obtain ⟨closed, symbol, digits⟩ := r
  unfold RleDecoder.nibble Reading.nibble
  by_cases hmod : isModulationField t = true
  · rw [if_pos hmod, if_pos hmod]
    cases symbol with
    | none => rfl
    | some s =>
      rw [Reading.endRun_decoder h]
      rfl
  · rw [if_neg hmod, if_neg hmod]
    obtain ⟨hnib, ht9, _⟩ := isNibbleField_of_not ht hmod
    rw [if_pos hnib]
    match digits, h with
    | [], _ =>
      have hrle : (Reading.mk closed ⟨symbol, []⟩).decoder.rle = -1 := rfl
      rw [if_pos hrle]
      rfl
    | [y], h =>
      have hy := h.digits y (List.mem_singleton_self y)
      have hrle : (Reading.mk closed ⟨symbol, [y]⟩).decoder.rle ≠ -1 := toNat_ne_neg_one y
      rw [if_neg hrle, Reading.storeRun_decoder ⟨closed, ⟨symbol, [y]⟩⟩ ⟨symbol, [y, t]⟩ rfl
        (List.cons_ne_nil y [t]) (Reading.toNat_rle_two ht9 hy.1)]
      rfl

/-- The last half byte, read as groups. -/
theorem Reading.decoder_lastNibble {r : Reading} {t : UInt8} (h : r.Open) (ht : t.toNat < 16) :
    (r.decoder.lastNibble t).modulationList = (r.last t).flatMap RunGroup.values ∧
      (r.decoder.lastNibble t).runs = (r.last t).flatMap RunGroup.run := by
  obtain ⟨closed, symbol, digits⟩ := r
  unfold RleDecoder.lastNibble Reading.last
  by_cases hmod : isModulationField t = true
  · rw [if_pos hmod, if_pos hmod]
    simp [Reading.decoder, RleDecoder.store, RunGroup.values, RunGroup.run, RunGroup.length]
  · rw [if_neg hmod, if_neg hmod]
    obtain ⟨hnib, ht9, _⟩ := isNibbleField_of_not ht hmod
    rw [if_pos hnib]
    match digits, h with
    | [], _ =>
      have hrle : (Reading.mk closed ⟨symbol, []⟩).decoder.rle = -1 := rfl
      rw [if_pos hrle, Reading.storeRun_decoder ⟨closed, ⟨symbol, []⟩⟩ ⟨symbol, [t]⟩ rfl
        (List.cons_ne_nil t []) (getRleLen_one ht9)]
      exact ⟨rfl, rfl⟩
    | [y], h =>
      have hy := h.digits y (List.mem_singleton_self y)
      have hrle : (Reading.mk closed ⟨symbol, [y]⟩).decoder.rle ≠ -1 := toNat_ne_neg_one y
      rw [if_neg hrle, Reading.storeRun_decoder ⟨closed, ⟨symbol, [y]⟩⟩ ⟨symbol, [y, t]⟩ rfl
        (List.cons_ne_nil y [t]) (Reading.toNat_rle_two ht9 hy.1)]
      exact ⟨rfl, rfl⟩

/-! ## A whole stream -/

/-- The groups of a stream of nibbles. -/
def readGroups (ts : List UInt8) : Reading :=
  ts.foldl Reading.nibble {}

/-- The last nibble is read after the others. -/
theorem readGroups_concat (ts : List UInt8) (t : UInt8) :
    readGroups (ts ++ [t]) = (readGroups ts).nibble t := by
  simp [readGroups]

/-- After any nibbles a group is open. -/
theorem open_readGroups {ts : List UInt8} (h : ∀ t ∈ ts, t.toNat < 16) : (readGroups ts).Open := by
  induction ts using List.reverseRecOn with
  | nil => exact Reading.open_start
  | append_singleton ts t ih =>
    rw [List.forall_mem_append] at h
    rw [readGroups_concat]
    exact Reading.open_nibble (ih h.1) (h.2 t (List.mem_singleton_self t))

/-- The state of the decoder is that of the groups read: on the nibbles. -/
theorem decoder_readGroups {ts : List UInt8} (h : ∀ t ∈ ts, t.toNat < 16) :
    ts.foldl RleDecoder.nibble {} = (readGroups ts).decoder := by
  induction ts using List.reverseRecOn with
  | nil => rfl
  | append_singleton ts t ih =>
    rw [List.forall_mem_append] at h
    rw [List.foldl_append, ih h.1, readGroups_concat]
    exact Reading.decoder_nibble (open_readGroups h.1) (h.2 t (List.mem_singleton_self t))

/-- The groups that are stored of a bitfield. -/
def storedGroups (bitfield : Nat → UInt8) (numBits : Nat) : List RunGroup :=
  let r := readGroups (tonemapNibbles bitfield (2 * (numBits / 8)))
  if numBits % 8 = 0 then r.closed else r.last (nibbleAt bitfield (2 * (numBits / 8)))

/-- The loop over the bytes is a loop over their nibbles. -/
theorem foldl_bytes (bitfield : Nat → UInt8) (k : Nat) (s : RleDecoder) :
    (List.range k).foldl (fun s i =>
      (s.nibble (getLowNibble (bitfield i))).nibble (getHighNibble (bitfield i))) s =
    (tonemapNibbles bitfield (2 * k)).foldl RleDecoder.nibble s := by
  induction k with
  | zero => rfl
  | succ k ih =>
    rw [List.range_succ, List.foldl_append, ih, tonemapNibbles_byte, List.foldl_append]
    rfl

/-- The decoder reads whole bytes, and a last nibble on its own if the bits leave one. -/
theorem val_rleDecode (bitfield : Nat → UInt8) (numBits : Nat) :
    (rleDecode bitfield numBits).val =
      if numBits % 8 = 0 then (readGroups (tonemapNibbles bitfield (2 * (numBits / 8)))).decoder
      else (readGroups (tonemapNibbles bitfield (2 * (numBits / 8)))).decoder.lastNibble
        (nibbleAt bitfield (2 * (numBits / 8))) := by
  unfold rleDecode
  rw [val_bind, val_foldlM, ← decoder_readGroups tonemapNibbles_lt, ← foldl_bytes, nibbleAt_low]
  by_cases hhalf : numBits % 8 = 0
  · rw [if_pos hhalf, if_neg (not_not_intro hhalf)]
    rfl
  · rw [if_neg hhalf, if_pos hhalf]
    rfl

/-- The decoder stores the closed groups, and emits their runs. -/
theorem rleDecode_storedGroups (bitfield : Nat → UInt8) (numBits : Nat) :
    (rleDecode bitfield numBits).val.modulationList =
        (storedGroups bitfield numBits).flatMap RunGroup.values ∧
      (rleDecode bitfield numBits).val.runs =
        (storedGroups bitfield numBits).flatMap RunGroup.run := by
  rw [val_rleDecode]
  unfold storedGroups
  by_cases hhalf : numBits % 8 = 0
  · rw [if_pos hhalf]
    simp only [if_pos hhalf]
    exact ⟨rfl, rfl⟩
  · rw [if_neg hhalf]
    simp only [if_neg hhalf]
    exact Reading.decoder_lastNibble (open_readGroups tonemapNibbles_lt) (nibbleAt_lt bitfield _)

/-! ## Decoding what was encoded -/

/-- The groups encode the list. -/
def RunsEncode (groups : List RunGroup) (modulations : List UInt8) : Prop :=
  (∀ g ∈ groups, g.Encoded) ∧ groups.flatMap RunGroup.values = modulations

/-- The last group, if there is one, has both its digits. -/
def EndsClosed (groups : List RunGroup) : Prop :=
  ∀ g ∈ groups.getLast?, g.digits.length = 2

/-- Where the groups end such that the last one is stored: behind a second digit, or with a
digit in the last half byte; a modulation there is stored if the group before it is
closed. -/
def EndsStored (groups : List RunGroup) : Prop :=
  if (groups.flatMap RunGroup.nibbles).length % 2 = 0 then
    EndsClosed groups
  else
    (∃ g ∈ groups.getLast?, g.digits ≠ []) ∨ EndsClosed groups.dropLast

/-- The reading of whole groups: all of them are closed, or all but the last one. -/
def settled (groups : List RunGroup) : Reading :=
  match groups.getLast? with
  | none => {}
  | some g => if g.digits.length = 2 then ⟨groups, {}⟩ else ⟨groups.dropLast, g⟩

/-- A group that lacks a digit stays open. -/
theorem settled_concat_open (groups : List RunGroup) {g : RunGroup} (h : g.digits.length ≠ 2) :
    settled (groups ++ [g]) = ⟨groups, g⟩ := by
  simp [settled, h]

/-- A group with both digits is closed. -/
theorem settled_concat_closed (groups : List RunGroup) {g : RunGroup} (h : g.digits.length = 2) :
    settled (groups ++ [g]) = ⟨groups ++ [g], {}⟩ := by
  simp [settled, h]

/-- A modulation behind whole groups opens the next one. -/
theorem settled_nibble {groups : List RunGroup} (h : ∀ g ∈ groups, g.Encoded) {s : UInt8}
    (hs : s.toNat ≤ 8) : (settled groups).nibble s = ⟨groups, ⟨some s, []⟩⟩ := by
  have hmod : isModulationField s = true := (isModulationField_iff s).mpr hs
  unfold Reading.nibble
  rw [if_pos hmod]
  rcases List.eq_nil_or_concat groups with rfl | ⟨groups, g, rfl⟩
  · rfl
  · rw [List.concat_eq_append] at h ⊢
    by_cases hclosed : g.digits.length = 2
    · rw [settled_concat_closed groups hclosed]
    · rw [settled_concat_open groups hclosed]
      obtain ⟨s', hs', _⟩ := (h g (List.mem_append_right _ (List.mem_singleton_self g))).symbol
      simp only [hs']

/-- A digit is the first of the open group, or the second that closes it. -/
theorem nibble_digit {r : Reading} {t : UInt8} (ht : 9 ≤ t.toNat) :
    r.nibble t = match r.opened.digits with
      | [] => { r with opened := r.opened.addDigit t }
      | _ => { closed := r.closed ++ [r.opened.addDigit t] } := by
  have hmod : ¬ isModulationField t = true := by
    rw [isModulationField_iff]
    omega
  unfold Reading.nibble
  rw [if_neg hmod]

/-- An encoded group is a modulation and up to two digits. -/
theorem RunGroup.Encoded.cases {g : RunGroup} (h : g.Encoded) :
    ∃ s : UInt8, s.toNat ≤ 8 ∧ (g = ⟨some s, []⟩ ∨ (∃ y, 9 ≤ y.toNat ∧ g = ⟨some s, [y]⟩) ∨
      ∃ y x, 9 ≤ y.toNat ∧ 9 ≤ x.toNat ∧ g = ⟨some s, [y, x]⟩) := by
  obtain ⟨symbol, digits⟩ := g
  obtain ⟨⟨s, hsymbol, hs⟩, hdigits, hlen⟩ := h
  obtain rfl : symbol = some s := hsymbol
  refine ⟨s, hs, ?_⟩
  match digits, hdigits, hlen with
  | [], _, _ => exact Or.inl rfl
  | [y], hdigits, _ =>
    have hy := hdigits y (List.mem_singleton_self y)
    exact Or.inr (Or.inl ⟨y, hy.1, rfl⟩)
  | [y, x], hdigits, _ =>
    have hy := hdigits y List.mem_cons_self
    have hx := hdigits x (List.mem_cons_of_mem y (List.mem_singleton_self x))
    exact Or.inr (Or.inr ⟨y, x, hy.1, hx.1, rfl⟩)

/-- Reading the nibbles of whole groups gives back the groups. -/
theorem readGroups_nibbles {groups : List RunGroup} (h : ∀ g ∈ groups, g.Encoded) :
    readGroups (groups.flatMap RunGroup.nibbles) = settled groups := by
  induction groups using List.reverseRecOn with
  | nil => rfl
  | append_singleton groups g ih =>
    rw [List.forall_mem_append] at h
    rw [List.flatMap_append, List.flatMap_singleton]
    have hgroups := ih h.1
    obtain ⟨s, hs, rfl | ⟨y, hy, rfl⟩ | ⟨y, x, hy, hx, rfl⟩⟩ :=
      (h.2 g (List.mem_singleton_self g)).cases
    · change readGroups (_ ++ [s]) = _
      rw [readGroups_concat, hgroups, settled_nibble h.1 hs, settled_concat_open _ (by simp)]
    · change readGroups (_ ++ ([s] ++ [y])) = _
      rw [← List.append_assoc, readGroups_concat, readGroups_concat, hgroups,
        settled_nibble h.1 hs, nibble_digit hy, settled_concat_open _ (by simp)]
      rfl
    · change readGroups (_ ++ ([s] ++ [y] ++ [x])) = _
      rw [← List.append_assoc, ← List.append_assoc, readGroups_concat, readGroups_concat,
        readGroups_concat, hgroups, settled_nibble h.1 hs, nibble_digit hx, nibble_digit hy,
        settled_concat_closed _ rfl]
      rfl

/-- A symbol at the end is a group of its own. -/
theorem last_modulation {r : Reading} {t : UInt8} (ht : t.toNat ≤ 8) :
    r.last t = r.closed ++ [{ symbol := some t }] := by
  unfold Reading.last
  rw [if_pos ((isModulationField_iff t).mpr ht)]

/-- A digit at the end belongs to the open group. -/
theorem last_digit {r : Reading} {t : UInt8} (ht : 9 ≤ t.toNat) :
    r.last t = r.closed ++ [r.opened.addDigit t] := by
  have hmod : ¬ isModulationField t = true := by
    rw [isModulationField_iff]
    omega
  unfold Reading.last
  rw [if_neg hmod]

/-- A digit in the last half byte ends its group; a modulation there loses the open group. -/
theorem last_readGroups {groups : List RunGroup} {g : RunGroup} (h : ∀ g ∈ groups, g.Encoded)
    (hg : g.Encoded) : ∃ ts t, (groups ++ [g]).flatMap RunGroup.nibbles = ts ++ [t] ∧
      (readGroups ts).last t = (if g.digits = [] then (settled groups).closed else groups) ++ [g] := by
  have hgroups := readGroups_nibbles h
  obtain ⟨s, hs, rfl | ⟨y, hy, rfl⟩ | ⟨y, x, hy, hx, rfl⟩⟩ := hg.cases
  · refine ⟨groups.flatMap RunGroup.nibbles, s, ?_, ?_⟩
    · rw [List.flatMap_append, List.flatMap_singleton]
      rfl
    · rw [hgroups, last_modulation hs, if_pos rfl]
  · refine ⟨groups.flatMap RunGroup.nibbles ++ [s], y, ?_, ?_⟩
    · rw [List.flatMap_append, List.flatMap_singleton, List.append_assoc]
      rfl
    · rw [readGroups_concat, hgroups, settled_nibble h hs, last_digit hy,
        if_neg (List.cons_ne_nil y [])]
      rfl
  · refine ⟨groups.flatMap RunGroup.nibbles ++ [s] ++ [y], x, ?_, ?_⟩
    · rw [List.flatMap_append, List.flatMap_singleton, List.append_assoc, List.append_assoc]
      rfl
    · rw [readGroups_concat, readGroups_concat, hgroups, settled_nibble h hs, nibble_digit hy,
        last_digit hx, if_neg (List.cons_ne_nil y [x])]
      rfl

/-- An encoded group has at least one carrier. -/
theorem RunGroup.Encoded.length_pos {g : RunGroup} (h : g.Encoded) : 0 < g.length := by
  obtain ⟨s, _, rfl | ⟨y, hy, rfl⟩ | ⟨y, x, hy, hx, rfl⟩⟩ := h.cases
  · exact Nat.one_pos
  · change 0 < y.toNat - 6
    omega
  · change 0 < 7 * (x.toNat - 8) + (y.toNat - 6)
    omega

/-- The closed groups are all of them exactly if the last one is closed. -/
theorem settled_closed_iff {groups : List RunGroup} (h : ∀ g ∈ groups, g.Encoded) :
    (settled groups).closed.flatMap RunGroup.values = groups.flatMap RunGroup.values ↔
      EndsClosed groups := by
  rcases List.eq_nil_or_concat groups with rfl | ⟨groups, g, rfl⟩
  · refine iff_of_true rfl ?_
    intro g hg
    cases hg
  · rw [List.concat_eq_append] at h ⊢
    have hg := h g (List.mem_append_right _ (List.mem_singleton_self g))
    have hlast : EndsClosed (groups ++ [g]) ↔ g.digits.length = 2 := by
      simp [EndsClosed]
    rw [hlast]
    by_cases hclosed : g.digits.length = 2
    · rw [settled_concat_closed groups hclosed]
      exact iff_of_true rfl hclosed
    · rw [settled_concat_open groups hclosed]
      refine iff_of_false ?_ hclosed
      intro heq
      have hpos := hg.length_pos
      have hlen := congrArg List.length heq
      rw [List.flatMap_append, List.flatMap_singleton, List.length_append] at hlen
      simp only [RunGroup.values, List.length_replicate] at hlen
      omega

/-- Decoding an encoded list gives back the list exactly if the last group is stored: there
is nothing behind the loop that stores the group that is still open. -/
theorem rleDecode_encoded_iff {groups : List RunGroup} {modulations : List UInt8}
    {bitfield : Nat → UInt8} (hencodes : RunsEncode groups modulations)
    (hpacked : tonemapNibbles bitfield (groups.flatMap RunGroup.nibbles).length =
      groups.flatMap RunGroup.nibbles) :
    (rleDecode bitfield (4 * (groups.flatMap RunGroup.nibbles).length)).val.modulationList =
      modulations ↔ EndsStored groups := by
  obtain ⟨hgroups, rfl⟩ := hencodes
  rw [(rleDecode_storedGroups bitfield _).1]
  unfold storedGroups EndsStored
  generalize hn : (groups.flatMap RunGroup.nibbles).length = n at hpacked ⊢
  -- whole bytes: the last group is stored if it is closed
  by_cases heven : n % 2 = 0
  · rw [if_pos heven]
    have hfull : 4 * n % 8 = 0 := by omega
    have hbytes : 2 * (4 * n / 8) = n := by omega
    simp only [if_pos hfull]
    rw [hbytes, hpacked, readGroups_nibbles hgroups]
    exact settled_closed_iff hgroups
  · rw [if_neg heven]
    have hhalf : ¬ 4 * n % 8 = 0 := by omega
    have hbytes : 2 * (4 * n / 8) + 1 = n := by omega
    simp only [if_neg hhalf]
    rcases List.eq_nil_or_concat groups with rfl | ⟨init, g, rfl⟩
    · simp only [List.flatMap_nil, List.length_nil] at hn
      omega
    · rw [List.concat_eq_append, List.forall_mem_append] at hgroups
      have hg := hgroups.2 g (List.mem_singleton_self g)
      -- a half byte: it belongs to the last group, and is read as one of its own
      obtain ⟨ts, t, hts, hlast⟩ := last_readGroups hgroups.1 hg
      rw [List.concat_eq_append] at hpacked ⊢
      rw [← hbytes, tonemapNibbles_succ, hts] at hpacked
      obtain ⟨hinit, ht⟩ := List.append_inj' hpacked rfl
      obtain rfl := List.singleton_inj.mp ht
      rw [hinit, hlast, List.flatMap_append, List.flatMap_append, List.append_left_inj,
        List.dropLast_concat, List.getLast?_concat]
      simp only [Option.mem_some_iff, exists_eq_left']
      by_cases hdigits : g.digits = []
      · rw [if_pos hdigits, settled_closed_iff hgroups.1]
        exact ⟨Or.inr, fun h => h.resolve_left (not_not_intro hdigits)⟩
      · rw [if_neg hdigits]
        exact iff_of_true rfl (Or.inl hdigits)

/-- A run of sixteen: `2`, and the digits of 16, which is 9 + 7. -/
def sixteenTwos : RunGroup := ⟨some 2, [15, 9]⟩

/-- Sixteen carriers with the same modulation are one group. -/
theorem sixteenTwos_encoded : sixteenTwos.Encoded where
  symbol := ⟨2, rfl, by decide⟩
  digits := by
    intro y hy
    simp only [sixteenTwos, List.mem_cons, List.not_mem_nil, or_false] at hy
    rcases hy with rfl | rfl <;> decide
  length_digits := le_rfl

/-- The two bytes `F2 09`, three nibbles of which are used. -/
theorem rleDecode_encoded_iff_sixteenTwos :
    (rleDecode (fun i => if i = 0 then 0xF2 else 0x09) 12).val.modulationList =
      List.replicate 16 2 ↔ EndsStored [sixteenTwos] := by
  have hencodes : RunsEncode [sixteenTwos] (List.replicate 16 2) := by
    refine ⟨?_, by decide⟩
    intro g hg
    rw [List.mem_singleton.mp hg]
    exact sixteenTwos_encoded
  have hpacked : tonemapNibbles (fun i => if i = 0 then 0xF2 else 0x09)
      ([sixteenTwos].flatMap RunGroup.nibbles).length = [sixteenTwos].flatMap RunGroup.nibbles := by decide
  have hiff := rleDecode_encoded_iff hencodes hpacked
  exact hiff

/-- Two modulations without a run, in the byte `21`: the second one is still open. -/
theorem rleDecode_loses_last : ¬ ∀ (groups : List RunGroup) (modulations : List UInt8)
    (bitfield : Nat → UInt8), RunsEncode groups modulations → modulations.length ≤ 4096 →
    tonemapNibbles bitfield (groups.flatMap RunGroup.nibbles).length = groups.flatMap RunGroup.nibbles →
    (rleDecode bitfield (4 * (groups.flatMap RunGroup.nibbles).length)).val.modulationList =
      modulations := by
  intro h
  have hbare : ∀ s : UInt8, s.toNat ≤ 8 → (RunGroup.mk (some s) []).Encoded := by
    intro s hs
    constructor
    · exact ⟨s, rfl, hs⟩
    · intro y hy
      cases hy
    · exact Nat.zero_le 2
  have hencodes : RunsEncode [⟨some 1, []⟩, ⟨some 2, []⟩] [1, 2] := by
    refine ⟨?_, by decide⟩
    rw [List.forall_mem_cons, List.forall_mem_singleton]
    exact ⟨hbare 1 (by decide), hbare 2 (by decide)⟩
  have hdecoded := h _ _ (fun _ => 0x21) hencodes (by decide) (by decide)
  exact absurd hdecoded (by decide)

end Hpav
