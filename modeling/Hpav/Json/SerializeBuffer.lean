import Hpav.Lib.PrintBuffer
import Hpav.Json.Serialize

/-!
# The size of a serialization

`json_serialize_to_buffer_r` runs twice (`parson.c`): without a buffer for the size that
`json_serialize_to_string` allocates, and then with the buffer. Both runs print the same
text. The second one ends with a `sprintf`, and the NUL of that is not in the size.
-/

namespace Hpav

open PrintBuffer CMem Binary64 CNumeral Decimal

/-! ## The two passes -/

/-- `append_string` -/
def appendString (mem : List UInt8) (buf : Option Nat) (string : List UInt8) :
    Except PrintFault (Nat × List UInt8) :=
  match buf with
  | none => .ok (string.length, mem)
  | some off => sprintf mem off string

/-- `APPEND_STRING` -/
def appended (string : List UInt8) (o : Output) : Except PrintFault Output :=
  o.call fun mem buf => appendString mem buf string

/-- One character of `json_serialize_string`. -/
def appendedChar (c : UInt8) (o : Output) : Except PrintFault Output :=
  if c = 34 then appended [92, 34] o           -- '"'
  else if c = 92 then appended [92, 92] o      -- '\\'
  else if c = 47 then appended [92, 47] o      -- '/'
  else if c = 8 then appended [92, 98] o       -- '\b'
  else if c = 12 then appended [92, 102] o     -- '\f'
  else if c = 10 then appended [92, 110] o     -- '\n'
  else if c = 13 then appended [92, 114] o     -- '\r'
  else if c = 9 then appended [92, 116] o      -- '\t'
  else do
    let mem ← o.store [c]
    o.advance mem 1

/-- The loop of `json_serialize_string`. -/
def stringLoop : List UInt8 → Output → Except PrintFault Output
  | [], o => .ok o
  | c :: cs, o => do
    let o ← appendedChar c o
    stringLoop cs o

/-- `json_serialize_string` -/
def jsonSerializeStringTo (string mem : List UInt8) (buf : Option Nat) : Except PrintFault (Nat × List UInt8) := do
  let o ← appended [34] ⟨mem, buf, 0⟩
  let o ← stringLoop string o
  let o ← appended [34] o
  .ok (o.total, o.mem)

/-- A number is printed to the buffer, or else to `num_buf` of `json_serialization_size`. -/
def printNumber (x : Double) (mem : List UInt8) (buf : Option Nat) : Except PrintFault (Nat × List UInt8) :=
  match buf with
  | some off => sprintf mem off (numberText x)
  | none => do
    let (written, _) ← sprintf (List.replicate 1100 0) 0 (numberText x)
    .ok (written, mem)

mutual

/-- `json_serialize_to_buffer_r` with `is_pretty` 0: the value returned, and the memory. No
`sprintf` of it fails, and no value is of type `JSONError`. -/
def jsonSerializeToBufferR : Json → List UInt8 → Option Nat → Except PrintFault (Nat × List UInt8)
  | .array items, mem, buf => do
    let o ← appended [91] ⟨mem, buf, 0⟩
    let o ← arrayLoop items o
    let o ← appended [93] o
    .ok (o.total, o.mem)
  | .object members, mem, buf => do
    let o ← appended [123] ⟨mem, buf, 0⟩
    let o ← objectLoop members o
    let o ← appended [125] o
    .ok (o.total, o.mem)
  | .string s, mem, buf => do
    let o ← Output.call ⟨mem, buf, 0⟩ (jsonSerializeStringTo s)
    .ok (o.total, o.mem)
  | .boolean b, mem, buf => do
    let o ← appended (if b then [116, 114, 117, 101] else [102, 97, 108, 115, 101]) ⟨mem, buf, 0⟩
    .ok (o.total, o.mem)
  | .number x, mem, buf => do
    let o ← Output.call ⟨mem, buf, 0⟩ (printNumber x)
    .ok (o.total, o.mem)
  | .null, mem, buf => do
    let o ← appended [110, 117, 108, 108] ⟨mem, buf, 0⟩
    .ok (o.total, o.mem)

/-- The loop over an array. -/
def arrayLoop : List Json → Output → Except PrintFault Output
  | [], o => .ok o
  | value :: rest, o => do
    let o ← o.call (jsonSerializeToBufferR value)
    let o ← if rest.isEmpty then .ok o else appended [44] o
    arrayLoop rest o

/-- The loop over an object. -/
def objectLoop : List (List UInt8 × Json) → Output → Except PrintFault Output
  | [], o => .ok o
  | member :: rest, o => do
    let o ← appendedMember member o
    let o ← if rest.isEmpty then .ok o else appended [44] o
    objectLoop rest o

def appendedMember : List UInt8 × Json → Output → Except PrintFault Output
  | (key, value), o => do
    let o ← o.call (jsonSerializeStringTo key)
    let o ← appended [58] o
    o.call (jsonSerializeToBufferR value)

end

/-- `json_serialization_size` -/
def jsonSerializationSize (value : Json) : Except PrintFault Nat := do
  let (res, _) ← jsonSerializeToBufferR value [] none
  .ok res

/-- `json_serialize_to_buffer`; `none` is `JSONFailure`. -/
def jsonSerializeToBuffer (value : Json) (buf : List UInt8) (bufSizeInBytes : Nat) :
    Except PrintFault (Option (List UInt8)) := do
  let neededSizeInBytes ← jsonSerializationSize value
  if neededSizeInBytes = 0 ∨ bufSizeInBytes < neededSizeInBytes then
    .ok none
  else do
    let (_, buf) ← jsonSerializeToBufferR value buf (some 0)
    .ok (some buf)

/-- `json_serialize_to_string`, where there is memory: `fresh` is in a block that was
allocated. `none` is NULL. -/
def jsonSerializeToString (fresh : Nat → UInt8) (value : Json) : Except PrintFault (Option (List UInt8)) := do
  let bufSizeBytes ← jsonSerializationSize value
  if bufSizeBytes = 0 then
    .ok none
  else
    jsonSerializeToBuffer value ((List.range bufSizeBytes).map fresh) bufSizeBytes

/-! ## What a pass prints -/

theorem appended_eq (string : List UInt8) (o : Output) : appended string o = o.print string [0] := by
  rcases o with ⟨mem, buf, total⟩
  cases buf with
  | none => rfl
  | some off =>
    unfold appended appendString sprintf Output.call Output.print Output.store
    simp only [bind_assoc]
    rfl

theorem emits_appended (string : List UInt8) : Emits (appended string) string [0] := by
  have heq : appended string = fun o => o.print string [0] := funext (appended_eq string)
  rw [heq]
  exact emits_print string [0]

/-- A character with an escape is printed as a string, any other is stored. -/
theorem emits_appendedChar (c : UInt8) : ∃ term, term.length ≤ 1 ∧ Emits (appendedChar c) (escape c) term := by
  by_cases hescaped : c ∈ [34, 92, 47, 8, 12, 10, 13, 9]
  · refine ⟨[0], le_rfl, ?_⟩
    simp only [List.mem_cons, List.not_mem_nil, or_false] at hescaped
    rcases hescaped with rfl | rfl | rfl | rfl | rfl | rfl | rfl | rfl
    all_goals exact emits_appended _
  · refine ⟨[], Nat.zero_le 1, ?_⟩
    simp only [List.mem_cons, List.not_mem_nil, or_false, not_or] at hescaped
    rcases hescaped with ⟨h34, h92, h47, h8, h12, h10, h13, h9⟩
    have hescape : escape c = [c] := by
      unfold escape
      rw [if_neg h34, if_neg h92, if_neg h47, if_neg h8, if_neg h12, if_neg h10, if_neg h13, if_neg h9]
    have hchar : appendedChar c = fun o => o.print [c] [] := by
      funext o
      unfold appendedChar
      rw [if_neg h34, if_neg h92, if_neg h47, if_neg h8, if_neg h12, if_neg h10, if_neg h13, if_neg h9]
      rfl
    rw [hescape, hchar]
    exact emits_print [c] []

/-- The characters and the quote behind them, which ends with a NUL in any case. -/
theorem emits_stringLoop (s : List UInt8) :
    Emits (fun o => stringLoop s o >>= appended [34]) (s.flatMap escape ++ [34]) [0] := by
  induction s with
  | nil => exact emits_appended [34]
  | cons c s ih =>
    rcases emits_appendedChar c with ⟨term, hterm, hchar⟩
    have hseq := hchar.seq ih (by rw [List.length_append, List.length_append]; exact le_add_left hterm)
    have heq : (fun o => stringLoop (c :: s) o >>= appended [34]) =
        fun o => appendedChar c o >>= fun o => stringLoop s o >>= appended [34] := by
      funext o
      have hcons : stringLoop (c :: s) o = appendedChar c o >>= stringLoop s := rfl
      rw [hcons, bind_assoc]
    rw [heq, List.flatMap_cons, List.append_assoc]
    exact hseq

theorem returns_jsonSerializeStringTo (s : List UInt8) : Returns (jsonSerializeStringTo s) (jsonSerializeString s) [0] := by
  exact (emits_appended [34]).returns_three (emits_stringLoop s) (by simp)

theorem length_formatInt_le {i : Int} {k : Nat} (hk : 0 < k) (h : i.natAbs < 10 ^ k) : (formatInt i).length ≤ k + 1 := by
  have hdigits := length_numeral_le hk h
  unfold formatInt
  split
  · exact Nat.succ_le_succ hdigits
  · exact Nat.le_succ_of_le hdigits

/-- A double has at most as many digits in front of its point as it has binary ones. -/
theorem length_formatFixed_le (x : Binary64.Double) : (formatFixed x).length ≤ 1032 := by
  cases x with
  | finite units h =>
    have hunits : units.natAbs * 10 ^ 6 ≤ one * (2 ^ 1024 * 10 ^ 6) := by
      have hle : units.natAbs ≤ 2 ^ 1024 * one := le_of_lt (lt_of_representable h)
      have hprod := Nat.mul_le_mul_right (10 ^ 6) hle
      rwa [Nat.mul_right_comm, Nat.mul_comm _ one] at hprod
    have hrounded : millionths units ≤ 2 ^ 1024 * 10 ^ 6 + 1 :=
      (roundHalfEven_le _ _).trans (Nat.add_le_add_right (Nat.div_le_of_le_mul hunits) 1)
    have hpow : 2 ^ 1024 < 10 ^ 1024 := Nat.pow_lt_pow_left (by decide) (by decide)
    have hmillionths : millionths units / 10 ^ 6 < 10 ^ 1024 := by
      generalize 2 ^ 1024 = m at hrounded hpow
      omega
    have hdigits := length_numeral_le (by decide) hmillionths
    rw [formatFixed_finite, List.length_append, List.length_append, List.length_cons, length_padded]
    split
    · rw [List.length_singleton]
      omega
    · rw [List.length_nil]
      omega
  | infinite negative => cases negative <;> decide
  | nan negative => cases negative <;> decide

/-- A number has room in `num_buf`. -/
theorem length_numberText (x : Binary64.Double) : (numberText x).length + 1 ≤ 1100 := by
  unfold numberText
  split
  · have hint : (x.toSigned 64).natAbs < 10 ^ 20 := by
      unfold Double.toSigned
      split
      · split <;> omega
      · decide
    have hlength := length_formatInt_le (by decide) hint
    omega
  · have hlength := length_formatFixed_le x
    omega

theorem returns_printNumber (x : Binary64.Double) : Returns (printNumber x) (numberText x) [0] := by
  have hlength := length_numberText x
  have hcounted : 0 + (numberText x).length < intLimit := by
    unfold intLimit
    omega
  intro mem buf written mem'
  cases buf with
  | some off =>
    refine sprintf_eq_ok.trans ?_
    constructor
    · rintro ⟨hroom, hwritten, hmem⟩
      refine ⟨⟨?_, hcounted⟩, hwritten, hmem⟩
      intro off' hoff
      injection hoff with hoff
      subst hoff
      exact hroom
    · rintro ⟨hfits, hwritten, hmem⟩
      exact ⟨hfits.1 off rfl, hwritten, hmem⟩
  | none =>
    have hprinted : sprintf (List.replicate 1100 0) 0 (numberText x) =
        .ok ((numberText x).length, replaced (List.replicate 1100 0) 0 (numberText x ++ [0])) := by
      refine sprintf_eq_ok.mpr ⟨?_, rfl, rfl⟩
      rw [List.length_append, List.length_singleton, List.length_replicate]
      omega
    have hnumber : printNumber x mem none = .ok ((numberText x).length, mem) := by
      unfold printNumber
      rw [hprinted]
      rfl
    rw [hnumber]
    constructor
    · intro h
      injection h with h
      injection h with hwritten hmem
      exact ⟨⟨fun _ hoff => absurd hoff (Option.not_mem_none _), hcounted⟩, hwritten.symm, hmem.symm⟩
    · rintro ⟨-, rfl, rfl⟩
      rfl

/-- The loop of both, over what is printed for one entry. -/
def commaLoop {α : Type} (piece : α → Output → Except PrintFault Output) : List α → Output → Except PrintFault Output
  | [], o => .ok o
  | x :: rest, o => do
    let o ← piece x o
    let o ← if rest.isEmpty then .ok o else appended [44] o
    commaLoop piece rest o

theorem arrayLoop_eq (items : List Json) :
    arrayLoop items = commaLoop (fun value o => o.call (jsonSerializeToBufferR value)) items := by
  induction items with
  | nil => rfl
  | cons value rest ih =>
    funext o
    unfold arrayLoop commaLoop
    rw [ih]

theorem objectLoop_eq (members : Members) : objectLoop members = commaLoop appendedMember members := by
  induction members with
  | nil => rfl
  | cons member rest ih =>
    funext o
    unfold objectLoop commaLoop
    rw [ih]

/-- The entries with commas between them, and the bracket behind them. -/
theorem emits_commaLoop {α : Type} {piece : α → Output → Except PrintFault Output} {text : α → List UInt8}
    {items : List α} (hpiece : ∀ x ∈ items, Emits (piece x) (text x) [0]) (bracket : UInt8) :
    Emits (fun o => commaLoop piece items o >>= appended [bracket])
      (commaSeparated (items.map text) ++ [bracket]) [0] := by
  induction items with
  | nil => exact emits_appended [bracket]
  | cons x rest ih =>
    have hx := hpiece x List.mem_cons_self
    have hrest := ih fun y hy => hpiece y (List.mem_cons_of_mem _ hy)
    cases rest with
    | nil =>
      -- the last entry: no comma
      have heq : (fun o => commaLoop piece [x] o >>= appended [bracket]) =
          fun o => piece x o >>= appended [bracket] := by
        funext o
        have hcons : commaLoop piece [x] o = piece x o >>= fun o => .ok o := rfl
        rw [hcons, bind_assoc]
        rfl
      rw [heq]
      exact hx.seq (emits_appended [bracket]) (by simp)
    | cons y rest =>
      have heq : (fun o => commaLoop piece (x :: y :: rest) o >>= appended [bracket]) =
          fun o => piece x o >>= fun o => appended [44] o >>= fun o =>
            commaLoop piece (y :: rest) o >>= appended [bracket] := by
        funext o
        have hcons : commaLoop piece (x :: y :: rest) o =
            piece x o >>= fun o => appended [44] o >>= commaLoop piece (y :: rest) := rfl
        simp only [hcons, bind_assoc]
      have htext : commaSeparated ((x :: y :: rest).map text) ++ [bracket] =
          text x ++ ([44] ++ (commaSeparated ((y :: rest).map text) ++ [bracket])) :=
        List.append_assoc (text x) _ _
      rw [heq, htext]
      exact hx.seq ((emits_appended [44]).seq hrest (by simp)) (by simp)

theorem emits_appendedMember {member : List UInt8 × Json}
    (h : Returns (jsonSerializeToBufferR member.2) (jsonSerialize member.2) [0]) :
    Emits (appendedMember member) (serializeMember member) [0] := by
  rcases member with ⟨key, value⟩
  exact (returns_jsonSerializeStringTo key).emits.seq ((emits_appended [58]).seq h.emits (by simp)) (by simp)

/-- Both passes print the text of the value, and a NUL behind it. -/
theorem returns_jsonSerializeToBufferR (value : Json) :
    Returns (jsonSerializeToBufferR value) (jsonSerialize value) [0] := by
  induction value using Json.induct with
  | null => exact (emits_appended _).returns
  | boolean b => exact (emits_appended _).returns
  | number x => exact (returns_printNumber x).emits.returns
  | string s => exact (returns_jsonSerializeStringTo s).emits.returns
  | array items ih =>
    have hitems := emits_commaLoop (fun v hv => (ih v hv).emits) 93
    rw [← serializeItems_eq, ← arrayLoop_eq] at hitems
    exact (emits_appended [91]).returns_three hitems (by simp)
  | object members ih =>
    have hmembers := emits_commaLoop (fun m hm => emits_appendedMember (ih m hm)) 125
    rw [← serializeMembers_eq, ← objectLoop_eq] at hmembers
    exact (emits_appended [123]).returns_three hmembers (by simp)

/-! ## The size and the bytes -/

/-- The size is the length of the text, which an `int` has to hold. -/
theorem jsonSerializationSize_eq_ok {value : Json} {size : Nat} :
    jsonSerializationSize value = .ok size ↔
      (jsonSerialize value).length < intLimit ∧ size = (jsonSerialize value).length := by
  unfold jsonSerializationSize
  rw [bind_eq_ok]
  constructor
  · rintro ⟨⟨res, mem⟩, hpass, hreturn⟩
    rcases (returns_jsonSerializeToBufferR value _ _ _ _).mp hpass with ⟨hfits, rfl, -⟩
    injection hreturn with hsize
    exact ⟨(Nat.zero_add _).symm.trans_lt hfits.2, hsize.symm⟩
  · rintro ⟨hcounted, rfl⟩
    refine ⟨(_, []), (returns_jsonSerializeToBufferR value _ _ _ _).mpr ⟨⟨?_, ?_⟩, rfl, rfl⟩, rfl⟩
    · intro off hoff
      cases hoff
    · exact (Nat.zero_add _).trans_lt hcounted

/-- The pass into a buffer returns the same length, and needs room for one byte more. -/
theorem writingPass_eq_ok {value : Json} {buf buf' : List UInt8} {written : Nat} :
    jsonSerializeToBufferR value buf (some 0) = .ok (written, buf') ↔
      ((jsonSerialize value).length < intLimit ∧ (jsonSerialize value).length + 1 ≤ buf.length) ∧
        written = (jsonSerialize value).length ∧
        buf' = jsonSerialize value ++ 0 :: buf.drop ((jsonSerialize value).length + 1) := by
  have hstored : ((Output.mk buf (some 0) 0).printed (jsonSerialize value) [0]).mem =
      jsonSerialize value ++ 0 :: buf.drop ((jsonSerialize value).length + 1) := by
    show replaced buf 0 (jsonSerialize value ++ [0]) = _
    unfold replaced
    rw [List.take_zero, List.nil_append, Nat.zero_add, List.length_append, List.length_singleton, List.append_assoc]
    rfl
  rw [returns_jsonSerializeToBufferR value, hstored]
  refine and_congr_left fun _ => ?_
  unfold Output.Fits Output.Room
  simp only [Option.some.injEq, forall_eq', Nat.zero_add, List.length_append, List.length_singleton]
  exact and_comm

/-- With one byte more than `json_serialization_size` says, the buffer takes the text and its NUL. -/
theorem writingPass_oneMore {value : Json} {size : Nat} {buf : List UInt8}
    (hsize : jsonSerializationSize value = .ok size) (hbuf : buf.length = size + 1) :
    jsonSerializeToBufferR value buf (some 0) = .ok (size, jsonSerialize value ++ [0]) := by
  rcases jsonSerializationSize_eq_ok.mp hsize with ⟨hcounted, rfl⟩
  refine writingPass_eq_ok.mpr ⟨⟨hcounted, hbuf.ge⟩, rfl, ?_⟩
  rw [List.drop_eq_nil_of_le hbuf.le]

/-- Both passes go through and return the same number, and what the second one stores is
within the block of the size the first one returned. -/
def StoresWithin (value : Json) : Prop :=
  ∃ size, jsonSerializationSize value = .ok size ∧
    ∀ buf, buf.length = size → ∃ buf', jsonSerializeToBufferR value buf (some 0) = .ok (size, buf')

/-- A block the second pass goes through is longer than the first pass says. -/
theorem size_lt_of_writingPass {value : Json} {size written : Nat} {buf buf' : List UInt8}
    (hsize : jsonSerializationSize value = .ok size)
    (hwriting : jsonSerializeToBufferR value buf (some 0) = .ok (written, buf')) : written = size ∧ size < buf.length := by
  rcases jsonSerializationSize_eq_ok.mp hsize with ⟨-, rfl⟩
  rcases writingPass_eq_ok.mp hwriting with ⟨⟨-, hroom⟩, rfl, -⟩
  exact ⟨rfl, hroom⟩

/-- So `json_serialize_to_string` never returns a text. -/
theorem jsonSerializeToString_ne_some (fresh : Nat → UInt8) (value : Json) (text : List UInt8) :
    jsonSerializeToString fresh value ≠ .ok (some text) := by
  intro h
  unfold jsonSerializeToString at h
  rcases bind_eq_ok.mp h with ⟨size, hsize, h⟩
  split at h
  · cases h
  · unfold jsonSerializeToBuffer at h
    rcases bind_eq_ok.mp h with ⟨needed, -, h⟩
    split at h
    · cases h
    · rcases bind_eq_ok.mp h with ⟨⟨written, buf⟩, hwriting, -⟩
      have hlt := (size_lt_of_writingPass hsize hwriting).2
      rw [List.length_map, List.length_range] at hlt
      exact absurd hlt (Nat.lt_irrefl size)

/-- Whatever is serialized, the NUL behind the text is stored behind the block. -/
theorem not_storesWithin (value : Json) : ¬ StoresWithin value := by
  rintro ⟨size, hsize, hwithin⟩
  rcases hwithin (List.replicate size 0) List.length_replicate with ⟨buf', hwriting⟩
  have hlt := (size_lt_of_writingPass hsize hwriting).2
  rw [List.length_replicate] at hlt
  exact absurd hlt (Nat.lt_irrefl size)

/-- The least configuration that is modified: the objects `hpav`, `cp` and `phy`. -/
def threeObjects : Json :=
  .object [([104, 112, 97, 118], .object []), ([99, 112], .object []), ([112, 104, 121], .object [])]

/-- For it 28 bytes are allocated, and they are too few. -/
theorem threeObjects_overruns : jsonSerializationSize threeObjects = .ok 28 ∧ ¬ StoresWithin threeObjects := by
  have hsize : jsonSerializationSize threeObjects = .ok 28 :=
    jsonSerializationSize_eq_ok.mpr ⟨by decide, by decide⟩
  refine ⟨hsize, ?_⟩
  rintro ⟨size, hsize', hwithin⟩
  rw [hsize] at hsize'
  injection hsize' with hsame
  subst hsame
  rcases hwithin (List.replicate 28 0) rfl with ⟨buf', hwriting⟩
  exact absurd (size_lt_of_writingPass hsize hwriting).2 (by decide)

end Hpav
