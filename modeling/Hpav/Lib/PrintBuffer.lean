import Mathlib.Tactic.Common
import Hpav.Lib.CMem

/-!
# Printing into a buffer, or into none

A program that prints a text piece by piece with `sprintf`, and that can be run without a
buffer to learn how long the text is. Each function of it returns what it has printed in an
`int`, and its caller moves the pointer and adds the number to its own. `Emits` says which
text a piece of the program prints, and what it leaves behind the text: `sprintf` a NUL,
which the next piece overwrites, an assignment nothing.

With the rules for sequences and calls, the run without a buffer and the one with it are
described by one statement about the text.
-/

namespace PrintBuffer

open CMem

/-- Why the printing has no defined result. -/
inductive PrintFault where
  | outOfBounds
  | intOverflow
  deriving DecidableEq, Repr

/-- The first number an `int` cannot hold. -/
def intLimit : Nat := 2 ^ 31

/-- The memory, the pointer into it (`none` is NULL), and what was printed so far. -/
structure Output where
  mem : List UInt8
  buf : Option Nat
  total : Nat
  deriving DecidableEq, Repr

/-- The memory with some bytes replaced. -/
def replaced (mem : List UInt8) (off : Nat) (bytes : List UInt8) : List UInt8 :=
  mem.take off ++ (bytes ++ mem.drop (off + bytes.length))

/-- A store within the memory. -/
def storeBytes (mem : List UInt8) (off : Nat) (bytes : List UInt8) : Except PrintFault (List UInt8) :=
  if off + bytes.length ≤ mem.length then .ok (replaced mem off bytes) else .error .outOfBounds

/-- `sprintf(buf, "%s", text)` -/
def sprintf (mem : List UInt8) (off : Nat) (text : List UInt8) : Except PrintFault (Nat × List UInt8) := do
  let mem ← storeBytes mem off (text ++ [0])
  .ok (text.length, mem)

namespace Output

/-- A store at the pointer, if there is a buffer. -/
def store (o : Output) (bytes : List UInt8) : Except PrintFault (List UInt8) :=
  match o.buf with
  | none => .ok o.mem
  | some off => storeBytes o.mem off bytes

/-- `buf += written` if there is a buffer, and `written_total += written`. -/
def advance (o : Output) (mem : List UInt8) (written : Nat) : Except PrintFault Output :=
  if o.total + written < intLimit then .ok ⟨mem, o.buf.map (· + written), o.total + written⟩
  else .error .intOverflow

/-- A text goes out with something behind it, and is counted. -/
def print (o : Output) (text term : List UInt8) : Except PrintFault Output := do
  let mem ← o.store (text ++ term)
  o.advance mem text.length

/-- A call: the caller moves the pointer and counts what the function has printed. -/
def call (o : Output) (f : List UInt8 → Option Nat → Except PrintFault (Nat × List UInt8)) :
    Except PrintFault Output := do
  let (written, mem) ← f o.mem o.buf
  o.advance mem written

/-- There is room at the pointer. -/
def Room (o : Output) (n : Nat) : Prop :=
  ∀ off, o.buf = some off → off + n ≤ o.mem.length

/-- There is room for the text, in the memory and in the `int`. -/
def Fits (o : Output) (text term : List UInt8) : Prop :=
  o.Room (text ++ term).length ∧ o.total + text.length < intLimit

/-- The memory behind a store. -/
def stored (o : Output) (bytes : List UInt8) : List UInt8 :=
  match o.buf with
  | none => o.mem
  | some off => replaced o.mem off bytes

/-- The output behind a text. -/
def printed (o : Output) (text term : List UInt8) : Output where
  mem := o.stored (text ++ term)
  buf := o.buf.map (· + text.length)
  total := o.total + text.length

end Output

/-- A piece of the program prints a text and leaves something behind it. -/
def Emits (f : Output → Except PrintFault Output) (text term : List UInt8) : Prop :=
  ∀ o o', f o = .ok o' ↔ o.Fits text term ∧ o' = o.printed text term

/-- A function prints a text from the pointer it is given, and returns its length. -/
def Returns (f : List UInt8 → Option Nat → Except PrintFault (Nat × List UInt8)) (text term : List UInt8) : Prop :=
  ∀ mem buf written mem', f mem buf = .ok (written, mem') ↔
    (Output.mk mem buf 0).Fits text term ∧ written = text.length ∧
      mem' = ((Output.mk mem buf 0).printed text term).mem

/-! ## Stores -/

theorem storeBytes_eq_ok {mem bytes mem' : List UInt8} {off : Nat} :
    storeBytes mem off bytes = .ok mem' ↔ off + bytes.length ≤ mem.length ∧ mem' = replaced mem off bytes := by
  unfold storeBytes
  split
  · rename_i hfits
    rw [Except.ok.injEq, eq_comm]
    exact (and_iff_right hfits).symm
  · rename_i hfits
    constructor
    · intro h
      cases h
    · intro h
      exact absurd h.1 hfits

theorem sprintf_eq_ok {mem text mem' : List UInt8} {off written : Nat} :
    sprintf mem off text = .ok (written, mem') ↔
      off + (text ++ [0]).length ≤ mem.length ∧ written = text.length ∧ mem' = replaced mem off (text ++ [0]) := by
  unfold sprintf
  rw [bind_eq_ok]
  constructor
  · rintro ⟨mem'', hstore, hreturn⟩
    rcases storeBytes_eq_ok.mp hstore with ⟨hroom, rfl⟩
    injection hreturn with hreturn
    injection hreturn with hwritten hmem
    exact ⟨hroom, hwritten.symm, hmem.symm⟩
  · rintro ⟨hroom, rfl, rfl⟩
    exact ⟨_, storeBytes_eq_ok.mpr ⟨hroom, rfl⟩, rfl⟩

theorem length_replaced {mem bytes : List UInt8} {off : Nat} (h : off + bytes.length ≤ mem.length) :
    (replaced mem off bytes).length = mem.length := by
  unfold replaced
  rw [List.length_append, List.length_append, List.length_take, List.length_drop]
  omega

/-- What is stored behind a text covers what was behind it. -/
theorem replaced_replaced {mem text term text' : List UInt8} {off : Nat} (hcovers : term.length ≤ text'.length)
    (hroom : off + (text ++ text').length ≤ mem.length) :
    replaced (replaced mem off (text ++ term)) (off + text.length) text' = replaced mem off (text ++ text') := by
  rw [List.length_append] at hroom
  have hoff : (mem.take off).length = off := List.length_take_of_le (by omega)
  have hsplit : replaced mem off (text ++ term) =
      (mem.take off ++ text) ++ (term ++ mem.drop (off + text.length + term.length)) := by
    unfold replaced
    rw [List.length_append, Nat.add_assoc]
    simp only [List.append_assoc]
  have hfront : (replaced mem off (text ++ term)).take (off + text.length) = mem.take off ++ text := by
    rw [hsplit]
    exact List.take_left' (by rw [List.length_append, hoff])
  have hback : (replaced mem off (text ++ term)).drop (off + text.length + text'.length) =
      mem.drop (off + (text ++ text').length) := by
    rw [hsplit, ← List.drop_drop, List.drop_left' (by rw [List.length_append, hoff]), List.drop_append,
      List.drop_eq_nil_of_le hcovers, List.nil_append, List.drop_drop, List.length_append]
    congr 1
    omega
  rw [replaced, hfront, hback, List.append_assoc]
  unfold replaced
  rw [List.append_assoc]

namespace Output

variable {o o' : Output} {text term : List UInt8}

theorem store_eq_ok {bytes mem : List UInt8} : o.store bytes = .ok mem ↔ o.Room bytes.length ∧ mem = o.stored bytes := by
  rcases o with ⟨mem₀, buf, total⟩
  cases buf with
  | none =>
    constructor
    · intro h
      injection h with h
      exact ⟨fun _ hoff => absurd hoff (Option.not_mem_none _), h.symm⟩
    · rintro ⟨-, h⟩
      exact congrArg Except.ok h.symm
  | some off =>
    refine storeBytes_eq_ok.trans (and_congr_left fun _ => ?_)
    constructor
    · intro hroom off' hoff
      injection hoff with hoff
      subst hoff
      exact hroom
    · intro hroom
      exact hroom off rfl

theorem advance_eq_ok {mem : List UInt8} {written : Nat} :
    o.advance mem written = .ok o' ↔
      o.total + written < intLimit ∧ o' = ⟨mem, o.buf.map (· + written), o.total + written⟩ := by
  unfold advance
  split
  · rename_i hcounted
    rw [Except.ok.injEq, eq_comm]
    exact (and_iff_right hcounted).symm
  · rename_i hcounted
    constructor
    · intro h
      cases h
    · intro h
      exact absurd h.1 hcounted

/-- Behind a piece there is room for the next if there was for both. -/
theorem fits_printed {text' term' : List UInt8} (hcovers : term.length ≤ (text' ++ term').length) :
    o.Fits text term ∧ (o.printed text term).Fits text' term' ↔ o.Fits (text ++ text') term' := by
  rcases o with ⟨mem, buf, total⟩
  unfold Fits Room printed stored
  cases buf with
  | none =>
    simp only [Option.map_none, reduceCtorEq, false_implies, implies_true, true_and, List.length_append]
    omega
  | some off =>
    simp only [Option.map_some, Option.some.injEq, forall_eq', List.length_append] at hcovers ⊢
    constructor
    · rintro ⟨⟨hroom, -⟩, hroom', hcounted⟩
      rw [length_replaced (by rw [List.length_append]; exact hroom)] at hroom'
      omega
    · rintro ⟨hroom, hcounted⟩
      rw [length_replaced (by rw [List.length_append]; omega)]
      omega

theorem printed_printed {text' term' : List UInt8} (hcovers : term.length ≤ (text' ++ term').length)
    (h : o.Fits (text ++ text') term') :
    (o.printed text term).printed text' term' = o.printed (text ++ text') term' := by
  rcases o with ⟨mem, buf, total⟩
  unfold printed stored
  cases buf with
  | none =>
    simp only [Option.map_none, List.length_append, Nat.add_assoc]
  | some off =>
    have hroom := h.1 off rfl
    rw [List.append_assoc] at hroom
    simp only [Option.map_some, List.length_append, Nat.add_assoc, List.append_assoc]
    rw [replaced_replaced hcovers hroom]

end Output

/-! ## Pieces of a program -/

section

variable {f g : Output → Except PrintFault Output} {text text' term term' : List UInt8}

/-- One piece. -/
theorem emits_print (text term : List UInt8) : Emits (fun o => o.print text term) text term := by
  intro o o'
  unfold Output.print
  rw [bind_eq_ok]
  constructor
  · rintro ⟨mem, hstore, hadvance⟩
    rcases Output.store_eq_ok.mp hstore with ⟨hroom, rfl⟩
    rcases Output.advance_eq_ok.mp hadvance with ⟨hcounted, ho'⟩
    exact ⟨⟨hroom, hcounted⟩, ho'⟩
  · rintro ⟨⟨hroom, hcounted⟩, ho'⟩
    exact ⟨_, Output.store_eq_ok.mpr ⟨hroom, rfl⟩, Output.advance_eq_ok.mpr ⟨hcounted, ho'⟩⟩

/-- One piece and then another, which covers what the first left. -/
theorem Emits.seq (hf : Emits f text term) (hg : Emits g text' term')
    (hcovers : term.length ≤ (text' ++ term').length) :
    Emits (fun o => f o >>= g) (text ++ text') term' := by
  intro o o'
  rw [bind_eq_ok]
  constructor
  · rintro ⟨o₁, h₁, h₂⟩
    rcases (hf _ _).mp h₁ with ⟨hfits₁, rfl⟩
    rcases (hg _ _).mp h₂ with ⟨hfits₂, rfl⟩
    have hboth := (Output.fits_printed hcovers).mp ⟨hfits₁, hfits₂⟩
    exact ⟨hboth, Output.printed_printed hcovers hboth⟩
  · rintro ⟨hboth, rfl⟩
    rcases (Output.fits_printed hcovers).mpr hboth with ⟨hfits₁, hfits₂⟩
    exact ⟨_, (hf _ _).mpr ⟨hfits₁, rfl⟩, (hg _ _).mpr ⟨hfits₂, (Output.printed_printed hcovers hboth).symm⟩⟩

/-- A function is a piece that starts to count at its pointer. -/
theorem Emits.returns (hf : Emits f text term) :
    Returns (fun mem buf => do
      let o ← f ⟨mem, buf, 0⟩
      .ok (o.total, o.mem)) text term := by
  intro mem buf written mem'
  rw [bind_eq_ok]
  constructor
  · rintro ⟨o, ho, hreturn⟩
    rcases (hf _ _).mp ho with ⟨hfits, rfl⟩
    injection hreturn with hreturn
    injection hreturn with hwritten hmem
    exact ⟨hfits, by rw [← hwritten]; exact Nat.zero_add _, hmem.symm⟩
  · rintro ⟨hfits, rfl, rfl⟩
    refine ⟨_, (hf _ _).mpr ⟨hfits, rfl⟩, ?_⟩
    have htotal : (Output.printed ⟨mem, buf, 0⟩ text term).total = text.length := Nat.zero_add _
    rw [htotal]

/-- A function of three pieces. -/
theorem Emits.returns_three {h : Output → Except PrintFault Output} (hf : Emits f text term)
    (hgh : Emits (fun o => g o >>= h) text' term') (hcovers : term.length ≤ (text' ++ term').length) :
    Returns (fun mem buf => do
      let o ← f ⟨mem, buf, 0⟩
      let o ← g o
      let o ← h o
      .ok (o.total, o.mem)) (text ++ text') term' := by
  have hreturns := (hf.seq hgh hcovers).returns
  simp only [bind_assoc] at hreturns
  exact hreturns

/-- A call of a function is a piece of its caller. -/
theorem Returns.emits {f : List UInt8 → Option Nat → Except PrintFault (Nat × List UInt8)}
    (hf : Returns f text term) :
    Emits (fun o => o.call f) text term := by
  intro o o'
  unfold Output.call
  rw [bind_eq_ok]
  constructor
  · rintro ⟨⟨written, mem⟩, hcall, hadvance⟩
    rcases (hf _ _ _ _).mp hcall with ⟨hfits, rfl, rfl⟩
    rcases Output.advance_eq_ok.mp hadvance with ⟨hcounted, ho'⟩
    exact ⟨⟨hfits.1, hcounted⟩, ho'⟩
  · rintro ⟨hfits, rfl⟩
    have hcalled : (Output.mk o.mem o.buf 0).Fits text term := by
      refine ⟨hfits.1, ?_⟩
      have hcounted := hfits.2
      exact (Nat.add_le_add_right (Nat.zero_le _) _).trans_lt hcounted
    exact ⟨_, (hf _ _ _ _).mpr ⟨hcalled, rfl, rfl⟩, Output.advance_eq_ok.mpr ⟨hfits.2, rfl⟩⟩

end

end PrintBuffer
