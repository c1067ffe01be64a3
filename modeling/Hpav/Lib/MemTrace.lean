import Mathlib.Tactic.Common
import Mathlib.Tactic.Ring

/-!
# Programs that read foreign memory

A program that walks a pointer over a buffer it was handed, with nothing but a length
to say where the buffer ends. The memory is a function on all offsets, so that the
program has a run whatever it reads; the `Trace` records every access and every
unsigned subtraction, and `Safe size` says of one of them that it stayed inside a
buffer of `size` bytes, or did not wrap around.
-/

namespace MemTrace

/-- What a run does that can go wrong. -/
inductive Access where
  /-- `len` bytes are read from offset `off` on. -/
  | read (off len : Nat)
  /-- The unsigned difference `a - b` is taken. -/
  | sub (a b : UInt32)
  /-- A length is stored in 16 bits. -/
  | narrow (a : UInt32)
  deriving DecidableEq, Repr

/-- The access reads only offsets below `size`; the computed length is the true one. -/
def Access.Safe (size : UInt32) : Access → Prop
  | .read off len => ∀ i < len, off + i < size.toNat
  | .sub a b => b.toNat ≤ a.toNat
  | .narrow a => a.toNat < 65536

instance (size : UInt32) (a : Access) : Decidable (a.Safe size) := by
  cases a <;> unfold Access.Safe <;> infer_instance

/-- The value of a run together with the accesses it made. -/
structure Trace (α : Type) where
  val : α
  log : List Access

instance : Monad Trace where
  pure a := ⟨a, []⟩
  bind t f := ⟨(f t.val).val, t.log ++ (f t.val).log⟩

/-- A value accesses nothing. -/
@[simp] theorem log_pure {α : Type} (a : α) : (pure a : Trace α).log = [] := rfl

/-- A value is returned. -/
@[simp] theorem val_pure {α : Type} (a : α) : (pure a : Trace α).val = a := rfl

/-- The accesses of two runs are one after the other. -/
@[simp] theorem log_bind {α β : Type} (t : Trace α) (f : α → Trace β) :
    (t >>= f).log = t.log ++ (f t.val).log := rfl

/-- The second run gets the value of the first. -/
@[simp] theorem val_bind {α β : Type} (t : Trace α) (f : α → Trace β) :
    (t >>= f).val = (f t.val).val := rfl

instance : LawfulMonad Trace :=
  LawfulMonad.mk' Trace
    (fun t => by
      change Trace.mk t.val (t.log ++ []) = t
      rw [List.append_nil])
    (fun _ _ => rfl)
    (fun t f g => by
      change Trace.mk _ (t.log ++ (f t.val).log ++ (g (f t.val).val).log) =
        Trace.mk _ (t.log ++ ((f t.val).log ++ (g (f t.val).val).log))
      rw [List.append_assoc]
      rfl)

/-! ## Loops -/

section Loops

variable {σ α : Type} (f : σ → α → Trace σ)

/-- A loop computes what its bodies compute. -/
theorem val_foldlM (xs : List α) (s : σ) :
    (xs.foldlM f s).val = xs.foldl (fun s x => (f s x).val) s := by
  induction xs generalizing s with
  | nil => rfl
  | cons x xs ih =>
    rw [List.foldlM_cons, val_bind, List.foldl_cons]
    exact ih (f s x).val

/-- A loop whose bodies access what `x` says, whatever the state. -/
theorem log_foldlM {accesses : α → List Access} (h : ∀ s x, (f s x).log = accesses x)
    (xs : List α) (s : σ) : (xs.foldlM f s).log = xs.flatMap accesses := by
  induction xs generalizing s with
  | nil => rfl
  | cons x xs ih =>
    rw [List.foldlM_cons, log_bind, h, ih, List.flatMap_cons]

end Loops

section Primitives

variable (mem : Nat → UInt8)

/-- `*p` for a byte pointer. -/
def byteAt (off : Nat) : Trace UInt8 :=
  ⟨mem off, [.read off 1]⟩

/-- `*((unsigned short *)p)` -/
def shortAt (off : Nat) : Trace UInt16 :=
  ⟨UInt16.ofNat ((mem off).toNat + 256 * (mem (off + 1)).toNat), [.read off 2]⟩

/-- `*((unsigned int *)p)` -/
def wordAt (off : Nat) : Trace UInt32 :=
  ⟨UInt32.ofNat ((mem off).toNat + 256 * (mem (off + 1)).toNat +
    65536 * (mem (off + 2)).toNat + 16777216 * (mem (off + 3)).toNat), [.read off 4]⟩

/-- `memcpy(.., p, len)` -/
def copyFrom (off len : Nat) : Trace (List UInt8) :=
  ⟨(List.range len).map fun i => mem (off + i), [.read off len]⟩

/-- `a - b` in `unsigned int`. -/
def uSub (a b : UInt32) : Trace UInt32 :=
  ⟨a - b, [.sub a b]⟩

/-- `(unsigned short)a` -/
def toShort (a : UInt32) : Trace UInt16 :=
  ⟨a.toUInt16, [.narrow a]⟩

end Primitives

/-! ## Reading a list of bytes -/

/-- A byte of the rest is a byte further back. -/
theorem getD_drop (xs : List UInt8) (off i : Nat) (d : UInt8) :
    xs.getD (off + i) d = (xs.drop off).getD i d := by
  rw [List.getD_eq_getElem?_getD, List.getD_eq_getElem?_getD, List.getElem?_drop]

/-- A field of a layout, read byte by byte, where `xs` is what the layout holds from `off` on. -/
theorem map_getD_eq (layout xs : List UInt8) {off n : Nat} (hdrop : (layout.drop off).take n = xs)
    (hn : xs.length = n) (d : Nat → UInt8) :
    (List.range n).map (fun i => layout.getD (off + i) (d i)) = xs := by
  apply List.ext_getElem?
  intro i
  rw [List.getElem?_map]
  rcases Nat.lt_or_ge i n with hi | hi
  · have hi' : i < xs.length := hn ▸ hi
    rw [List.getElem?_range hi, Option.map_some, getD_drop, List.getD_eq_getElem?_getD,
      ← List.getElem?_take_of_lt hi, hdrop, List.getElem?_eq_getElem hi']
    rfl
  · rw [List.getElem?_eq_none (by simpa using hi), List.getElem?_eq_none (hn ▸ hi)]
    rfl

/-- A copy that ends within a list of bytes does not see the memory behind the list. -/
theorem val_copyFrom_getD (data : List UInt8) (behind : Nat → UInt8) {off len : Nat} (h : off + len ≤ data.length) :
    (copyFrom (fun i => data.getD i (behind i)) off len).val = (data.drop off).take len := by
  refine map_getD_eq data _ rfl ?_ fun i => behind (off + i)
  rw [List.length_take, List.length_drop]
  omega

/-! ## Memory that holds a list of bytes -/

/-- The bytes from `off` on are the list. -/
def Holds (mem : Nat → UInt8) (off : Nat) (xs : List UInt8) : Prop :=
  (List.range xs.length).map (fun i => mem (off + i)) = xs

section Holds

variable {mem : Nat → UInt8} {off : Nat}

/-- A list in two parts is held part by part. -/
theorem holds_append {xs ys : List UInt8} :
    Holds mem off (xs ++ ys) ↔ Holds mem off xs ∧ Holds mem (off + xs.length) ys := by
  have hshift : ((List.range ys.length).map (xs.length + ·)).map (fun i => mem (off + i)) =
      (List.range ys.length).map fun i => mem (off + xs.length + i) := by
    rw [List.map_map]
    simp only [Function.comp_def, Nat.add_assoc]
  unfold Holds
  rw [List.length_append, List.range_add, List.map_append, hshift]
  constructor
  · intro h
    exact List.append_inj h (by simp)
  · rintro ⟨hxs, hys⟩
    rw [hxs, hys]

/-- The first byte is held in front of the others. -/
theorem holds_cons {x : UInt8} {xs : List UInt8} :
    Holds mem off (x :: xs) ↔ mem off = x ∧ Holds mem (off + 1) xs := by
  rw [← List.singleton_append, holds_append]
  refine and_congr ?_ Iff.rfl
  unfold Holds
  simp

/-- Nothing is held anywhere. -/
theorem holds_nil : Holds mem off [] := rfl

/-- A copy of as many bytes as the list has is the list. -/
theorem Holds.val_copyFrom {xs : List UInt8} (h : Holds mem off xs) {len : Nat} (hlen : len = xs.length) :
    (copyFrom mem off len).val = xs := by
  rw [hlen]
  exact h

/-- A list, used as memory, holds itself. -/
theorem holds_getD (xs : List UInt8) (d : UInt8) : Holds (fun i => xs.getD i d) 0 xs := by
  exact @map_getD_eq xs xs 0 xs.length (by rw [List.drop_zero, List.take_length]) rfl fun _ => d

/-- An array of structures of one size, read one by one. -/
theorem Holds.map_read {α : Type} {wire : α → List UInt8} {read : (Nat → UInt8) → Nat → α} {size : Nat}
    (hsize : ∀ a, (wire a).length = size) (hread : ∀ mem off a, Holds mem off (wire a) → read mem off = a)
    {entries : List α} (h : Holds mem off (entries.flatMap wire)) :
    (List.range entries.length).map (fun i => read mem (off + size * i)) = entries := by
  induction entries generalizing off with
  | nil => rfl
  | cons a entries ih =>
    rw [List.flatMap_cons, holds_append, hsize] at h
    rw [List.length_cons, List.range_succ_eq_map, List.map_cons, List.map_map, Nat.mul_zero,
      Nat.add_zero, hread mem off a h.1]
    have hshift : ∀ i, off + size * (i + 1) = off + size + size * i := by
      intro i
      rw [Nat.mul_add]
      omega
    simp only [Function.comp_def, Nat.succ_eq_add_one, hshift]
    rw [ih h.2]

end Holds

/-! ## Safe runs -/

/-- Every access of the run is safe for a buffer of `size` bytes. -/
def SafeRun {α : Type} (size : UInt32) (t : Trace α) : Prop :=
  ∀ a ∈ t.log, a.Safe size

/-- Two runs are safe if each of them is. -/
theorem safeRun_bind_iff {α β : Type} {size : UInt32} {t : Trace α} {f : α → Trace β} :
    SafeRun size (t >>= f) ↔ SafeRun size t ∧ SafeRun size (f t.val) := by
  simp only [SafeRun, log_bind, List.mem_append, or_imp, forall_and]

/-- A value is safe. -/
theorem safeRun_pure {α : Type} (size : UInt32) (a : α) : SafeRun size (pure a : Trace α) := by
  simp [SafeRun]

/-! ## Safe accesses as inequalities -/

/-- A read of some bytes is safe if it ends inside. -/
theorem safe_read_iff {size : UInt32} {off len : Nat} (h : 0 < len) :
    (Access.read off len).Safe size ↔ off + len ≤ size.toNat := by
  constructor
  · intro hall
    have hlast := hall (len - 1) (by omega)
    omega
  · intro hle i hi
    omega

/-- A read of no bytes is safe. -/
theorem safe_read_zero (size : UInt32) (off : Nat) : (Access.read off 0).Safe size :=
  fun i hi => absurd hi (Nat.not_lt_zero i)

/-- A subtraction is safe if it does not wrap. -/
theorem safe_sub_iff {size a b : UInt32} : (Access.sub a b).Safe size ↔ b.toNat ≤ a.toNat :=
  Iff.rfl

/-- A subtraction that does not wrap is that of numbers. -/
theorem toNat_uSub {a b : UInt32} (h : b.toNat ≤ a.toNat) : (a - b).toNat = a.toNat - b.toNat :=
  UInt32.toNat_sub_of_le a b (UInt32.le_iff_toNat_le.mpr h)

section Single

variable {size : UInt32} (mem : Nat → UInt8) (off : Nat)

/-- A byte that is read has to be inside. -/
@[simp] theorem safeRun_byteAt_iff : SafeRun size (byteAt mem off) ↔ off + 1 ≤ size.toNat := by
  simp only [SafeRun, byteAt, List.mem_singleton, forall_eq]
  exact safe_read_iff Nat.one_pos

/-- Two bytes that are read have to be inside. -/
@[simp] theorem safeRun_shortAt_iff : SafeRun size (shortAt mem off) ↔ off + 2 ≤ size.toNat := by
  simp only [SafeRun, shortAt, List.mem_singleton, forall_eq]
  exact safe_read_iff Nat.two_pos

/-- Four bytes that are read have to be inside. -/
@[simp] theorem safeRun_wordAt_iff : SafeRun size (wordAt mem off) ↔ off + 4 ≤ size.toNat := by
  simp only [SafeRun, wordAt, List.mem_singleton, forall_eq]
  exact safe_read_iff (by decide)

/-- A copy from inside the buffer; an empty one reads nothing. -/
theorem safeRun_copyFrom_iff (len : Nat) (hoff : off ≤ size.toNat) :
    SafeRun size (copyFrom mem off len) ↔ off + len ≤ size.toNat := by
  simp only [SafeRun, copyFrom, List.mem_singleton, forall_eq]
  cases len with
  | zero => exact ⟨fun _ => by omega, fun _ => safe_read_zero size off⟩
  | succ len => exact safe_read_iff (Nat.succ_pos len)

/-- A subtraction of the run must not wrap. -/
@[simp] theorem safeRun_uSub_iff (a b : UInt32) :
    SafeRun size (uSub a b) ↔ b.toNat ≤ a.toNat := by
  simp [SafeRun, uSub, Access.Safe]

/-- A number that is cut to sixteen bits has to fit them. -/
@[simp] theorem safeRun_toShort_iff (a : UInt32) : SafeRun size (toShort a) ↔ a.toNat < 65536 := by
  simp [SafeRun, toShort, Access.Safe]

end Single

/-! ## Walking a cursor -/

/-- The accesses of a program that reads fields of the given sizes one behind the other,
and keeps count of the bytes left. -/
def walk : List UInt32 → Nat → UInt32 → List Access
  | [], _, _ => []
  | size :: sizes, off, left =>
    .read off size.toNat :: .sub left size :: walk sizes (off + size.toNat) (left - size)

/-- Where the walk leaves the cursor, and the count. -/
def walkEnd (sizes : List UInt32) (off : Nat) : Nat :=
  off + (sizes.map UInt32.toNat).sum

def walkLeft (sizes : List UInt32) (left : UInt32) : UInt32 :=
  sizes.foldl (· - ·) left

/-- While the count is the distance to the end of the buffer, a walk is safe exactly if
the fields fit. -/
theorem walk_safe_iff {size : UInt32} (sizes : List UInt32) (off : Nat) (left : UInt32)
    (h : off + left.toNat = size.toNat) :
    (∀ a ∈ walk sizes off left, a.Safe size) ↔ walkEnd sizes off ≤ size.toNat := by
  induction sizes generalizing off left with
  | nil =>
    refine ⟨fun _ => ?_, fun _ => by simp [walk]⟩
    simp only [walkEnd, List.map_nil, List.sum_nil]
    omega
  | cons s sizes ih =>
    have hend : walkEnd (s :: sizes) off = walkEnd sizes (off + s.toNat) := by
      simp only [walkEnd, List.map_cons, List.sum_cons]
      omega
    rw [hend]
    unfold walk
    rw [List.forall_mem_cons, List.forall_mem_cons, safe_sub_iff]
    constructor
    · rintro ⟨_, hsub, hrest⟩
      have hleft := toNat_uSub hsub
      exact (ih (off + s.toNat) (left - s) (by omega)).mp hrest
    · intro hle
      have hs : off + s.toNat ≤ size.toNat := by
        unfold walkEnd at hle
        omega
      have hsub : s.toNat ≤ left.toNat := by omega
      have hleft := toNat_uSub hsub
      exact ⟨fun i hi => by omega, hsub, (ih (off + s.toNat) (left - s) (by omega)).mpr hle⟩

/-- A safe walk keeps the count at the distance to the end. -/
theorem walkLeft_of_fits {size : UInt32} (sizes : List UInt32) (off : Nat) (left : UInt32)
    (h : off + left.toNat = size.toNat) (hfits : walkEnd sizes off ≤ size.toNat) :
    walkEnd sizes off + (walkLeft sizes left).toNat = size.toNat := by
  induction sizes generalizing off left with
  | nil => simpa [walkEnd, walkLeft] using h
  | cons s sizes ih =>
    have hend : walkEnd (s :: sizes) off = walkEnd sizes (off + s.toNat) := by
      simp only [walkEnd, List.map_cons, List.sum_cons]
      omega
    rw [hend] at hfits ⊢
    have hs : off + s.toNat ≤ size.toNat := by
      unfold walkEnd at hfits
      omega
    have hleft : (left - s).toNat = left.toNat - s.toNat := toNat_uSub (by omega)
    exact ih (off + s.toNat) (left - s) (by omega) hfits

end MemTrace
