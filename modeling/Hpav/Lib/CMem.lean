import Mathlib.Data.List.Basic
import Mathlib.Data.List.Perm.Subperm
import Mathlib.Data.List.Nodup
import Mathlib.Tactic.Common
import Mathlib.Tactic.Ring

/-!
# C memory: chains of nodes and written buffers

Two small pieces of the C run time, over arbitrary payloads:

* a heap of nodes linked by a nullable `next` pointer, with the representation
  predicate `Linked h head last xs`: following `next` from `head` reads `xs`, and
  `last` points at the final node;
* a buffer of bytes in which every cell keeps the list of bytes stored in it, so
  that "written exactly once" is a statement about the buffer itself.

Operations that C leaves undefined end in a `Fault`.
-/

namespace CMem

/-- Why a C program has no defined behaviour to go on with. -/
inductive Fault where
  | nullDeref
  | outOfBounds
  | uninitialized
  deriving DecidableEq, Repr

/-- What follows gets the value. -/
@[simp] theorem bind_ok {α β : Type} (a : α) (k : α → Except Fault β) :
    ((Except.ok a : Except Fault α) >>= k) = k a := rfl

/-- Nothing follows a fault. -/
@[simp] theorem bind_error {α β : Type} (e : Fault) (k : α → Except Fault β) :
    ((Except.error e : Except Fault α) >>= k) = .error e := rfl

/-- A computation succeeds by its steps. -/
theorem bind_eq_ok {ε α β : Type} {x : Except ε α} {k : α → Except ε β} {b : β} :
    (x >>= k) = .ok b ↔ ∃ a, x = .ok a ∧ k a = .ok b := by
  constructor
  · intro h
    cases x with
    | error e => cases h
    | ok a => exact ⟨a, rfl, h⟩
  · rintro ⟨a, rfl, h⟩
    exact h

/-- A computation that goes on only with a value, and came to one. -/
theorem exists_some_of_bind {ε α β : Type} {x : Except ε (Option α)} {k : Option α → Except ε (Option β)} {b : β}
    (h : (x >>= k) = .ok (some b)) (hnone : k none ≠ .ok (some b)) : ∃ a, x = .ok (some a) ∧ k (some a) = .ok (some b) := by
  rcases bind_eq_ok.mp h with ⟨_ | a, hx, hk⟩
  · exact absurd hk hnone
  · exact ⟨a, hx, hk⟩

/-- Returning the value changes nothing. -/
theorem bind_ok_right {α : Type} (x : Except Fault α) : (x >>= fun a => .ok a) = x := by
  cases x <;> rfl

/-! ## Chains -/

/-- An allocated node: its payload and its `next` pointer (`none` is NULL). -/
structure Node (α : Type) where
  val : α
  next : Option Nat
  deriving DecidableEq, Repr

/-- The nodes allocated so far; an address is a position. -/
abbrev Heap (α : Type) := List (Node α)

variable {α : Type}

/-- `malloc` of a node whose `next` is NULL. -/
def mallocNode (h : Heap α) (v : α) : Heap α × Nat :=
  (h ++ [⟨v, none⟩], h.length)

/-- `p->next = q`. -/
def setNext (h : Heap α) (p q : Option Nat) : Except Fault (Heap α) :=
  match p with
  | none => .error .nullDeref
  | some a =>
    match h[a]? with
    | none => .error .outOfBounds
    | some n => .ok (h.set a { n with next := q })

/-- The payloads read by following `next` from `p`, at most `fuel` of them. -/
def walk (h : Heap α) : Nat → Option Nat → List α
  | 0, _ => []
  | _ + 1, none => []
  | fuel + 1, some a =>
    match h[a]? with
    | none => []
    | some n => n.val :: walk h fuel n.next

/-- The chain that starts at `p`. A chain visits no node twice, so the number of
allocated nodes is fuel enough (`Linked.chain_eq`). -/
def chain (h : Heap α) (p : Option Nat) : List α :=
  walk h h.length p

/-- Following `next` from `p` visits the addresses `as`, reads `xs` and ends at NULL. -/
inductive Path (h : Heap α) : Option Nat → List Nat → List α → Prop where
  | nil : Path h none [] []
  | cons {a : Nat} {n : Node α} {as : List Nat} {xs : List α} (hn : h[a]? = some n)
      (ht : Path h n.next as xs) : Path h (some a) (a :: as) (n.val :: xs)

/-- `head` starts a chain of payloads `xs` whose final node is `last`. -/
def Linked (h : Heap α) (head last : Option Nat) (xs : List α) : Prop :=
  ∃ as, Path h head as xs ∧ as.Nodup ∧ as.getLast? = last

/-- The nodes of a path are in the heap. -/
theorem Path.lt_length {h : Heap α} {p : Option Nat} {as : List Nat} {xs : List α}
    (hp : Path h p as xs) : ∀ a ∈ as, a < h.length := by
  induction hp with
  | nil => simp
  | cons hn _ ih =>
    intro b hb
    rcases List.mem_cons.mp hb with rfl | hb
    · exact (List.getElem?_eq_some_iff.mp hn).1
    · exact ih b hb

/-- A path has an address for each value. -/
theorem Path.length_eq {h : Heap α} {p : Option Nat} {as : List Nat} {xs : List α}
    (hp : Path h p as xs) : as.length = xs.length := by
  induction hp with
  | nil => rfl
  | cons _ _ ih => simp [ih]

/-- Later allocations leave a path as it is. -/
theorem Path.append {h : Heap α} {p : Option Nat} {as : List Nat} {xs : List α}
    (hp : Path h p as xs) (t : Heap α) : Path (h ++ t) p as xs := by
  induction hp with
  | nil => exact .nil
  | cons hn _ ih =>
    have hlt := (List.getElem?_eq_some_iff.mp hn).1
    exact .cons (by rw [List.getElem?_append_left hlt]; exact hn) ih

/-- Walking along a path with enough turns finds its values. -/
theorem Path.walk_eq {h : Heap α} {p : Option Nat} {as : List Nat} {xs : List α}
    (hp : Path h p as xs) : ∀ fuel, as.length ≤ fuel → walk h fuel p = xs := by
  induction hp with
  | nil => intro fuel _; cases fuel <;> rfl
  | cons hn _ ih =>
    intro fuel hfuel
    cases fuel with
    | zero => simp at hfuel
    | succ fuel =>
      simp only [walk, hn]
      rw [ih fuel (by simpa using hfuel)]

/-- Storing a fresh node in the `next` of the final node lengthens the path by it. -/
theorem Path.link {h : Heap α} {p : Option Nat} {as : List Nat} {xs : List α} {l b : Nat} {v : α}
    (hp : Path h p as xs) (hnd : as.Nodup) (hl : as.getLast? = some l) (hb : b ∉ as)
    (hv : h[b]? = some ⟨v, none⟩) (m : Node α) (hm : h[l]? = some m) :
    Path (h.set l { m with next := some b }) p (as ++ [b]) (xs ++ [v]) := by
  induction hp with
  | nil => simp at hl
  | @cons a n as xs hn ht ih =>
    rw [List.nodup_cons] at hnd
    have hba : b ≠ a := fun e => hb (by simp [e])
    cases as with
    | nil =>
      -- the head is the final node: it now points at the fresh one
      obtain rfl : xs = [] := List.length_eq_zero_iff.mp ht.length_eq.symm
      obtain rfl : a = l := by simpa using hl
      obtain rfl : m = n := by simpa [hm] using hn
      have hlt := (List.getElem?_eq_some_iff.mp hm).1
      have hfresh : (h.set a { m with next := some b })[b]? = some ⟨v, none⟩ := by
        rw [List.getElem?_set_ne (Ne.symm hba)]
        exact hv
      have htail : Path (h.set a { m with next := some b }) (some b) [b] [v] :=
        .cons hfresh .nil
      exact .cons (n := { m with next := some b }) (by simp [hlt]) htail
    | cons a' as' =>
      have hl' : (a' :: as').getLast? = some l := by simpa using hl
      have hmem : l ∈ a' :: as' := List.mem_of_getLast? hl'
      have hal : l ≠ a := fun e => hnd.1 (e ▸ hmem)
      have hnset : (h.set l { m with next := some b })[a]? = some n := by
        rw [List.getElem?_set_ne hal]
        exact hn
      exact .cons hnset (ih hnd.2 hl' (fun e => hb (List.mem_cons_of_mem _ e)))

/-- The empty chain. -/
theorem Linked.nil (h : Heap α) : Linked h none none [] :=
  ⟨[], .nil, List.nodup_nil, rfl⟩

/-- Nodes behind the heap do not disturb a list. -/
theorem Linked.append {h : Heap α} {p l : Option Nat} {xs : List α} (hl : Linked h p l xs)
    (t : Heap α) : Linked (h ++ t) p l xs := by
  obtain ⟨as, hp, hnd, hlast⟩ := hl
  exact ⟨as, hp.append t, hnd, hlast⟩

/-- A fresh node is a chain of one. -/
theorem Linked.singleton (h : Heap α) (v : α) :
    Linked (h ++ [⟨v, none⟩]) (some h.length) (some h.length) [v] :=
  ⟨[h.length], .cons (n := ⟨v, none⟩) (by simp) .nil, by simp, rfl⟩

/-- The final node of a non-empty chain is allocated. -/
theorem Linked.last_some {h : Heap α} {p l : Option Nat} {xs : List α} (hl : Linked h p l xs)
    (hne : xs ≠ []) : ∃ a m, l = some a ∧ h[a]? = some m := by
  obtain ⟨as, hp, _, hlast⟩ := hl
  have has : as ≠ [] := by
    intro e
    have := hp.length_eq
    rw [e] at this
    exact hne (List.length_eq_zero_iff.mp this.symm)
  have hmem := List.getLast_mem has
  have hlt := hp.lt_length _ hmem
  exact ⟨as.getLast has, h[as.getLast has], by rw [← hlast, List.getLast?_eq_some_getLast has],
    List.getElem?_eq_getElem hlt⟩

/-- `last->next = new` after `new = malloc(..)`: the chain grows by one payload. -/
theorem Linked.link {h : Heap α} {p l : Option Nat} {xs : List α} (hl : Linked h p l xs)
    (hne : xs ≠ []) (v : α) :
    ∃ h', setNext (h ++ [⟨v, none⟩]) l (some h.length) = .ok h' ∧
      h'.length = h.length + 1 ∧ Linked h' p (some h.length) (xs ++ [v]) := by
  obtain ⟨a, m, rfl, hm⟩ := hl.last_some hne
  have hlt := (List.getElem?_eq_some_iff.mp hm).1
  have hm' : (h ++ [⟨v, none⟩])[a]? = some m := by
    rw [List.getElem?_append_left hlt]
    exact hm
  obtain ⟨as, hp, hnd, hlast⟩ := hl
  have hfresh : h.length ∉ as := fun e => absurd (hp.lt_length _ e) (Nat.lt_irrefl _)
  have hv : (h ++ [⟨v, none⟩])[h.length]? = some ⟨v, none⟩ := by simp
  have hpath := (hp.append [⟨v, none⟩]).link hnd hlast hfresh hv m hm'
  have hnd' : (as ++ [h.length]).Nodup :=
    List.nodup_append.mpr ⟨hnd, by simp, fun b hb c hc hbc =>
      hfresh (List.mem_singleton.mp hc ▸ hbc ▸ hb)⟩
  exact ⟨_, by simp [setNext, hm'], by simp, as ++ [h.length], hpath, hnd', by simp⟩

/-- The last node is linked to nothing, and holds what is read last. -/
theorem Path.at_last {h : Heap α} {p : Option Nat} {as : List Nat} {xs : List α} {l : Nat}
    (hp : Path h p as xs) (hl : as.getLast? = some l) :
    ∃ n, h[l]? = some n ∧ n.next = none ∧ xs.getLast? = some n.val := by
  induction hp with
  | nil => cases hl
  | @cons a n as xs hn ht ih =>
    cases as with
    | nil =>
      obtain rfl : a = l := Option.some.inj hl
      obtain rfl : xs = [] := List.length_eq_zero_iff.mp ht.length_eq.symm
      refine ⟨n, hn, ?_, rfl⟩
      cases hnext : n.next with
      | none => rfl
      | some q =>
        rw [hnext] at ht
        cases ht
    | cons a' as' =>
      rw [List.getLast?_cons_cons] at hl
      rcases ih hl with ⟨n', hn', hnext, hlast⟩
      refine ⟨n', hn', hnext, ?_⟩
      rw [List.getLast?_cons, hlast]
      rfl

/-- `last->next = NULL` leaves a chain as it is. -/
theorem Linked.terminate {h : Heap α} {p l : Option Nat} {xs : List α} (hl : Linked h p l xs)
    (hne : xs ≠ []) : setNext h l none = .ok h := by
  rcases hl.last_some hne with ⟨a, m, rfl, hm⟩
  rcases hl with ⟨as, hp, _, hlast⟩
  rcases hp.at_last hlast with ⟨n, hn, hnext, -⟩
  rcases List.getElem?_eq_some_iff.mp hn with ⟨hlt, hget⟩
  have hsame : ({ n with next := none } : Node α) = h[a] := by
    rw [hget]
    cases n
    simpa using hnext.symm
  simp only [setNext, hn]
  rw [hsame, List.set_getElem_self]

/-- A list without a head is empty. -/
theorem Linked.head_none_iff {h : Heap α} {p l : Option Nat} {xs : List α} (hl : Linked h p l xs) :
    p = none ↔ xs = [] := by
  rcases hl with ⟨as, hp, _, _⟩
  cases hp with
  | nil => simp
  | cons _ _ => simp

/-- There is a last node exactly if there are payloads. -/
theorem Linked.last_none_iff {h : Heap α} {p l : Option Nat} {xs : List α} (hl : Linked h p l xs) :
    l = none ↔ xs = [] := by
  rcases hl with ⟨as, hpath, -, hlast⟩
  rw [← hlast, List.getLast?_eq_none_iff, ← List.length_eq_zero_iff, hpath.length_eq, List.length_eq_zero_iff]

/-- Reading a linked chain gives its payloads. -/
theorem Linked.chain_eq {h : Heap α} {p l : Option Nat} {xs : List α} (hl : Linked h p l xs) :
    chain h p = xs := by
  obtain ⟨as, hp, hnd, _⟩ := hl
  apply hp.walk_eq
  have hsub : as ⊆ List.range h.length := fun a ha => List.mem_range.mpr (hp.lt_length a ha)
  simpa using (List.subperm_of_subset hnd hsub).length_le

/-! ## Buffers -/

/-- A buffer: for each cell the bytes stored in it, the latest first. A cell of
`malloc` that nothing was stored in is `[]`. -/
abbrev Buffer := List (List UInt8)

/-- `malloc(n)`. -/
def mallocBuf (n : Nat) : Buffer :=
  List.replicate n []

/-- `memcpy(buffer + off, bs, |bs|)`. -/
def store (b : Buffer) (off : Nat) (bs : List UInt8) : Except Fault Buffer :=
  if off + bs.length ≤ b.length then
    .ok (b.take off ++ List.zipWith (fun v cell => v :: cell) bs (b.drop off) ++
      b.drop (off + bs.length))
  else
    .error .outOfBounds

/-- A store leaves the size of the buffer as it is. -/
theorem length_store {b b' : Buffer} {off : Nat} {bs : List UInt8} (h : store b off bs = .ok b') :
    b'.length = b.length := by
  unfold store at h
  split at h
  · rename_i hfits
    injection h with h
    rw [← h]
    simp only [List.length_append, List.length_take, List.length_zipWith, List.length_drop]
    omega
  · cases h

/-- The bytes a buffer holds; a cell never stored in reads as some byte, here 0. -/
def contents (b : Buffer) : List UInt8 :=
  b.map (·.headD 0)

/-- Every cell was stored in exactly once, and `bs` are the bytes stored. -/
def once (bs : List UInt8) : Buffer :=
  bs.map fun v => [v]

/-- Every byte is a cell. -/
@[simp] theorem length_once (bs : List UInt8) : (once bs).length = bs.length := by
  simp [once]

/-- The cells written once hold their bytes. -/
@[simp] theorem contents_once (bs : List UInt8) : contents (once bs) = bs := by
  simp [contents, once, Function.comp_def]

/-- No bytes are no cells. -/
@[simp] theorem once_nil : once [] = [] := rfl

/-- No memory is no cells. -/
@[simp] theorem mallocBuf_zero : mallocBuf 0 = [] := rfl

/-- There are as many cells as were asked for. -/
@[simp] theorem length_mallocBuf (n : Nat) : (mallocBuf n).length = n := by
  simp [mallocBuf]

/-- Writing over new cells gives cells written once. -/
theorem zipWith_mallocBuf (bs : List UInt8) (m : Nat) (hm : bs.length ≤ m) :
    List.zipWith (fun v cell => v :: cell) bs (mallocBuf m) = once bs := by
  induction bs generalizing m with
  | nil => simp [once]
  | cons b bs ih =>
    obtain ⟨m, rfl⟩ : ∃ k, m = k + 1 := ⟨m - 1, by simp at hm; omega⟩
    have := ih m (by simpa using hm)
    simpa [mallocBuf, List.replicate_succ, once] using this

/-- The cursor rule: storing right behind the part already written writes each
further cell for the first time. -/
theorem store_cursor (done bs : List UInt8) (m : Nat) (hm : bs.length ≤ m) :
    store (once done ++ mallocBuf m) done.length bs =
      .ok (once (done ++ bs) ++ mallocBuf (m - bs.length)) := by
  have hdrop : (once done ++ mallocBuf m).drop done.length = mallocBuf m :=
    List.drop_left' (length_once done)
  have htake : (once done ++ mallocBuf m).take done.length = once done :=
    List.take_left' (length_once done)
  have hrest : (once done ++ mallocBuf m).drop (done.length + bs.length) =
      mallocBuf (m - bs.length) := by
    rw [← List.drop_drop, hdrop]
    simp [mallocBuf]
  rw [store, if_pos (by simp; omega), htake, hdrop, hrest, zipWith_mallocBuf bs m hm]
  simp [once]

/-- Store fields one behind the other, the cursor moving over each. -/
def storeFields (b : Buffer) (cursor : Nat) : List (List UInt8) → Except Fault Buffer
  | [] => .ok b
  | bs :: fields => do
    let b ← store b cursor bs
    storeFields b (cursor + bs.length) fields

/-- Fields laid out from a cursor write each further cell for the first time. -/
theorem storeFields_cursor (fields : List (List UInt8)) (done : List UInt8) (m : Nat)
    (hm : fields.flatten.length = m) :
    storeFields (once done ++ mallocBuf m) done.length fields =
      .ok (once (done ++ fields.flatten)) := by
  induction fields generalizing done m with
  | nil =>
    obtain rfl : m = 0 := by simpa using hm.symm
    simp [storeFields]
  | cons bs fields ih =>
    rw [List.flatten_cons, List.length_append] at hm
    have hrest := ih (done ++ bs) (m - bs.length) (by omega)
    unfold storeFields
    rw [store_cursor done bs m (by omega), bind_ok, ← List.length_append, hrest, List.flatten_cons,
      List.append_assoc]

/-- Fields that fill a fresh buffer write every cell of it exactly once. -/
theorem storeFields_malloc (fields : List (List UInt8)) (n : Nat)
    (hn : fields.flatten.length = n) :
    storeFields (mallocBuf n) 0 fields = .ok (once fields.flatten) :=
  storeFields_cursor fields [] n hn

/-- `memcpy(.., mem + off, len)` as a read: the `len` bytes at `off`. -/
def load (mem : List UInt8) (off len : Nat) : Except Fault (List UInt8) :=
  if off + len ≤ mem.length then .ok ((mem.drop off).take len) else .error .outOfBounds

/-- A load inside gives the bytes there. -/
theorem load_ok {mem : List UInt8} {off len : Nat} (h : off + len ≤ mem.length) :
    load mem off len = .ok ((mem.drop off).take len) := by
  simp [load, h]

/-- A load gives as many bytes as it reads. -/
theorem length_load {mem bytes : List UInt8} {off len : Nat} (h : load mem off len = .ok bytes) :
    bytes.length = len := by
  unfold load at h
  split at h
  · injection h with h
    rw [← h, List.length_take, List.length_drop]
    omega
  · cases h

/-- A memory that holds four bytes begins with them. -/
theorem exists_word {mem : List UInt8} (h : 4 ≤ mem.length) :
    ∃ b0 b1 b2 b3 rest, mem = b0 :: b1 :: b2 :: b3 :: rest := by
  match mem, h with
  | b0 :: b1 :: b2 :: b3 :: rest, _ => exact ⟨b0, b1, b2, b3, rest, rfl⟩

/-- The size argument of `memcpy` is a `size_t`: a negative `int` is far too large. -/
def loadInt (mem : List UInt8) (off : Nat) (len : Int) : Except Fault (List UInt8) :=
  if len < 0 then .error .outOfBounds else load mem off len.toNat

end CMem
