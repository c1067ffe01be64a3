import Hpav.FileChecksum

/-!
# What the XOR checksum detects

`xorchecksum` counts an offset up and the remaining size down, and combines one byte lane
of the words after the other. The two counters always add up to the size it was called
with, so the loop reads every word once and stops. The laws of the result follow from
that: they are the laws of the XOR of the words.
-/

namespace Hpav

open CMem

/-! ## The loop with its counters -/

/-- The four bytes of `res`. -/
abbrev Lanes := UInt8 × UInt8 × UInt8 × UInt8

/-- `res[i] ^= cur[i]` for the four lanes. -/
def Lanes.combine (res : Lanes) (cur : List UInt8) : Lanes :=
  (res.1 ^^^ cur.getD 0 0, res.2.1 ^^^ cur.getD 1 0, res.2.2.1 ^^^ cur.getD 2 0, res.2.2.2 ^^^ cur.getD 3 0)

/-- The `while` of `xorchecksum`, for at most so many turns; `none` when they are used up. -/
def xorWhile (buf : List UInt8) : Nat → UInt32 → UInt32 → Lanes → Except Fault (Option Lanes)
  | 0, _, _, _ => .ok none
  | turns + 1, offset, size, res =>
    if size ≠ 0 then do
      let cur ← load buf offset.toNat 4
      xorWhile buf turns (offset + 4) (size - 4) (res.combine cur)
    else
      .ok (some res)

/-- `xorchecksum` with at most so many turns of its loop: the value returned, and `*chksum`
afterwards. -/
def xorchecksumCall (turns : Nat) (src : List UInt8) (size chksum : UInt32) :
    Except Fault (Option (Int × UInt32)) :=
  if size &&& 3 ≠ 0 then
    .ok (some (-1, chksum))
  else do
    match ← xorWhile src turns 0 size (0, 0, 0, 0) with
    | some (r0, r1, r2, r3) => .ok (some (0, leWord (~~~r0) (~~~r1) (~~~r2) (~~~r3)))
    | none => .ok none

/-- A buffer of the given size, and what is in the output before the call. -/
structure XorCall where
  src : List UInt8
  size : UInt32
  chksum : UInt32
  fits : size.toNat ≤ src.length

namespace XorCall

variable {a b : XorCall}

/-- The bytes of the buffer. -/
def data (a : XorCall) : List UInt8 :=
  a.src.take a.size.toNat

/-- The size is one of whole words. -/
def Whole (a : XorCall) : Prop :=
  a.size.toNat % 4 = 0

/-- The call ends, returns `rv` and leaves `chksum` in its output. -/
def Returns (a : XorCall) (rv : Int) (chksum : UInt32) : Prop :=
  ∃ enough, ∀ turns, enough ≤ turns → xorchecksumCall turns a.src a.size a.chksum = .ok (some (rv, chksum))

theorem Returns.unique {rv rv' : Int} {c c' : UInt32} (h : a.Returns rv c) (h' : a.Returns rv' c') :
    rv = rv' ∧ c = c' := by
  rcases h with ⟨enough, h⟩
  rcases h' with ⟨enough', h'⟩
  have hsame := (h (max enough enough') (Nat.le_max_left _ _)).symm.trans
    (h' (max enough enough') (Nat.le_max_right _ _))
  injection hsame with hsame
  injection hsame with hsame
  injection hsame with hrv hc
  exact ⟨hrv, hc⟩

theorem length_data (a : XorCall) : a.data.length = a.size.toNat := by
  unfold data
  rw [List.length_take, Nat.min_eq_left a.fits]

end XorCall

/-- The offset and the remaining size add up to the size of the buffer: the loop combines
the words that are left, one a turn, and stops. -/
theorem xorWhile_eq {buf : List UInt8} (k : Nat) {turns : Nat} {offset size : UInt32} {res : Lanes}
    (hsize : size.toNat = 4 * k) (hsum : offset.toNat + size.toNat < 2 ^ 32)
    (hfits : offset.toNat + size.toNat ≤ buf.length) (hturns : k < turns) :
    xorWhile buf turns offset size res =
      .ok (some (xorLoop ((buf.drop offset.toNat).take size.toNat) res)) := by
  induction k generalizing turns offset size res with
  | zero =>
    rcases Nat.exists_eq_add_of_lt hturns with ⟨turns, rfl⟩
    have hzero : size = 0 := UInt32.toNat_inj.mp hsize
    subst hzero
    unfold xorWhile
    rw [if_neg (not_not_intro rfl)]
    rfl
  | succ k ih =>
    cases turns with
    | zero => exact absurd hturns (Nat.not_lt_zero _)
    | succ turns =>
      have hne : size ≠ 0 := by
        intro hzero
        rw [hzero] at hsize
        exact absurd hsize (by simp)
      obtain ⟨b0, b1, b2, b3, rest, hleft⟩ := @exists_word (buf.drop offset.toNat)
        (by rw [List.length_drop]; omega)
      have hrest : buf.drop (offset + 4).toNat = rest := by
        have hnext : (offset + 4).toNat = offset.toNat + 4 := by
          rw [UInt32.toNat_add]
          exact Nat.mod_eq_of_lt (by simp; omega)
        rw [hnext, ← List.drop_drop, hleft]
        rfl
      have hless : (size - 4).toNat = 4 * k := by
        rw [UInt32.toNat_sub_of_le _ _ (UInt32.le_iff_toNat_le.mpr (by simp; omega))]
        simp only [UInt32.reduceToNat]
        omega
      have hnext : (offset + 4).toNat + (size - 4).toNat = offset.toNat + size.toNat := by
        rw [UInt32.toNat_add, hless]
        simp only [UInt32.reduceToNat]
        omega
      unfold xorWhile
      rw [if_pos hne, load_ok (by omega), bind_ok, ih hless (by omega) (by omega) (by omega), hrest, hless, hleft,
        hsize]
      rfl

/-! ## The result -/

theorem and_three_eq {size : UInt32} : size &&& 3 = 0 ↔ size.toNat % 4 = 0 := by
  rw [← UInt32.toNat_inj, UInt32.toNat_and]
  exact iff_of_eq (congrArg (· = 0) (Nat.and_two_pow_sub_one_eq_mod size.toNat 2))

namespace XorCall

variable {a b : XorCall}

/-- A call for whole words ends with the checksum of its words. -/
theorem returns_of_whole (h : a.Whole) : a.Returns 0 (wordChecksum a.data) := by
  refine ⟨a.size.toNat / 4 + 1, ?_⟩
  intro turns hturns
  have hwords : a.size.toNat = 4 * (a.size.toNat / 4) := by
    unfold Whole at h
    omega
  have hzero : (0 : UInt32).toNat = 0 := rfl
  have hloop : xorWhile a.src turns 0 a.size (0, 0, 0, 0) = .ok (some (xorLoop a.data (0, 0, 0, 0))) := by
    refine xorWhile_eq _ hwords ?_ ?_ hturns
    · rw [hzero, Nat.zero_add]
      exact a.size.toNat_lt
    · rw [hzero, Nat.zero_add]
      exact a.fits
  have hsum := xorLoop_words (a.length_data.symm ▸ h : a.data.length % 4 = 0) 0 0 0 0
  have hstart : leWord 0 0 0 0 = 0 := rfl
  rw [hstart] at hsum
  unfold xorchecksumCall
  rw [if_neg (not_not_intro (and_three_eq.mpr h)), hloop, bind_ok]
  unfold wordChecksum
  rw [← hsum, ← leWord_not]

/-- A call for anything else ends at once and changes nothing. -/
theorem returns_of_not_whole (h : ¬ a.Whole) : a.Returns (-1) a.chksum := by
  refine ⟨0, ?_⟩
  intro turns _
  unfold xorchecksumCall
  rw [if_pos]
  intro hzero
  exact h (and_three_eq.mp hzero)

/-- With its counters, the function does to the buffer what `xorchecksum` says. -/
theorem returns_xorchecksum (a : XorCall) :
    match xorchecksum a.data with
    | some c => a.Returns 0 c
    | none => a.Returns (-1) a.chksum := by
  rw [xorchecksum_eq, a.length_data]
  by_cases hwhole : a.size.toNat % 4 = 0
  · rw [if_pos hwhole]
    exact returns_of_whole hwhole
  · rw [if_neg hwhole]
    exact returns_of_not_whole hwhole

end XorCall

/-! ## The XOR of the words -/

/-- The XOR of the words. -/
def xorWords (l : List UInt32) : UInt32 :=
  l.foldl (· ^^^ ·) 0

theorem foldl_xor (l : List UInt32) (start : UInt32) : l.foldl (· ^^^ ·) start = start ^^^ xorWords l := by
  unfold xorWords
  induction l generalizing start with
  | nil => simp
  | cons w l ih => rw [List.foldl_cons, List.foldl_cons, ih (start ^^^ w), ih (0 ^^^ w), UInt32.zero_xor,
      UInt32.xor_assoc]

theorem xorWords_cons (w : UInt32) (l : List UInt32) : xorWords (w :: l) = w ^^^ xorWords l := by
  have hcons : xorWords (w :: l) = l.foldl (· ^^^ ·) (0 ^^^ w) := rfl
  rw [hcons, UInt32.zero_xor, foldl_xor]

theorem xorWords_append (l l' : List UInt32) : xorWords (l ++ l') = xorWords l ^^^ xorWords l' := by
  have happend : xorWords (l ++ l') = l'.foldl (· ^^^ ·) (xorWords l) := List.foldl_append
  rw [happend, foldl_xor]

theorem xorWords_perm {l l' : List UInt32} (h : l.Perm l') : xorWords l = xorWords l' := by
  induction h with
  | nil => rfl
  | cons w _ ih => rw [xorWords_cons, xorWords_cons, ih]
  | swap w w' l =>
    rw [xorWords_cons, xorWords_cons, xorWords_cons, xorWords_cons, ← UInt32.xor_assoc, ← UInt32.xor_assoc,
      UInt32.xor_comm w' w]
  | trans _ _ ih ih' => exact ih.trans ih'

theorem wordChecksum_not (l : List UInt8) : ~~~wordChecksum l = xorWords (words l) :=
  UInt32.not_not

/-- The words and their checksum give all ones. -/
theorem xorWords_wordChecksum (l : List UInt8) : xorWords (words l) ^^^ wordChecksum l = 0xFFFFFFFF := by
  have hdef : wordChecksum l = ~~~xorWords (words l) := rfl
  rw [hdef, UInt32.xor_not, UInt32.xor_self]
  rfl

theorem words_append {l l' : List UInt8} (h : l.length % 4 = 0) : words (l ++ l') = words l ++ words l' := by
  induction l using words.induct with
  | case1 => rfl
  | case2 b0 => simp at h
  | case3 b0 b1 => simp at h
  | case4 b0 b1 b2 => simp at h
  | case5 b0 b1 b2 b3 rest ih =>
    have hrest : rest.length % 4 = 0 := by
      simp only [List.length_cons] at h
      omega
    exact congrArg (leWord b0 b1 b2 b3 :: ·) (ih hrest)

/-! ## One wrong byte -/

/-- The two sequences differ in exactly one byte. -/
def DifferInOneByte (l l' : List UInt8) : Prop :=
  ∃ before x y after, x ≠ y ∧ l = before ++ x :: after ∧ l' = before ++ y :: after

theorem leWord_injective {b0 b1 b2 b3 c0 c1 c2 c3 : UInt8} (h : leWord b0 b1 b2 b3 = leWord c0 c1 c2 c3) :
    [b0, b1, b2, b3] = [c0, c1, c2, c3] := by
  rw [← bytes32_le32 b0 b1 b2 b3, ← bytes32_le32 c0 c1 c2 c3]
  exact congrArg bytes32 h

/-- The XOR of the words determines the first word, given the words behind it. -/
theorem eq_of_xorWords {l l' : List UInt8} (hl : 4 ≤ l.length) (hl' : 4 ≤ l'.length) (hdrop : l.drop 4 = l'.drop 4)
    (h : xorWords (words l) = xorWords (words l')) : l = l' := by
  rcases exists_word hl with ⟨b0, b1, b2, b3, rest, rfl⟩
  rcases exists_word hl' with ⟨c0, c1, c2, c3, rest', rfl⟩
  have hrest : rest = rest' := hdrop
  subst hrest
  unfold words at h
  rw [xorWords_cons, xorWords_cons] at h
  have hword := leWord_injective ((UInt32.xor_left_inj _).mp h)
  exact congrArg (· ++ rest) hword

/-- A byte can be told from the XOR of the words, given all the others. -/
theorem byte_eq_of_xorWords {before after : List UInt8} {x y : UInt8}
    (hwhole : (before ++ x :: after).length % 4 = 0)
    (h : xorWords (words (before ++ x :: after)) = xorWords (words (before ++ y :: after))) : x = y := by
  have hbytes : before ++ x :: after = before ++ y :: after := by
    induction before using words.induct with
    | case5 b0 b1 b2 b3 rest ih =>
      have hrest : (rest ++ x :: after).length % 4 = 0 := by
        simp only [List.cons_append, List.length_cons] at hwhole
        omega
      have hwords : xorWords (words (rest ++ x :: after)) = xorWords (words (rest ++ y :: after)) := by
        refine (UInt32.xor_right_inj (leWord b0 b1 b2 b3)).mp ?_
        rw [← xorWords_cons, ← xorWords_cons]
        exact h
      exact congrArg (b0 :: b1 :: b2 :: b3 :: ·) (ih hrest hwords)
    -- the byte is in the first word
    | case1 | case2 | case3 | case4 =>
      simp only [List.cons_append, List.nil_append, List.length_cons] at hwhole
      refine eq_of_xorWords ?_ ?_ rfl h <;> (simp only [List.cons_append, List.nil_append, List.length_cons]; omega)
  exact (List.cons.inj (List.append_cancel_left hbytes)).1

/-! ## The laws -/

namespace XorCall

variable {a b ab : XorCall}

/-- The complement of the result of two buffers in a row. -/
theorem append_law (ha : a.Whole) (hb : b.Whole) (hdata : ab.data = a.data ++ b.data) :
    ∃ ca cb cab, a.Returns 0 ca ∧ b.Returns 0 cb ∧ ab.Returns 0 cab ∧ ~~~cab = ~~~ca ^^^ ~~~cb := by
  have hlength : ab.size.toNat = a.size.toNat + b.size.toNat := by
    rw [← ab.length_data, ← a.length_data, ← b.length_data, hdata, List.length_append]
  have hab : ab.Whole := by
    unfold XorCall.Whole at *
    omega
  refine ⟨_, _, _, returns_of_whole ha, returns_of_whole hb, returns_of_whole hab, ?_⟩
  rw [wordChecksum_not, wordChecksum_not, wordChecksum_not, hdata, words_append (a.length_data.symm ▸ ha),
    xorWords_append]

/-- Words in another order have the same result. -/
theorem perm_law (ha : a.Whole) (hb : b.Whole) (hperm : (words a.data).Perm (words b.data)) :
    ∃ c, a.Returns 0 c ∧ b.Returns 0 c := by
  refine ⟨_, returns_of_whole ha, ?_⟩
  have hsame : wordChecksum a.data = wordChecksum b.data := congrArg (~~~·) (xorWords_perm hperm)
  rw [hsame]
  exact returns_of_whole hb

/-- One byte that is different gives another result. -/
theorem oneByte_law (ha : a.Whole) (hsize : a.size = b.size) (hdiffer : DifferInOneByte a.data b.data) :
    ∃ ca cb, a.Returns 0 ca ∧ b.Returns 0 cb ∧ ca ≠ cb := by
  rcases hdiffer with ⟨before, x, y, after, hne, hdata, hdata'⟩
  have hb : b.Whole := by
    unfold XorCall.Whole at ha ⊢
    rw [← hsize]
    exact ha
  refine ⟨_, _, returns_of_whole ha, returns_of_whole hb, ?_⟩
  intro hsame
  have hwords : xorWords (words a.data) = xorWords (words b.data) := by
    rw [← wordChecksum_not, ← wordChecksum_not, hsame]
  have hlength := a.length_data
  rw [hdata] at hlength hwords
  rw [hdata'] at hwords
  exact hne (byte_eq_of_xorWords (hlength ▸ ha) hwords)

end XorCall

/-- `xorchecksum` ends on every buffer. For whole words, the words and the result give all
ones; the complements of the results of two buffers combine to that of the two in a row;
the order of the words does not matter; and one wrong byte changes the result. For any
other size it returns -1 and leaves its output as it is. -/
theorem xorchecksum_laws :
    (∀ a : XorCall, a.Whole → ∃ c, a.Returns 0 c ∧ xorWords (words a.data) ^^^ c = 0xFFFFFFFF) ∧
    (∀ a b ab : XorCall, a.Whole → b.Whole → ab.data = a.data ++ b.data →
      ∃ ca cb cab, a.Returns 0 ca ∧ b.Returns 0 cb ∧ ab.Returns 0 cab ∧ ~~~cab = ~~~ca ^^^ ~~~cb) ∧
    (∀ a b : XorCall, a.Whole → b.Whole → (words a.data).Perm (words b.data) →
      ∃ c, a.Returns 0 c ∧ b.Returns 0 c) ∧
    (∀ a b : XorCall, a.Whole → a.size = b.size → DifferInOneByte a.data b.data →
      ∃ ca cb, a.Returns 0 ca ∧ b.Returns 0 cb ∧ ca ≠ cb) ∧
    (∀ a : XorCall, ¬ a.Whole → a.Returns (-1) a.chksum) ∧
    (∀ (a : XorCall) (rv rv' : Int) (c c' : UInt32), a.Returns rv c → a.Returns rv' c' → rv = rv' ∧ c = c') := by
  refine ⟨?_, ?_, ?_, ?_, ?_, ?_⟩
  · intro a ha
    exact ⟨_, XorCall.returns_of_whole ha, xorWords_wordChecksum a.data⟩
  · intro a b ab ha hb hdata
    exact XorCall.append_law ha hb hdata
  · intro a b ha hb hperm
    exact XorCall.perm_law ha hb hperm
  · intro a b ha hsize hdiffer
    exact XorCall.oneByte_law ha hsize hdiffer
  · intro a ha
    exact XorCall.returns_of_not_whole ha
  · intro a rv rv' c c' h h'
    exact h.unique h'

example : xorchecksumCall 3 [1, 2, 3, 4, 5, 6, 7, 8] 8 0 = .ok (some (0, 0xF3FBFBFB)) := by
  decide

end Hpav
