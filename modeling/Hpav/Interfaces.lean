import Mathlib.Tactic.Common
import Hpav.CommandLine
import Hpav.Lib.Strtoul

/-!
# Choosing an interface

`hpav_get_interface_by_index_or_name` takes its argument for a number if `strtoul` comes to the
end of it. That is so for more than the numerals, and the number is cut down to an
`unsigned int`: `4294967296` is interface 0, and so is the empty text
(`indexOrName_meets_iff`).
-/

namespace Hpav

open CMem CScan CNumeral Decimal

section

variable {α : Type} (name : α → CString)

/-! ## The lists -/

/-- The loop of `hpav_get_interface_by_index`. It does not end with a match. -/
def byIndexLoop (ifNum : UInt32) : List α → UInt32 → Option α → Option α
  | [], _, interfaceResult => interfaceResult
  | currentInterface :: next, interfaceNum, interfaceResult =>
    byIndexLoop ifNum next (interfaceNum + 1)
      (if interfaceNum = ifNum then some currentInterface else interfaceResult)

/-- `hpav_get_interface_by_index`, on the nodes of a list. -/
def getInterfaceByIndex (interfaces : List α) (ifNum : UInt32) : Option α :=
  byIndexLoop ifNum interfaces 0 none

/-- The loop of `hpav_get_interface_by_name`. -/
def byNameLoop (ifName : CString) : List α → UInt32 → Option (α × UInt32)
  | [], _ => none
  | currentInterface :: next, interfaceNum =>
    if name currentInterface = ifName then some (currentInterface, interfaceNum)
    else byNameLoop ifName next (interfaceNum + 1)

/-- `hpav_get_interface_by_name`: the interface, and what is stored in `if_num`. -/
def getInterfaceByName (interfaces : List α) (ifName : CString) : Option (α × UInt32) :=
  byNameLoop name ifName interfaces 0

/-- What `hpav_get_interface_by_index_or_name` returns and stores; `none` leaves `if_num` alone. -/
structure IndexOrName (α : Type) where
  iface : Option α
  wasIndex : Bool
  ifNum : Option UInt32

/-- `hpav_get_interface_by_index_or_name` -/
def indexOrName (interfaces : List α) (arg : CString) : IndexOrName α :=
  let (number, endptr) := strtoul arg
  -- an `unsigned long` goes into an `unsigned int`
  let ifNumber := UInt32.ofNat number
  if endptr = [] then ⟨getInterfaceByIndex interfaces ifNumber, true, some ifNumber⟩
  else
    match getInterfaceByName name interfaces arg with
    | none => ⟨none, false, none⟩
    | some (iface, ifNum) => ⟨some iface, false, some ifNum⟩

/-- The loop of `dump_interfaces`: the number that is printed with each interface. -/
def dumpLoop : List α → UInt32 → List (UInt32 × α)
  | [], _ => []
  | currentInterface :: next, interfaceNum => (interfaceNum, currentInterface) :: dumpLoop next (interfaceNum + 1)

/-- `dump_interfaces` -/
def dumpInterfaces (interfaces : List α) : List (UInt32 × α) :=
  dumpLoop interfaces 0

/-! ## What a choice should be -/

/-- A numeral chooses by position, any other text by name; the number that is stored is the one
under which the interface is listed. -/
structure IndexOrNameMeets (interfaces : List α) (arg : CString) : Prop where
  numeral : ∀ n, Numeral arg n → (indexOrName name interfaces arg).iface = interfaces[n]?
  other : (∀ n, ¬ Numeral arg n) →
    (indexOrName name interfaces arg).iface = interfaces.find? fun p => name p = arg
  reported : ∀ p, (indexOrName name interfaces arg).iface = some p →
    ∃ k, (indexOrName name interfaces arg).ifNum = some k ∧ (k, p) ∈ dumpInterfaces interfaces

/-- The last of the positions that have a number, if numbers have 32 bits. -/
structure LastNumbered (length m j : Nat) : Prop where
  lt : j < length
  mod : j % 2 ^ 32 = m
  last : length ≤ j + 2 ^ 32

/-- The first position that has a name. -/
structure FirstNamed (interfaces : List α) (arg : CString) (j : Nat) : Prop where
  named : ∃ p, interfaces[j]? = some p ∧ name p = arg
  first : ∀ i < j, ∀ p, interfaces[i]? = some p → name p ≠ arg

/-- The condition under which a number of 32 bits, the last position it stands for, is the choice
that the text asks for. -/
structure ChoosesRight (interfaces : List α) (arg : CString) : Prop where
  numeral : ∀ n, Numeral arg n →
    if n < interfaces.length then LastNumbered interfaces.length (min n (2 ^ 64 - 1) % 2 ^ 32) n
    else interfaces.length ≤ min n (2 ^ 64 - 1) % 2 ^ 32
  other : (∀ n, ¬ Numeral arg n) → ∀ v, UnsignedText arg v →
    ∀ j, FirstNamed name interfaces arg j ↔ LastNumbered interfaces.length (v % 2 ^ 32) j

/-! ## By index -/

variable {name}

/-- Counting on wraps like counting. -/
theorem add_one_ofNat (k : UInt32) (n : Nat) : k + 1 + UInt32.ofNat n = k + UInt32.ofNat (n + 1) := by
  rw [UInt32.ofNat_add, UInt32.add_assoc, UInt32.add_comm 1]
  rfl

/-- The loop over two parts is one loop after the other. -/
theorem byIndexLoop_append (ifNum : UInt32) (xs ys : List α) (interfaceNum : UInt32) (interfaceResult : Option α) :
    byIndexLoop ifNum (xs ++ ys) interfaceNum interfaceResult =
      byIndexLoop ifNum ys (interfaceNum + UInt32.ofNat xs.length) (byIndexLoop ifNum xs interfaceNum interfaceResult) := by
  induction xs generalizing interfaceNum interfaceResult with
  | nil =>
    show _ = byIndexLoop ifNum ys (interfaceNum + 0) interfaceResult
    rw [UInt32.add_zero]
    rfl
  | cons x xs ih =>
    rw [List.cons_append, byIndexLoop, ih, add_one_ofNat]
    rfl

/-- The last interface is the result if its number matches, whatever was found before. -/
theorem getInterfaceByIndex_concat (xs : List α) (x : α) (ifNum : UInt32) :
    getInterfaceByIndex (xs ++ [x]) ifNum =
      if UInt32.ofNat xs.length = ifNum then some x else getInterfaceByIndex xs ifNum := by
  unfold getInterfaceByIndex
  rw [byIndexLoop_append, UInt32.zero_add]
  rfl

/-- A 32-bit number is the count modulo 2^32. -/
theorem ofNat_eq_iff (n : Nat) (k : UInt32) : UInt32.ofNat n = k ↔ n % 2 ^ 32 = k.toNat := by
  rw [← UInt32.toNat_inj, UInt32.toNat_ofNat']

/-- The last position with the number is chosen. -/
theorem getInterfaceByIndex_last {xs : List α} {ifNum : UInt32} {j : Nat}
    (h : LastNumbered xs.length ifNum.toNat j) : getInterfaceByIndex xs ifNum = xs[j]? := by
  -- on the list from its end, as the later match wins
  induction xs using List.reverseRecOn with
  | nil => exact absurd h.lt (Nat.not_lt_zero j)
  | append_singleton xs x ih =>
    have hlt := h.lt
    have hlast := h.last
    have hmod := h.mod
    rw [List.length_append, List.length_singleton] at hlt hlast
    rw [getInterfaceByIndex_concat]
    by_cases hend : j = xs.length
    · rw [if_pos ((ofNat_eq_iff _ _).mpr (hend ▸ hmod)), hend, List.getElem?_concat_length]
    · rw [if_neg (by rw [ofNat_eq_iff]; omega), List.getElem?_append_left (by omega)]
      exact ih ⟨by omega, hmod, by omega⟩

/-- Beyond the end no interface is chosen. -/
theorem getInterfaceByIndex_none {xs : List α} {ifNum : UInt32} (h : xs.length ≤ ifNum.toNat) :
    getInterfaceByIndex xs ifNum = none := by
  induction xs using List.reverseRecOn with
  | nil => rfl
  | append_singleton xs x ih =>
    have hnum := ifNum.toNat_lt
    rw [List.length_append, List.length_singleton] at h
    rw [getInterfaceByIndex_concat, if_neg (by rw [ofNat_eq_iff]; omega)]
    exact ih (by omega)

/-- A number is that of some position, or there are not so many. -/
theorem lastNumbered_or_le (length : Nat) {m : Nat} (hm : m < 2 ^ 32) :
    (∃ j, LastNumbered length m j) ∨ length ≤ m := by
  by_cases hle : length ≤ m
  · exact Or.inr hle
  · refine Or.inl ⟨m + 2 ^ 32 * ((length - 1 - m) / 2 ^ 32), ?_, ?_, ?_⟩
    · omega
    · omega
    · omega

/-- There is one last position with a number. -/
theorem LastNumbered.unique {length m j k : Nat} (hj : LastNumbered length m j) (hk : LastNumbered length m k) :
    j = k := by
  have := hj.lt
  have := hj.mod
  have := hj.last
  have := hk.lt
  have := hk.mod
  have := hk.last
  omega

/-! ## By name -/

/-- The loop finds the first interface with the name. -/
theorem byNameLoop_eq (ifName : CString) (xs : List α) (interfaceNum : UInt32) :
    (byNameLoop name ifName xs interfaceNum).map (·.1) = xs.find? fun p => name p = ifName := by
  induction xs generalizing interfaceNum with
  | nil => rfl
  | cons x xs ih =>
    unfold byNameLoop
    by_cases hname : name x = ifName
    · rw [if_pos hname, List.find?_cons_of_pos (by simpa using hname)]
      rfl
    · rw [if_neg hname, List.find?_cons_of_neg (by simpa using hname)]
      exact ih _

/-- The choice by name is the first interface with it. -/
theorem byName_iface (interfaces : List α) (arg : CString) :
    (match getInterfaceByName name interfaces arg with
      | none => (⟨none, false, none⟩ : IndexOrName α)
      | some (iface, ifNum) => ⟨some iface, false, some ifNum⟩).iface = interfaces.find? fun p => name p = arg := by
  rw [← byNameLoop_eq arg interfaces 0]
  unfold getInterfaceByName
  rcases byNameLoop name arg interfaces 0 with _ | ⟨p, k⟩
  · rfl
  · rfl

/-- The number that is stored is the one that is printed with the interface. -/
theorem mem_dumpLoop_of_byNameLoop {ifName : CString} {xs : List α} {interfaceNum k : UInt32} {p : α}
    (h : byNameLoop name ifName xs interfaceNum = some (p, k)) : (k, p) ∈ dumpLoop xs interfaceNum := by
  induction xs generalizing interfaceNum with
  | nil => cases h
  | cons x xs ih =>
    unfold byNameLoop at h
    unfold dumpLoop
    split at h
    · injection h with h
      injection h with hp hk
      rw [hp, hk]
      exact List.mem_cons_self
    · exact List.mem_cons_of_mem _ (ih h)

/-- Every interface is dumped with its number. -/
theorem mem_dumpLoop {xs : List α} {interfaceNum : UInt32} {j : Nat} {p : α} (h : xs[j]? = some p) :
    (interfaceNum + UInt32.ofNat j, p) ∈ dumpLoop xs interfaceNum := by
  induction xs generalizing interfaceNum j with
  | nil => simp at h
  | cons x xs ih =>
    unfold dumpLoop
    cases j with
    | zero =>
      obtain rfl : x = p := by simpa using h
      have hnum : interfaceNum + UInt32.ofNat 0 = interfaceNum := UInt32.add_zero _
      rw [hnum]
      exact List.mem_cons_self
    | succ j =>
      rw [← add_one_ofNat]
      exact List.mem_cons_of_mem _ (ih (by simpa using h))

/-- The first interface with a name is found. -/
theorem find?_eq_some_of_firstNamed {interfaces : List α} {arg : CString} {j : Nat}
    (h : FirstNamed name interfaces arg j) : interfaces.find? (fun p => name p = arg) = interfaces[j]? := by
  obtain ⟨p, hp, hname⟩ := h.named
  obtain ⟨hlt, hget⟩ := List.getElem?_eq_some_iff.mp hp
  rw [hp, List.find?_eq_some_iff_getElem]
  refine ⟨by simpa using hname, j, hlt, hget, ?_⟩
  intro i hi
  have hfirst := h.first i hi _ (List.getElem?_eq_getElem (by omega))
  simpa using hfirst

/-- What is found is the first interface with the name. -/
theorem firstNamed_of_find? {interfaces : List α} {arg : CString} {p : α}
    (h : interfaces.find? (fun p => name p = arg) = some p) : ∃ j, FirstNamed name interfaces arg j ∧ interfaces[j]? = some p := by
  obtain ⟨hname, j, hlt, hget, hfirst⟩ := List.find?_eq_some_iff_getElem.mp h
  have hp : interfaces[j]? = some p := List.getElem?_eq_some_iff.mpr ⟨hlt, hget⟩
  refine ⟨j, ⟨⟨p, hp, by simpa using hname⟩, ?_⟩, hp⟩
  intro i hi q hq
  obtain ⟨hilt, higet⟩ := List.getElem?_eq_some_iff.mp hq
  have hnot := hfirst i hi
  rw [higet] at hnot
  simpa using hnot

/-! ## Where the choice is the one that is asked for -/

/-- A text that `strtoul` takes whole is an index. -/
theorem indexOrName_of_unsigned {interfaces : List α} {arg : CString} {v : Nat} (h : UnsignedText arg v) :
    indexOrName name interfaces arg =
      ⟨getInterfaceByIndex interfaces (UInt32.ofNat v), true, some (UInt32.ofNat v)⟩ := by
  unfold indexOrName
  rw [strtoul_iff.mpr h]
  exact if_pos rfl

/-- Any other text is a name, and the number is the one that is dumped. -/
theorem indexOrName_of_not_unsigned {interfaces : List α} {arg : CString} (h : ∀ v, ¬ UnsignedText arg v) :
    (indexOrName name interfaces arg).iface = interfaces.find? (fun p => name p = arg) ∧
      ∀ p, (indexOrName name interfaces arg).iface = some p →
        ∃ k, (indexOrName name interfaces arg).ifNum = some k ∧ (k, p) ∈ dumpInterfaces interfaces := by
  have hend : (strtoul arg).2 ≠ [] := by
    intro hnil
    refine h (strtoul arg).1 (strtoul_iff.mp ?_)
    rw [← hnil]
  have hfind := @byNameLoop_eq _ name arg interfaces 0
  unfold indexOrName getInterfaceByName
  simp only [if_neg hend]
  cases hloop : byNameLoop name arg interfaces 0 with
  | none =>
    rw [hloop] at hfind
    refine ⟨hfind, ?_⟩
    intro p hp
    cases hp
  | some found =>
    obtain ⟨q, k⟩ := found
    rw [hloop] at hfind
    refine ⟨hfind, ?_⟩
    intro p hp
    injection hp with hp
    subst hp
    exact ⟨k, rfl, mem_dumpLoop_of_byNameLoop hloop⟩

/-- Whatever is chosen by index is listed under the number that is stored. -/
theorem reported_of_unsigned {interfaces : List α} {arg : CString} {v : Nat} (h : UnsignedText arg v) {p : α}
    (hp : (indexOrName name interfaces arg).iface = some p) :
    ∃ k, (indexOrName name interfaces arg).ifNum = some k ∧ (k, p) ∈ dumpInterfaces interfaces := by
  rw [indexOrName_of_unsigned h] at hp ⊢
  refine ⟨_, rfl, ?_⟩
  rcases lastNumbered_or_le interfaces.length (UInt32.ofNat v).toNat_lt with ⟨j, hj⟩ | hle
  · have hchosen := getInterfaceByIndex_last hj
    have hmem := @mem_dumpLoop _ _ 0 _ _ (hchosen.symm.trans hp)
    rw [UInt32.zero_add, (ofNat_eq_iff j _).mpr hj.mod] at hmem
    exact hmem
  · have hnone := getInterfaceByIndex_none hle
    rw [show getInterfaceByIndex interfaces (UInt32.ofNat v) = some p from hp] at hnone
    cases hnone

/-- With different nodes a number chooses a position exactly if it is the last one it stands for. -/
theorem byIndex_eq_iff {interfaces : List α} (hnodes : interfaces.Nodup) (v : Nat) {j : Nat}
    (hlt : j < interfaces.length) : getInterfaceByIndex interfaces (UInt32.ofNat v) = interfaces[j]? ↔
      LastNumbered interfaces.length (v % 2 ^ 32) j := by
  have hv : (UInt32.ofNat v).toNat = v % 2 ^ 32 := UInt32.toNat_ofNat'
  constructor
  · intro h
    rcases lastNumbered_or_le interfaces.length (UInt32.ofNat v).toNat_lt with ⟨k, hk⟩ | hle
    · have hsame := (getInterfaceByIndex_last hk).symm.trans h
      rw [List.getElem?_eq_getElem hk.lt, List.getElem?_eq_getElem hlt] at hsame
      obtain rfl := (hnodes.getElem_inj_iff).mp (Option.some.inj hsame)
      exact hv ▸ hk
    · rw [getInterfaceByIndex_none hle, List.getElem?_eq_getElem hlt] at h
      cases h
  · intro h
    exact getInterfaceByIndex_last (hv.symm ▸ h)

/-- No interface is chosen exactly if the number modulo 2^32 is behind the list. -/
theorem byIndex_none_iff (interfaces : List α) (v : Nat) :
    getInterfaceByIndex interfaces (UInt32.ofNat v) = none ↔ interfaces.length ≤ v % 2 ^ 32 := by
  have hv : (UInt32.ofNat v).toNat = v % 2 ^ 32 := UInt32.toNat_ofNat'
  constructor
  · intro h
    rcases lastNumbered_or_le interfaces.length (UInt32.ofNat v).toNat_lt with ⟨j, hj⟩ | hle
    · rw [getInterfaceByIndex_last hj, List.getElem?_eq_getElem hj.lt] at h
      cases h
    · exact hv ▸ hle
  · intro h
    exact getInterfaceByIndex_none (hv.symm ▸ h)

/-- With no more nodes than numbers, a number is a position. -/
theorem byIndex_short {interfaces : List α} (hlength : interfaces.length ≤ 2 ^ 32) (ifNum : UInt32) :
    getInterfaceByIndex interfaces ifNum = interfaces[ifNum.toNat]? := by
  have hnum := ifNum.toNat_lt
  by_cases hlt : ifNum.toNat < interfaces.length
  · exact getInterfaceByIndex_last ⟨hlt, Nat.mod_eq_of_lt hnum, by omega⟩
  · rw [getInterfaceByIndex_none (by omega), List.getElem?_eq_none (by omega)]

/-- A numeral chooses the interface at its value exactly if the wrapped number does. -/
theorem numeral_iff {interfaces : List α} (hnodes : interfaces.Nodup) {arg : CString} {n : Nat} (h : Numeral arg n) :
    (indexOrName name interfaces arg).iface = interfaces[n]? ↔
      if n < interfaces.length then LastNumbered interfaces.length (min n (2 ^ 64 - 1) % 2 ^ 32) n
      else interfaces.length ≤ min n (2 ^ 64 - 1) % 2 ^ 32 := by
  rw [indexOrName_of_unsigned h.unsignedText]
  by_cases hlt : n < interfaces.length
  · rw [if_pos hlt]
    exact byIndex_eq_iff hnodes _ hlt
  · rw [if_neg hlt, List.getElem?_eq_none (by omega)]
    exact byIndex_none_iff interfaces _

/-- A text that is no numeral but taken for one chooses by name only if its number says the
same. -/
theorem other_iff {interfaces : List α} (hnodes : interfaces.Nodup) {arg : CString} {v : Nat} (h : UnsignedText arg v) :
    (indexOrName name interfaces arg).iface = interfaces.find? (fun p => name p = arg) ↔
      ∀ j, FirstNamed name interfaces arg j ↔ LastNumbered interfaces.length (v % 2 ^ 32) j := by
  rw [indexOrName_of_unsigned h]
  show getInterfaceByIndex interfaces (UInt32.ofNat v) = _ ↔ _
  cases hfind : interfaces.find? (fun p => name p = arg) with
  | none =>
    have hunnamed : ∀ j, ¬ FirstNamed name interfaces arg j := by
      intro j hj
      obtain ⟨p, hp, -⟩ := hj.named
      have hfound := find?_eq_some_of_firstNamed hj
      rw [hfind, hp] at hfound
      cases hfound
    rw [byIndex_none_iff]
    constructor
    · intro hle j
      refine iff_of_false (hunnamed j) ?_
      intro hj
      have := hj.lt
      have := hj.mod
      have := Nat.mod_le j (2 ^ 32)
      omega
    · intro hall
      rcases lastNumbered_or_le interfaces.length (Nat.mod_lt v (by decide : 0 < 2 ^ 32)) with ⟨j, hj⟩ | hle
      · exact absurd ((hall j).mpr hj) (hunnamed j)
      · exact hle
  | some p =>
    obtain ⟨j, hj, hp⟩ := firstNamed_of_find? hfind
    have hlt := (List.getElem?_eq_some_iff.mp hp).1
    rw [← hp, byIndex_eq_iff hnodes v hlt]
    constructor
    · intro hlast k
      constructor
      · intro hk
        -- there is one first position
        obtain rfl : j = k := by
          by_contra hne
          obtain ⟨q, hq, hname⟩ := hk.named
          obtain ⟨r, hr, hname'⟩ := hj.named
          rcases Nat.lt_or_gt_of_ne hne with hless | hless
          · exact hk.first j hless r hr hname'
          · exact hj.first k hless q hq hname
        exact hlast
      · intro hk
        exact hk.unique hlast ▸ hj
    · intro hall
      exact (hall j).mp hj

/-- The choice is the one that is asked for exactly if a text that `strtoul` takes to its end
stands, in 32 bits, for the position that is meant. -/
theorem indexOrName_meets_iff {interfaces : List α} (hnodes : interfaces.Nodup) (arg : CString) :
    IndexOrNameMeets name interfaces arg ↔ ChoosesRight name interfaces arg := by
  constructor
  · intro h
    constructor
    · intro n hn
      exact (numeral_iff hnodes hn).mp (h.numeral n hn)
    · intro hnot v hv
      exact (other_iff hnodes hv).mp (h.other hnot)
  · intro h
    have hcases : (∃ v, UnsignedText arg v) ∨ ∀ v, ¬ UnsignedText arg v := by
      rw [← not_exists]
      exact Classical.em _
    constructor
    · intro n hn
      exact (numeral_iff hnodes hn).mpr (h.numeral n hn)
    · intro hnot
      rcases hcases with ⟨v, hv⟩ | hname
      · exact (other_iff hnodes hv).mpr (h.other hnot v hv)
      · exact (indexOrName_of_not_unsigned hname).1
    · rcases hcases with ⟨v, hv⟩ | hname
      · intro p hp
        exact reported_of_unsigned hv hp
      · exact (indexOrName_of_not_unsigned hname).2

end

/-! ## The command line -/

/-- In a list of no more interfaces than there are numbers the choice is that of the command line. -/
theorem getInterfaceByIndexOrName_eq {interfaces : List Interface} (hlength : interfaces.length ≤ 2 ^ 32)
    (arg : CString) :
    getInterfaceByIndexOrName interfaces arg = (indexOrName Interface.name interfaces arg).iface := by
  unfold getInterfaceByIndexOrName indexOrName strtoul
  rcases takeSign (arg.dropWhile isSpace) with ⟨negative, -, digits⟩
  simp only
  by_cases hds : digits.takeWhile isDigit = []
  · have hvalue : toUnsignedLong negative (value []) = 0 := by cases negative <;> rfl
    simp only [hds, if_true, hvalue]
    split
    · exact (byIndex_short hlength _).symm
    · exact (byName_iface interfaces arg).symm
  · simp only [if_neg hds]
    split
    · exact (byIndex_short hlength _).symm
    · exact (byName_iface interfaces arg).symm

/-- The number and the name of the second of two interfaces. -/
theorem indexOrName_meets_second :
    IndexOrNameMeets (fun p : CString => p) [text "eth0", text "wlan0"] (text "1") ∧
      IndexOrNameMeets (fun p : CString => p) [text "eth0", text "wlan0"] (text "wlan0") := by
  have hnodup : [text "eth0", text "wlan0"].Nodup := by decide
  constructor
  · have hnumeral : Numeral (text "1") 1 := ⟨by decide, List.all_eq_true.mp rfl, rfl⟩
    apply (indexOrName_meets_iff hnodup (text "1")).mpr
    constructor
    · intro n hn
      obtain rfl : 1 = n := hn.value_eq
      exact ⟨by decide, by decide, by decide⟩
    · intro hnot
      exact absurd hnumeral (hnot 1)
  · -- a name: `strtoul` stops in front of its first letter
    apply (indexOrName_meets_iff hnodup (text "wlan0")).mpr
    constructor
    · intro n hn
      exact absurd (hn.digits 119 (by decide)) (by decide)
    · intro _ v hv
      have hrest : (strtoul (text "wlan0")).2 = [] := by rw [strtoul_iff.mpr hv]
      exact absurd hrest (by decide)

/-- `4294967296` is taken for interface 0. -/
theorem largeNumeral_not_meets : ¬ ∀ (α : Type) (name : α → CString) (interfaces : List α), interfaces.Nodup →
    ∀ arg, IndexOrNameMeets name interfaces arg := by
  intro h
  have hmeets := h CString (fun p => p) [text "eth0"] (List.nodup_singleton _) (text "4294967296")
  have hnumeral : Numeral (text "4294967296") 4294967296 := ⟨by decide, List.all_eq_true.mp rfl, rfl⟩
  have hnone := hmeets.numeral _ hnumeral
  rw [indexOrName_of_unsigned hnumeral.unsignedText] at hnone
  exact absurd hnone (by decide)

end Hpav
