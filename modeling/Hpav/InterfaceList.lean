import Mathlib.Tactic.Common
import Hpav.Interfaces
import Hpav.Lib.ListSegment
import Hpav.Lib.StableInsert

/-!
# The list of interfaces

`hpav_get_interfaces` copies the devices of pcap into a list of its own, each behind those that
do not come later by the length of the name and then by the name, and `hpav_populate_mac_addr`
unlinks what has no MAC address. The node in front of the one that is unlinked is found by its
number, an `unsigned int`. No more devices come back from pcap than there are numbers
(`Numberable`), and the list holds what it should (`getInterfaces_lists`).
-/

namespace Hpav

open CMem StableInsert

/-! ## The devices -/

/-- `pcap_if_t` -/
structure PcapIf where
  name : CString
  description : Option CString
  flags : UInt32
  deriving DecidableEq, Repr

/-- `struct hpav_if` -/
structure HpavIf where
  name : CString
  description : Option CString
  macAddr : Mac
  deriving DecidableEq, Repr

/-- `PCAP_IF_LOOPBACK` -/
abbrev pcapIfLoopback : UInt32 := 1

/-- The devices that are taken. Loopback is told by the flags as a whole, not by the one bit. -/
def PcapIf.taken (d : PcapIf) : Bool :=
  d.name ≠ text "any" ∧ d.name.take 5 ≠ text "nflog" ∧ d.name.take 6 ≠ text "usbmon" ∧ d.flags ≠ pcapIfLoopback

/-- Six zeros. -/
def zeroMac : Mac :=
  ⟨List.replicate 6 0, List.length_replicate⟩

/-- The copy of a device. -/
def PcapIf.newIf (d : PcapIf) : HpavIf :=
  ⟨d.name, d.description, zeroMac⟩

/-- `strcmp`: the difference of the first characters that differ. -/
def strcmp : CString → CString → Int
  | [], [] => 0
  | [], b :: _ => -(b.toNat : Int)
  | a :: _, [] => a.toNat
  | a :: s, b :: t => if a = b then strcmp s t else (a.toNat : Int) - b.toNat

/-! ## Copying and sorting -/

/-- `new_if` comes in front of the first interface. -/
def comesFirst (newName firstName : CString) : Bool :=
  newName.length < firstName.length ∨ (newName.length = firstName.length ∧ strcmp newName firstName < 0)

/-- The loop goes on behind `cmp_if`. -/
def staysInFront (cmpName newName : CString) : Bool :=
  newName.length > cmpName.length ∨ (newName.length = cmpName.length ∧ strcmp newName cmpName ≥ 0)

/-- The loop that looks for the interface to insert behind. -/
def insertLoop (h : Heap HpavIf) (newName : CString) : Nat → Option Nat → Option Nat →
    Except Fault (Option (Option Nat))
  | 0, _, _ => .ok none
  | _ + 1, prevIf, none => .ok (some prevIf)
  | turns + 1, prevIf, some cmpIf => do
    let cmp ← readNode h (some cmpIf)
    if staysInFront cmp.val.name newName then do
      let prev ← readNode h prevIf
      insertLoop h newName turns prev.next cmp.next
    else .ok (some prevIf)

/-- `new_if` goes into the list: the memory, and `first_if`. -/
def insertIf (h : Heap HpavIf) (firstIf : Option Nat) (newIf : Nat) : Except Fault (Option (Heap HpavIf × Option Nat)) :=
  match firstIf with
  | none => .ok (some (h, some newIf))
  | some _ => do
    let new ← readNode h (some newIf)
    let first ← readNode h firstIf
    if comesFirst new.val.name first.val.name then do
      let h ← setNext h (some newIf) firstIf
      .ok (some (h, some newIf))
    else do
      match ← insertLoop h new.val.name h.length firstIf first.next with
      | none => .ok none
      | some prevIf => do
        let prev ← readNode h prevIf
        let h ← setNext h (some newIf) prev.next
        let h ← setNext h prevIf (some newIf)
        .ok (some (h, firstIf))

/-- The loop over the devices of pcap. -/
def copyInterfaces : List PcapIf → Heap HpavIf → Option Nat → Except Fault (Option (Heap HpavIf × Option Nat))
  | [], h, firstIf => .ok (some (h, firstIf))
  | current :: next, h, firstIf =>
    if current.taken then do
      let (h, newIf) := mallocNode h current.newIf
      match ← insertIf h firstIf newIf with
      | none => .ok none
      | some (h, firstIf) => copyInterfaces next h firstIf
    else copyInterfaces next h firstIf

/-! ## The addresses -/

/-- The interface in front of the current one gets its `next`. -/
def unlinkIf (h : Heap HpavIf) (interfacesList next : Option Nat) (interfaceNum : UInt32) :
    Except Fault (Heap HpavIf × Option Nat) :=
  if interfaceNum = 0 then .ok (h, next)
  else do
    let h ← setNext h (getInterfaceByIndex (listNodes h interfacesList) (interfaceNum - 1)) next
    .ok (h, interfacesList)

/-- The loop of `hpav_populate_mac_addr`. `ioctl` has the answers to the calls one after the
other, of which zeros are left if one fails; the name in a call has up to fifteen characters. -/
def populateLoop (ioctl : Nat → CString → Mac) : Nat → Nat → Heap HpavIf → Option Nat → Option Nat → UInt32 →
    Except Fault (Option (Heap HpavIf × Option Nat))
  | 0, _, _, _, _, _ => .ok none
  | _ + 1, _, h, interfacesList, none, _ => .ok (some (h, interfacesList))
  | turns + 1, call, h, interfacesList, some currentInterface, interfaceNum => do
    let current ← readNode h (some currentInterface)
    let hwaddr := ioctl call (current.val.name.take 15)
    if hwaddr = zeroMac then do
      let (h, interfacesList) ← unlinkIf h interfacesList current.next interfaceNum
      let current ← readNode h (some currentInterface)
      let h ← setNext h (some currentInterface) none
      populateLoop ioctl turns (call + 1) h interfacesList current.next interfaceNum
    else
      populateLoop ioctl turns (call + 1)
        (h.set currentInterface { current with val := { current.val with macAddr := hwaddr } })
        interfacesList current.next (interfaceNum + 1)

/-- `hpav_populate_mac_addr` -/
def hpavPopulateMacAddr (ioctl : Nat → CString → Mac) (h : Heap HpavIf) (interfacesList : Option Nat) :
    Except Fault (Option (Heap HpavIf × Option Nat)) :=
  populateLoop ioctl (h.length + 1) 0 h interfacesList interfacesList 0

/-- `hpav_get_interfaces`, given what `pcap_findalldevs` returns: its value, the memory and the list. -/
def hpavGetInterfaces (findalldevs : Int × List PcapIf) (ioctl : Nat → CString → Mac) :
    Except Fault (Option (Int × Heap HpavIf × Option Nat)) :=
  if findalldevs.1 ≠ 0 then .ok (some (hpavErrorPcapError, [], none))
  else do
    match ← copyInterfaces findalldevs.2 [] none with
    | none => .ok none
    | some (h, firstIf) =>
      match ← hpavPopulateMacAddr ioctl h firstIf with
      | none => .ok none
      | some (h, interfaceList) => .ok (some (0, h, interfaceList))

/-! ## The order of names -/

/-- By the length, then by `strcmp`. -/
def NameLe (x y : CString) : Prop :=
  x.length < y.length ∨ (x.length = y.length ∧ strcmp x y ≤ 0)

/-- Comparing the other way round changes the sign. -/
theorem strcmp_neg (s t : CString) : strcmp t s = -strcmp s t := by
  induction s generalizing t with
  | nil =>
    cases t with
    | nil => rfl
    | cons b t =>
      show (b.toNat : Int) = - -(b.toNat : Int)
      omega
  | cons a s ih =>
    cases t with
    | nil => rfl
    | cons b t =>
      unfold strcmp
      by_cases hab : a = b
      · rw [if_pos hab, if_pos hab.symm]
        exact ih t
      · rw [if_neg hab, if_neg (Ne.symm hab)]
        omega

/-- A name is equal to itself. -/
theorem strcmp_self (s : CString) : strcmp s s = 0 := by
  induction s with
  | nil => rfl
  | cons a s ih =>
    unfold strcmp
    rw [if_pos rfl]
    exact ih

/-- Different bytes are different numbers. -/
theorem toNat_ne {a b : UInt8} (h : a ≠ b) : a.toNat ≠ b.toNat := by
  intro heq
  exact h (UInt8.toNat.inj heq)

/-- Strings of one length are ordered. -/
theorem strcmp_trans {s t u : CString} (hlst : s.length = t.length) (hltu : t.length = u.length)
    (hst : strcmp s t ≤ 0) (htu : strcmp t u ≤ 0) : strcmp s u ≤ 0 := by
  induction s generalizing t u with
  | nil =>
    obtain rfl := List.length_eq_zero_iff.mp hlst.symm
    exact htu
  | cons a s ih =>
    match t, u, hlst, hltu with
    | b :: t, c :: u, hlst, hltu =>
      unfold strcmp at hst htu ⊢
      by_cases hab : a = b
      · rw [if_pos hab] at hst
        subst hab
        by_cases hac : a = c
        · rw [if_pos hac] at htu ⊢
          exact ih (Nat.succ.inj hlst) (Nat.succ.inj hltu) hst htu
        · rw [if_neg hac] at htu ⊢
          exact htu
      · rw [if_neg hab] at hst
        have hless := toNat_ne hab
        by_cases hbc : b = c
        · subst hbc
          rw [if_neg hab]
          exact hst
        · rw [if_neg hbc] at htu
          have hac : a ≠ c := by
            rintro rfl
            have := toNat_ne hbc
            omega
          rw [if_neg hac]
          omega

/-- A name stays in front exactly if it is not behind in the order. -/
theorem staysInFront_iff {x y : CString} : staysInFront x y = true ↔ NameLe x y := by
  have hneg := strcmp_neg x y
  unfold staysInFront NameLe
  rw [decide_eq_true_iff]
  omega

/-- Of two names one comes first exactly if the other does not stay in front. -/
theorem comesFirst_eq (x y : CString) : comesFirst x y = !staysInFront y x := by
  unfold comesFirst staysInFront
  rw [Bool.eq_iff_iff, Bool.not_eq_true', decide_eq_true_iff, decide_eq_false_iff_not]
  omega

/-- Of two names one is not behind the other. -/
theorem nameLe_total (x y : CString) : NameLe x y ∨ NameLe y x := by
  have hneg := strcmp_neg x y
  unfold NameLe
  omega

/-- The order of names is transitive. -/
theorem nameLe_trans {x y z : CString} (hxy : NameLe x y) (hyz : NameLe y z) : NameLe x z := by
  rcases hxy with hxy | ⟨hxy, hcmp⟩
  · refine Or.inl ?_
    rcases hyz with hyz | ⟨hyz, -⟩
    · omega
    · omega
  · rcases hyz with hyz | ⟨hyz, hcmp'⟩
    · refine Or.inl ?_
      omega
    · exact Or.inr ⟨hxy.trans hyz, strcmp_trans hxy hyz hcmp hcmp'⟩

/-- No name is behind itself. -/
theorem nameLe_refl (x : CString) : NameLe x x :=
  Or.inr ⟨rfl, (strcmp_self x).le⟩

/-! ## One insertion -/

/-- The loop ends behind the interfaces that stay in front. -/
theorem insertLoop_eq {h : Heap HpavIf} {nm : Nat → CString} (hnm : ∀ a n, h[a]? = some n → n.val.name = nm a)
    {newName : CString} {bs : List Nat} : ∀ {turns prevIf : Nat} {cmpIf : Option Nat} {prev : Node HpavIf},
      h[prevIf]? = some prev → prev.next = cmpIf → Segment h cmpIf bs none → bs.length < turns →
      insertLoop h newName turns (some prevIf) cmpIf =
        .ok (some (some ((prevIf :: bs.takeWhile fun b => staysInFront (nm b) newName).getLast (List.cons_ne_nil _ _)))) := by
  induction bs with
  | nil =>
    intro turns prevIf cmpIf prev hprev hnext hseg hturns
    obtain rfl := hseg.eq_of_nil
    cases turns with
    | zero => cases hturns
    | succ turns => rfl
  | cons b bs ih =>
    intro turns prevIf cmpIf prev hprev hnext hseg hturns
    cases turns with
    | zero => cases hturns
    | succ turns =>
      cases hseg with
      | @cons _ cmp _ _ hcmp ht =>
        unfold insertLoop
        rw [readNode_some hcmp, bind_ok, hnm b cmp hcmp]
        by_cases hstays : staysInFront (nm b) newName = true
        · rw [if_pos hstays, readNode_some hprev, bind_ok, hnext,
            ih hcmp rfl ht (Nat.lt_of_succ_lt_succ hturns)]
          simp only [List.takeWhile_cons, if_pos hstays, List.getLast_cons_cons]
        · rw [if_neg hstays]
          simp only [List.takeWhile_cons, if_neg hstays, List.getLast_singleton]

/-- A new interface goes behind those that stay in front of it; no name changes. -/
theorem insertIf_eq {h : Heap HpavIf} {nm : Nat → CString} (hnm : ∀ a n, h[a]? = some n → n.val.name = nm a)
    {firstIf : Option Nat} {as : List Nat} {newIf : Nat} {new : Node HpavIf} (hseg : Segment h firstIf as none)
    (hnd : as.Nodup) (hfresh : newIf ∉ as) (hnew : h[newIf]? = some new) (hnull : new.next = none) :
    ∃ h' firstIf', insertIf h firstIf newIf = .ok (some (h', firstIf')) ∧
      Segment h' firstIf' (insertBehind (fun b a => staysInFront (nm b) (nm a)) newIf as) none ∧
      h'.map (·.val) = h.map (·.val) := by
  have hnewName := hnm newIf new hnew
  cases hseg with
  | nil =>
    refine ⟨h, some newIf, rfl, ?_, rfl⟩
    refine .cons hnew ?_
    rw [hnull]
    exact .nil none
  | @cons b first rest _ hfirst ht =>
    obtain ⟨hb, hndrest⟩ := List.nodup_cons.mp hnd
    have hfirstName := hnm b first hfirst
    unfold insertIf
    simp only [readNode_some hnew, readNode_some hfirst, bind_ok, hnewName, hfirstName, comesFirst_eq]
    by_cases hstays : staysInFront (nm b) (nm newIf) = true
    · -- the place is behind some interface of the list
      have hlength : rest.length < h.length := by
        have := length_le_of_nodup hnd (Segment.cons hfirst ht).lt_length
        rwa [List.length_cons] at this
      have hloop := @insertLoop_eq _ _ hnm (nm newIf) _ _ _ _ _ hfirst rfl ht hlength
      have hwhole : b :: rest = (b :: rest.takeWhile fun c => staysInFront (nm c) (nm newIf)) ++
          rest.dropWhile fun c => staysInFront (nm c) (nm newIf) := by
        rw [List.cons_append, List.takeWhile_append_dropWhile]
      have hsegment : Segment h (some b) (b :: rest) none := .cons hfirst ht
      rw [hwhole] at hsegment hnd hfresh
      obtain ⟨prev, h', h'', hprev, hset, hset', hseg, hval⟩ :=
        hsegment.insert_behind (List.cons_ne_nil _ _) hnd hnew hfresh
      refine ⟨h'', some b, ?_, ?_, hval⟩
      · simp only [hstays, Bool.not_true, Bool.false_eq_true, if_false, hloop, bind_ok, readNode_some hprev, hset, hset']
      · rw [insertBehind_eq, List.takeWhile_cons, List.dropWhile_cons, if_pos hstays, if_pos hstays]
        exact hseg
    · -- in front of the list
      obtain ⟨h', hset, hseg, hval⟩ := (Segment.cons hfirst ht).insert_front hnew hfresh
      refine ⟨h', some newIf, ?_, ?_, hval⟩
      · simp only [Bool.not_eq_true _ ▸ hstays, Bool.not_false, if_true, hset, bind_ok]
      · unfold insertBehind
        rw [if_neg hstays]
        exact hseg

/-! ## The sorted list -/

/-- The name of a device by its number. -/
def nameOf (devices : List PcapIf) (a : Nat) : CString :=
  ((devices[a]?).map (·.name)).getD []

/-- A device stays in front of another one. -/
def inFront (devices : List PcapIf) (b a : Nat) : Bool :=
  staysInFront (nameOf devices b) (nameOf devices a)

/-- Of two devices one is in front. -/
theorem inFront_total (devices : List PcapIf) (a b : Nat) : inFront devices a b = true ∨ inFront devices b a = true := by
  unfold inFront
  rw [staysInFront_iff, staysInFront_iff]
  exact nameLe_total _ _

/-- Being in front is handed on. -/
theorem inFront_trans (devices : List PcapIf) (a b c : Nat) (hab : inFront devices a b = true)
    (hbc : inFront devices b c = true) : inFront devices a c = true := by
  unfold inFront at *
  rw [staysInFront_iff] at *
  exact nameLe_trans hab hbc

/-- The first devices are copied, each into the node of its number, and the list is sorted. -/
structure Copied (devices : List PcapIf) (n : Nat) (h : Heap HpavIf) (firstIf : Option Nat) : Prop where
  payloads : h.map (·.val) = (devices.take n).map PcapIf.newIf
  list : Segment h firstIf (insertAll (inFront devices) (List.range n)) none

/-- A node is allocated for each device. -/
theorem Copied.length_eq {devices : List PcapIf} {n : Nat} {h : Heap HpavIf} {firstIf : Option Nat}
    (hc : Copied devices n h firstIf) (hn : n ≤ devices.length) : h.length = n := by
  have hlength := congrArg List.length hc.payloads
  rw [List.length_map, List.length_map, List.length_take] at hlength
  omega

/-- The name of a node is that of its device. -/
theorem name_of_payloads {devices : List PcapIf} {n : Nat} {h : Heap HpavIf}
    (hpayloads : h.map (·.val) = (devices.take n).map PcapIf.newIf) :
    ∀ a node, h[a]? = some node → node.val.name = nameOf devices a := by
  intro a node hnode
  have hget : (h.map (·.val))[a]? = some node.val := by
    rw [List.getElem?_map, hnode]
    rfl
  rw [hpayloads, List.getElem?_map] at hget
  obtain ⟨d, hd, hval⟩ := Option.map_eq_some_iff.mp hget
  have hd' : devices[a]? = some d := by
    rw [List.getElem?_take] at hd
    split at hd
    · exact hd
    · cases hd
  unfold nameOf
  rw [hd', ← hval]
  rfl

/-- No device is sorted in twice. -/
theorem nodup_sorted (devices : List PcapIf) (n : Nat) : (insertAll (inFront devices) (List.range n)).Nodup :=
  (perm_insertAll _).nodup_iff.mpr List.nodup_range

/-- Every device is sorted in. -/
theorem mem_sorted {devices : List PcapIf} {n a : Nat} : a ∈ insertAll (inFront devices) (List.range n) ↔ a < n :=
  (perm_insertAll _).mem_iff.trans List.mem_range

/-- One more device. -/
theorem Copied.insert {devices : List PcapIf} {n : Nat} {h : Heap HpavIf} {firstIf : Option Nat} {d : PcapIf}
    (hc : Copied devices n h firstIf) (hd : devices[n]? = some d) :
    ∃ h' firstIf', insertIf (h ++ [⟨d.newIf, none⟩]) firstIf h.length = .ok (some (h', firstIf')) ∧
      Copied devices (n + 1) h' firstIf' := by
  obtain ⟨hlt, hget⟩ := List.getElem?_eq_some_iff.mp hd
  have hlength := hc.length_eq hlt.le
  have hpayloads : (h ++ [(⟨d.newIf, none⟩ : Node HpavIf)]).map (·.val) = (devices.take (n + 1)).map PcapIf.newIf := by
    rw [List.map_append, hc.payloads, List.take_succ_eq_append_getElem hlt, List.map_append, hget]
    rfl
  have hnew : (h ++ [(⟨d.newIf, none⟩ : Node HpavIf)])[n]? = some ⟨d.newIf, none⟩ := by
    rw [← hlength, List.getElem?_concat_length]
  have hfresh : n ∉ insertAll (inFront devices) (List.range n) := by
    rw [mem_sorted]
    exact lt_irrefl n
  obtain ⟨h', firstIf', hinsert, hseg, hval⟩ := insertIf_eq (name_of_payloads hpayloads) (hc.list.heap_append _)
    (nodup_sorted devices n) hfresh hnew rfl
  refine ⟨h', firstIf', hlength ▸ hinsert, hval.trans hpayloads, ?_⟩
  rw [List.range_succ, insertAll_concat]
  exact hseg

/-- All devices that are taken are copied. -/
theorem copyInterfaces_eq {taken rest : List PcapIf} : ∀ {done : List PcapIf} {h : Heap HpavIf} {firstIf : Option Nat},
    taken = done ++ rest.filter PcapIf.taken → Copied taken done.length h firstIf →
    ∃ h' firstIf', copyInterfaces rest h firstIf = .ok (some (h', firstIf')) ∧
      Copied taken taken.length h' firstIf' := by
  induction rest with
  | nil =>
    intro done h firstIf htaken hc
    rw [List.filter_nil, List.append_nil] at htaken
    exact ⟨h, firstIf, rfl, htaken ▸ hc⟩
  | cons d rest ih =>
    intro done h firstIf htaken hc
    unfold copyInterfaces
    by_cases hd : d.taken = true
    · rw [List.filter_cons_of_pos hd] at htaken
      have hget : taken[done.length]? = some d := by
        rw [htaken, List.getElem?_append_right le_rfl, Nat.sub_self]
        rfl
      obtain ⟨h', firstIf', hinsert, hc'⟩ := hc.insert hget
      obtain ⟨h'', firstIf'', hcopy, hc''⟩ := @ih (done ++ [d]) h' firstIf'
        (by rw [htaken, List.append_assoc, List.singleton_append])
        (by rw [List.length_append, List.length_singleton]; exact hc')
      refine ⟨h'', firstIf'', ?_, hc''⟩
      simp only [if_pos hd, mallocNode, hinsert, bind_ok, hcopy]
    · rw [List.filter_cons_of_neg hd] at htaken
      obtain ⟨h', firstIf', hcopy, hc'⟩ := ih htaken hc
      refine ⟨h', firstIf', ?_, hc'⟩
      rw [if_neg hd]
      exact hcopy

/-! ## Unlinking -/

/-- The loop over the addresses: `kept` are the nodes it went past, `rest` those in front of it. -/
structure Populating (h : Heap HpavIf) (interfacesList firstIf : Option Nat) (kept rest : List Nat) : Prop where
  past : Segment h interfacesList kept firstIf
  left : Segment h firstIf rest none
  nodup : (kept ++ rest).Nodup

/-- The payloads of some nodes. -/
def payloads (h : Heap HpavIf) (as : List Nat) : List HpavIf :=
  as.filterMap fun a => (h[a]?).map (·.val)

/-- The interfaces that have an address, each with the answer to its call. -/
def withMac (ioctl : Nat → CString → Mac) : Nat → List HpavIf → List HpavIf
  | _, [] => []
  | call, current :: rest =>
    if ioctl call (current.name.take 15) = zeroMac then withMac ioctl (call + 1) rest
    else { current with macAddr := ioctl call (current.name.take 15) } :: withMac ioctl (call + 1) rest

/-- The payloads of two parts of a list are put together. -/
theorem payloads_append (h : Heap HpavIf) (as bs : List Nat) : payloads h (as ++ bs) = payloads h as ++ payloads h bs :=
  List.filterMap_append

/-- The payload of the first node is in front. -/
theorem payloads_cons {h : Heap HpavIf} {a : Nat} {n : Node HpavIf} (hn : h[a]? = some n) (as : List Nat) :
    payloads h (a :: as) = n.val :: payloads h as :=
  List.filterMap_cons_some (by rw [hn]; rfl)

/-- The payloads depend on the nodes of the list only. -/
theorem payloads_congr {h h' : Heap HpavIf} {as : List Nat}
    (heq : ∀ a ∈ as, (h'[a]?).map (·.val) = (h[a]?).map (·.val)) : payloads h' as = payloads h as :=
  List.filterMap_congr heq

/-- Another node may be written. -/
theorem payloads_set {h : Heap HpavIf} {a : Nat} {as : List Nat} (ha : a ∉ as) (n : Node HpavIf) :
    payloads (h.set a n) as = payloads h as := by
  apply payloads_congr
  intro b hb
  have hab : a ≠ b := by
    rintro rfl
    exact ha hb
  rw [List.getElem?_set_ne hab]

/-- Changing a link changes no payload. -/
theorem payloads_setNext {h h' : Heap HpavIf} {p q : Option Nat} (hset : setNext h p q = .ok h') (as : List Nat) :
    payloads h' as = payloads h as := by
  apply payloads_congr
  intro a _
  rw [← List.getElem?_map, ← List.getElem?_map, map_val_setNext hset]

/-- An interface with an address is gone past. -/
theorem Populating.keep {h : Heap HpavIf} {interfacesList firstIf : Option Nat} {kept rest : List Nat} {a : Nat}
    {current : Node HpavIf} (hp : Populating h interfacesList firstIf kept (a :: rest)) (hcurrent : h[a]? = some current)
    (v : HpavIf) : Populating (h.set a { current with val := v }) interfacesList current.next (kept ++ [a]) rest := by
  obtain ⟨hpast, hleft, hnodup⟩ := hp
  cases hleft with
  | cons hn ht =>
    obtain rfl := Option.some.inj (hcurrent.symm.trans hn)
    constructor
    · exact (hpast.append (.cons hn (.nil _))).set_val hn v
    · exact ht.set_val hn v
    · rw [List.append_assoc]
      exact hnodup

/-- The number in front of a position, as long as numbers have 32 bits. -/
theorem ofNat_succ_sub_one {n : Nat} (h : n + 1 < 2 ^ 32) :
    UInt32.ofNat (n + 1) ≠ 0 ∧ (UInt32.ofNat (n + 1) - 1).toNat = n := by
  rw [UInt32.ofNat_add]
  constructor
  · intro hzero
    have htoNat := congrArg UInt32.toNat hzero
    rw [← UInt32.ofNat_add, UInt32.toNat_ofNat'] at htoNat
    have htoNat : (n + 1) % 2 ^ 32 = 0 := htoNat
    omega
  · have hone : UInt32.ofNat n + UInt32.ofNat 1 - 1 = UInt32.ofNat n := UInt32.add_sub_cancel _ _
    rw [hone, UInt32.toNat_ofNat']
    omega

/-- The node in front is found by its number and gets its `next`. -/
theorem unlinkIf_behind {h h' : Heap HpavIf} {interfacesList next : Option Nat} {init rest : List Nat} {a b : Nat}
    (hwhole : Segment h interfacesList (init ++ [b] ++ a :: rest) none) (hnodup : (init ++ [b] ++ a :: rest).Nodup)
    (hlength : (init ++ [b] ++ a :: rest).length ≤ 2 ^ 32) (hset : setNext h (some b) next = .ok h') :
    unlinkIf h interfacesList next (UInt32.ofNat (init ++ [b]).length) = .ok (h', interfacesList) := by
  have hnumbers : init.length + 1 < 2 ^ 32 := by
    rw [List.length_append, List.length_cons, List.length_append, List.length_singleton] at hlength
    omega
  obtain ⟨hne, hfront⟩ := ofNat_succ_sub_one hnumbers
  have hprevious : getInterfaceByIndex (listNodes h interfacesList) (UInt32.ofNat (init.length + 1) - 1) = some b := by
    rw [hwhole.listNodes_eq hnodup, byIndex_short hlength, hfront, List.append_assoc,
      List.getElem?_append_right le_rfl, Nat.sub_self]
    rfl
  rw [List.length_append, List.length_singleton]
  unfold unlinkIf
  rw [if_neg hne, hprevious, hset, bind_ok]

/-- One without an address is unlinked, as long as the numbers do. -/
theorem Populating.unlink {h : Heap HpavIf} {interfacesList firstIf : Option Nat} {kept rest : List Nat} {a : Nat}
    {current : Node HpavIf} (hp : Populating h interfacesList firstIf kept (a :: rest)) (hcurrent : h[a]? = some current)
    (hlength : (kept ++ a :: rest).length ≤ 2 ^ 32) :
    ∃ h' interfacesList' h'', unlinkIf h interfacesList current.next (UInt32.ofNat kept.length) = .ok (h', interfacesList') ∧
      readNode h' (some a) = .ok current ∧ setNext h' (some a) none = .ok h'' ∧
      Populating h'' interfacesList' current.next kept rest ∧ ∀ as, payloads h'' as = payloads h as := by
  obtain ⟨hpast, hleft, hnodup⟩ := hp
  obtain ⟨hndkept, hndrest, hdisjoint⟩ := List.nodup_append.mp hnodup
  obtain ⟨harest, hndrest⟩ := List.nodup_cons.mp hndrest
  have hakept : a ∉ kept := fun hmem => hdisjoint a hmem a List.mem_cons_self rfl
  have hndleft : (kept ++ rest).Nodup :=
    List.nodup_append.mpr ⟨hndkept, hndrest, fun b hb c hc => hdisjoint b hb c (List.mem_cons_of_mem a hc)⟩
  have hwhole := hpast.append hleft
  cases hleft with
  | cons hn ht =>
    obtain rfl := Option.some.inj (hcurrent.symm.trans hn)
    rcases List.eq_nil_or_concat kept with rfl | ⟨init, b, rfl⟩
    · -- nothing was kept so far: the list begins behind the node
      refine ⟨h, current.next, _, if_pos rfl, readNode_some hn, setNext_some hn none, ?_, ?_⟩
      · exact ⟨.nil _, ht.set harest _, hndleft⟩
      · exact payloads_setNext (setNext_some hn none)
    · rw [List.concat_eq_append] at *
      obtain ⟨hbinit, hbrest⟩ : b ∉ init ∧ b ∉ rest := by
        constructor
        · intro hmem
          exact (List.nodup_append.mp hndkept).2.2 b hmem b (List.mem_singleton_self b) rfl
        · intro hmem
          exact hdisjoint b (by simp) b (List.mem_cons_of_mem a hmem) rfl
      have hab : b ≠ a := by
        rintro rfl
        exact hakept (by simp)
      obtain ⟨prev, hprev⟩ := hpast.get (List.mem_append_right init (List.mem_singleton_self b))
      obtain ⟨h', hset, hpast', ht'⟩ := hpast.unlink ht hprev hbinit hbrest
      have hh' : h' = h.set b { prev with next := current.next } := by
        rw [setNext_some hprev] at hset
        injection hset with hset
        exact hset.symm
      have hcurrent' : h'[a]? = some current := by
        rw [hh', List.getElem?_set_ne hab]
        exact hn
      refine ⟨h', interfacesList, _, unlinkIf_behind hwhole hnodup hlength hset, readNode_some hcurrent',
        setNext_some hcurrent' none, ?_, ?_⟩
      · exact ⟨hpast'.set hakept _, ht'.set harest _, hndleft⟩
      · intro as
        rw [payloads_setNext (setNext_some hcurrent' none), payloads_setNext hset]

/-- A device with an address is kept, and the loop goes on behind it. -/
theorem populateLoop_keep {ioctl : Nat → CString → Mac} {call a : Nat} {h : Heap HpavIf} {current : Node HpavIf}
    (hcurrent : h[a]? = some current) (hne : ioctl call (current.val.name.take 15) ≠ zeroMac) (turns : Nat)
    (interfacesList : Option Nat) (interfaceNum : UInt32) :
    populateLoop ioctl (turns + 1) call h interfacesList (some a) interfaceNum =
      populateLoop ioctl turns (call + 1)
        (h.set a { current with val := { current.val with macAddr := ioctl call (current.val.name.take 15) } })
        interfacesList current.next (interfaceNum + 1) := by
  rw [populateLoop, readNode_some hcurrent, bind_ok]
  exact if_neg hne

/-- With no more nodes than numbers, what is left in the end is what has an address. -/
theorem populateLoop_eq (ioctl : Nat → CString → Mac) {rest : List Nat} : ∀ {turns : Nat} (call : Nat) {h : Heap HpavIf}
    {interfacesList firstIf : Option Nat} {kept : List Nat}, Populating h interfacesList firstIf kept rest →
    (kept ++ rest).length ≤ 2 ^ 32 → rest.length < turns →
    ∃ h' interfacesList' left,
      populateLoop ioctl turns call h interfacesList firstIf (UInt32.ofNat kept.length) = .ok (some (h', interfacesList')) ∧
      Segment h' interfacesList' left none ∧ left.Nodup ∧
      payloads h' left = payloads h kept ++ withMac ioctl call (payloads h rest) := by
  induction rest with
  | nil =>
    intro turns call h interfacesList firstIf kept hp hlength hturns
    obtain ⟨hpast, hleft, hnodup⟩ := hp
    obtain rfl := hleft.eq_of_nil
    rw [List.append_nil] at hnodup
    cases turns with
    | zero => cases hturns
    | succ turns => exact ⟨h, interfacesList, kept, rfl, hpast, hnodup, (List.append_nil _).symm⟩
  | cons a rest ih =>
    intro turns call h interfacesList firstIf kept hp hlength hturns
    cases turns with
    | zero => cases hturns
    | succ turns =>
      have hturns : rest.length < turns := Nat.lt_of_succ_lt_succ hturns
      obtain ⟨current, hcurrent⟩ := hp.left.get List.mem_cons_self
      obtain rfl : firstIf = some a := by
        cases hp.left
        rfl
      obtain ⟨harest, -⟩ := List.nodup_cons.mp (List.nodup_append.mp hp.nodup).2.1
      have hakept : a ∉ kept := fun hmem =>
        (List.nodup_append.mp hp.nodup).2.2 a hmem a List.mem_cons_self rfl
      rw [payloads_cons hcurrent]
      unfold withMac
      by_cases hzero : ioctl call (current.val.name.take 15) = zeroMac
      · obtain ⟨h', interfacesList', h'', hunlink, hread, hset, hp', hpayloads⟩ := hp.unlink hcurrent hlength
        obtain ⟨g, list, left, hloop, hseg, hnd, hleft⟩ := ih (call + 1) hp'
          (by
            rw [List.length_append, List.length_cons] at hlength
            rw [List.length_append]
            omega) hturns
        refine ⟨g, list, left, ?_, hseg, hnd, ?_⟩
        · rw [populateLoop, readNode_some hcurrent, bind_ok]
          simp only [if_pos hzero, hunlink, bind_ok, hread, hset, hloop]
        · rw [if_pos hzero, hleft, hpayloads, hpayloads]
      · have hp' := hp.keep hcurrent { current.val with macAddr := ioctl call (current.val.name.take 15) }
        obtain ⟨g, list, left, hloop, hseg, hnd, hleft⟩ := ih (call + 1) hp'
          (by
            rw [List.append_assoc]
            exact hlength) hturns
        have hnum : UInt32.ofNat (kept ++ [a]).length = UInt32.ofNat kept.length + 1 := by
          rw [List.length_append, List.length_singleton, UInt32.ofNat_add]
          rfl
        refine ⟨g, list, left, ?_, hseg, hnd, ?_⟩
        · rw [populateLoop_keep hcurrent hzero, ← hnum]
          exact hloop
        · have hself : ∀ n : Node HpavIf, (h.set a n)[a]? = some n := fun n =>
            List.getElem?_set_self (List.getElem?_eq_some_iff.mp hcurrent).1
          rw [if_neg hzero, hleft, payloads_append, payloads_set hakept, payloads_set harest,
            payloads_cons (hself _), List.append_assoc]
          rfl

/-! ## The result -/

/-- What the list of interfaces should be: of the devices that are taken those that have an
address, sorted, and devices of one name in the order of pcap. -/
structure ListsInterfaces (devices : List PcapIf) (ioctl : Nat → CString → Mac) (result : List HpavIf) : Prop where
  entries : ∃ order : List PcapIf, order.Perm (devices.filter PcapIf.taken) ∧
    (∀ name, order.filter (fun d => d.name = name) = (devices.filter PcapIf.taken).filter fun d => d.name = name) ∧
    result = withMac ioctl 0 (order.map PcapIf.newIf)
  sorted : result.Pairwise fun x y => NameLe x.name y.name

/-- The devices in the order of the sorted list. -/
def sortedDevices (taken : List PcapIf) : List PcapIf :=
  (insertAll (inFront taken) (List.range taken.length)).filterMap fun a => taken[a]?

/-- Looking up all positions gives the list. -/
theorem filterMap_range (l : List PcapIf) : (List.range l.length).filterMap (fun a => l[a]?) = l := by
  induction l using List.reverseRecOn with
  | nil => rfl
  | append_singleton l d ih =>
    have hfront : (List.range l.length).filterMap (fun a => (l ++ [d])[a]?) = l := by
      refine Eq.trans (List.filterMap_congr ?_) ih
      intro a ha
      exact List.getElem?_append_left (List.mem_range.mp ha)
    rw [List.length_append, List.length_singleton, List.range_succ, List.filterMap_append, hfront,
      List.filterMap_cons_some (List.getElem?_concat_length), List.filterMap_nil]

/-- The sorted devices are the devices. -/
theorem sortedDevices_perm (taken : List PcapIf) : (sortedDevices taken).Perm taken := by
  have hperm := (@perm_insertAll _ (inFront taken) (List.range taken.length)).filterMap fun a => taken[a]?
  rw [filterMap_range] at hperm
  exact hperm

/-- Devices of one name stay in their order. -/
theorem sortedDevices_filter (taken : List PcapIf) (name : CString) :
    (sortedDevices taken).filter (fun d => d.name = name) = taken.filter fun d => d.name = name := by
  have hfilter : ∀ as : List Nat, (as.filterMap fun a => taken[a]?).filter (fun d => d.name = name) =
      (as.filter fun a => (taken[a]?).any fun d => d.name = name).filterMap fun a => taken[a]? := by
    intro as
    rw [List.filter_filterMap, List.filterMap_filter]
    apply List.filterMap_congr
    intro a _
    cases taken[a]? with
    | none => simp
    | some d => simp [Option.filter]
  have hstable := filter_insertAll (inFront_total taken) (inFront_trans taken) (List.range taken.length)
    (p := fun a => (taken[a]?).any fun d => d.name = name) (by
      intro x y hx hy
      obtain ⟨d, hd, hdname⟩ := Option.any_eq_true _ _ |>.mp hx
      obtain ⟨e, he, hename⟩ := Option.any_eq_true _ _ |>.mp hy
      unfold inFront nameOf
      rw [hd, he, staysInFront_iff]
      have hsame : d.name = e.name := by
        rw [of_decide_eq_true hdname, of_decide_eq_true hename]
      rw [Option.map_some, Option.map_some, Option.getD_some, Option.getD_some, hsame]
      exact nameLe_refl _)
  unfold sortedDevices
  rw [hfilter, hstable, ← hfilter, filterMap_range]

/-- The sorted devices are in the order of their names. -/
theorem sortedDevices_pairwise (taken : List PcapIf) :
    (sortedDevices taken).Pairwise fun d e => NameLe d.name e.name := by
  have hsorted := pairwise_insertAll (inFront_total taken) (inFront_trans taken) (List.range taken.length)
  unfold sortedDevices
  rw [List.pairwise_filterMap]
  refine hsorted.imp ?_
  intro a b hab d hd e he
  unfold inFront nameOf at hab
  rw [hd, he, staysInFront_iff] at hab
  exact hab

/-- The names of the nodes with an address are names of nodes. -/
theorem name_mem_withMac {ioctl : Nat → CString → Mac} {l : List HpavIf} : ∀ {call : Nat} {x : HpavIf},
    x ∈ withMac ioctl call l → ∃ y ∈ l, y.name = x.name := by
  induction l with
  | nil =>
    intro call x hx
    cases hx
  | cons y l ih =>
    intro call x hx
    unfold withMac at hx
    split at hx
    · obtain ⟨z, hz, hname⟩ := ih hx
      exact ⟨z, List.mem_cons_of_mem y hz, hname⟩
    · rcases List.mem_cons.mp hx with rfl | hx
      · exact ⟨y, List.mem_cons_self, rfl⟩
      · obtain ⟨z, hz, hname⟩ := ih hx
        exact ⟨z, List.mem_cons_of_mem y hz, hname⟩

/-- They are in the order they were in. -/
theorem withMac_pairwise (ioctl : Nat → CString → Mac) {l : List HpavIf}
    (h : l.Pairwise fun x y => NameLe x.name y.name) : ∀ call,
    (withMac ioctl call l).Pairwise fun x y => NameLe x.name y.name := by
  induction l with
  | nil =>
    intro call
    exact List.Pairwise.nil
  | cons x l ih =>
    intro call
    obtain ⟨hx, hl⟩ := List.pairwise_cons.mp h
    unfold withMac
    split
    · exact ih hl (call + 1)
    · refine List.pairwise_cons.mpr ⟨?_, ih hl (call + 1)⟩
      intro y hy
      obtain ⟨z, hz, hname⟩ := name_mem_withMac hy
      exact hname ▸ hx z hz

/-- The payloads of the copies are those of the devices. -/
theorem Copied.payloads_eq {taken : List PcapIf} {h : Heap HpavIf} {firstIf : Option Nat}
    (hc : Copied taken taken.length h firstIf) (as : List Nat) :
    Hpav.payloads h as = (as.filterMap fun a => taken[a]?).map PcapIf.newIf := by
  unfold Hpav.payloads
  rw [List.map_filterMap]
  apply List.filterMap_congr
  intro a _
  rw [← List.getElem?_map, hc.payloads, List.take_length, List.getElem?_map]

/-- At first nothing is copied. -/
theorem copied_zero (taken : List PcapIf) : Copied taken 0 [] none :=
  ⟨rfl, .nil none⟩

/-- What is relied on of pcap: the interfaces of the system are numbered by an `int`, so that
no more of them come back than `interface_num` counts. -/
def Numberable (devices : List PcapIf) : Prop :=
  (devices.filter PcapIf.taken).length ≤ 4294967296

/-- For every list that pcap can return, whatever the lookup of the addresses says, the list
of interfaces holds what it should. -/
theorem getInterfaces_lists {devices : List PcapIf} (ioctl : Nat → CString → Mac) (hpcap : Numberable devices) :
    ∃ h interfaceList, hpavGetInterfaces (0, devices) ioctl = .ok (some (0, h, interfaceList)) ∧
      ListsInterfaces devices ioctl (chain h interfaceList) := by
  set taken := devices.filter PcapIf.taken with htaken
  obtain ⟨h, firstIf, hcopy, hcopied⟩ := @copyInterfaces_eq taken devices [] [] none htaken (copied_zero taken)
  have hnodes := hcopied.length_eq le_rfl
  have hperm := @perm_insertAll _ (inFront taken) (List.range taken.length)
  have hcount := hperm.length_eq
  rw [List.length_range] at hcount
  obtain ⟨h', interfaceList, left, hloop, hseg, hnd, hleft⟩ :=
    @populateLoop_eq ioctl (insertAll (inFront taken) (List.range taken.length)) (h.length + 1) 0 h firstIf firstIf []
      ⟨.nil firstIf, hcopied.list, nodup_sorted taken taken.length⟩ (by rw [List.nil_append, hcount]; exact hpcap)
      (by omega)
  have hresult : chain h' interfaceList = withMac ioctl 0 ((sortedDevices taken).map PcapIf.newIf) := by
    rw [hseg.chain_eq hnd]
    show Hpav.payloads h' left = _
    rw [hleft, hcopied.payloads_eq (insertAll (inFront taken) (List.range taken.length))]
    rfl
  refine ⟨h', interfaceList, ?_, ?_, ?_⟩
  · have hloop' : hpavPopulateMacAddr ioctl h firstIf = .ok (some (h', interfaceList)) := hloop
    unfold hpavGetInterfaces
    rw [if_neg (fun hne => hne rfl)]
    simp only [hcopy, bind_ok, hloop']
  · refine ⟨sortedDevices taken, sortedDevices_perm taken, sortedDevices_filter taken, hresult⟩
  · rw [hresult]
    apply withMac_pairwise
    rw [List.pairwise_map]
    exact sortedDevices_pairwise taken

/-- Two devices, of which the one without an address goes. -/
theorem getInterfaces_lists_two : ∃ h interfaceList,
    hpavGetInterfaces (0, [⟨text "wlan0", none, 6⟩, ⟨text "lo", none, 1⟩, ⟨text "eth0", none, 6⟩])
        (fun call _ => if call = 0 then zeroMac else broadcast) = .ok (some (0, h, interfaceList)) ∧
      ListsInterfaces [⟨text "wlan0", none, 6⟩, ⟨text "lo", none, 1⟩, ⟨text "eth0", none, 6⟩]
        (fun call _ => if call = 0 then zeroMac else broadcast) (chain h interfaceList) :=
  getInterfaces_lists _ (by unfold Numberable; decide)

end Hpav
