import Mathlib.Tactic.Common
import Hpav.Lib.Reclaim
import Hpav.GroupList
import Hpav.SendReport

/-!
# The memory of an exchange

Everything `HPAV_MME_SNDRCV_IMPL` and the exchanges written out by hand allocate on the way to a
response: the packet of the request and its data, the frame that is sent, the frames `rx_callback`
keeps, both levels of the group list, the packets and their data. `exchangeMemory` is the exchange
with all of it on heaps, and with the calls that give it back. It ends as `exchange` does, and on
every way out nothing is left of what it allocated (`exchangeMemory_reclaims`). The response, which
belongs to the caller, and the errors are not part of it. Nor is `hpav_cm_set_key_encrypted_sndrcv`:
around such an exchange it gives back only the frame it built for the request, and leaks the packets,
the encrypted messages and the frame it decrypts.
-/

namespace Hpav

open CMem Grouping

/-! ## Giving memory back -/

/-- `hpav_free_eth_frames` -/
def freeEthFrames (turns : Nat) (frames : Option Nat) (c : Cells EthFrame) : Except Fault (Option (Cells EthFrame)) :=
  freeList turns frames c

/-- Packets by their `data` pointers, and the buffers these point at. -/
structure PacketCells where
  packets : Cells (Option Nat)
  data : Cells (List UInt8)

/-- The nodes of some packets, by their `data` pointers: the data of a packet is allocated right
behind the packet, so that both have the same number. -/
def packetNodes (packets : Heap MmePacket) : Heap (Option Nat) :=
  packets.mapIdx fun i node => ⟨some i, node.next⟩

def dataNodes (packets : Heap MmePacket) : Heap (List UInt8) :=
  packets.map fun node => ⟨node.val.data, none⟩

/-- The memory of some packets, of which nothing was given back. -/
def packetCells (packets : Heap MmePacket) : PacketCells :=
  ⟨cells (packetNodes packets), cells (dataNodes packets)⟩

/-- `hpav_free_mme_packets`: the data goes before its packet. -/
def freeMmePackets (turns : Nat) (packets : Option Nat) (c : PacketCells) : Except Fault (Option PacketCells) := do
  match ← freeLoop (freeOwned fun data => [data]) turns packets c.packets c.data with
  | none => return none
  | some (packets, data) => return some ⟨packets, data⟩

/-- `hpav_defrag_free_groups` -/
def defragFreeGroups (turns : Nat) (groups : Option Nat) (c : Cells (Option Nat)) :
    Except Fault (Option (Cells (Option Nat))) :=
  freeList turns groups c

/-- `hpav_defrag_free_group_list`: the groups of a node go before the node. -/
def defragFreeGroupList (turns : Nat) (groupList : Option Nat) (lists groups : Cells (Option Nat)) :
    Except Fault (Option (Cells (Option Nat) × Cells (Option Nat))) :=
  freeLoop (defragFreeGroups turns) turns groupList lists groups

/-! ## The exchange -/

/-- What is in use of the memory of an exchange. -/
structure ExchangeMemory where
  tx : PacketCells
  txFrames : Cells EthFrame
  rxFrames : Cells EthFrame
  lists : Cells (Option Nat)
  groups : Cells (Option Nat)
  rx : PacketCells

/-- Nothing was allocated but what was sent. -/
def ExchangeMemory.sent (tx : PacketCells) (txFrames : Cells EthFrame) : ExchangeMemory :=
  ⟨tx, txFrames, [], [], [], ⟨[], []⟩⟩

def PacketCells.Reclaimed (c : PacketCells) : Prop :=
  CMem.Reclaimed c.packets ∧ CMem.Reclaimed c.data

/-- Everything was given back. -/
structure ExchangeMemory.Reclaimed (memory : ExchangeMemory) : Prop where
  tx : memory.tx.Reclaimed
  txFrames : CMem.Reclaimed memory.txFrames
  rxFrames : CMem.Reclaimed memory.rxFrames
  lists : CMem.Reclaimed memory.lists
  groups : CMem.Reclaimed memory.groups
  rx : memory.rx.Reclaimed

/-- `hpav_defrag_frames`: the packets, and what it leaves of the group list. -/
def defragMemory (turns : Nat) (frames : Heap EthFrame) (currentFrame : Option Nat) :
    Except Fault (Option (DefragState × Cells (Option Nat) × Cells (Option Nat))) := do
  match ← GroupMemory.regroupFrames turns frames currentFrame with
  | none => return none
  | some m => do
    let s ← (m.framesAt frames (some 0)).foldlM defragGroup DefragState.init
    match ← defragFreeGroupList turns (some 0) (cells m.listHeap) (cells m.groupHeap) with
    | none => return none
    | some (lists, groups) => return some (s, lists, groups)

/-- The receiving loop, with the frames that were kept when it ended, and whether it ended with an
error of pcap. -/
def dispatchCapture (enough : CallbackData → Bool) : List PcapEvent → Capture → Except Fault (Capture × Bool)
  | [], c => .ok (c, false)
  | .packets captured :: rest, c => do
    let c ← captured.foldlM rxCallback c
    if (captured ≠ [] ∧ enough c.user) ∨ c.user.stop then .ok (c, false) else dispatchCapture enough rest c
  | .error :: _, c => .ok (c, true)
  | .breakLoop :: rest, c => if c.user.stop then .ok (c, false) else dispatchCapture enough rest c

/-- The receiving half of an exchange. The response is decoded between the last two calls. -/
def receiveMemory {α : Type} (turns : Nat) (call : Call) (expected : Expected α) (events : List PcapEvent)
    (memory : ExchangeMemory) : Except Fault (Option (Int × ExchangeMemory)) := do
  let (c, failed) ← dispatchCapture expected.enough events
    (Capture.start call.macAddr call.staMacAddr expected.mmtype expected.numFragments)
  if failed then
    match ← freeEthFrames turns c.user.rxFrames (cells c.heap) with
    | none => return none
    | some rxFrames => return some (hpavErrorPcapError, { memory with rxFrames })
  else
    match ← defragMemory turns c.heap c.user.rxFrames with
    | none => return none
    | some (s, lists, groups) =>
      match ← freeEthFrames turns c.user.rxFrames (cells c.heap) with
      | none => return none
      | some rxFrames =>
        match ← freeMmePackets turns s.newPackets (packetCells s.heap) with
        | none => return none
        | some rx => return some (hpavOk, { memory with rxFrames, lists, groups, rx })

/-- `hpav_build_frames` returns the only frame, or NULL. -/
def framesPtr (frames : List EthFrame) : Option Nat :=
  if frames.isEmpty then none else some 0

/-- A return behind the sending loop or in front of it: `hpav_free_eth_frames(tx_frames)`. -/
def leaveSent (turns : Nat) (tx : PacketCells) (txFrames : List EthFrame) (result : Int) :
    Except Fault (Option (Int × ExchangeMemory)) := do
  match ← freeEthFrames turns (framesPtr txFrames) (cells (nodes txFrames)) with
  | none => return none
  | some txFrames => return some (result, ExchangeMemory.sent tx txFrames)

/-- The body of an exchange. -/
def exchangeMemory {α : Type} (turns : Nat) (call : Call) (txMmePacket : Except Fault MmePacket)
    (expected : Expected α) (pcap : PcapRun) : Except Fault (Option (Int × ExchangeMemory)) := do
  let packet ← txMmePacket
  let txFrames ← buildFrames packet ethFrameMinSize
  match ← freeMmePackets turns (some 0) (packetCells [⟨packet, none⟩]) with
  | none => return none
  | some tx =>
    if pcap.compile = -1 then leaveSent turns tx txFrames hpavErrorPcapError
    else if pcap.setfilter = -1 then leaveSent turns tx txFrames hpavErrorPcapError
    else
      let (_, result) := sendFrames pcap txFrames 0
      if result ≠ hpavOk then leaveSent turns tx txFrames result
      else if call.timeoutMs > 0 then
        match ← freeEthFrames turns (framesPtr txFrames) (cells (nodes txFrames)) with
        | none => return none
        | some txFrames => receiveMemory turns call expected pcap.dispatches (ExchangeMemory.sent tx txFrames)
      else leaveSent turns tx txFrames hpavOk

/-! ## Packets -/

/-- The packets are linked as their cells are. -/
theorem path_packetNodes {packets : Heap MmePacket} {p : Option Nat} {as : List Nat} {ps : List MmePacket}
    (hp : Path packets p as ps) : Path (packetNodes packets) p as (as.map some) := by
  induction hp with
  | nil => exact .nil
  | @cons a n as ps hn _ ih =>
    have hnode : (packetNodes packets)[a]? = some ⟨some a, n.next⟩ := by
      rw [packetNodes, List.getElem?_mapIdx, hn]
      rfl
    exact .cons hnode ih

/-- Packets that fill their heap are given back with their data. -/
theorem freeMmePackets_reclaims {packets : Heap MmePacket} {p last : Option Nat} {ps : List MmePacket}
    (hl : Linked packets p last ps) (hlength : packets.length = ps.length) {turns : Nat} (hturns : ps.length < turns) :
    ∃ c, freeMmePackets turns p (packetCells packets) = .ok (some c) ∧ c.Reclaimed := by
  rcases hl with ⟨as, hp, hnd, -⟩
  have hnodes := path_packetNodes hp
  have hall := forall_mem_of_length_eq hnd hp.lt_length (hp.length_eq.trans hlength.symm)
  have howned : ((as.map some).flatMap fun data => [data]).filterMap id = as := by
    rw [List.flatMap_singleton', List.filterMap_map]
    exact List.filterMap_some
  have hdata : ∀ a ∈ as, a < (dataNodes packets).length := by
    intro a ha
    rw [dataNodes, List.length_map]
    exact hp.lt_length a ha
  have hgone : ∀ a ∈ as, a ∉ ([] : List Nat) := fun a _ => List.not_mem_nil
  have hgives := gives_freeOwned (howned.symm ▸ hnd) (howned.symm ▸ hgone) (howned.symm ▸ hdata)
  rw [howned] at hgives
  have hloop : freeLoop (freeOwned fun data => [data]) turns p (packetCells packets).packets
      (packetCells packets).data =
      .ok (some (wipe as (cells (packetNodes packets)), wipe as (cells (dataNodes packets)))) :=
    hnodes.freeLoop_eq hnd hgone (hp.length_eq ▸ hturns) hgives
  refine ⟨⟨wipe as (cells (packetNodes packets)), wipe as (cells (dataNodes packets))⟩, ?_, ?_, ?_⟩
  · unfold freeMmePackets
    rw [hloop, bind_ok]
    rfl
  · rw [reclaimed_wipe_iff, packetNodes, List.length_mapIdx]
    exact hall
  · rw [reclaimed_wipe_iff, dataNodes, List.length_map]
    exact hall

/-- The packets chained so far are all that were allocated. -/
structure Packed (s : DefragState) (ps : List MmePacket) : Prop where
  length_eq : s.heap.length = ps.length
  linked : ∃ last, Linked s.heap s.newPackets last ps ∧ (s.lastPacket = last ∨ s.lastPacket = none)

/-- At first there is no packet. -/
theorem packed_init : Packed DefragState.init [] :=
  ⟨rfl, none, Linked.nil _, Or.inl rfl⟩

/-- A packet more is in memory behind the others. -/
theorem Packed.addPacket {s s' : DefragState} {ps : List MmePacket} (h : Packed s ps) {newMmePacket : Option MmePacket}
    (hadd : addPacket s newMmePacket = .ok s') : Packed s' (ps ++ newMmePacket.toList) := by
  rcases h with ⟨hlength, last, hl, hlast⟩
  unfold Hpav.addPacket mallocNode at hadd
  rcases hnew : s.newPackets with _ | new
  · -- the first packet, or still none
    have hps : ps = [] := hl.head_none_iff.mp hnew
    subst hps
    rcases newMmePacket with _ | packet
    · simp only [hnew, Except.ok.injEq] at hadd
      rw [← hadd]
      exact ⟨hlength, none, Linked.nil _, Or.inl rfl⟩
    · simp only [hnew, Except.ok.injEq] at hadd
      rw [← hadd]
      refine ⟨?_, _, Linked.singleton s.heap packet, Or.inl rfl⟩
      rw [List.length_append, hlength]
      rfl
  · have hne : ps ≠ [] := fun hps => absurd (hl.head_none_iff.mpr hps) (by rw [hnew]; exact Option.some_ne_none new)
    rcases hlast with hlast | hnone
    · rcases newMmePacket with _ | packet
      · -- a group that failed: the pointer to the last packet is lost
        simp only [hnew, hlast, hl.terminate hne, bind_ok] at hadd
        injection hadd with hadd
        rw [← hadd, Option.toList_none, List.append_nil]
        exact ⟨hlength, last, hnew ▸ hl, Or.inr rfl⟩
      · rcases hl.link hne packet with ⟨heap, hset, hheap, hlinked⟩
        simp only [hnew, hlast, hset, bind_ok] at hadd
        injection hadd with hadd
        rw [← hadd]
        refine ⟨?_, _, hnew ▸ hlinked, Or.inl rfl⟩
        rw [hheap, hlength, Option.toList_some, List.length_append]
        rfl
    · -- no group gets through after that
      rcases newMmePacket with _ | packet
      · simp only [hnew, hnone] at hadd
        cases hadd
      · simp only [hnew, hnone] at hadd
        cases hadd

/-- Every run of the loop that ends leaves packets that are in memory. -/
theorem Packed.run {s s' : DefragState} {ps : List MmePacket} (h : Packed s ps) {gs : List Group}
    (hrun : gs.foldlM defragGroup s = .ok s') : ∃ ps', Packed s' ps' := by
  induction gs generalizing s ps with
  | nil =>
    injection hrun with hrun
    exact ⟨ps, hrun ▸ h⟩
  | cons g gs ih =>
    rw [List.foldlM_cons] at hrun
    rcases bind_eq_ok.mp hrun with ⟨s₁, hgroup, hrest⟩
    unfold defragGroup at hgroup
    split at hgroup
    · injection hgroup with hgroup
      exact ih (hgroup ▸ h) hrest
    · rcases bind_eq_ok.mp hgroup with ⟨newMmePacket, -, hadd⟩
      exact ih (h.addPacket hadd) hrest

/-! ## The group list -/

namespace GroupMemory

variable {frames : Heap EthFrame} {added : List (Fin frames.length)} {m m' : GroupMemory}

/-- There are as many nodes as frames, and as many nodes of the group list as keys. -/
structure Filled (frames : Heap EthFrame) (added : List (Fin frames.length)) (m : GroupMemory) : Prop where
  groups : m.groupHeap.length = added.length
  lists : m.listHeap.length = max 1 (firstKeys (keyAt frames) added).length

/-- At first there is a list node, and no frame. -/
theorem filled_start (frames : Heap EthFrame) : Filled frames [] start :=
  ⟨rfl, rfl⟩

/-- Changing a link allocates nothing. -/
theorem length_setNext {α : Type} {h h' : Heap α} {p q : Option Nat} (hset : setNext h p q = .ok h') :
    h'.length = h.length := by
  have hval := congrArg List.length (map_val_setNext hset)
  rwa [List.length_map, List.length_map] at hval

/-- A group that was found gets a node. -/
theorem addNode_lengths {turns : Nat} {groupFound frame : Option Nat}
    (h : addNode turns m groupFound frame = .ok (some m')) :
    m'.groupHeap.length = m.groupHeap.length + 1 ∧ m'.listHeap = m.listHeap := by
  unfold addNode mallocNode at h
  rcases exists_some_of_bind h (fun hnone => by cases hnone) with ⟨lastGroup, -, h⟩
  rcases bind_eq_ok.mp h with ⟨groups, hset, hm⟩
  injection hm with hm
  injection hm with hm
  rw [← hm]
  refine ⟨?_, rfl⟩
  rw [length_setNext hset, List.length_append, List.length_singleton]

/-- Behind a node that has a group, a new group gets a node of its own and one of the list. -/
theorem addGroup_lengths {l group : Nat} {node : Node (Option Nat)} {frame : Option Nat}
    (hnode : m.listHeap[l]? = some node) (hgroup : node.val = some group) (h : addGroup m (some l) frame = .ok m') :
    m'.groupHeap.length = m.groupHeap.length + 1 ∧ m'.listHeap.length = m.listHeap.length + 1 := by
  rcases hset : setNext (m.listHeap ++ [⟨some m.groupHeap.length, none⟩]) (some l) (some m.listHeap.length) with
    e | lists
  · unfold addGroup mallocNode at h
    simp only [readNode_some hnode, bind_ok, hgroup, hset] at h
    cases h
  · rw [addGroup_eq hnode hgroup hset] at h
    injection h with h
    rw [← h]
    refine ⟨?_, ?_⟩
    · rw [List.length_append, List.length_singleton]
    · rw [length_setNext hset, List.length_append, List.length_singleton]

/-- The last node of the group list names a group. -/
theorem Held.last_names {chainOf : FrameKey → Chain (Option Nat)} (hm : Held frames added m chainOf)
    (hheads : (firstKeys (keyAt frames) added).map (fun k => (chainOf k).head) ≠ []) {last : Option Nat}
    (hlinked : Linked m.listHeap (some 0) last ((firstKeys (keyAt frames) added).map fun k => (chainOf k).head)) :
    ∃ l node group, last = some l ∧ m.listHeap[l]? = some node ∧ node.val = some group := by
  rcases hlinked.last_some hheads with ⟨l, -, rfl, -⟩
  rcases hlinked with ⟨nodes, hpath, -, hl⟩
  rcases hpath.at_last hl with ⟨node, hnode, -, hval⟩
  rcases List.mem_map.mp (List.mem_of_getLast? hval) with ⟨k, hk, hkval⟩
  rcases hm.ends hk with ⟨b, -, hb, -⟩
  exact ⟨l, node, b, rfl, hnode, by rw [← hkval, hb]⟩

/-- A frame more takes a node, and one of the list if its key is new. -/
theorem Filled.step (hm : Reached frames added m) (hf : Filled frames added m) (a : Fin frames.length) {turns : Nat}
    (hturns : added.length + 2 ≤ turns)
    (hadd : defragAddToGroupList turns frames m (some 0) (framePtr a) = .ok (some m')) :
    Filled frames (added ++ [a]) m' := by
  rcases hm with ⟨rfl, rfl⟩ | ⟨hadded, chainOf, hm⟩
  · rcases Nat.exists_eq_add_of_le' hturns with ⟨turns, rfl⟩
    have hfirst : defragAddToGroupList (turns + 2) frames start (some 0) (framePtr a) =
        .ok (some ⟨[⟨framePtr a, none⟩], [⟨some 0, none⟩]⟩) := rfl
    rw [show ([] : List (Fin frames.length)).length + 2 = 2 from rfl, hfirst] at hadd
    injection hadd with hadd
    injection hadd with hadd
    rw [← hadd]
    refine ⟨rfl, ?_⟩
    rw [List.nil_append, firstKeys_singleton]
    rfl
  · rcases hm.searchLoop_eq a with ⟨last, hlinked, hsearch⟩
    have hlength : (added ++ [a]).length = added.length + 1 := by rw [List.length_append, List.length_singleton]
    unfold defragAddToGroupList at hadd
    rw [hsearch turns hturns, bind_ok] at hadd
    by_cases hseen : keyAt frames a ∈ firstKeys (keyAt frames) added
    · -- the keys and the list stay as they are
      rcases hm.ends hseen with ⟨b, -, hb, -⟩
      rw [if_pos hseen, hb] at hadd
      rcases addNode_lengths hadd with ⟨hgroups, hlists⟩
      refine ⟨?_, ?_⟩
      · rw [hgroups, hf.groups, hlength]
      · rw [hlists, hf.lists, firstKeys_snoc_of_mem hseen]
    · have hheads : (firstKeys (keyAt frames) added).map (fun k => (chainOf k).head) ≠ [] := by
        rcases List.exists_mem_of_ne_nil added hadded with ⟨x, hx⟩
        exact List.ne_nil_of_mem (List.mem_map_of_mem (mem_firstKeys.mpr ⟨x, hx, rfl⟩))
      rcases hm.last_names hheads hlinked with ⟨l, node, group, rfl, hnode, hgroup⟩
      rw [if_neg hseen] at hadd
      rcases bind_eq_ok.mp hadd with ⟨m₁, hgroupAdded, hm₁⟩
      injection hm₁ with hm₁
      injection hm₁ with hm₁
      subst hm₁
      rcases addGroup_lengths hnode hgroup hgroupAdded with ⟨hgroups, hlists⟩
      have hpos : 0 < (firstKeys (keyAt frames) added).length :=
        List.length_pos_iff.mpr (fun hnil => hheads (by rw [hnil]; rfl))
      refine ⟨?_, ?_⟩
      · rw [hgroups, hf.groups, hlength]
      · rw [hlists, hf.lists, firstKeys_snoc_of_not_mem hseen, List.length_append, List.length_singleton]
        omega

/-- All frames of a sequence. -/
theorem Filled.run (hm : Reached frames added m) (hf : Filled frames added m) (rest : List (Fin frames.length)) :
    ∃ m', Reached frames (added ++ rest) m' ∧ Filled frames (added ++ rest) m' ∧
      ∀ turns, (added ++ rest).length + 2 ≤ turns →
        addFrames turns frames (some 0) (rest.map framePtr) m = .ok (some m') := by
  induction rest generalizing added m with
  | nil =>
    rw [List.append_nil]
    exact ⟨m, hm, hf, fun turns _ => rfl⟩
  | cons a rest ih =>
    rcases hm.step a with ⟨m₁, hm₁, hadd⟩
    have hf₁ := hf.step hm a (Nat.le_refl _) (hadd _ (Nat.le_refl _))
    rcases ih hm₁ hf₁ with ⟨m', hm', hf', hrest⟩
    rw [List.append_assoc, List.singleton_append] at hm' hf' hrest
    refine ⟨m', hm', hf', ?_⟩
    intro turns hturns
    have hadded : added.length + 2 ≤ turns := by
      rw [List.length_append] at hturns
      omega
    rw [List.map_cons]
    unfold addFrames
    rw [hadd turns hadded, bind_ok]
    exact hrest turns hturns

/-- The nodes of the chains are all nodes there are. -/
theorem Held.mem_nodes {chainOf : FrameKey → Chain (Option Nat)} (hm : Held frames added m chainOf)
    (hf : Filled frames added m) :
    ∀ i < m.groupHeap.length, i ∈ ((firstKeys (keyAt frames) added).map chainOf).flatMap Chain.nodes := by
  refine forall_mem_of_length_eq hm.chains.nodup hm.chains.lt_length ?_
  have hnodes : ∀ k ∈ firstKeys (keyAt frames) added,
      (chainOf k).nodes.length = (classOf (keyAt frames) added k).length := by
    intro k hk
    rw [(hm.path hk).length_eq, List.length_map]
  rw [hf.groups, ← (flatten_groups_perm (keyAt frames) added).length_eq, List.length_flatMap, List.length_flatten,
    groups, List.map_map, List.map_map]
  exact congrArg List.sum (List.map_congr_left hnodes)

/-- `hpav_defrag_free_group_list` gives back both levels of the list. -/
theorem Reached.freeGroupList_reclaims (hm : Reached frames added m) (hf : Filled frames added m) {turns : Nat}
    (hturns : added.length + 2 ≤ turns) :
    ∃ lists groups, defragFreeGroupList turns (some 0) (cells m.listHeap) (cells m.groupHeap) =
      .ok (some (lists, groups)) ∧ Reclaimed lists ∧ Reclaimed groups := by
  rcases hm with ⟨rfl, rfl⟩ | ⟨hadded, chainOf, hm⟩
  · -- the node allocated at first, without a group
    have htwo : 2 ≤ turns := hturns
    rcases Nat.exists_eq_add_of_le' htwo with ⟨turns, rfl⟩
    have hfree : defragFreeGroupList (turns + 2) (some 0) (cells start.listHeap) (cells start.groupHeap) =
        .ok (some ([none], [])) := rfl
    refine ⟨[none], [], hfree, ?_, ?_⟩
    · intro cell hcell
      exact List.mem_singleton.mp hcell
    · intro cell hcell
      cases hcell
  · rcases hm.lists with ⟨last, nodes, hpath, hnd, -⟩
    have hlength := hpath.length_eq
    rw [List.length_map] at hlength
    have hkeys := length_groups_le (keyAt frames) added
    rw [groups, List.length_map] at hkeys
    have hpos : 0 < (firstKeys (keyAt frames) added).length := by
      rcases List.exists_mem_of_ne_nil added hadded with ⟨x, hx⟩
      exact List.length_pos_of_mem (mem_firstKeys.mpr ⟨x, hx, rfl⟩)
    have hshort : ∀ c ∈ (firstKeys (keyAt frames) added).map chainOf, c.nodes.length < turns := by
      intro c hc
      rcases List.mem_map.mp hc with ⟨k, hk, rfl⟩
      have hle := hm.length_nodes_le hk
      omega
    have hgives := hm.chains.gives (fun a _ => List.not_mem_nil (a := a)) hshort
    rw [List.map_map] at hgives
    have hgone : ∀ a ∈ nodes, a ∉ ([] : List Nat) := fun a _ => List.not_mem_nil
    have hloop := hpath.freeLoop_eq hnd hgone (show nodes.length < turns by omega) hgives
    refine ⟨_, _, hloop, ?_, ?_⟩
    · refine hpath.reclaimed hnd ?_
      rw [hf.lists, List.length_map]
      omega
    · rw [List.nil_append, reclaimed_wipe_iff]
      exact hm.mem_nodes hf

end GroupMemory

/-! ## `hpav_defrag_frames` -/

/-- In memory `hpav_defrag_frames` comes to the packets that `defragFrames` computes, chained and
alone on their heap, and gives the group list back; or it fails as that does. -/
theorem defragMemory_cases {frames : Heap EthFrame} {p last : Option Nat} {xs : List EthFrame}
    (hframes : Linked frames p last xs) {turns : Nat} (hturns : xs.length + 2 ≤ turns) :
    (∃ s lists groups last', defragMemory turns frames p = .ok (some (s, lists, groups)) ∧ Reclaimed lists ∧
        Reclaimed groups ∧ s.heap.length = (chain s.heap s.newPackets).length ∧
        Linked s.heap s.newPackets last' (chain s.heap s.newPackets) ∧
        defragFrames xs = .ok (chain s.heap s.newPackets)) ∨
      ∃ e, defragMemory turns frames p = .error e ∧ defragFrames xs = .error e := by
  rcases hframes with ⟨as, hpath, -, -⟩
  have hlength := hpath.length_eq
  rcases GroupMemory.exists_added hpath with ⟨added, has, rfl⟩
  rw [List.length_map] at hlength hturns
  rcases (GroupMemory.filled_start frames).run (GroupMemory.reached_start frames) added with ⟨m, hm, hf, hrun⟩
  rw [List.nil_append] at hm hf hrun
  have hregroup : GroupMemory.regroupFrames turns frames p = .ok (some m) := by
    unfold GroupMemory.regroupFrames
    rw [GroupMemory.frameLoop_eq _ _ hpath (by omega), has]
    exact hrun turns hturns
  have hgroups : groupFrames (added.map fun a => (frames.get a).val) = .ok (m.framesAt frames (some 0)) := by
    rw [hm.framesAt_eq]
    exact GroupMemory.groupFrames_partsOf frames added
  unfold defragMemory defragFrames
  rw [hregroup, hgroups, bind_ok, bind_ok]
  rcases hs : (m.framesAt frames (some 0)).foldlM defragGroup DefragState.init with e | s
  · right
    exact ⟨e, by simp only [hs]; rfl, rfl⟩
  · left
    rcases hm.freeGroupList_reclaims hf hturns with ⟨lists, groups, hfree, hlists, hgroups'⟩
    rcases packed_init.run hs with ⟨ps, hpacked, last', hlinked, -⟩
    have hchain := hlinked.chain_eq
    refine ⟨s, lists, groups, last', ?_, hlists, hgroups', ?_, ?_, ?_⟩
    · simp only [hs, bind_ok, hfree]
      rfl
    · rw [hchain]
      exact hpacked
    · rw [hchain]
      exact hlinked
    · rw [bind_ok]
      rfl

/-! ## The frames received -/

/-- The frames kept so far are chained, and no other was allocated. -/
def AllChained (c : Capture) : Prop :=
  ∃ frames, FramesChained c frames ∧ c.heap.length = frames.length

/-- At the start every frame received is chained, as there is none. -/
theorem allChained_start (host sta : Mac) (type : UInt16) (numFragments : UInt32) :
    AllChained (Capture.start host sta type numFragments) :=
  ⟨[], Linked.nil _, rfl⟩

/-- A frame that is kept takes one node. -/
theorem length_keepFrame {c c' : Capture} {frame : EthFrame} {fn : UInt32} (h : keepFrame c frame fn = .ok c') :
    c'.heap.length = c.heap.length + 1 := by
  unfold keepFrame mallocNode at h
  simp only at h
  split at h
  · rcases bind_eq_ok.mp h with ⟨heap, hset, hc⟩
    injection hc with hc
    rw [← hc]
    show heap.length = c.heap.length + 1
    rw [GroupMemory.length_setNext hset, List.length_append, List.length_singleton]
  · cases h
    exact List.length_append

/-- A batch keeps it so. -/
theorem AllChained.batch {c c' : Capture} {packets : List (List UInt8)} (htype : c.user.type ≠ 0) (h : AllChained c)
    (hrun : packets.foldlM rxCallback c = .ok c') : AllChained c' ∧ c'.user.type = c.user.type := by
  rcases h with ⟨frames, hchained, hlength⟩
  have hlegal := legal_of_foldlM hrun
  rcases @rx_run c.user.srcMacAddr c.user.type
      (fun d frames' => SameFilter c d ∧ FramesChained d frames' ∧ d.heap.length = frames'.length) packets
      (fun hd => ⟨hd.1.srcMacAddr, hd.1.type⟩)
      (by
        intro d frames' packetData hpacket hwanted hd
        rcases hd with ⟨hsame, hd, hcount⟩
        have htype' : d.user.type ≠ 0 := hsame.type ▸ htype
        rcases keepFrame_chained htype' hd (EthFrame.ofCapture packetData (hpacket.area hwanted))
          (packetData.getD 17 0 &&& 0xF).toUInt32 with ⟨d', hkeep, hsame', hd'⟩
        refine ⟨d', hkeep, hsame.trans hsame', hd', ?_⟩
        rw [length_keepFrame hkeep, hcount, List.length_append, List.length_singleton])
      hlegal c frames ⟨SameFilter.refl c, hchained, hlength⟩ with ⟨d, hd, hsame, hchained', hlength'⟩
  obtain rfl : d = c' := Except.ok.inj (hd.symm.trans hrun)
  exact ⟨⟨_, hchained', hlength'⟩, hsame.type⟩

/-- The receiving loop, with the frames it leaves. -/
theorem dispatchCapture_eq {enough : CallbackData → Bool} (events : List PcapEvent) (c : Capture) :
    dispatchLoop enough events c =
      (dispatchCapture enough events c).map fun r => if r.2 then none else some r.1 := by
  induction events generalizing c with
  | nil => rfl
  | cons event events ih =>
    cases event with
    | packets captured =>
      unfold dispatchLoop dispatchCapture
      rcases captured.foldlM rxCallback c with e | c'
      · rfl
      · rw [bind_ok, bind_ok]
        split
        · rfl
        · exact ih c'
    | error => rfl
    | breakLoop =>
      unfold dispatchLoop dispatchCapture
      split
      · rfl
      · exact ih c

/-- The loop leaves every frame it received in the chain. -/
theorem AllChained.dispatchCapture {enough : CallbackData → Bool} {events : List PcapEvent} {c c' : Capture}
    {failed : Bool} (htype : c.user.type ≠ 0) (h : AllChained c)
    (hrun : dispatchCapture enough events c = .ok (c', failed)) : AllChained c' := by
  induction events generalizing c with
  | nil =>
    injection hrun with hrun
    injection hrun with hc
    exact hc ▸ h
  | cons event events ih =>
    cases event with
    | packets captured =>
      unfold Hpav.dispatchCapture at hrun
      rcases bind_eq_ok.mp hrun with ⟨c₁, hbatch, hrest⟩
      rcases h.batch htype hbatch with ⟨h₁, htype₁⟩
      split at hrest
      · injection hrest with hrest
        injection hrest with hc
        exact hc ▸ h₁
      · exact ih (htype₁ ▸ htype) h₁ hrest
    | error =>
      injection hrun with hrun
      injection hrun with hc
      exact hc ▸ h
    | breakLoop =>
      unfold Hpav.dispatchCapture at hrun
      split at hrun
      · injection hrun with hrun
        injection hrun with hc
        exact hc ▸ h
      · exact ih htype h hrun

/-- The chain holds the frames received, in order. -/
theorem AllChained.receivedFrames_eq {c : Capture} {frames : List EthFrame} (h : FramesChained c frames) :
    receivedFrames c = frames :=
  Linked.chain_eq h

/-! ## The two halves -/

/-- The memory comes with a result, and nothing of it is in use. -/
def EndsReclaimed (attempt : Except Fault (Option (Int × ExchangeMemory))) (result : Int) : Prop :=
  ∃ memory, attempt = .ok (some (result, memory)) ∧ memory.Reclaimed

/-- What is received goes back, the frames as well as all that is made of them. -/
theorem receiveMemory_cases {α : Type} {call : Call} {expected : Expected α} (behind : Nat → UInt8)
    (events : List PcapEvent) (htype : expected.mmtype ≠ 0) :
    ∃ turns, ∀ more memory, memory.Reclaimed →
      (∃ result response, receiveMmes call expected behind events = .ok (result, response) ∧
        EndsReclaimed (receiveMemory (turns + more) call expected events memory) result) ∨
      ∃ e, receiveMmes call expected behind events = .error e ∧
        receiveMemory (turns + more) call expected events memory = .error e := by
  unfold receiveMmes receiveMemory
  rw [dispatchCapture_eq]
  generalize hstart : Capture.start call.macAddr call.staMacAddr expected.mmtype expected.numFragments = start
  have hchained : AllChained start := hstart ▸ allChained_start _ _ _ _
  have htype' : start.user.type ≠ 0 := hstart ▸ htype
  rcases hrun : dispatchCapture expected.enough events start with e | ⟨c, failed⟩
  · exact ⟨0, fun more memory _ => Or.inr ⟨e, rfl, rfl⟩⟩
  · rcases hchained.dispatchCapture htype' hrun with ⟨frames, hframes, hlength⟩
    refine ⟨frames.length + 2, fun more memory hmemory => ?_⟩
    have hturns : frames.length + 2 ≤ frames.length + 2 + more := Nat.le_add_right _ _
    rcases hframes.freeList_reclaims hlength (Nat.lt_of_lt_of_le (by omega) hturns) with ⟨rxFrames, hfree, hback⟩
    cases failed with
    | true =>
      -- an error of pcap: the frames are all there is
      refine Or.inl ⟨hpavErrorPcapError, [], rfl, { memory with rxFrames }, ?_, ?_⟩
      · simp only [bind_ok, if_true, freeEthFrames, hfree]
        rfl
      · exact ⟨hmemory.tx, hmemory.txFrames, hback, hmemory.lists, hmemory.groups, hmemory.rx⟩
    | false =>
      have hreceived := AllChained.receivedFrames_eq hframes
      rcases defragMemory_cases hframes hturns with
        ⟨s, lists, groupNodes, last, hdefrag, hlists, hgroups, hcount, hpackets, hok⟩ | ⟨e, hdefrag, herror⟩
      · have hshort : (chain s.heap s.newPackets).length < frames.length + 2 + more := by
          have hsound := defragFrames_sound hok
          have hgroupsLe := length_groups_le EthFrame.key frames
          have hpacketsLe := List.length_filterMap_le acceptedPacket (groups EthFrame.key frames)
          rw [hsound]
          unfold packetsOf acceptedPackets
          omega
        rcases freeMmePackets_reclaims hpackets hcount hshort with ⟨rx, hfreePackets, hrx⟩
        refine Or.inl ⟨hpavOk, (chain s.heap s.newPackets).map fun packet =>
          (expected.decode (packet.received behind)).val, ?_,
          { memory with rxFrames, lists, groups := groupNodes, rx }, ?_, ?_⟩
        · show (defragFrames (receivedFrames c) >>= _) = _
          rw [hreceived, hok]
          rfl
        · simp only [bind_ok, hdefrag, freeEthFrames, hfree, hfreePackets]
          rfl
        · exact ⟨hmemory.tx, hmemory.txFrames, hback, hlists, hgroups, hrx⟩
      · right
        refine ⟨e, ?_, ?_⟩
        · show (defragFrames (receivedFrames c) >>= _) = _
          rw [hreceived, herror]
          rfl
        · simp only [bind_ok, hdefrag]
          rfl

/-- The frames to be sent are one, or none. -/
theorem buildFrames_linked {packet : MmePacket} {minSize : MinSize} {txFrames : List EthFrame}
    (h : buildFrames packet minSize = .ok txFrames) :
    txFrames.length ≤ 1 ∧ ∃ last, Linked (nodes txFrames) (framesPtr txFrames) last txFrames := by
  unfold buildFrames at h
  split at h
  · rcases bind_eq_ok.mp h with ⟨mmeData, -, h⟩
    rcases bind_eq_ok.mp h with ⟨newFrame, -, h⟩
    injection h with h
    rw [← h]
    exact ⟨Nat.le_refl 1, _, Linked.singleton [] (newFrame.padTo minSize)⟩
  · injection h with h
    rw [← h]
    exact ⟨Nat.zero_le 1, _, Linked.nil _⟩

/-- With packet and frames given back everything is given back. -/
theorem reclaimed_sent {tx : PacketCells} {txFrames : Cells EthFrame} (htx : tx.Reclaimed)
    (hframes : Reclaimed txFrames) : (ExchangeMemory.sent tx txFrames).Reclaimed := by
  have hempty : ∀ {β : Type}, Reclaimed ([] : Cells β) := by
    intro β cell hcell
    cases hcell
  exact ⟨htx, hframes, hempty, hempty, hempty, hempty, hempty⟩

/-- What was built to be sent, and is given back. -/
theorem sent_reclaims {packet : MmePacket} {minSize : MinSize} {txFrames : List EthFrame}
    (h : buildFrames packet minSize = .ok txFrames) {turns : Nat} (hturns : 2 ≤ turns) :
    ∃ tx frameCells, freeMmePackets turns (some 0) (packetCells [⟨packet, none⟩]) = .ok (some tx) ∧
      freeEthFrames turns (framesPtr txFrames) (cells (nodes txFrames)) = .ok (some frameCells) ∧
      (ExchangeMemory.sent tx frameCells).Reclaimed := by
  rcases buildFrames_linked h with ⟨hcount, last, hlinked⟩
  rcases freeMmePackets_reclaims (Linked.singleton [] packet) rfl hturns with ⟨tx, hfreeTx, htx⟩
  rcases hlinked.freeList_reclaims (length_nodes txFrames) (Nat.lt_of_le_of_lt hcount hturns) with
    ⟨frameCells, hfreeFrames, hframeCells⟩
  exact ⟨tx, frameCells, hfreeTx, hfreeFrames, reclaimed_sent htx hframeCells⟩

/-- Leaving behind the sending gives back the frames and the packet. -/
theorem leaveSent_ends {turns : Nat} {tx : PacketCells} {txFrames : List EthFrame} {frameCells : Cells EthFrame}
    (hfree : freeEthFrames turns (framesPtr txFrames) (cells (nodes txFrames)) = .ok (some frameCells))
    (hmemory : (ExchangeMemory.sent tx frameCells).Reclaimed) (result : Int) :
    EndsReclaimed (leaveSent turns tx txFrames result) result := by
  refine ⟨_, ?_, hmemory⟩
  unfold leaveSent
  rw [hfree, bind_ok]
  rfl

/-- An exchange gives back all the memory it allocates, each piece once, and reads none of it
afterwards: for any request, any answers and any errors of pcap it comes to an end with the
result of `exchange` and nothing in use, or it fails as that does. -/
theorem exchangeMemory_reclaims {α : Type} (call : Call) (txMmePacket : Except Fault MmePacket)
    (expected : Expected α) (behind : Nat → UInt8) (pcap : PcapRun) (htype : expected.mmtype ≠ 0) :
    ∃ turns, ∀ more,
      (∃ result response, (exchange call txMmePacket expected behind pcap).outcome = .ok (result, response) ∧
        EndsReclaimed (exchangeMemory (turns + more) call txMmePacket expected pcap) result) ∨
      ∃ e, (exchange call txMmePacket expected behind pcap).outcome = .error e ∧
        exchangeMemory (turns + more) call txMmePacket expected pcap = .error e := by
  rcases hbuilt : txMmePacket >>= fun packet => buildFrames packet ethFrameMinSize with e | txFrames
  · refine ⟨0, fun more => Or.inr ⟨e, exchange_faulty hbuilt, ?_⟩⟩
    unfold exchangeMemory
    rcases txMmePacket with e' | packet
    · obtain rfl : e' = e := Except.error.inj hbuilt
      rfl
    · have hframes : buildFrames packet ethFrameMinSize = .error e := hbuilt
      rw [bind_ok, hframes]
      rfl
  · rcases bind_eq_ok.mp hbuilt with ⟨packet, rfl, hframes⟩
    rcases @receiveMemory_cases α call expected behind pcap.dispatches htype with ⟨turns, hreceive⟩
    refine ⟨turns + 2, fun more => ?_⟩
    rcases sent_reclaims hframes (show 2 ≤ turns + 2 + more by omega) with
      ⟨tx, frameCells, htx, hfreeFrames, hmemory⟩
    have hearly := leaveSent_ends hfreeFrames hmemory
    unfold exchange exchangeMemory
    simp only [hbuilt, bind_ok, hframes, htx]
    by_cases hcompile : pcap.compile = -1
    · simp only [if_pos hcompile]
      exact Or.inl ⟨hpavErrorPcapError, [], rfl, hearly hpavErrorPcapError⟩
    · simp only [if_neg hcompile]
      by_cases hsetfilter : pcap.setfilter = -1
      · simp only [if_pos hsetfilter]
        exact Or.inl ⟨hpavErrorPcapError, [], rfl, hearly hpavErrorPcapError⟩
      · simp only [if_neg hsetfilter]
        by_cases hresult : (sendFrames pcap txFrames 0).2 ≠ hpavOk
        · simp only [if_pos hresult]
          exact Or.inl ⟨_, [], rfl, hearly _⟩
        · simp only [if_neg hresult]
          by_cases htimeout : call.timeoutMs > 0
          · simp only [if_pos htimeout, hfreeFrames, bind_ok]
            have hmore : turns + 2 + more = turns + (2 + more) := Nat.add_assoc _ _ _
            rw [hmore]
            exact hreceive (2 + more) _ hmemory
          · simp only [if_neg htimeout]
            exact Or.inl ⟨hpavOk, [], rfl, hearly hpavOk⟩

/-- A call that waits for answers. -/
def setKeyCall : Call :=
  ⟨firstStation, secondStation, 1000, 0⟩

/-- A frame of a confirmation to it: the fragment `number` of two. -/
def setKeyFragment (number : UInt8) : List UInt8 :=
  firstStation.bytes ++ secondStation.bytes ++ mmeEtherType ++ [0x01, 0x09, 0x60, 1 + 16 * number, 0x00] ++
    List.replicate 41 0

/-- Both fragments are captured. -/
def setKeyRun : PcapRun where
  compile := 0
  setfilter := 0
  sendpacket := fun _ => 0
  dispatches := [.packets [setKeyFragment 0, setKeyFragment 1], .breakLoop]

def setKeyExpected : Expected (List UInt8) :=
  ⟨0x6009, 0, fun _ => false, decodeCmSetKeyCnf⟩

/-- The packet of a request. -/
def setKeyPacket : Except Fault MmePacket :=
  encodeCmSetKeyReq secondStation firstStation ⟨List.replicate 38 0, List.length_replicate⟩

/-- The exchange of a key that a station answers gives back all it has taken. -/
theorem exchangeMemory_reclaims_setKey :
    ∃ turns, ∀ more,
      EndsReclaimed (exchangeMemory (turns + more) setKeyCall setKeyPacket setKeyExpected setKeyRun) hpavOk := by
  rcases exchangeMemory_reclaims setKeyCall setKeyPacket setKeyExpected (fun _ => 0) setKeyRun (by decide) with
    ⟨turns, h⟩
  refine ⟨turns, fun more => ?_⟩
  have hcode : (exchange setKeyCall setKeyPacket setKeyExpected (fun _ => 0) setKeyRun).outcome.toOption.map (·.1) =
      some hpavOk := by
    decide +kernel
  rcases h more with ⟨result, response, houtcome, hends⟩ | ⟨e, houtcome, -⟩
  · rw [houtcome] at hcode
    obtain rfl : result = hpavOk := Option.some.inj hcode
    exact hends
  · rw [houtcome] at hcode
    cases hcode

end Hpav
