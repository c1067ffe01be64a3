import Hpav.CaptureBounds
import Hpav.EarlyExchange

/-!
# What a capture leaves

`rx_callback` on the whole of `struct hpav_eth_frame`. Behind `header` and `mme_data` the
packed structure goes on with `frame_size`, `ts` and `next`, and a packet may be copied over
them, too. `frame_size` and `ts` are assigned behind the copy, `next` is not: what the packet
left there stays until another frame is chained. The chain, the count, the latest frame and
the mark to stop belong together: `PackedChain` is carried on by every packet, and `RightCapture`
is what it comes to.
-/

namespace Hpav

open CMem

/-! ## The whole structure -/

/-- `sizeof(struct hpav_eth_frame)`: `frame_size` takes 4 bytes, `ts` 16 and `next` 8. -/
abbrev ethFrameSize : Nat := 2049

/-- `offsetof(struct hpav_eth_frame, next)` -/
abbrev nextOffset : Nat := 2041

/-- What stands in a `next`: NULL, the address of a frame that was allocated, or bytes of a
packet, which are the address of no frame of the callback. -/
inductive Next where
  | null
  | frame (address : Nat)
  | captured (bytes : List UInt8)
  deriving DecidableEq

/-- A pointer the callback has set itself. -/
def Next.of : Option Nat → Next
  | none => .null
  | some a => .frame a

/-- `header` and `mme_data`, and `frame_size`, which no longer says how much of them is
filled. Nothing reads `ts`. -/
structure PackedFrame where
  area : List UInt8
  frameSize : Nat
  deriving DecidableEq

/-- A frame on the heap. -/
structure PackedNode where
  frame : PackedFrame
  next : Next
  deriving DecidableEq

/-- The frames allocated so far, and the data of the callback. -/
structure PackedCapture where
  heap : List PackedNode
  user : CallbackData

/-- The capture before the first packet. -/
def PackedCapture.start (host sta : Mac) (type : UInt16) (numFragments : UInt32) : PackedCapture :=
  ⟨[], CallbackData.start host sta type numFragments⟩

/-- The frame of a packet: as much of it as there is room for, the rest cleared. -/
def packedFrame (packetData : List UInt8) : PackedFrame where
  area := (packetData ++ List.replicate (ethFrameArea - packetData.length) 0).take ethFrameArea
  frameSize := packetData.length

/-- What the copy leaves in `next`, which was cleared before: NULL is the pointer of zeros. -/
def copiedNext (packetData : List UInt8) : Next :=
  if (packetData.drop nextOffset).all (· = 0) then .null else .captured (packetData.drop nextOffset)

/-- `memcpy` of the packet over the cleared structure, and the assignment of `frame_size`. -/
def copyOver (packetData : List UInt8) : Except Fault PackedNode :=
  if packetData.length ≤ ethFrameSize then .ok ⟨packedFrame packetData, copiedNext packetData⟩
  else .error .outOfBounds

/-- `p->next = q` -/
def storeNext (heap : List PackedNode) (p : Option Nat) (q : Next) : Except Fault (List PackedNode) :=
  match p with
  | none => .error .nullDeref
  | some a =>
    match heap[a]? with
    | none => .error .outOfBounds
    | some n => .ok (heap.set a { n with next := q })

/-- The test of the callback: the packet is for the host, and of the type that is expected. -/
def rightPacket (user : CallbackData) (packetData : List UInt8) : Except Fault Bool := do
  let dstMacAddr ← load packetData 0 6
  if dstMacAddr ≠ user.srcMacAddr.bytes then
    .ok false
  else do
    let mmtype ← load packetData 15 2
    .ok (decide (le16 (mmtype.getD 0 0) (mmtype.getD 1 0) = user.type ∨ user.type = 0))

/-- The heap with a new frame, chained to the latest one if possible. -/
def chainPacked (c : PackedCapture) (frame : PackedNode) : Except Fault (List PackedNode) :=
  if c.user.latestFrame ≠ none ∧ c.user.type ≠ 0 then
    storeNext (c.heap ++ [frame]) c.user.latestFrame (.frame c.heap.length)
  else .ok (c.heap ++ [frame])

/-- The end of the callback, as in `keepFrame`. -/
def keepPacked (c : PackedCapture) (frame : PackedNode) (fn : UInt32) : Except Fault PackedCapture := do
  let newFrame := c.heap.length
  let heap ← chainPacked c frame
  let rxFrames := if c.user.latestFrame ≠ none ∧ c.user.type ≠ 0 then c.user.rxFrames else some newFrame
  let numFragmentsReceived := c.user.numFragmentsReceived + 1
  let stop := c.user.stop || (c.user.staMacAddr ≠ broadcastMacAddr && c.user.numFragments ≠ 0 &&
    c.user.numFragments ≤ numFragmentsReceived)
  .ok ⟨heap, { c.user with rxFrames, latestFrame := some newFrame, numFragmentsReceived, stop, fn }⟩

/-- `rx_callback` -/
def rxCallbackPacked (c : PackedCapture) (packetData : List UInt8) : Except Fault PackedCapture := do
  if ← rightPacket c.user packetData then do
    let newFrame ← copyOver packetData
    if newFrame.frame.frameSize ≠ 0 then do
      let nfFn ← load packetData 17 1
      keepPacked c newFrame ((nfFn.headD 0) &&& 0xF).toUInt32
    else
      keepPacked c newFrame c.user.fn
  else
    .ok c

/-! ## Which packets it takes -/

/-- As much was captured as the callback looks at, and of a packet it takes no more than the
structure has room for. -/
structure Contained (host : Mac) (type : UInt16) (packetData : List UInt8) : Prop where
  address : 6 ≤ packetData.length
  mmtype : packetData.take 6 = host.bytes → 17 ≤ packetData.length
  header : Wanted host type packetData → 18 ≤ packetData.length
  size : Wanted host type packetData → packetData.length ≤ ethFrameSize

instance (host : Mac) (type : UInt16) (packetData : List UInt8) : Decidable (Contained host type packetData) :=
  decidable_of_iff (6 ≤ packetData.length ∧ (packetData.take 6 = host.bytes → 17 ≤ packetData.length) ∧
      (Wanted host type packetData → 18 ≤ packetData.length) ∧
      (Wanted host type packetData → packetData.length ≤ ethFrameSize))
    ⟨fun ⟨h1, h2, h3, h4⟩ => ⟨h1, h2, h3, h4⟩, fun h => ⟨h.address, h.mmtype, h.header, h.size⟩⟩

/-- A packet that stays within `header` and `mme_data` stays within the structure. -/
theorem Legal.contained {host : Mac} {type : UInt16} {packetData : List UInt8} (h : Legal host type packetData) :
    Contained host type packetData :=
  ⟨h.address, h.mmtype, h.header, fun hwanted => (h.area hwanted).trans (by decide)⟩

/-- The packets that are taken. -/
def wantedPackets (host : Mac) (type : UInt16) (packets : List (List UInt8)) : List (List UInt8) :=
  packets.filter fun packetData => Wanted host type packetData

section

variable {user : CallbackData} {c : PackedCapture} {packetData : List UInt8}

/-- The test of a packet that is long enough for it. -/
theorem rightPacket_eq (haddress : 6 ≤ packetData.length)
    (hmmtype : packetData.take 6 = user.srcMacAddr.bytes → 17 ≤ packetData.length) :
    rightPacket user packetData = .ok (decide (Wanted user.srcMacAddr user.type packetData)) := by
  unfold rightPacket
  rw [load_ok (by omega), bind_ok, List.drop_zero]
  by_cases hdst : packetData.take 6 = user.srcMacAddr.bytes
  · rw [if_neg (not_not_intro hdst), load_mmtype (hmmtype hdst), bind_ok]
    unfold Wanted
    simp [hdst]
  · rw [if_pos hdst]
    unfold Wanted
    simp [hdst]

/-- Of a shorter one it reads too much. -/
theorem rightPacket_short
    (h : ¬ (6 ≤ packetData.length ∧ (packetData.take 6 = user.srcMacAddr.bytes → 17 ≤ packetData.length))) :
    rightPacket user packetData = .error .outOfBounds := by
  have hload : ∀ off len, packetData.length < off + len → load packetData off len = .error .outOfBounds := by
    intro off len hlt
    unfold load
    rw [if_neg (by omega)]
  unfold rightPacket
  by_cases haddress : 6 ≤ packetData.length
  · have hdst : packetData.take 6 = user.srcMacAddr.bytes := by
      by_contra hdst
      exact h ⟨haddress, fun heq => absurd heq hdst⟩
    have hmmtype : ¬ 17 ≤ packetData.length := fun hmmtype => h ⟨haddress, fun _ => hmmtype⟩
    rw [load_ok (by omega), bind_ok, List.drop_zero, if_neg (not_not_intro hdst), hload 15 2 (by omega), bind_error]
  · rw [hload 0 6 (by omega), bind_error]

/-- A packet the callback does not take leaves everything as it is. -/
theorem rxCallbackPacked_unwanted (hcontained : Contained c.user.srcMacAddr c.user.type packetData)
    (h : ¬ Wanted c.user.srcMacAddr c.user.type packetData) : rxCallbackPacked c packetData = .ok c := by
  unfold rxCallbackPacked
  rw [rightPacket_eq hcontained.address hcontained.mmtype, bind_ok, decide_eq_false h]
  rfl

/-- One that it takes is copied and kept. -/
theorem rxCallbackPacked_wanted (hcontained : Contained c.user.srcMacAddr c.user.type packetData)
    (h : Wanted c.user.srcMacAddr c.user.type packetData) :
    rxCallbackPacked c packetData = keepPacked c ⟨packedFrame packetData, copiedNext packetData⟩
      (packetData.getD 17 0 &&& 0xF).toUInt32 := by
  have hlen := hcontained.header h
  have hcopy : copyOver packetData = .ok ⟨packedFrame packetData, copiedNext packetData⟩ :=
    if_pos (hcontained.size h)
  have hsize : (packedFrame packetData).frameSize ≠ 0 := by
    show packetData.length ≠ 0
    omega
  have hfn : ((packetData.drop 17).take 1).headD 0 = packetData.getD 17 0 := by
    rw [List.getD_eq_getElem?_getD, List.drop_eq_getElem_cons (by omega), List.getElem?_eq_getElem (by omega)]
    rfl
  unfold rxCallbackPacked
  rw [rightPacket_eq hcontained.address hcontained.mmtype, bind_ok, decide_eq_true h, if_pos rfl, hcopy, bind_ok,
    if_pos hsize, load_ok (by omega), bind_ok, hfn]

/-- Of any other packet it reads or copies too much. -/
theorem rxCallbackPacked_uncontained (h : ¬ Contained c.user.srcMacAddr c.user.type packetData) :
    rxCallbackPacked c packetData = .error .outOfBounds := by
  unfold rxCallbackPacked
  by_cases hread : 6 ≤ packetData.length ∧ (packetData.take 6 = c.user.srcMacAddr.bytes → 17 ≤ packetData.length)
  · rw [rightPacket_eq hread.1 hread.2, bind_ok]
    by_cases hwanted : Wanted c.user.srcMacAddr c.user.type packetData
    · rw [decide_eq_true hwanted, if_pos rfl]
      by_cases hsize : packetData.length ≤ ethFrameSize
      · -- the packet ends in front of `fmi_nf_fn`
        have hlong := hread.2 hwanted.1
        have hshort : ¬ 18 ≤ packetData.length := fun hheader =>
          h ⟨hread.1, hread.2, fun _ => hheader, fun _ => hsize⟩
        have hcopy : copyOver packetData = .ok ⟨packedFrame packetData, copiedNext packetData⟩ := if_pos hsize
        have hne : (packedFrame packetData).frameSize ≠ 0 := by
          show packetData.length ≠ 0
          omega
        have hload : load packetData 17 1 = .error .outOfBounds := if_neg (by omega)
        rw [hcopy, bind_ok, if_pos hne, hload, bind_error]
      · have hcopy : copyOver packetData = .error .outOfBounds := if_neg hsize
        rw [hcopy, bind_error]
    · exact absurd ⟨hread.1, hread.2, fun hw => absurd hw hwanted, fun hw => absurd hw hwanted⟩ h
  · rw [rightPacket_short hread, bind_error]

end

/-! ## Packets that stay within `header` and `mme_data` -/

/-- A frame with nothing of a packet in its `next`. -/
def packedNode (n : Node EthFrame) : PackedNode where
  frame := ⟨n.val.mem, n.val.frameSize⟩
  next := .of n.next

/-- A capture in which no packet went over its frame. -/
def Capture.packed (c : Capture) : PackedCapture :=
  ⟨c.heap.map packedNode, c.user⟩

theorem storeNext_packed (heap : Heap EthFrame) (p : Option Nat) (a : Nat) :
    storeNext (heap.map packedNode) p (.frame a) = (setNext heap p (some a)).map (·.map packedNode) := by
  unfold storeNext setNext
  cases p with
  | none => rfl
  | some b =>
    simp only [List.getElem?_map]
    cases hb : heap[b]? with
    | none => rfl
    | some n =>
      simp only [Option.map_some, Except.map]
      rw [List.map_set]
      rfl

/-- A frame that is kept is kept in the whole structure, too. -/
theorem keepPacked_packed (c : Capture) (frame : EthFrame) (fn : UInt32) :
    keepPacked c.packed (packedNode ⟨frame, none⟩) fn = (keepFrame c frame fn).map Capture.packed := by
  have hheap : c.packed.heap ++ [packedNode ⟨frame, none⟩] =
      List.map packedNode (c.heap ++ [(⟨frame, none⟩ : Node EthFrame)]) := by
    rw [List.map_append]
    rfl
  have hlength : c.packed.heap.length = c.heap.length := List.length_map _
  have huser : c.packed.user = c.user := rfl
  unfold keepPacked chainPacked keepFrame mallocNode
  simp only [hheap, hlength, huser]
  by_cases hif : c.user.latestFrame ≠ none ∧ c.user.type ≠ 0
  · rw [if_pos hif, if_pos hif, if_pos hif, storeNext_packed]
    cases setNext (c.heap ++ [⟨frame, none⟩]) c.user.latestFrame (some c.heap.length) with
    | error f => rfl
    | ok heap => rfl
  · rw [if_neg hif, if_neg hif, if_neg hif]
    rfl

theorem packed_ofCapture {packetData : List UInt8} (h : packetData.length ≤ ethFrameArea) :
    packedNode ⟨EthFrame.ofCapture packetData h, none⟩ = ⟨packedFrame packetData, copiedNext packetData⟩ := by
  have hnext : copiedNext packetData = .null := by
    unfold copiedNext
    rw [List.drop_eq_nil_of_le (h.trans (by decide))]
    rfl
  have harea : (packetData ++ List.replicate (ethFrameArea - packetData.length) 0).take ethFrameArea =
      packetData ++ List.replicate (ethFrameArea - packetData.length) 0 := by
    apply List.take_of_length_le
    rw [List.length_append, List.length_replicate]
    omega
  unfold packedFrame
  rw [hnext, harea]
  rfl

/-- With a legal packet the callback does in the whole structure what `rxCallback` does in
`header` and `mme_data`. -/
theorem rxCallbackPacked_packed {c : Capture} {packetData : List UInt8}
    (h : Legal c.user.srcMacAddr c.user.type packetData) :
    rxCallbackPacked c.packed packetData = (rxCallback c packetData).map Capture.packed := by
  by_cases hwanted : Wanted c.user.srcMacAddr c.user.type packetData
  · have hpacked : rxCallbackPacked c.packed packetData = _ := rxCallbackPacked_wanted h.contained hwanted
    rw [hpacked, rxCallback_wanted h hwanted, ← packed_ofCapture (h.area hwanted), keepPacked_packed]
  · have hpacked : rxCallbackPacked c.packed packetData = .ok c.packed :=
      rxCallbackPacked_unwanted h.contained hwanted
    rw [hpacked, rxCallback_unwanted h hwanted]
    rfl

/-- So it is with any number of legal packets. -/
theorem foldlM_packed {packets : List (List UInt8)} {c : Capture}
    (hlegal : ∀ packetData ∈ packets, Legal c.user.srcMacAddr c.user.type packetData) :
    packets.foldlM rxCallbackPacked c.packed = (packets.foldlM rxCallback c).map Capture.packed := by
  induction packets generalizing c with
  | nil => rfl
  | cons packetData packets ih =>
    have hfirst := hlegal packetData List.mem_cons_self
    rw [List.foldlM_cons, List.foldlM_cons, rxCallbackPacked_packed hfirst]
    cases hrx : rxCallback c packetData with
    | error f => rfl
    | ok c' =>
      have hsame : c'.user.srcMacAddr = c.user.srcMacAddr ∧ c'.user.type = c.user.type := by
        by_cases hwanted : Wanted c.user.srcMacAddr c.user.type packetData
        · rw [rxCallback_wanted hfirst hwanted] at hrx
          have hfilter := keepFrame_sameFilter hrx
          exact ⟨hfilter.srcMacAddr, hfilter.type⟩
        · rw [rxCallback_unwanted hfirst hwanted] at hrx
          injection hrx with hrx
          rw [hrx]
          exact ⟨rfl, rfl⟩
      apply ih
      intro p hp
      rw [hsame.1, hsame.2]
      exact hlegal p (List.mem_cons_of_mem _ hp)

/-! ## Following `next` -/

/-- Following `next` visits the frames at these addresses, reads these and ends at NULL. -/
inductive Leads (heap : List PackedNode) : Next → List Nat → List PackedFrame → Prop where
  | null : Leads heap .null [] []
  | frame {a : Nat} {n : PackedNode} {as : List Nat} {frames : List PackedFrame} (hn : heap[a]? = some n)
      (hrest : Leads heap n.next as frames) : Leads heap (.frame a) (a :: as) (n.frame :: frames)

/-- The frames of the packets that were taken, each linked to the one behind it. In the last
one stands what the copy has left there. -/
def linkedFrames (taken : List (List UInt8)) : List PackedNode :=
  taken.mapIdx fun i packetData =>
    ⟨packedFrame packetData, if i + 1 < taken.length then .frame (i + 1) else copiedNext packetData⟩

section

variable {taken : List (List UInt8)} {packetData : List UInt8}

theorem length_linkedFrames : (linkedFrames taken).length = taken.length := by
  unfold linkedFrames
  rw [List.length_mapIdx]

theorem getElem?_linkedFrames (i : Nat) : (linkedFrames taken)[i]? = taken[i]?.map fun packetData =>
    ⟨packedFrame packetData, if i + 1 < taken.length then .frame (i + 1) else copiedNext packetData⟩ := by
  unfold linkedFrames
  rw [List.getElem?_mapIdx]

/-- Another frame, chained to the latest one. -/
theorem storeNext_linkedFrames (hne : taken ≠ []) (packetData : List UInt8) :
    storeNext (linkedFrames taken ++ [⟨packedFrame packetData, copiedNext packetData⟩]) (some (taken.length - 1))
      (.frame taken.length) = .ok (linkedFrames (taken ++ [packetData])) := by
  have hpos : 0 < taken.length := List.length_pos_of_ne_nil hne
  have hlast : (linkedFrames taken ++ [⟨packedFrame packetData, copiedNext packetData⟩])[taken.length - 1]? =
      some ⟨packedFrame taken[taken.length - 1], copiedNext taken[taken.length - 1]⟩ := by
    rw [List.getElem?_append_left (by rw [length_linkedFrames]; omega), getElem?_linkedFrames,
      List.getElem?_eq_getElem (by omega), Option.map_some, if_neg (by omega)]
  unfold storeNext
  simp only [hlast]
  congr 1
  -- position by position: in front of the latest frame, at it, and behind it
  apply List.ext_getElem?
  intro i
  rw [getElem?_linkedFrames, List.length_append, List.length_singleton]
  rcases Nat.lt_trichotomy i (taken.length - 1) with hlt | heq | hgt
  · rw [List.getElem?_set_ne (by omega), List.getElem?_append_left (by rw [length_linkedFrames]; omega),
      getElem?_linkedFrames, List.getElem?_append_left (by omega), List.getElem?_eq_getElem (by omega), Option.map_some,
      Option.map_some, if_pos (by omega), if_pos (by omega)]
  · subst heq
    rw [List.getElem?_set_self (by rw [List.length_append, length_linkedFrames]; omega),
      List.getElem?_append_left (by omega), List.getElem?_eq_getElem (by omega), Option.map_some, if_pos (by omega),
      Nat.sub_add_cancel hpos]
  · rw [List.getElem?_set_ne (by omega), List.getElem?_append_right (by rw [length_linkedFrames]; omega),
      List.getElem?_append_right (by omega), length_linkedFrames]
    rcases Nat.eq_zero_or_pos (i - taken.length) with hzero | hbehind
    · rw [hzero, List.getElem?_cons_zero, List.getElem?_cons_zero, Option.map_some, if_neg (by omega)]
    · rw [List.getElem?_eq_none hbehind, List.getElem?_eq_none hbehind]
      rfl

/-- From any of the frames `next` leads through those behind it, if the last one ends at NULL. -/
theorem leads_linkedFrames (hlast : ∀ packetData ∈ taken.getLast?, copiedNext packetData = .null) {i : Nat}
    (hi : i < taken.length) :
    Leads (linkedFrames taken) (.frame i) (List.range' i (taken.length - i)) ((taken.drop i).map packedFrame) := by
  -- from the last frame to the first
  induction hk : taken.length - i generalizing i with
  | zero => omega
  | succ k ih =>
    have hnode := @getElem?_linkedFrames taken i
    rw [List.getElem?_eq_getElem hi, Option.map_some] at hnode
    rw [List.drop_eq_getElem_cons hi, List.map_cons, List.range'_succ]
    refine .frame hnode ?_
    by_cases hmore : i + 1 < taken.length
    · show Leads _ (if _ then _ else _) _ _
      rw [if_pos hmore]
      exact ih hmore (by omega)
    · have hend : copiedNext taken[i] = .null := by
        apply hlast
        rw [List.getLast?_eq_getElem?, Option.mem_def, List.getElem?_eq_some_iff]
        exact ⟨by omega, by congr 1; omega⟩
      obtain rfl : k = 0 := by omega
      show Leads _ (if _ then _ else _) _ _
      rw [if_neg hmore, hend, List.drop_eq_nil_of_le (by omega)]
      exact .null

/-- If it leads through as many frames as there are, the last one ends at NULL. -/
theorem next_of_leads {as : List Nat} {frames : List PackedFrame} {i : Nat}
    (h : Leads (linkedFrames taken) (.frame i) as frames) (hlength : frames.length = taken.length - i) :
    ∀ packetData ∈ taken.getLast?, copiedNext packetData = .null := by
  induction frames generalizing as i with
  | nil => cases h
  | cons frame frames ih =>
    cases h with
    | @frame _ n as _ hn hrest =>
      rw [getElem?_linkedFrames, Option.map_eq_some_iff] at hn
      rcases hn with ⟨packetData, hpacket, rfl⟩
      have hi := (List.getElem?_eq_some_iff.mp hpacket).1
      rw [List.length_cons] at hlength
      by_cases hmore : i + 1 < taken.length
      · have hnext : Leads (linkedFrames taken) (if i + 1 < taken.length then .frame (i + 1) else copiedNext packetData)
            as frames := hrest
        rw [if_pos hmore] at hnext
        exact ih hnext (by omega)
      · have hnext : Leads (linkedFrames taken) (if i + 1 < taken.length then .frame (i + 1) else copiedNext packetData)
            as frames := hrest
        rw [if_neg hmore] at hnext
        intro last hlast
        rw [List.getLast?_eq_getElem?, Option.mem_def, show taken.length - 1 = i by omega, hpacket] at hlast
        injection hlast with hlast
        obtain rfl : frames = [] := List.length_eq_zero_iff.mp (by omega)
        rw [← hlast]
        -- nothing is read behind the last frame: its `next` is where the chain ends
        generalize copiedNext packetData = next at hnext
        cases hnext with
        | null => rfl

end

/-! ## What is stored -/

/-- The callback has taken these packets since it was given the data. -/
structure PackedChain (user : CallbackData) (c : PackedCapture) (taken : List (List UInt8)) : Prop where
  srcMacAddr : c.user.srcMacAddr = user.srcMacAddr
  staMacAddr : c.user.staMacAddr = user.staMacAddr
  type : c.user.type = user.type
  numFragments : c.user.numFragments = user.numFragments
  heap : c.heap = linkedFrames taken
  first : c.user.rxFrames = if taken = [] then none else some 0
  latest : c.user.latestFrame = if taken = [] then none else some (taken.length - 1)
  count : c.user.numFragmentsReceived = UInt32.ofNat taken.length
  stop : c.user.stop = true ↔ AwaitedCount user taken.length

theorem packedChain_start (host sta : Mac) (type : UInt16) (numFragments : UInt32) :
    PackedChain (CallbackData.start host sta type numFragments) (PackedCapture.start host sta type numFragments) [] where
  srcMacAddr := rfl
  staMacAddr := rfl
  type := rfl
  numFragments := rfl
  heap := rfl
  first := rfl
  latest := rfl
  count := rfl
  stop := by
    constructor
    · intro h
      cases h
    · intro h
      exact absurd h (not_awaitedCount_zero _)

section

variable {user : CallbackData} {c : PackedCapture} {taken packets : List (List UInt8)}

/-- A packet more: its frame is chained to the latest one, and counted. -/
theorem PackedChain.keep (htype : user.type ≠ 0) (h : PackedChain user c taken) (packetData : List UInt8) (fn : UInt32) :
    ∃ c', keepPacked c ⟨packedFrame packetData, copiedNext packetData⟩ fn = .ok c' ∧
      PackedChain user c' (taken ++ [packetData]) := by
  have hcount : c.user.numFragmentsReceived + 1 = UInt32.ofNat (taken.length + 1) := by
    rw [h.count, UInt32.ofNat_add]
    rfl
  have hheap : chainPacked c ⟨packedFrame packetData, copiedNext packetData⟩ =
      .ok (linkedFrames (taken ++ [packetData])) := by
    unfold chainPacked
    rw [h.latest, h.heap, h.type, length_linkedFrames]
    by_cases hne : taken = []
    · rw [if_pos hne, if_neg (fun hif => hif.1 rfl), hne]
      rfl
    · rw [if_neg hne, if_pos ⟨Option.some_ne_none _, htype⟩]
      exact storeNext_linkedFrames hne packetData
  have hfirst : (if c.user.latestFrame ≠ none ∧ c.user.type ≠ 0 then c.user.rxFrames else some c.heap.length) =
      some 0 := by
    rw [h.latest, h.heap, h.type, h.first, length_linkedFrames]
    by_cases hne : taken = []
    · rw [if_pos hne, if_neg (fun hif => hif.1 rfl), hne]
      rfl
    · rw [if_neg hne, if_pos ⟨Option.some_ne_none _, htype⟩, if_neg hne]
  have hlength : c.heap.length = (taken ++ [packetData]).length - 1 := by
    rw [h.heap, length_linkedFrames, List.length_append]
    rfl
  have hne : taken ++ [packetData] ≠ [] := List.append_ne_nil_of_right_ne_nil _ (List.cons_ne_nil _ _)
  unfold keepPacked
  simp only [hheap, hfirst, bind_ok]
  refine ⟨_, rfl, h.srcMacAddr, h.staMacAddr, h.type, h.numFragments, rfl, ?_, ?_, ?_, ?_⟩
  · rw [if_neg hne]
  · rw [if_neg hne, hlength]
  · rw [List.length_append]
    exact hcount
  · rw [List.length_append, List.length_singleton, awaitedCount_succ_iff, ← h.stop, ← hcount, ← h.staMacAddr,
      ← h.numFragments]
    simp [and_assoc]

/-- One packet: stored if it is wanted, and the capture as before if not. -/
theorem PackedChain.packet (htype : user.type ≠ 0) (h : PackedChain user c taken) {packetData : List UInt8}
    (hcontained : Contained user.srcMacAddr user.type packetData) :
    ∃ c', rxCallbackPacked c packetData = .ok c' ∧
      PackedChain user c' (taken ++ wantedPackets user.srcMacAddr user.type [packetData]) := by
  rw [← h.srcMacAddr, ← h.type] at hcontained ⊢
  unfold wantedPackets
  by_cases hwanted : Wanted c.user.srcMacAddr c.user.type packetData
  · rw [rxCallbackPacked_wanted hcontained hwanted, List.filter_cons_of_pos (by simpa using hwanted)]
    exact h.keep htype packetData _
  · rw [rxCallbackPacked_unwanted hcontained hwanted, List.filter_cons_of_neg (by simpa using hwanted),
      List.filter_nil, List.append_nil]
    exact ⟨c, rfl, h⟩

/-- Any number of packets: those that are wanted are stored. -/
theorem PackedChain.batch (htype : user.type ≠ 0) (h : PackedChain user c taken)
    (hcontained : ∀ packetData ∈ packets, Contained user.srcMacAddr user.type packetData) :
    ∃ c', packets.foldlM rxCallbackPacked c = .ok c' ∧
      PackedChain user c' (taken ++ wantedPackets user.srcMacAddr user.type packets) := by
  induction packets generalizing c taken with
  | nil =>
    refine ⟨c, rfl, ?_⟩
    show PackedChain user c (taken ++ [])
    rwa [List.append_nil]
  | cons packetData packets ih =>
    rcases h.packet htype (hcontained packetData List.mem_cons_self) with ⟨c₁, hfirst, h₁⟩
    rcases ih h₁ fun p hp => hcontained p (List.mem_cons_of_mem _ hp) with ⟨c', hrest, h'⟩
    refine ⟨c', ?_, ?_⟩
    · rw [List.foldlM_cons, hfirst]
      exact hrest
    · rw [List.append_assoc] at h'
      unfold wantedPackets at h' ⊢
      rwa [← List.filter_append, List.singleton_append] at h'

/-- The packets were all contained, if the callback got through them. -/
theorem contained_of_foldlM (htype : user.type ≠ 0) (h : PackedChain user c taken) {c' : PackedCapture}
    (hrun : packets.foldlM rxCallbackPacked c = .ok c') :
    ∀ packetData ∈ packets, Contained user.srcMacAddr user.type packetData := by
  induction packets generalizing c taken with
  | nil =>
    intro packetData hp
    cases hp
  | cons first packets ih =>
    rw [List.foldlM_cons] at hrun
    have hfirst : Contained user.srcMacAddr user.type first := by
      by_contra huncontained
      rw [← h.srcMacAddr, ← h.type] at huncontained
      rw [rxCallbackPacked_uncontained huncontained] at hrun
      cases hrun
    rcases h.packet htype hfirst with ⟨c₁, hrx, h₁⟩
    rw [hrx] at hrun
    intro packetData hp
    rcases List.mem_cons.mp hp with rfl | hp
    · exact hfirst
    · exact ih h₁ hrun packetData hp

end

/-! ## The capture -/

section

variable (host sta : Mac) (type : UInt16) (numFragments : UInt32) (packets : List (List UInt8))

/-- The capture is as it should be behind the packets. -/
structure RightCapture (c : PackedCapture) : Prop where
  /-- From `rx_frames` the chain leads through the wanted packets to NULL, by way of
  `latest_frame` last. -/
  chain : ∃ addresses,
    Leads c.heap (.of c.user.rxFrames) addresses ((wantedPackets host type packets).map packedFrame) ∧
      addresses.getLast? = c.user.latestFrame
  count : (wantedPackets host type packets).length = c.user.numFragmentsReceived.toNat
  latest_none : c.user.latestFrame = none ↔ wantedPackets host type packets = []
  stop : c.user.stop = true ↔
    sta ≠ broadcastMacAddr ∧ numFragments ≠ 0 ∧ c.user.numFragmentsReceived ≥ numFragments
  /-- Once set, the mark to stop stays. -/
  stays : ∀ before earlier, before <+: packets →
    before.foldlM rxCallbackPacked (PackedCapture.start host sta type numFragments) = .ok earlier →
    earlier.user.stop = true → c.user.stop = true

/-- The copy of the last packet that is taken leaves NULL in `next`: it ends in front of it,
or there are zeros in its place. -/
def EndsInNull : Prop :=
  ∀ packetData ∈ (wantedPackets host type packets).getLast?, ∀ b ∈ packetData.drop nextOffset, b = 0

instance : Decidable (EndsInNull host type packets) :=
  inferInstanceAs (Decidable (∀ _ ∈ (wantedPackets host type packets).getLast?, _))

end

section

variable {host sta : Mac} {type : UInt16} {numFragments : UInt32} {packets : List (List UInt8)}

theorem copiedNext_null_iff {packetData : List UInt8} :
    copiedNext packetData = .null ↔ ∀ b ∈ packetData.drop nextOffset, b = 0 := by
  unfold copiedNext
  split
  · rename_i hzeros
    simpa using hzeros
  · rename_i hzeros
    constructor
    · intro h
      cases h
    · intro h
      exact absurd (by simpa using h) hzeros

theorem endsInNull_iff : EndsInNull host type packets ↔
    ∀ packetData ∈ (wantedPackets host type packets).getLast?, copiedNext packetData = .null := by
  unfold EndsInNull
  simp only [copiedNext_null_iff]

/-- What is stored of contained packets. -/
theorem packedChain_of_contained (htype : type ≠ 0)
    (hcontained : ∀ packetData ∈ packets, Contained host type packetData) :
    ∃ c, packets.foldlM rxCallbackPacked (PackedCapture.start host sta type numFragments) = .ok c ∧
      PackedChain (CallbackData.start host sta type numFragments) c (wantedPackets host type packets) :=
  (packedChain_start host sta type numFragments).batch htype hcontained

/-- Once as many as are awaited are there, they are with more. -/
theorem AwaitedCount.mono {user : CallbackData} {n m : Nat} (h : AwaitedCount user n) (hle : n ≤ m) :
    AwaitedCount user m :=
  ⟨h.1, h.2.1, h.2.2.trans hle⟩

/-- The chain of what is stored leads through all of it, if the last copy left NULL. -/
theorem PackedChain.leads {user : CallbackData} {c : PackedCapture} {taken : List (List UInt8)} (h : PackedChain user c taken)
    (hlast : ∀ packetData ∈ taken.getLast?, copiedNext packetData = .null) :
    ∃ addresses, Leads c.heap (.of c.user.rxFrames) addresses (taken.map packedFrame) ∧
      addresses.getLast? = c.user.latestFrame := by
  rw [h.heap, h.first, h.latest]
  by_cases hne : taken = []
  · rw [if_pos hne, if_pos hne, hne]
    exact ⟨[], .null, rfl⟩
  · have hpos : 0 < taken.length := List.length_pos_of_ne_nil hne
    rw [if_neg hne, if_neg hne]
    refine ⟨List.range' 0 taken.length, leads_linkedFrames hlast hpos, ?_⟩
    rw [← List.range_eq_range', List.getLast?_range, if_neg (by omega)]

theorem rightCapture_of_packedChain (htype : type ≠ 0)
    (hcontained : ∀ packetData ∈ packets, Contained host type packetData) (hnull : EndsInNull host type packets)
    (hcount : (wantedPackets host type packets).length < 2 ^ 32) {c : PackedCapture}
    (h : PackedChain (CallbackData.start host sta type numFragments) c (wantedPackets host type packets)) :
    RightCapture host sta type numFragments packets c := by
  have hreceived : c.user.numFragmentsReceived.toNat = (wantedPackets host type packets).length := by
    rw [h.count, UInt32.toNat_ofNat', Nat.mod_eq_of_lt hcount]
  constructor
  · exact h.leads (endsInNull_iff.mp hnull)
  · rw [hreceived]
  · rw [h.latest]
    split
    · rename_i hnil
      exact ⟨fun _ => hnil, fun _ => rfl⟩
    · rename_i hne
      exact ⟨fun hnone => absurd hnone (Option.some_ne_none _), fun hnil => absurd hnil hne⟩
  · rw [h.stop, ge_iff_le, UInt32.le_iff_toNat_le, hreceived]
    rfl
  · rintro before earlier ⟨rest, rfl⟩ hrun hstop
    have hbefore : ∀ packetData ∈ before, Contained host type packetData :=
      fun p hp => hcontained p (List.mem_append_left rest hp)
    rcases @packedChain_of_contained host sta type numFragments before htype hbefore with ⟨c', hrun', h'⟩
    rw [hrun] at hrun'
    injection hrun' with hsame
    subst hsame
    refine h.stop.mpr ((h'.stop.mp hstop).mono ?_)
    unfold wantedPackets
    rw [List.filter_append, List.length_append]
    exact Nat.le_add_right _ _

/-- Behind a right capture the packets were contained, and the last copy left NULL. -/
theorem contained_of_rightCapture (htype : type ≠ 0) {c : PackedCapture}
    (hrun : packets.foldlM rxCallbackPacked (PackedCapture.start host sta type numFragments) = .ok c)
    (hright : RightCapture host sta type numFragments packets c) :
    (∀ packetData ∈ packets, Contained host type packetData) ∧ EndsInNull host type packets := by
  have hcontained : ∀ packetData ∈ packets, Contained host type packetData :=
    contained_of_foldlM htype (packedChain_start host sta type numFragments) hrun
  refine ⟨hcontained, endsInNull_iff.mpr ?_⟩
  rcases @packedChain_of_contained host sta type numFragments packets htype hcontained with ⟨c', hrun', hstored⟩
  rw [hrun] at hrun'
  injection hrun' with hsame
  subst hsame
  rcases hright.chain with ⟨addresses, hleads, -⟩
  rw [hstored.heap, hstored.first] at hleads
  by_cases hne : wantedPackets host type packets = []
  · intro packetData hlast
    rw [hne] at hlast
    cases hlast
  · rw [if_neg hne] at hleads
    exact next_of_leads hleads (by rw [List.length_map, Nat.sub_zero])

/-- The callback gets through the packets and leaves a right capture exactly if each packet
is contained, the copy of the last one that is taken leaves NULL in `next`, and fewer than
the counter counts are wanted. -/
theorem rightCapture_iff (htype : type ≠ 0) :
    (∃ c, packets.foldlM rxCallbackPacked (PackedCapture.start host sta type numFragments) = .ok c ∧
        RightCapture host sta type numFragments packets c) ↔
      (∀ packetData ∈ packets, Contained host type packetData) ∧ EndsInNull host type packets ∧
        (packets.countP fun packetData => Wanted host type packetData) < 2 ^ 32 := by
  have hlength : (packets.countP fun packetData => Wanted host type packetData) =
      (wantedPackets host type packets).length := List.countP_eq_length_filter
  rw [hlength]
  constructor
  · rintro ⟨c, hrun, hright⟩
    rcases contained_of_rightCapture htype hrun hright with ⟨hcontained, hnull⟩
    refine ⟨hcontained, hnull, ?_⟩
    rw [hright.count]
    exact c.user.numFragmentsReceived.toNat_lt
  · rintro ⟨hcontained, hnull, hcount⟩
    rcases @packedChain_of_contained host sta type numFragments packets htype hcontained with ⟨c, hrun, hstored⟩
    exact ⟨c, hrun, rightCapture_of_packedChain htype hcontained hnull hcount hstored⟩

end

/-- A packet of `n` bytes for the first station, with the type 0xA001 and zeros behind it. -/
def zeroPacket (n : Nat) : List UInt8 :=
  firstStation.bytes ++ secondStation.bytes ++ [0x88, 0xE1, 0x01, 0x01, 0xA0] ++ List.replicate (n - 17) 0

/-- Three packets, the second of them for another station. The last one goes over
`frame_size` and `ts`, and it is behind the one with which the mark to stop was set. -/
theorem rightCapture_iff_threePackets : ∃ c,
    [zeroPacket 60, secondStation.bytes, zeroPacket 2030].foldlM rxCallbackPacked
        (PackedCapture.start firstStation secondStation 0xA001 1) = .ok c ∧
      RightCapture firstStation secondStation 0xA001 1 [zeroPacket 60, secondStation.bytes, zeroPacket 2030] c :=
  (rightCapture_iff (by decide)).mpr ⟨by decide +kernel, by decide +kernel, by decide +kernel⟩

/-- A packet with one byte in the place of `next`: the chain does not end behind its frame. -/
theorem not_rightCapture_oversized : ¬ ∀ (host sta : Mac) (type : UInt16) (numFragments : UInt32)
    (packets : List (List UInt8)), type ≠ 0 →
    ∃ c, packets.foldlM rxCallbackPacked (PackedCapture.start host sta type numFragments) = .ok c ∧
      RightCapture host sta type numFragments packets c := by
  intro h
  rcases h firstStation secondStation 0xA001 1 [zeroPacket 2041 ++ [1]] (by decide) with ⟨c, hrun, hright⟩
  rcases contained_of_rightCapture (by decide) hrun hright with ⟨-, hnull⟩
  exact absurd hnull (by decide +kernel)

end Hpav
