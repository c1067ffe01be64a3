import Mathlib.Data.List.GetD
import Mathlib.Tactic.Common
import Hpav.Lib.CMem
import Hpav.Frame

/-!
# The capture callback

`rx_callback` (`hpav_mme.h`), which pcap calls for every packet it captures. A captured
packet is the bytes that were captured of it, and nothing is known about their number. The
frames the callback keeps are allocated on a heap: with an expected type they are chained,
and without one (when sniffing) only the latest is kept.
-/

namespace Hpav

open CMem

/-! ## The callback -/

/-- `broadcast_mac_addr` -/
def broadcastMacAddr : Mac :=
  ⟨List.replicate 6 0xFF, rfl⟩

/-- `callback_data_t` -/
structure CallbackData where
  srcMacAddr : Mac
  staMacAddr : Mac
  type : UInt16
  rxFrames : Option Nat
  numFragments : UInt32
  stop : Bool
  numFragmentsReceived : UInt32
  latestFrame : Option Nat
  fn : UInt32

/-- The data as it is set up: all else is cleared. -/
def CallbackData.start (srcMacAddr staMacAddr : Mac) (type : UInt16) (numFragments : UInt32) : CallbackData where
  srcMacAddr
  staMacAddr
  type
  rxFrames := none
  numFragments
  stop := false
  numFragmentsReceived := 0
  latestFrame := none
  fn := 0

/-- The frames allocated so far, and the data of the callback. -/
structure Capture where
  heap : Heap EthFrame
  user : CallbackData

/-- The capture before the first packet. -/
def Capture.start (host sta : Mac) (type : UInt16) (numFragments : UInt32) : Capture :=
  ⟨[], CallbackData.start host sta type numFragments⟩

/-- The frames `rx_frames` leads to. -/
def receivedFrames (c : Capture) : List EthFrame :=
  chain c.heap c.user.rxFrames

/-- A cleared structure with the captured bytes copied over it. They may fill its header and
its `mme_data`; what lies behind these is not theirs, and a copy that goes further is a fault
here. In the whole structure, with what such a copy does to it, the callback is
`rxCallbackPacked`. -/
def copyPacket (packetData : List UInt8) : Except Fault EthFrame :=
  if h : packetData.length ≤ ethFrameArea then .ok (EthFrame.ofCapture packetData h) else .error .outOfBounds

/-- The end of the callback: a frame is linked to the latest one or recorded as the first,
and counted. -/
def keepFrame (c : Capture) (frame : EthFrame) (fn : UInt32) : Except Fault Capture := do
  let (heap, newFrame) := mallocNode c.heap frame
  let heap ←
    if c.user.latestFrame ≠ none ∧ c.user.type ≠ 0 then setNext heap c.user.latestFrame (some newFrame)
    else .ok heap
  let rxFrames := if c.user.latestFrame ≠ none ∧ c.user.type ≠ 0 then c.user.rxFrames else some newFrame
  let numFragmentsReceived := c.user.numFragmentsReceived + 1
  let stop := c.user.stop || (c.user.staMacAddr ≠ broadcastMacAddr && c.user.numFragments ≠ 0 &&
    c.user.numFragments ≤ numFragmentsReceived)
  .ok ⟨heap, { c.user with rxFrames, latestFrame := some newFrame, numFragmentsReceived, stop, fn }⟩

/-- `rx_callback`, as far as packets stay within the header and `mme_data` of their frame. The
packet is read as a frame while it is still in the buffer of pcap. -/
def rxCallback (c : Capture) (packetData : List UInt8) : Except Fault Capture := do
  let dstMacAddr ← load packetData 0 6
  if dstMacAddr ≠ c.user.srcMacAddr.bytes then
    .ok c
  else do
    let mmtype ← load packetData 15 2
    -- the type 0 asks for every type
    if le16 (mmtype.getD 0 0) (mmtype.getD 1 0) ≠ c.user.type ∧ c.user.type ≠ 0 then
      .ok c
    else do
      let frame ← copyPacket packetData
      if frame.frameSize ≠ 0 then do
        let nfFn ← load packetData 17 1
        keepFrame c frame ((nfFn.headD 0) &&& 0xF).toUInt32
      else
        -- nothing was captured: the count of fragments stays as it is
        keepFrame c frame c.user.fn

/-! ## Which packets it takes -/

/-- Addressed to the host, and of the expected type if there is one. -/
def Wanted (host : Mac) (type : UInt16) (packetData : List UInt8) : Prop :=
  packetData.take 6 = host.bytes ∧ (le16 (packetData.getD 15 0) (packetData.getD 16 0) = type ∨ type = 0)

instance (host : Mac) (type : UInt16) (packetData : List UInt8) : Decidable (Wanted host type packetData) :=
  inferInstanceAs (Decidable (_ ∧ _))

/-- As much was captured as the callback looks at, and of a packet it takes no more than a
frame has room for. -/
structure Legal (host : Mac) (type : UInt16) (packetData : List UInt8) : Prop where
  address : 6 ≤ packetData.length
  mmtype : packetData.take 6 = host.bytes → 17 ≤ packetData.length
  header : Wanted host type packetData → 18 ≤ packetData.length
  area : Wanted host type packetData → packetData.length ≤ ethFrameArea

instance (host : Mac) (type : UInt16) (packetData : List UInt8) : Decidable (Legal host type packetData) :=
  decidable_of_iff (6 ≤ packetData.length ∧ (packetData.take 6 = host.bytes → 17 ≤ packetData.length) ∧
      (Wanted host type packetData → 18 ≤ packetData.length) ∧
      (Wanted host type packetData → packetData.length ≤ ethFrameArea))
    ⟨fun ⟨h1, h2, h3, h4⟩ => ⟨h1, h2, h3, h4⟩, fun h => ⟨h.address, h.mmtype, h.header, h.area⟩⟩

/-- The frame of a packet. -/
def frameOf (packetData : List UInt8) : Option EthFrame :=
  if h : packetData.length ≤ ethFrameArea then some (EthFrame.ofCapture packetData h) else none

/-- The frames of the packets that are taken. -/
def wantedFrames (host : Mac) (type : UInt16) (packets : List (List UInt8)) : List EthFrame :=
  (packets.filter fun packetData => Wanted host type packetData).filterMap frameOf

theorem frameOf_eq {packetData : List UInt8} (h : packetData.length ≤ ethFrameArea) :
    frameOf packetData = some (EthFrame.ofCapture packetData h) :=
  dif_pos h

theorem load_mmtype {packetData : List UInt8} (h : 17 ≤ packetData.length) :
    load packetData 15 2 = .ok [packetData.getD 15 0, packetData.getD 16 0] := by
  have hdrop : packetData.drop 15 = packetData.getD 15 0 :: packetData.getD 16 0 :: packetData.drop 17 := by
    rw [List.drop_eq_getElem_cons (by omega), List.drop_eq_getElem_cons (by omega),
      List.getD_eq_getElem _ _ (by omega), List.getD_eq_getElem _ _ (by omega)]
  rw [load_ok (by omega), hdrop]
  rfl

/-- A packet the callback does not take leaves everything as it is. -/
theorem rxCallback_unwanted {c : Capture} {packetData : List UInt8}
    (hlegal : Legal c.user.srcMacAddr c.user.type packetData)
    (h : ¬ Wanted c.user.srcMacAddr c.user.type packetData) : rxCallback c packetData = .ok c := by
  unfold rxCallback
  rw [load_ok (by have := hlegal.address; omega), bind_ok, List.drop_zero]
  by_cases hdst : packetData.take 6 = c.user.srcMacAddr.bytes
  · rw [if_neg (not_not_intro hdst), load_mmtype (hlegal.mmtype hdst), bind_ok, if_pos]
    constructor
    · intro htype
      exact h ⟨hdst, Or.inl htype⟩
    · intro hzero
      exact h ⟨hdst, Or.inr hzero⟩
  · rw [if_pos hdst]

/-- One that it takes is kept as a frame. -/
theorem rxCallback_wanted {c : Capture} {packetData : List UInt8}
    (hlegal : Legal c.user.srcMacAddr c.user.type packetData)
    (h : Wanted c.user.srcMacAddr c.user.type packetData) :
    rxCallback c packetData = keepFrame c (EthFrame.ofCapture packetData (hlegal.area h))
      (packetData.getD 17 0 &&& 0xF).toUInt32 := by
  have hlen := hlegal.header h
  have htype : ¬ (le16 (packetData.getD 15 0) (packetData.getD 16 0) ≠ c.user.type ∧ c.user.type ≠ 0) := by
    rintro ⟨hne, hzero⟩
    rcases h.2 with heq | heq
    · exact hne heq
    · exact hzero heq
  have hfn : ((packetData.drop 17).take 1).headD 0 = packetData.getD 17 0 := by
    rw [List.getD_eq_getElem?_getD, List.drop_eq_getElem_cons (by omega), List.getElem?_eq_getElem (by omega)]
    rfl
  have hframe : copyPacket packetData = .ok (EthFrame.ofCapture packetData (hlegal.area h)) := dif_pos _
  have hsize : (EthFrame.ofCapture packetData (hlegal.area h)).frameSize ≠ 0 := by
    show packetData.length ≠ 0
    omega
  unfold rxCallback
  rw [load_ok (by omega), bind_ok, List.drop_zero, if_neg (not_not_intro h.1), load_mmtype (by omega), bind_ok]
  show (if le16 (packetData.getD 15 0) (packetData.getD 16 0) ≠ c.user.type ∧ c.user.type ≠ 0 then _ else _) = _
  rw [if_neg htype, hframe, bind_ok, if_pos hsize, load_ok (by omega), bind_ok, hfn]

/-- Of any other packet it reads or copies too much. -/
theorem rxCallback_illegal {c : Capture} {packetData : List UInt8}
    (h : ¬ Legal c.user.srcMacAddr c.user.type packetData) : rxCallback c packetData = .error .outOfBounds := by
  have hload : ∀ off len, packetData.length < off + len → load packetData off len = .error .outOfBounds := by
    intro off len hlt
    unfold load
    rw [if_neg (by omega)]
  unfold rxCallback
  -- the loads in the order of the callback: the first one the packet is too short
  -- for is the one that fails
  by_cases haddress : 6 ≤ packetData.length
  · rw [load_ok (by omega), bind_ok, List.drop_zero]
    by_cases hdst : packetData.take 6 = c.user.srcMacAddr.bytes
    · rw [if_neg (not_not_intro hdst)]
      by_cases hmmtype : 17 ≤ packetData.length
      · rw [load_mmtype hmmtype, bind_ok]
        show (if le16 (packetData.getD 15 0) (packetData.getD 16 0) ≠ c.user.type ∧ c.user.type ≠ 0 then _ else _) = _
        by_cases htype : le16 (packetData.getD 15 0) (packetData.getD 16 0) ≠ c.user.type ∧ c.user.type ≠ 0
        · refine absurd ⟨haddress, fun _ => hmmtype, ?_, ?_⟩ h
          all_goals
            rintro ⟨-, heq | heq⟩
            · exact absurd heq htype.1
            · exact absurd heq htype.2
        · rw [if_neg htype]
          by_cases harea : packetData.length ≤ ethFrameArea
          · have hframe : copyPacket packetData = .ok (EthFrame.ofCapture packetData harea) := dif_pos harea
            have hsize : (EthFrame.ofCapture packetData harea).frameSize ≠ 0 := by
              show packetData.length ≠ 0
              omega
            rw [hframe, bind_ok, if_pos hsize]
            by_cases hheader : 18 ≤ packetData.length
            · exact absurd ⟨haddress, fun _ => hmmtype, fun _ => hheader, fun _ => harea⟩ h
            · rw [hload 17 1 (by omega), bind_error]
          · have hframe : copyPacket packetData = .error .outOfBounds := dif_neg harea
            rw [hframe, bind_error]
      · rw [hload 15 2 (by omega), bind_error]
    · refine absurd ⟨haddress, fun heq => absurd heq hdst, ?_, ?_⟩ h
      all_goals
        rintro ⟨heq, -⟩
        exact absurd heq hdst
  · rw [hload 0 6 (by omega), bind_error]

/-- What one call of `pcap_dispatch` comes back with. -/
inductive PcapEvent where
  | packets (captured : List (List UInt8))
  | error
  | breakLoop

/-- The batches pcap hands over, up to an error of it. -/
def batches : List PcapEvent → List (List (List UInt8))
  | [] => []
  | .packets captured :: rest => captured :: batches rest
  | .error :: _ => []
  | .breakLoop :: rest => batches rest

/-! ## What it keeps -/

/-- What does not change: the filter, and without a number of fragments to wait for the mark
to stop. -/
structure SameFilter (c c' : Capture) : Prop where
  srcMacAddr : c'.user.srcMacAddr = c.user.srcMacAddr
  type : c'.user.type = c.user.type
  numFragments : c'.user.numFragments = c.user.numFragments
  stop : c.user.numFragments = 0 → c'.user.stop = c.user.stop

theorem SameFilter.refl (c : Capture) : SameFilter c c :=
  ⟨rfl, rfl, rfl, fun _ => rfl⟩

theorem SameFilter.trans {c c' c'' : Capture} (h : SameFilter c c') (h' : SameFilter c' c'') : SameFilter c c'' :=
  ⟨h'.srcMacAddr.trans h.srcMacAddr, h'.type.trans h.type, h'.numFragments.trans h.numFragments,
    fun hzero => (h'.stop (h.numFragments.trans hzero)).trans (h.stop hzero)⟩

/-- With an expected type the frames kept are a chain. -/
def FramesChained (c : Capture) (frames : List EthFrame) : Prop :=
  Linked c.heap c.user.rxFrames c.user.latestFrame frames

/-- The data behind a frame that is kept: it is counted, and its number recorded. -/
theorem keepFrame_user {c c' : Capture} {frame : EthFrame} {fn : UInt32} (h : keepFrame c frame fn = .ok c') :
    ∃ rxFrames latestFrame, c'.user = { c.user with
      rxFrames, latestFrame, fn
      numFragmentsReceived := c.user.numFragmentsReceived + 1
      stop := c.user.stop || (c.user.staMacAddr ≠ broadcastMacAddr && c.user.numFragments ≠ 0 &&
        c.user.numFragments ≤ c.user.numFragmentsReceived + 1) } := by
  unfold keepFrame mallocNode at h
  simp only at h
  split at h
  · rcases hset : setNext (c.heap ++ [⟨frame, none⟩]) c.user.latestFrame (some c.heap.length) with f | heap
    · rw [hset] at h
      cases h
    · rw [hset] at h
      cases h
      exact ⟨_, _, rfl⟩
  · cases h
    exact ⟨_, _, rfl⟩

theorem keepFrame_sameFilter {c c' : Capture} {frame : EthFrame} {fn : UInt32}
    (h : keepFrame c frame fn = .ok c') : SameFilter c c' := by
  obtain ⟨rxFrames, latestFrame, huser⟩ := keepFrame_user h
  constructor
  · rw [huser]
  · rw [huser]
  · rw [huser]
  · intro hzero
    rw [huser]
    simp [hzero]

theorem keepFrame_chained {c : Capture} {frames : List EthFrame} (htype : c.user.type ≠ 0)
    (h : FramesChained c frames) (frame : EthFrame) (fn : UInt32) :
    ∃ c', keepFrame c frame fn = .ok c' ∧ SameFilter c c' ∧ FramesChained c' (frames ++ [frame]) := by
  unfold keepFrame mallocNode
  by_cases hframes : frames = []
  · have hlatest : c.user.latestFrame = none := by
      rcases h with ⟨as, hpath, -, hlast⟩
      have has : as = [] := List.length_eq_zero_iff.mp (by rw [hpath.length_eq, hframes]; rfl)
      rw [← hlast, has]
      rfl
    simp only [hlatest, ne_eq, not_true_eq_false, false_and, if_false, bind_ok]
    refine ⟨_, rfl, ⟨rfl, rfl, rfl, fun hzero => ?_⟩, ?_⟩
    · simp [hzero]
    rw [hframes]
    exact Linked.singleton c.heap frame
  · rcases h.link hframes frame with ⟨heap, hset, -, hlinked⟩
    rcases h.last_some hframes with ⟨a, m, hlatest, -⟩
    have hif : c.user.latestFrame ≠ none ∧ c.user.type ≠ 0 := ⟨by rw [hlatest]; exact Option.some_ne_none a, htype⟩
    simp only [if_pos hif, hset, bind_ok]
    exact ⟨_, rfl, ⟨rfl, rfl, rfl, fun hzero => by simp [hzero]⟩, hlinked⟩

/-- Without one only the latest is: nothing is ever linked to another frame. -/
theorem keepFrame_sniffing {c : Capture} (htype : c.user.type = 0) (frame : EthFrame) (fn : UInt32) :
    ∃ c', keepFrame c frame fn = .ok c' ∧ SameFilter c c' ∧ c'.heap = c.heap ++ [⟨frame, none⟩] ∧
      c'.user.rxFrames = some c.heap.length := by
  have hif : ¬ (c.user.latestFrame ≠ none ∧ c.user.type ≠ 0) := fun h => h.2 htype
  unfold keepFrame mallocNode
  simp only [if_neg hif, bind_ok]
  exact ⟨_, rfl, ⟨rfl, rfl, rfl, fun hzero => by simp [hzero]⟩, rfl, rfl⟩

/-! ## Batches -/

/-- Frames that nothing is linked to. -/
def nodes (frames : List EthFrame) : Heap EthFrame :=
  frames.map fun frame => ⟨frame, none⟩

theorem wantedFrames_cons_of_wanted {host : Mac} {type : UInt16} {packetData : List UInt8}
    {packets : List (List UInt8)} (h : Wanted host type packetData) (harea : packetData.length ≤ ethFrameArea) :
    wantedFrames host type (packetData :: packets) =
      EthFrame.ofCapture packetData harea :: wantedFrames host type packets := by
  unfold wantedFrames
  rw [List.filter_cons_of_pos (by simpa using h), List.filterMap_cons, frameOf_eq harea]

theorem wantedFrames_cons_of_unwanted {host : Mac} {type : UInt16} {packetData : List UInt8}
    {packets : List (List UInt8)} (h : ¬ Wanted host type packetData) :
    wantedFrames host type (packetData :: packets) = wantedFrames host type packets := by
  unfold wantedFrames
  rw [List.filter_cons_of_neg (by simpa using h)]

theorem wantedFrames_append (host : Mac) (type : UInt16) (packets packets' : List (List UInt8)) :
    wantedFrames host type (packets ++ packets') =
      wantedFrames host type packets ++ wantedFrames host type packets' := by
  unfold wantedFrames
  rw [List.filter_append, List.filterMap_append]

theorem length_nodes (frames : List EthFrame) : (nodes frames).length = frames.length := by
  unfold nodes
  rw [List.length_map]

section

variable {host : Mac} {type : UInt16} {kept : Capture → List EthFrame → Prop} {packets : List (List UInt8)}

/-- What holds of the frames kept so far and is carried on by every frame that is kept holds
behind a batch, too. -/
theorem rx_run (hfilter : ∀ {c frames}, kept c frames → c.user.srcMacAddr = host ∧ c.user.type = type)
    (hkeep : ∀ {c frames packetData} (hlegal : Legal host type packetData) (hwanted : Wanted host type packetData),
      kept c frames → ∃ c', keepFrame c (EthFrame.ofCapture packetData (hlegal.area hwanted))
          (packetData.getD 17 0 &&& 0xF).toUInt32 = .ok c' ∧
        kept c' (frames ++ [EthFrame.ofCapture packetData (hlegal.area hwanted)]))
    (hlegal : ∀ packetData ∈ packets, Legal host type packetData) {c : Capture} {frames : List EthFrame}
    (h : kept c frames) :
    ∃ c', packets.foldlM rxCallback c = .ok c' ∧ kept c' (frames ++ wantedFrames host type packets) := by
  -- packet by packet: one that is not wanted changes nothing
  induction packets generalizing c frames with
  | nil =>
    refine ⟨c, rfl, ?_⟩
    show kept c (frames ++ [])
    rwa [List.append_nil]
  | cons packetData packets ih =>
    have hfirst := hlegal packetData List.mem_cons_self
    have hrest : ∀ p ∈ packets, Legal host type p := fun p hp => hlegal p (List.mem_cons_of_mem _ hp)
    have hsame := hfilter h
    have hfirst' : Legal c.user.srcMacAddr c.user.type packetData := by
      rw [hsame.1, hsame.2]
      exact hfirst
    rw [List.foldlM_cons]
    by_cases hwanted : Wanted host type packetData
    · have hwanted' : Wanted c.user.srcMacAddr c.user.type packetData := by
        rw [hsame.1, hsame.2]
        exact hwanted
      obtain ⟨c₁, hkept, h₁⟩ := hkeep hfirst hwanted h
      obtain ⟨c', hrun, h'⟩ := ih hrest h₁
      refine ⟨c', ?_, ?_⟩
      · rw [rxCallback_wanted hfirst' hwanted', hkept]
        exact hrun
      · rwa [wantedFrames_cons_of_wanted hwanted (hfirst.area hwanted), List.append_cons]
    · have hunwanted : ¬ Wanted c.user.srcMacAddr c.user.type packetData := by
        rw [hsame.1, hsame.2]
        exact hwanted
      rw [rxCallback_unwanted hfirst' hunwanted, wantedFrames_cons_of_unwanted hwanted]
      exact ih hrest h

end

/-- With an expected type the frames of a batch go to the end of the chain. -/
theorem rx_chained {packets : List (List UInt8)} {c : Capture} {frames : List EthFrame}
    (htype : c.user.type ≠ 0) (h : FramesChained c frames)
    (hlegal : ∀ packetData ∈ packets, Legal c.user.srcMacAddr c.user.type packetData) :
    ∃ c', packets.foldlM rxCallback c = .ok c' ∧ SameFilter c c' ∧
      FramesChained c' (frames ++ wantedFrames c.user.srcMacAddr c.user.type packets) := by
  apply @rx_run c.user.srcMacAddr c.user.type (fun c' frames' => SameFilter c c' ∧ FramesChained c' frames')
  · intro c' frames' h'
    exact ⟨h'.1.srcMacAddr, h'.1.type⟩
  · intro c' frames' packetData hpacket hwanted h'
    have htype' : c'.user.type ≠ 0 := by
      rw [h'.1.type]
      exact htype
    obtain ⟨c'', hkeep, hsame, hchained⟩ := keepFrame_chained htype' h'.2
      (EthFrame.ofCapture packetData (hpacket.area hwanted)) (packetData.getD 17 0 &&& 0xF).toUInt32
    exact ⟨c'', hkeep, h'.1.trans hsame, hchained⟩
  · exact hlegal
  · exact ⟨SameFilter.refl c, h⟩

/-- `rx_frames` points at the frame that was allocated last. -/
def LatestKept (c : Capture) : Prop :=
  c.user.rxFrames = if c.heap.length = 0 then none else some (c.heap.length - 1)

theorem nodes_snoc (frames : List EthFrame) (frame : EthFrame) : nodes (frames ++ [frame]) = nodes frames ++ [⟨frame, none⟩] := by
  unfold nodes
  rw [List.map_append, List.map_singleton]

/-- Without one each frame of a batch is allocated, and the last one recorded. -/
theorem rx_latest {packets : List (List UInt8)} {c : Capture} (htype : c.user.type = 0) (h : LatestKept c)
    (hlegal : ∀ packetData ∈ packets, Legal c.user.srcMacAddr 0 packetData) :
    ∃ c', packets.foldlM rxCallback c = .ok c' ∧ SameFilter c c' ∧ LatestKept c' ∧
      c'.heap = c.heap ++ nodes (wantedFrames c.user.srcMacAddr 0 packets) := by
  have hstart : SameFilter c c ∧ LatestKept c ∧ c.heap = c.heap ++ nodes [] :=
    ⟨SameFilter.refl c, h, (List.append_nil _).symm⟩
  refine @rx_run c.user.srcMacAddr 0
    (fun c' frames => SameFilter c c' ∧ LatestKept c' ∧ c'.heap = c.heap ++ nodes frames) packets ?_ ?_ hlegal c [] hstart
  · intro c' frames h'
    exact ⟨h'.1.srcMacAddr, h'.1.type.trans htype⟩
  · -- as for the chain, but only the node that came last can be reached
    intro c' frames packetData hpacket hwanted h'
    obtain ⟨hsame, -, hheap⟩ := h'
    obtain ⟨c'', hkeep, hsame', hheap', hlatest⟩ := keepFrame_sniffing (hsame.type.trans htype)
      (EthFrame.ofCapture packetData (hpacket.area hwanted)) (packetData.getD 17 0 &&& 0xF).toUInt32
    refine ⟨c'', hkeep, hsame.trans hsame', ?_, ?_⟩
    · -- the pointer is moved to the new node, the last of the heap
      unfold LatestKept
      rw [hlatest, hheap', List.length_append, List.length_singleton, if_neg (Nat.succ_ne_zero _),
        Nat.add_sub_cancel]
    · rw [hheap', hheap, nodes_snoc, List.append_assoc]

/-- The packets of a batch were all legal, if the callback got through them. -/
theorem legal_of_foldlM {packets : List (List UInt8)} {c c' : Capture}
    (h : packets.foldlM rxCallback c = .ok c') :
    ∀ packetData ∈ packets, Legal c.user.srcMacAddr c.user.type packetData := by
  induction packets generalizing c with
  | nil =>
    intro packetData hp
    cases hp
  | cons first packets ih =>
    rw [List.foldlM_cons] at h
    have hfirst : Legal c.user.srcMacAddr c.user.type first := by
      by_contra hillegal
      rw [rxCallback_illegal hillegal] at h
      cases h
    intro packetData hp
    rcases List.mem_cons.mp hp with rfl | hp
    · exact hfirst
    · by_cases hwanted : Wanted c.user.srcMacAddr c.user.type first
      · rw [rxCallback_wanted hfirst hwanted] at h
        rcases hkeep : keepFrame c (EthFrame.ofCapture first (hfirst.area hwanted))
            (first.getD 17 0 &&& 0xF).toUInt32 with f | c₁
        · rw [hkeep] at h
          cases h
        · rw [hkeep] at h
          have hsame := keepFrame_sameFilter hkeep
          have hrest := ih h packetData hp
          rwa [hsame.srcMacAddr, hsame.type] at hrest
      · rw [rxCallback_unwanted hfirst hwanted] at h
        exact ih h packetData hp

end Hpav
