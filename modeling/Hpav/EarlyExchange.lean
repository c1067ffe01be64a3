import Mathlib.Tactic.Common
import Hpav.Fragmentation
import Hpav.SendReport

/-!
# Exchanges that end early

Five functions of `hpav_mtk_mme.c` leave their receiving loop once a batch has brought as many
frames as the latest of them announces. The frames are counted over all stations, so that this
can be the case while every message still lacks a fragment. `answersOnLeaving_iff` says when
the loop is left with an answer.
-/

namespace Hpav

open CMem Grouping

/-! ## The exchanges -/

/-- The functions, with what they send. -/
inductive EarlyExchange where
  | getPwmStats (request : RequestOf 4)
  | getPwmConf (request : RequestOf 4)
  | setPwmConf (request : RequestOf 15)
  | setTxCali (request : RequestOf 1)
  | setTxCaliInd

namespace EarlyExchange

/-- What an answer is decoded to. -/
def Answer : EarlyExchange → Type
  | .getPwmStats _ => VsGetPwmStatsCnf
  | .getPwmConf _ => VsGetPwmConfCnf
  | .setPwmConf _ | .setTxCali _ => UInt8
  | .setTxCaliInd => VsSetTxCaliInd

/-- What the function comes back with. -/
def run : (e : EarlyExchange) → Call → (Nat → UInt8) → PcapRun → Except Fault (Int × List (e.Answer × Mac))
  | .getPwmStats request, call, behind, pcap => (mtkVsGetPwmStatsSndrcv call request behind pcap).outcome
  | .getPwmConf request, call, behind, pcap => (mtkVsGetPwmConfSndrcv call request behind pcap).outcome
  | .setPwmConf request, call, behind, pcap => (mtkVsSetPwmConfSndrcv call request behind pcap).outcome
  | .setTxCali request, call, behind, pcap => (mtkVsSetTxCaliSndrcv call request behind pcap).outcome
  | .setTxCaliInd, call, behind, pcap => mtkVsSetTxCaliIndRcv call behind pcap

/-- What it receives. -/
def expected : (e : EarlyExchange) → Call → Expected e.Answer
  | .getPwmStats _, call => ⟨0xA10D, call.numFragments, allFragments, decodeMtkVsGetPwmStatsCnf⟩
  | .getPwmConf _, call => ⟨0xA111, call.numFragments, allFragments, decodeMtkVsGetPwmConfCnf⟩
  | .setPwmConf _, call => ⟨0xA115, call.numFragments, allFragments, decodeMtkVsSetPwmConfCnf⟩
  | .setTxCali _, _ => ⟨0xA129, 0, allFragments, decodeMtkVsSetTxCaliCnf⟩
  | .setTxCaliInd, _ => ⟨0xA12A, 0, allFragments, decodeMtkVsSetTxCaliInd⟩

/-- The call its receiving loop goes by. -/
def receiving : EarlyExchange → Call → Call
  | .setTxCaliInd, call => { call with staMacAddr := clearedMacAddr }
  | .getPwmStats _, call | .getPwmConf _, call | .setPwmConf _, call | .setTxCali _, call => call

/-- The data of the callback in front of the loop. -/
def user (e : EarlyExchange) (call : Call) : CallbackData :=
  CallbackData.start (e.receiving call).macAddr (e.receiving call).staMacAddr (e.expected call).mmtype
    (e.expected call).numFragments

/-- All five go by the number of frames and the last one of them. -/
theorem enough_eq (e : EarlyExchange) (call : Call) : (e.expected call).enough = allFragments := by
  cases e with
  | getPwmStats | getPwmConf | setPwmConf | setTxCali | setTxCaliInd => rfl

/-- All five wait for a type of their own. -/
theorem type_ne_zero (e : EarlyExchange) (call : Call) : (e.user call).type ≠ 0 := by
  show (e.expected call).mmtype ≠ 0
  unfold expected
  cases e with
  | getPwmStats | getPwmConf | setPwmConf | setTxCali | setTxCaliInd => simp

end EarlyExchange

/-- Nothing keeps an exchange from its receiving loop. -/
structure ReachesLoop (call : Call) (pcap : PcapRun) : Prop where
  compile : pcap.compile ≠ -1
  setfilter : pcap.setfilter ≠ -1
  sendpacket : pcap.sendpacket 0 = 0
  timeout : call.timeoutMs > 0

/-- Once the loop is reached the exchange is what is received. -/
theorem EarlyExchange.run_eq (e : EarlyExchange) {call : Call} {pcap : PcapRun} (h : ReachesLoop call pcap)
    (behind : Nat → UInt8) :
    e.run call behind pcap = receiveMmes (e.receiving call) (e.expected call) behind pcap.dispatches := by
  have hsndrcv : ∀ {α : Type} {size : Nat} (mmtype : UInt16) (request : RequestOf size) (expected : Expected α),
      size ≤ 15 → (exchange call (encodeMtkMme size mmtype call.staMacAddr call.macAddr request) expected behind pcap).outcome =
        receiveMmes call expected behind pcap.dispatches := by
    intro α size mmtype request expected hsize
    have hfits : mtkMmeHeaderSize + size ≤ ethFrameMaxPayload := by
      unfold mtkMmeHeaderSize ethFrameMaxPayload
      omega
    rw [exchange_received behind (encodes_mtkMme call mmtype request) hfits h.compile h.setfilter h.sendpacket,
      if_pos h.timeout]
  cases e with
  | getPwmStats request => exact hsndrcv 0xA10C request _ (by decide)
  | getPwmConf request => exact hsndrcv 0xA110 request _ (by decide)
  | setPwmConf request => exact hsndrcv 0xA114 request _ (by decide)
  | setTxCali request => exact hsndrcv 0xA128 request _ (by decide)
  | setTxCaliInd =>
    show mtkVsSetTxCaliIndRcv call behind pcap = _
    unfold mtkVsSetTxCaliIndRcv
    rw [if_neg h.compile, if_neg h.setfilter, if_pos h.timeout]
    rfl

/-! ## Leaving the loop -/

/-- The loop breaks at its test behind one of the batches. -/
inductive LeavesEarly (enough : CallbackData → Bool) : List PcapEvent → Capture → Capture → Prop where
  | now {captured : List (List UInt8)} {rest : List PcapEvent} {c c' : Capture}
      (hrx : captured.foldlM rxCallback c = .ok c') (hcaptured : captured ≠ []) (henough : enough c'.user = true) :
      LeavesEarly enough (.packets captured :: rest) c c'
  | later {captured : List (List UInt8)} {rest : List PcapEvent} {c c₁ c' : Capture}
      (hrx : captured.foldlM rxCallback c = .ok c₁)
      (hgo : ¬ ((captured ≠ [] ∧ enough c₁.user = true) ∨ c₁.user.stop = true)) (h : LeavesEarly enough rest c₁ c') :
      LeavesEarly enough (.packets captured :: rest) c c'
  | afterBreakLoop {rest : List PcapEvent} {c c' : Capture} (hgo : ¬ c.user.stop = true)
      (h : LeavesEarly enough rest c c') : LeavesEarly enough (.breakLoop :: rest) c c'

/-- Where the loop is left early it ends with the batches captured so far. -/
theorem LeavesEarly.dispatchLoop_eq {enough : CallbackData → Bool} {events : List PcapEvent} {c c' : Capture}
    (h : LeavesEarly enough events c c') : dispatchLoop enough events c = .ok (some c') := by
  induction h with
  | now hrx hcaptured henough =>
    unfold dispatchLoop
    rw [hrx, bind_ok, if_pos (Or.inl ⟨hcaptured, henough⟩)]
  | later hrx hgo _ ih =>
    unfold dispatchLoop
    rw [hrx, bind_ok, if_neg hgo]
    exact ih
  | afterBreakLoop hgo _ ih =>
    unfold dispatchLoop
    rw [if_neg hgo]
    exact ih

/-- From there on the frames are reassembled and decoded. -/
theorem LeavesEarly.receiveMmes_eq {α : Type} {call : Call} {expected : Expected α} {events : List PcapEvent}
    {c : Capture} (h : LeavesEarly expected.enough events
      (Capture.start call.macAddr call.staMacAddr expected.mmtype expected.numFragments) c) (behind : Nat → UInt8) :
    receiveMmes call expected behind events = defragFrames (receivedFrames c) >>= fun rxMmePackets =>
      .ok (hpavOk, rxMmePackets.map fun packet => (expected.decode (packet.received behind)).val) := by
  unfold receiveMmes
  rw [h.dispatchLoop_eq, bind_ok]

/-! ## What the callback counts -/

/-- The frames are as many as the latest of them announces, in the 32 bits of the count. -/
def Announced (frames : List EthFrame) : Prop :=
  ∃ latest, frames.getLast? = some latest ∧ frames.length % 2 ^ 32 = latest.numFragments + 1

/-- So many frames are as many as are waited for. -/
def AwaitedCount (user : CallbackData) (n : Nat) : Prop :=
  user.staMacAddr ≠ broadcastMacAddr ∧ user.numFragments ≠ 0 ∧ user.numFragments.toNat ≤ n

/-- The frames are as many as are waited for. -/
def Awaited (user : CallbackData) (frames : List EthFrame) : Prop :=
  user.staMacAddr ≠ broadcastMacAddr ∧ user.numFragments ≠ 0 ∧ user.numFragments.toNat ≤ frames.length

/-- Without frames nothing is announced. -/
theorem not_announced_nil : ¬ Announced [] := by
  rintro ⟨latest, hlatest, -⟩
  cases hlatest

/-- Without a frame none was waited for. -/
theorem not_awaitedCount_zero (user : CallbackData) : ¬ AwaitedCount user 0 := by
  rintro ⟨-, hne, hle⟩
  have hzero : user.numFragments.toNat = 0 := Nat.le_zero.mp hle
  exact hne (UInt32.toNat_inj.mp hzero)

/-- Without frames nothing is awaited. -/
theorem not_awaited_nil (user : CallbackData) : ¬ Awaited user [] :=
  not_awaitedCount_zero user

/-- The count of the callback wraps around, but not before the number is reached. -/
theorem awaitedCount_succ_iff {user : CallbackData} {n : Nat} :
    AwaitedCount user (n + 1) ↔ AwaitedCount user n ∨ (user.staMacAddr ≠ broadcastMacAddr ∧
      user.numFragments ≠ 0 ∧ user.numFragments ≤ UInt32.ofNat (n + 1)) := by
  unfold AwaitedCount
  constructor
  · rintro ⟨hsta, hnum, hle⟩
    by_cases hbefore : user.numFragments.toNat ≤ n
    · exact Or.inl ⟨hsta, hnum, hbefore⟩
    · -- the number is reached just now, so that the count has not wrapped around
      right
      have hlt := user.numFragments.toNat_lt
      refine ⟨hsta, hnum, ?_⟩
      rw [UInt32.le_iff_toNat_le, UInt32.toNat_ofNat', Nat.mod_eq_of_lt (by omega)]
      omega
  · rintro (⟨hsta, hnum, hle⟩ | ⟨hsta, hnum, hle⟩)
    · exact ⟨hsta, hnum, by omega⟩
    · refine ⟨hsta, hnum, ?_⟩
      rw [UInt32.le_iff_toNat_le, UInt32.toNat_ofNat'] at hle
      exact hle.trans (Nat.mod_le _ _)

/-- It is set with the last frame that is waited for, and stays. -/
theorem awaited_snoc_iff {user : CallbackData} {frames : List EthFrame} {frame : EthFrame} :
    Awaited user (frames ++ [frame]) ↔ Awaited user frames ∨ (user.staMacAddr ≠ broadcastMacAddr ∧
      user.numFragments ≠ 0 ∧ user.numFragments ≤ UInt32.ofNat (frames.length + 1)) := by
  unfold Awaited
  rw [List.length_append, List.length_singleton]
  exact awaitedCount_succ_iff

/-- The callback has kept these frames since it was given the data. -/
structure Received (user : CallbackData) (c : Capture) (frames : List EthFrame) : Prop where
  srcMacAddr : c.user.srcMacAddr = user.srcMacAddr
  staMacAddr : c.user.staMacAddr = user.staMacAddr
  type : c.user.type = user.type
  numFragments : c.user.numFragments = user.numFragments
  chained : FramesChained c frames
  count : c.user.numFragmentsReceived = UInt32.ofNat frames.length
  fn : ∀ latest, frames.getLast? = some latest → c.user.fn = UInt32.ofNat latest.numFragments
  stop : c.user.stop = true ↔ Awaited user frames

/-- At the start nothing was received. -/
theorem received_start (host sta : Mac) (type : UInt16) (numFragments : UInt32) :
    Received (CallbackData.start host sta type numFragments) (Capture.start host sta type numFragments) [] where
  srcMacAddr := rfl
  staMacAddr := rfl
  type := rfl
  numFragments := rfl
  chained := Linked.nil _
  count := rfl
  fn := by
    intro latest hlatest
    cases hlatest
  stop := by
    constructor
    · intro h
      cases h
    · intro h
      exact absurd h (not_awaited_nil _)

/-- The bytes of a frame are those that were captured. -/
theorem byte_ofCapture {packetData : List UInt8} (harea : packetData.length ≤ ethFrameArea) {i : Nat}
    (h : i < packetData.length) : (EthFrame.ofCapture packetData harea).byte i = packetData.getD i 0 := by
  show (packetData ++ _).getD i 0 = packetData.getD i 0
  rw [List.getD_eq_getElem?_getD, List.getElem?_append_left h, ← List.getD_eq_getElem?_getD]

/-- The number that is recorded is the one the frame announces. -/
theorem toUInt32_fn {packetData : List UInt8} (harea : packetData.length ≤ ethFrameArea) (hheader : 18 ≤ packetData.length) :
    (packetData.getD 17 0 &&& 0xF).toUInt32 = UInt32.ofNat (EthFrame.ofCapture packetData harea).numFragments := by
  have hbyte : (EthFrame.ofCapture packetData harea).fmiNfFn = packetData.getD 17 0 := byte_ofCapture harea (by omega)
  unfold EthFrame.numFragments
  rw [hbyte]
  apply UInt32.toNat_inj.mp
  have hlt := (packetData.getD 17 0 &&& 0xF).toNat_lt
  rw [UInt8.toNat_toUInt32, UInt32.toNat_ofNat', UInt8.shiftRight_zero, Nat.mod_eq_of_lt (by omega)]

section

variable {user : CallbackData} {c : Capture} {frames : List EthFrame}

/-- A frame that is kept. -/
theorem Received.keep (htype : user.type ≠ 0) (h : Received user c frames) {packetData : List UInt8}
    (hlegal : Legal user.srcMacAddr user.type packetData) (hwanted : Wanted user.srcMacAddr user.type packetData) :
    ∃ c', keepFrame c (EthFrame.ofCapture packetData (hlegal.area hwanted))
        (packetData.getD 17 0 &&& 0xF).toUInt32 = .ok c' ∧
      Received user c' (frames ++ [EthFrame.ofCapture packetData (hlegal.area hwanted)]) := by
  obtain ⟨c', hkeep, -, hchained⟩ := keepFrame_chained (by rw [h.type]; exact htype) h.chained
    (EthFrame.ofCapture packetData (hlegal.area hwanted)) (packetData.getD 17 0 &&& 0xF).toUInt32
  obtain ⟨rxFrames, latestFrame, huser⟩ := keepFrame_user hkeep
  have hcount : c.user.numFragmentsReceived + 1 = UInt32.ofNat (frames.length + 1) := by
    rw [h.count, UInt32.ofNat_add]
    rfl
  refine ⟨c', hkeep, ?_, ?_, ?_, ?_, hchained, ?_, ?_, ?_⟩
  · rw [huser, ← h.srcMacAddr]
  · rw [huser, ← h.staMacAddr]
  · rw [huser, ← h.type]
  · rw [huser, ← h.numFragments]
  · rw [huser, List.length_append]
    exact hcount
  · intro latest hlatest
    rw [List.getLast?_concat, Option.some.injEq] at hlatest
    rw [huser, ← hlatest]
    exact toUInt32_fn (hlegal.area hwanted) (hlegal.header hwanted)
  · rw [awaited_snoc_iff, huser, ← h.stop, ← hcount, ← h.staMacAddr, ← h.numFragments]
    simp [and_assoc]

/-- The frames of a batch. -/
theorem Received.batch (htype : user.type ≠ 0) (h : Received user c frames) {captured : List (List UInt8)}
    (hlegal : ∀ packetData ∈ captured, Legal user.srcMacAddr user.type packetData) :
    ∃ c', captured.foldlM rxCallback c = .ok c' ∧
      Received user c' (frames ++ wantedFrames user.srcMacAddr user.type captured) := by
  apply rx_run
  · intro c' frames' h'
    exact ⟨h'.srcMacAddr, h'.type⟩
  · intro c' frames' packetData hpacket hwanted h'
    exact h'.keep htype hpacket hwanted
  · exact hlegal
  · exact h

/-- What the test of the loop looks at. -/
theorem Received.allFragments_iff (h : Received user c frames) : allFragments c.user = true ↔ Announced frames := by
  have hhead : c.user.rxFrames = none ↔ frames = [] := h.chained.head_none_iff
  unfold allFragments Announced
  rw [decide_eq_true_eq, Ne, hhead, h.count]
  rcases List.eq_nil_or_concat' frames with rfl | ⟨before, latest, rfl⟩
  · simp
  · have hlatest : (before ++ [latest]).getLast? = some latest := List.getLast?_concat
    have hle := numFragments_le latest
    have hmod : (before ++ [latest]).length % 2 ^ 32 < 2 ^ 32 := Nat.mod_lt _ (by decide)
    rw [h.fn latest hlatest, ← UInt32.toNat_inj, UInt32.toNat_sub, UInt32.toNat_ofNat', UInt32.toNat_ofNat']
    constructor
    · rintro ⟨-, heq⟩
      refine ⟨latest, hlatest, ?_⟩
      simp only [UInt32.toNat_one] at heq
      omega
    · rintro ⟨latest', hlatest', heq⟩
      obtain rfl : latest = latest' := Option.some.inj (hlatest.symm.trans hlatest')
      refine ⟨List.append_ne_nil_of_right_ne_nil _ (List.cons_ne_nil _ _), ?_⟩
      simp only [UInt32.toNat_one]
      omega

end

/-! ## The batches it is left behind -/

/-- The frames of some batches. -/
def framesOf (user : CallbackData) (captured : List (List (List UInt8))) : List EthFrame :=
  wantedFrames user.srcMacAddr user.type captured.flatten

/-- The frames of one more batch are put behind. -/
theorem framesOf_snoc (user : CallbackData) (captured : List (List (List UInt8))) (packets : List (List UInt8)) :
    framesOf user (captured ++ [packets]) = framesOf user captured ++ wantedFrames user.srcMacAddr user.type packets := by
  unfold framesOf
  rw [List.flatten_append, List.flatten_singleton, wantedFrames_append]

/-- Fewer batches have the first of the frames. -/
theorem framesOf_begins {user : CallbackData} {early captured : List (List (List UInt8))} (h : early <+: captured) :
    framesOf user early <+: framesOf user captured := by
  obtain ⟨rest, rfl⟩ := h
  unfold framesOf
  rw [List.flatten_append, wantedFrames_append]
  exact List.prefix_append _ _

/-- Behind none of the first batches the loop has a reason to end. -/
def GoesOn (user : CallbackData) (captured : List (List (List UInt8))) : Prop :=
  ∀ before, before <+: captured → ¬ Announced (framesOf user before) ∧ ¬ Awaited user (framesOf user before)

/-- The first batches behind which the frames are as many as the latest of them announces,
unless as many as are waited for were there before. -/
structure FirstAnnounced (user : CallbackData) (captured early : List (List (List UInt8))) : Prop where
  begins : early <+: captured
  announced : Announced (framesOf user early)
  earlier : ∀ before, before <+: early → before ≠ early → GoesOn user before

/-- The loop goes on over no batches. -/
theorem goesOn_nil (user : CallbackData) : GoesOn user [] := by
  intro before hbefore
  rw [List.prefix_nil.mp hbefore]
  exact ⟨not_announced_nil, not_awaited_nil user⟩

section

variable {user : CallbackData} {c c' : Capture} {done : List (List (List UInt8))} {packets : List (List UInt8)}

/-- It goes on over one more batch after which nothing is announced or awaited. -/
theorem GoesOn.snoc (h : GoesOn user done) (hannounced : ¬ Announced (framesOf user (done ++ [packets])))
    (hawaited : ¬ Awaited user (framesOf user (done ++ [packets]))) : GoesOn user (done ++ [packets]) := by
  intro before hbefore
  rcases List.prefix_concat_iff.mp hbefore with rfl | hbefore
  · exact ⟨hannounced, hawaited⟩
  · exact h before hbefore

/-- It takes a packet to make the frames as many as announced. -/
theorem ne_nil_of_announced (hbefore : ¬ Announced (framesOf user done))
    (h : Announced (framesOf user (done ++ [packets]))) : packets ≠ [] := by
  rintro rfl
  have hsame : wantedFrames user.srcMacAddr user.type [] = [] := rfl
  rw [framesOf_snoc, hsame, List.append_nil] at h
  exact hbefore h

/-- The callback receives a batch packet by packet. -/
theorem Received.of_foldlM (htype : user.type ≠ 0) (h : Received user c (framesOf user done))
    (hrx : packets.foldlM rxCallback c = .ok c') : Received user c' (framesOf user (done ++ [packets])) := by
  have hlegal := legal_of_foldlM hrx
  rw [h.srcMacAddr, h.type] at hlegal
  obtain ⟨c'', hrx', h'⟩ := h.batch htype hlegal
  obtain rfl : c' = c'' := Except.ok.inj (hrx.symm.trans hrx')
  rw [framesOf_snoc]
  exact h'

end

/-- The loop is left behind the first batches of that kind. -/
theorem LeavesEarly.firstAnnounced {user : CallbackData} (htype : user.type ≠ 0) {events : List PcapEvent} {c c' : Capture}
    (h : LeavesEarly allFragments events c c') : ∀ {done : List (List (List UInt8))}, Received user c (framesOf user done) →
      GoesOn user done → ∃ early, FirstAnnounced user (done ++ batches events) early ∧
        Received user c' (framesOf user early) := by
  -- turn by turn; what is behind the loop already is the first part of the batches
  induction h with
  | @now captured rest c c' hrx hcaptured henough =>
    intro done hc hdone
    have hc' := hc.of_foldlM htype hrx
    refine ⟨done ++ [captured], ⟨?_, hc'.allFragments_iff.mp henough, ?_⟩, hc'⟩
    · refine ⟨batches rest, ?_⟩
      rw [List.append_assoc]
      rfl
    · intro before hbefore hne before' hbefore'
      rcases List.prefix_concat_iff.mp hbefore with heq | hbefore
      · exact absurd heq hne
      · exact hdone before' (hbefore'.trans hbefore)
  | @later captured rest c c₁ c' hrx hgo _ ih =>
    intro done hc hdone
    have hc₁ := hc.of_foldlM htype hrx
    have hannounced : ¬ Announced (framesOf user (done ++ [captured])) := by
      intro hannounced
      have hcaptured := ne_nil_of_announced (hdone done (List.prefix_refl _)).1 hannounced
      exact hgo (Or.inl ⟨hcaptured, hc₁.allFragments_iff.mpr hannounced⟩)
    have hawaited : ¬ Awaited user (framesOf user (done ++ [captured])) := by
      intro hawaited
      exact hgo (Or.inr (hc₁.stop.mpr hawaited))
    obtain ⟨early, hearly, hreceived⟩ := ih hc₁ (hdone.snoc hannounced hawaited)
    rw [List.append_assoc] at hearly
    exact ⟨early, hearly, hreceived⟩
  | afterBreakLoop _ _ ih =>
    intro done hc hdone
    exact ih hc hdone

/-- Of a sequence that is not all of the first batches, the next batch is among these as well. -/
theorem begins_snoc {β : Type} {done early rest : List β} {next : β} (hdone : done <+: early) (hne : done ≠ early)
    (hbegins : early <+: done ++ next :: rest) : done ++ [next] <+: early := by
  have hnext : done ++ [next] <+: done ++ next :: rest := by
    refine ⟨rest, ?_⟩
    rw [List.append_assoc]
    rfl
  have hlength : (done ++ [next]).length ≤ early.length := by
    have hle := hdone.length_le
    have hlt : done.length ≠ early.length := fun heq => hne (hdone.eq_of_length heq)
    rw [List.length_append, List.length_singleton]
    omega
  exact List.prefix_of_prefix_length_le hnext hbegins hlength

/-- And it is left behind them. -/
theorem FirstAnnounced.leavesEarly {user : CallbackData} (htype : user.type ≠ 0) {early : List (List (List UInt8))} :
    ∀ {events : List PcapEvent} {c : Capture} {done : List (List (List UInt8))}, Received user c (framesOf user done) →
      (∀ captured ∈ batches events, ∀ packetData ∈ captured, Legal user.srcMacAddr user.type packetData) →
      FirstAnnounced user (done ++ batches events) early → done <+: early → done ≠ early →
      ∃ c', LeavesEarly allFragments events c c' ∧ Received user c' (framesOf user early) := by
  intro events
  -- without another batch the first ones would be all of them
  have hend : ∀ {done : List (List (List UInt8))}, FirstAnnounced user (done ++ []) early → done <+: early →
      done ≠ early → False := by
    intro done hfirst hdone hne
    have hbegins := hfirst.begins
    rw [List.append_nil] at hbegins
    exact hne (hdone.eq_of_length_le hbegins.length_le)
  induction events with
  | nil =>
    intro c done hc hlegal hfirst hdone hne
    exact (hend hfirst hdone hne).elim
  | cons event rest ih =>
    intro c done hc hlegal hfirst hdone hne
    cases event with
    | error => exact (hend hfirst hdone hne).elim
    | breakLoop =>
      have hgo := (hfirst.earlier done hdone hne done (List.prefix_refl _)).2
      obtain ⟨c', hleaves, hreceived⟩ := ih hc hlegal hfirst hdone hne
      exact ⟨c', .afterBreakLoop (fun hstop => hgo (hc.stop.mp hstop)) hleaves, hreceived⟩
    | packets captured =>
      obtain ⟨c₁, hrx, -⟩ := hc.batch htype (hlegal captured List.mem_cons_self)
      have hc₁ := hc.of_foldlM htype hrx
      have hbegins : done ++ [captured] <+: early := begins_snoc hdone hne hfirst.begins
      by_cases hlast : done ++ [captured] = early
      · -- the batch brings a frame, as it was not so before
        have hgo := (hfirst.earlier done hdone hne done (List.prefix_refl _)).1
        have hcaptured : captured ≠ [] := ne_nil_of_announced hgo (hlast.symm ▸ hfirst.announced)
        rw [hlast] at hc₁
        exact ⟨c₁, .now hrx hcaptured (hc₁.allFragments_iff.mpr hfirst.announced), hc₁⟩
      · have hgo := hfirst.earlier _ hbegins hlast _ (List.prefix_refl _)
        have hfirst' : FirstAnnounced user ((done ++ [captured]) ++ batches rest) early := by
          rw [List.append_assoc]
          exact hfirst
        obtain ⟨c', hleaves, hreceived⟩ := ih hc₁ (fun b hb => hlegal b (List.mem_cons_of_mem _ hb)) hfirst' hbegins hlast
        refine ⟨c', .later hrx ?_ hleaves, hreceived⟩
        rintro (⟨-, henough⟩ | hstop)
        · exact hgo.1 (hc₁.allFragments_iff.mp henough)
        · exact hgo.2 (hc₁.stop.mp hstop)

/-! ## The messages that are delivered -/

section

variable {msgs : List Message} {frames : List EthFrame}

/-- A message is delivered if, in the order in which the messages have begun, only incomplete
ones come before the complete ones and at most one message comes behind these. -/
theorem Arrived.delivered (h : Arrived msgs frames) (hsome : DeliversSome Whole (groups EthFrame.key frames)) :
    ∃ m ∈ msgs, Fragments m (classOf EthFrame.key frames m.key) ∧
      ∃ packets, defragFrames frames = .ok packets ∧ m.packet ∈ packets := by
  have hsized : ∀ g ∈ groups EthFrame.key frames, Complete g → Sized g := fun g hg hcomplete => h.sized hg hcomplete.2
  rw [← DeliversSome.congr fun g hg => h.complete_iff hg, ← deliversSome_iff hsized] at hsome
  obtain ⟨hdeliverable, g, hg, hcomplete⟩ := hsome
  obtain ⟨m, hm, fs, hfs, hclass, hbegins⟩ := h.of_mem_groups hg
  obtain rfl : g = fs := (hfs.whole_iff hbegins hcomplete.ne_nil).mp hcomplete.2
  refine ⟨m, hm, by rw [hclass]; exact hfs, packetsOf frames, defragFrames_of_deliverable hdeliverable, ?_⟩
  apply List.mem_filterMap.mpr
  refine ⟨g, hg, ?_⟩
  rw [acceptedPacket_complete hcomplete hfs.sized, hfs.groupPacket_eq]

/-- And only then. -/
theorem Arrived.deliversSome (h : Arrived msgs frames) {packets : List MmePacket} (hpackets : defragFrames frames = .ok packets)
    (hne : packets ≠ []) : DeliversSome Whole (groups EthFrame.key frames) := by
  have hsized : ∀ g ∈ groups EthFrame.key frames, Complete g → Sized g := fun g hg hcomplete => h.sized hg hcomplete.2
  rw [← DeliversSome.congr fun g hg => h.complete_iff hg, ← deliversSome_iff hsized]
  rcases defragFrames_cases frames with ⟨-, hdeliverable⟩ | ⟨⟨e, he⟩, -⟩
  · refine ⟨hdeliverable, ?_⟩
    rw [defragFrames_sound hpackets] at hne
    obtain ⟨packet, hpacket⟩ := List.exists_mem_of_ne_nil _ hne
    obtain ⟨g, hg, haccepted⟩ := List.mem_filterMap.mp hpacket
    refine ⟨g, hg, ?_⟩
    by_contra hincomplete
    rw [acceptedPacket_incomplete hincomplete] at haccepted
    cases haccepted
  · rw [he] at hpackets
    cases hpackets

/-- The frames of one message are as many as announced when they are all there. -/
theorem Arrived.deliversSome_one {m : Message} (h : Arrived [m] frames) (hannounced : Announced frames) :
    DeliversSome Whole (groups EthFrame.key frames) := by
  obtain ⟨latest, hlatest, hcount⟩ := hannounced
  have hne : frames ≠ [] := by
    rintro rfl
    cases hlatest
  have hkey : ∀ f ∈ frames, f.key = m.key := by
    intro f hf
    obtain ⟨m', hm', hkey⟩ := h.known f hf
    rw [hkey, List.mem_singleton.mp hm']
  have hgroups := groups_of_forall_key hne hkey
  obtain ⟨m', hm', fs, hfs, -, hbegins⟩ := h.of_mem_groups (by rw [hgroups]; exact List.mem_singleton_self frames)
  -- at most sixteen frames, so that the count is exact
  have hlength := hbegins.length_le
  have hpieces := hfs.1
  have hsixteen := m'.pieces_le
  have hannounces : latest.numFragments + 1 = fs.length := by
    obtain ⟨i, hi⟩ := List.mem_iff_getElem?.mp (hbegins.mem (List.mem_of_getLast? hlatest))
    obtain ⟨p, hp, hfrag⟩ := hfs.isFragment hi
    rw [hfrag.numFragments (List.getElem?_eq_some_iff.mp hp).1, hpieces]
  have hall : frames = fs := by
    apply hbegins.eq_of_length
    rw [Nat.mod_eq_of_lt (by omega)] at hcount
    omega
  rw [hgroups]
  refine ⟨[], [frames], [], rfl, by simp, List.cons_ne_nil _ _, ?_, Nat.zero_le _⟩
  intro g hg
  rw [List.mem_singleton.mp hg]
  exact (hfs.whole_iff hbegins hne).mpr hall

end

/-! ## What a station sends -/

/-- The packet that carries piece `p` of a message. -/
def Message.wire (m : Message) (i : Nat) (p : List UInt8) : List UInt8 :=
  m.dst.bytes ++ m.src.bytes ++ [0x88, 0xE1] ++ (m.header i ++ p)

section

variable (m : Message) (i : Nat) {p : List UInt8} (hp : ethHeaderSize + sizeOfMmeHeader m.mmtype + p.length ≤ ethFrameArea)

/-- A packet on the wire has its headers and its payload. -/
theorem Message.length_wire : (m.wire i p).length = ethHeaderSize + sizeOfMmeHeader m.mmtype + p.length := by
  unfold wire ethHeaderSize
  simp only [List.length_append, m.dst.length_eq, m.src.length_eq, m.length_header, List.length_cons, List.length_nil]
  omega

include hp

/-- A packet on the wire is taken by the filter it is meant for. -/
theorem Message.wanted_wire : Wanted m.dst m.mmtype (m.wire i p) := by
  have hlength := m.length_wire i (p := p)
  have hheader := m.oui_length
  have harea : (m.wire i p).length ≤ ethFrameArea := hlength.trans_le hp
  unfold mmeHeaderSize at hheader
  unfold ethHeaderSize at hlength
  have hmmtype : (m.frame i p hp).mmtype = m.mmtype := (m.frame_isFragment i p hp).mmtype
  constructor
  · unfold wire
    rw [List.append_assoc, List.append_assoc]
    exact List.take_left' m.dst.length_eq
  · left
    rw [← hmmtype]
    show _ = le16 ((EthFrame.ofCapture (m.wire i p) harea).byte 15) ((EthFrame.ofCapture (m.wire i p) harea).byte 16)
    rw [byte_ofCapture harea (by omega), byte_ofCapture harea (by omega)]

/-- Its length is one the callback can deal with. -/
theorem Message.legal_wire : Legal m.dst m.mmtype (m.wire i p) := by
  have hlength := m.length_wire i (p := p)
  have hheader := m.oui_length
  unfold mmeHeaderSize at hheader
  unfold ethHeaderSize at hlength
  constructor
  · omega
  · intro _
    omega
  · intro _
    omega
  · intro _
    exact (m.length_wire i).trans_le hp

/-- It is the first frame taken from its batch. -/
theorem Message.wantedFrames_wire (packets : List (List UInt8)) :
    wantedFrames m.dst m.mmtype (m.wire i p :: packets) = m.frame i p hp :: wantedFrames m.dst m.mmtype packets :=
  wantedFrames_cons_of_wanted (m.wanted_wire i hp) ((m.length_wire i).trans_le hp)

end

/-! ## Answers -/

/-- What the stations send in answer: legal packets for the host are all of their messages. -/
structure Answering (user : CallbackData) (msgs : List Message) (captured : List (List (List UInt8))) : Prop where
  legal : ∀ packets ∈ captured, ∀ packetData ∈ packets, Legal user.srcMacAddr user.type packetData
  arrived : Arrived msgs (framesOf user captured)

/-- The data and the heap in front of the loop. -/
def EarlyExchange.start (e : EarlyExchange) (call : Call) : Capture :=
  Capture.start (e.receiving call).macAddr (e.receiving call).staMacAddr (e.expected call).mmtype
    (e.expected call).numFragments

/-- An exchange starts with nothing received. -/
theorem EarlyExchange.received_start (e : EarlyExchange) (call : Call) :
    Received (e.user call) (e.start call) (framesOf (e.user call) []) :=
  Hpav.received_start _ _ _ _

/-- Whenever the loop is left early, all fragments of a message have arrived, its packet is
among those that are reassembled, and the response is not NULL. -/
def AnswersOnLeaving (e : EarlyExchange) (call : Call) (pcap : PcapRun) (msgs : List Message) : Prop :=
  ∀ c, LeavesEarly (e.expected call).enough pcap.dispatches (e.start call) c →
    (∃ m ∈ msgs, Fragments m (classOf EthFrame.key (receivedFrames c) m.key) ∧
      ∃ packets, defragFrames (receivedFrames c) = .ok packets ∧ m.packet ∈ packets) ∧
    ∀ behind, ∃ response, e.run call behind pcap = .ok (hpavOk, response) ∧ response ≠ []

section

variable {e : EarlyExchange} {call : Call} {pcap : PcapRun} {msgs : List Message}

/-- The chain in memory is the list of frames received. -/
theorem Received.receivedFrames_eq {user : CallbackData} {c : Capture} {frames : List EthFrame}
    (h : Received user c frames) : receivedFrames c = frames :=
  h.chained.chain_eq

/-- Behind batches of that kind there has to be a message that is delivered. -/
theorem AnswersOnLeaving.deliversSome (h : AnswersOnLeaving e call pcap msgs)
    (hanswering : Answering (e.user call) msgs (batches pcap.dispatches)) {early : List (List (List UInt8))}
    (hearly : FirstAnnounced (e.user call) (batches pcap.dispatches) early) :
    DeliversSome Whole (groups EthFrame.key (framesOf (e.user call) early)) := by
  have hne : [] ≠ early := by
    rintro rfl
    exact not_announced_nil hearly.announced
  obtain ⟨c, hleaves, hreceived⟩ := hearly.leavesEarly (e.type_ne_zero call) (e.received_start call) hanswering.legal
    List.nil_prefix hne
  rw [← e.enough_eq call] at hleaves
  obtain ⟨⟨m, -, -, packets, hpackets, hmem⟩, -⟩ := h c hleaves
  rw [hreceived.receivedFrames_eq] at hpackets
  exact (hanswering.arrived.of_begins (framesOf_begins hearly.begins)).deliversSome hpackets (List.ne_nil_of_mem hmem)

/-- If there always is one, the loop is left with an answer. -/
theorem answersOnLeaving_of_deliversSome (hloop : ReachesLoop call pcap)
    (hanswering : Answering (e.user call) msgs (batches pcap.dispatches))
    (h : ∀ early, FirstAnnounced (e.user call) (batches pcap.dispatches) early →
      DeliversSome Whole (groups EthFrame.key (framesOf (e.user call) early))) : AnswersOnLeaving e call pcap msgs := by
  intro c hleaves
  have hleaves' := hleaves
  rw [e.enough_eq call] at hleaves'
  obtain ⟨early, hearly, hreceived⟩ := hleaves'.firstAnnounced (e.type_ne_zero call) (e.received_start call)
    (goesOn_nil (e.user call))
  have harrived := hanswering.arrived.of_begins (framesOf_begins hearly.begins)
  obtain ⟨m, hm, hfragments, packets, hpackets, hmem⟩ := harrived.delivered (h early hearly)
  rw [← hreceived.receivedFrames_eq] at hfragments hpackets
  refine ⟨⟨m, hm, hfragments, packets, hpackets, hmem⟩, ?_⟩
  intro behind
  have hreceives := hleaves.receiveMmes_eq behind
  rw [hpackets, bind_ok, ← e.run_eq hloop behind] at hreceives
  refine ⟨_, hreceives, ?_⟩
  rw [Ne, List.map_eq_nil_iff]
  exact List.ne_nil_of_mem hmem

/-- With one message the loop is never left without its packet. -/
theorem answersOnLeaving_one {m : Message} (hloop : ReachesLoop call pcap)
    (hanswering : Answering (e.user call) [m] (batches pcap.dispatches)) : AnswersOnLeaving e call pcap [m] := by
  apply answersOnLeaving_of_deliversSome hloop hanswering
  intro early hearly
  exact (hanswering.arrived.of_begins (framesOf_begins hearly.begins)).deliversSome_one hearly.announced

/-- The loop is left early with an answer exactly if, behind the first batch that makes the
frames as many as announced, a message is complete, with only incomplete ones begun before the
complete ones and at most one message begun behind them. -/
theorem answersOnLeaving_iff (hloop : ReachesLoop call pcap)
    (hanswering : Answering (e.user call) msgs (batches pcap.dispatches)) :
    AnswersOnLeaving e call pcap msgs ↔
      ∀ early, FirstAnnounced (e.user call) (batches pcap.dispatches) early →
        DeliversSome Whole (groups EthFrame.key (framesOf (e.user call) early)) := by
  constructor
  · intro h early hearly
    exact h.deliversSome hanswering hearly
  · intro h
    exact answersOnLeaving_of_deliversSome hloop hanswering h

end

/-! ## One station and two -/

/-- Both fragments fit a frame. -/
theorem pwmStats_fits : ∀ p ∈ ([[0, 1, 2, 3, 4], [5, 6, 7, 8]] : List (List UInt8)),
    ethHeaderSize + sizeOfMmeHeader 0xA10D + p.length ≤ ethFrameArea := by
  decide

/-- The manufacturer's identifier is the end of the header. -/
theorem pwmStats_oui : mmeHeaderSize + ([0x00, 0x13, 0xD7] : List UInt8).length = sizeOfMmeHeader 0xA10D := by
  decide

/-- A confirmation in two fragments. -/
def pwmStatsMessage (station : Mac) : Message where
  dst := firstStation
  src := station
  mmv := 0x01
  mmtype := 0xA10D
  fmsn := 0
  oui := [0x00, 0x13, 0xD7]
  pieces := [[0, 1, 2, 3, 4], [5, 6, 7, 8]]
  oui_length := pwmStats_oui
  pieces_pos := Nat.le_add_left 1 1
  pieces_le := Nat.le_add_right 2 14
  piece_fits := pwmStats_fits

/-- The frame of the first fragment. -/
def pwmStatsFrame (station : Mac) : EthFrame :=
  (pwmStatsMessage station).frame 0 [0, 1, 2, 3, 4] ((pwmStatsMessage station).piece_fits _ List.mem_cons_self)

/-- The frame is the first fragment of the confirmation. -/
theorem pwmStatsFrame_isFragment (station : Mac) :
    IsFragment (pwmStatsMessage station) 0 [0, 1, 2, 3, 4] (pwmStatsFrame station) :=
  (pwmStatsMessage station).frame_isFragment 0 _ _

/-- All stations are asked, and no number of fragments is waited for. -/
def pwmStatsCall : Call :=
  ⟨firstStation, broadcastMacAddr, 1000, 0⟩

/-- Nothing fails, and these batches are captured. -/
def capturingRun (captured : List (List (List UInt8))) : PcapRun :=
  { quietRun with dispatches := captured.map PcapEvent.packets }

/-- With a channel that works the loop is reached. -/
theorem reachesLoop_capturingRun (captured : List (List (List UInt8))) : ReachesLoop pwmStatsCall (capturingRun captured) where
  compile := by
    show (0 : Int) ≠ -1
    decide
  setfilter := by
    show (0 : Int) ≠ -1
    decide
  sendpacket := rfl
  timeout := by decide

/-- VS_GET_PWM_STATS.REQ -/
def pwmStatsExchange : EarlyExchange :=
  .getPwmStats ⟨[0, 0, 0, 0], rfl⟩

/-- A batch with the first fragments of some stations. -/
def firstFragments (stations : List Mac) : List (List UInt8) :=
  stations.map fun station => (pwmStatsMessage station).wire 0 [0, 1, 2, 3, 4]

/-- Of every station the first fragment is taken. -/
theorem framesOf_firstFragments (stations : List Mac) :
    framesOf (pwmStatsExchange.user pwmStatsCall) [firstFragments stations] = stations.map pwmStatsFrame := by
  show wantedFrames firstStation 0xA10D (firstFragments stations ++ []) = _
  rw [List.append_nil]
  induction stations with
  | nil => rfl
  | cons station stations ih =>
    have hfirst := (pwmStatsMessage station).wantedFrames_wire 0
      ((pwmStatsMessage station).piece_fits _ List.mem_cons_self) (firstFragments stations)
    rw [List.map_cons, ← ih]
    exact hfirst

/-- A station sends its two fragments, each captured on its own. -/
def bothFragments (station : Mac) : List (List (List UInt8)) :=
  [[(pwmStatsMessage station).wire 0 [0, 1, 2, 3, 4]], [(pwmStatsMessage station).wire 1 [5, 6, 7, 8]]]

/-- One station that sends both fragments answers. -/
theorem answering_oneStation (station : Mac) :
    Answering (pwmStatsExchange.user pwmStatsCall) [pwmStatsMessage station] (bothFragments station) := by
  have hfits := (pwmStatsMessage station).piece_fits
  have hfirst : [0, 1, 2, 3, 4] ∈ (pwmStatsMessage station).pieces := List.mem_cons_self
  have hsecond : [5, 6, 7, 8] ∈ (pwmStatsMessage station).pieces := List.mem_cons_of_mem _ List.mem_cons_self
  constructor
  · intro packets hpackets packetData hpacket
    rcases List.mem_cons.mp hpackets with rfl | hpackets
    · rw [List.mem_singleton.mp hpacket]
      exact (pwmStatsMessage station).legal_wire 0 (hfits _ hfirst)
    · rw [List.mem_singleton.mp hpackets, List.mem_singleton] at hpacket
      rw [hpacket]
      exact (pwmStatsMessage station).legal_wire 1 (hfits _ hsecond)
  · have hframes : framesOf (pwmStatsExchange.user pwmStatsCall) (bothFragments station) =
        (pwmStatsMessage station).frames := by
      refine ((pwmStatsMessage station).wantedFrames_wire 0 (hfits _ hfirst) _).trans ?_
      exact congrArg (_ :: ·) ((pwmStatsMessage station).wantedFrames_wire 1 (hfits _ hsecond) [])
    have hkeys : ([pwmStatsMessage station].map Message.key).Nodup := List.nodup_singleton _
    rw [hframes]
    apply arrived_of_interleaving hkeys (.cons ⟨_, (pwmStatsMessage station).frames_fragments, List.prefix_refl _⟩ .nil)
    exact .take (k := 0) rfl (.take (k := 0) rfl (.done (by simp)))

/-- Its answer is complete when the loop is left. -/
theorem answersOnLeaving_iff_oneStation :
    AnswersOnLeaving pwmStatsExchange pwmStatsCall (capturingRun (bothFragments secondStation))
      [pwmStatsMessage secondStation] :=
  (answersOnLeaving_iff (reachesLoop_capturingRun _) (answering_oneStation secondStation)).mpr fun _ hearly =>
    ((answering_oneStation secondStation).arrived.of_begins (framesOf_begins hearly.begins)).deliversSome_one
      hearly.announced

/-- Another station, 00:13:d7:00:00:03. -/
def thirdStation : Mac :=
  ⟨[0x00, 0x13, 0xD7, 0x00, 0x00, 0x03], rfl⟩

/-- The first fragments of two stations in one batch are the begin of their answers. -/
theorem answering_twoStations : Answering (pwmStatsExchange.user pwmStatsCall)
    [pwmStatsMessage secondStation, pwmStatsMessage thirdStation] [firstFragments [secondStation, thirdStation]] := by
  constructor
  · intro packets hpackets packetData hpacket
    rw [List.mem_singleton.mp hpackets] at hpacket
    obtain ⟨station, -, rfl⟩ := List.mem_map.mp hpacket
    exact (pwmStatsMessage station).legal_wire 0 ((pwmStatsMessage station).piece_fits _ List.mem_cons_self)
  · rw [framesOf_firstFragments]
    have hfirst : ∀ station, ∃ all, Fragments (pwmStatsMessage station) all ∧ [pwmStatsFrame station] <+: all :=
      fun station => ⟨_, (pwmStatsMessage station).frames_fragments, [_], rfl⟩
    apply arrived_of_interleaving (by decide) (.cons (hfirst secondStation) (.cons (hfirst thirdStation) .nil))
    exact .take (k := 0) rfl (.take (k := 1) rfl (.done (by simp)))

/-- With the first fragments of two stations the frames are as many as announced. -/
theorem firstAnnounced_twoStations : FirstAnnounced (pwmStatsExchange.user pwmStatsCall)
    [firstFragments [secondStation, thirdStation]] [firstFragments [secondStation, thirdStation]] := by
  refine ⟨List.prefix_refl _, ?_, ?_⟩
  · rw [framesOf_firstFragments]
    refine ⟨pwmStatsFrame thirdStation, rfl, ?_⟩
    rw [(pwmStatsFrame_isFragment thirdStation).numFragments (by decide)]
    rfl
  · intro before hbefore hne
    rcases List.prefix_cons_iff.mp hbefore with rfl | ⟨behind, rfl, hbehind⟩
    · exact goesOn_nil _
    · rw [List.prefix_nil.mp hbehind] at hne
      exact absurd rfl hne

/-- Both stations have sent one of two fragments when the loop is left. -/
theorem twoStations_not_answersOnLeaving : ¬ ∀ (e : EarlyExchange) (call : Call) (pcap : PcapRun) (msgs : List Message),
    ReachesLoop call pcap → Answering (e.user call) msgs (batches pcap.dispatches) → AnswersOnLeaving e call pcap msgs := by
  intro h
  have hloop := reachesLoop_capturingRun [firstFragments [secondStation, thirdStation]]
  have hanswers := h pwmStatsExchange pwmStatsCall _ _ hloop answering_twoStations
  have hsome := hanswers.deliversSome answering_twoStations firstAnnounced_twoStations
  rw [framesOf_firstFragments] at hsome
  have hnone : ∀ g ∈ groups EthFrame.key ([secondStation, thirdStation].map pwmStatsFrame), ¬ Whole g := by
    decide +kernel
  obtain ⟨parts, wholes, rest, hsplit, -, hne, hwholes, -⟩ := hsome
  obtain ⟨g, hg⟩ := List.exists_mem_of_ne_nil wholes hne
  refine hnone g ?_ (hwholes g hg)
  rw [hsplit]
  exact List.mem_append_right _ (List.mem_append_left _ hg)

end Hpav
