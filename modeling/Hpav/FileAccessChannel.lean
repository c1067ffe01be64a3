import Mathlib.Tactic.Common
import Hpav.DefragChain
import Hpav.Decode
import Hpav.FileAccess

/-!
# The exchange of a VS_FILE_ACCESS message

`hpav_mtk_vs_file_access_sndrcv` (`hpav_mtk_mme.c`) with the capture callback under it: the
frames that pcap hands over until the exchange ends are filtered, defragmented and decoded.
When the exchange ends is up to the capture: it is over with the first batch that brings an
answer, and with the timeout otherwise.
-/

namespace Hpav

open CMem Grouping

/-! ## Capturing -/

/-- `MMTYPE_MTK_VS_FILE_ACCESS_CNF` -/
abbrev mmtypeMtkVsFileAccessCnf : UInt16 := 0xA4FD

/-- What one call of `pcap_dispatch` comes back with. -/
inductive Dispatch where
  | packets (captured : List EthFrame)
  | error
  | breakLoop

/-- The frames `rx_callback` chains: those for the host with the expected type, whoever
sent them. -/
def rxAccepted (host : Mac) (frame : EthFrame) : Bool :=
  frame.dstMacAddr = host ∧ frame.mmtype = mmtypeMtkVsFileAccessCnf

/-- The receive loop; the list of dispatches ends where the timeout is reached. `none` is
an error of pcap. -/
def receiveLoop (host : Mac) (scan : Bool) : List Dispatch → List EthFrame → Option (List EthFrame)
  | [], rxFrames => some rxFrames
  | .packets captured :: rest, rxFrames =>
    let rxFrames := rxFrames ++ captured.filter (rxAccepted host)
    if captured ≠ [] ∧ scan = false ∧ rxFrames ≠ [] then some rxFrames
    else receiveLoop host scan rest rxFrames
  | .error :: _, _ => none
  | .breakLoop :: rest, rxFrames => receiveLoop host scan rest rxFrames

/-! ## Decoding -/

/-- The bytes of `struct hpav_mtk_vs_file_access_cnf` in front of the station address. -/
abbrev fileAccessCnfSize : Nat := 1069

/-- The fields of a confirmation in memory, the data behind `length` bytes cleared. -/
def FileAccessCnf.ofMemory (mem : Nat → UInt8) (sta : Mac) : FileAccessCnf :=
  let length := le16 (mem 43) (mem 44)
  let data := (List.range dataMaxLen).map fun i => mem (45 + i)
  { mstatus := mem 0
    op := mem 1
    fileType := mem 2
    parameter := (List.range 32).map fun i => mem (3 + i)
    totalFragments := le16 (mem 35) (mem 36)
    fragmentNumber := le16 (mem 37) (mem 38)
    offset := UInt32.ofNat ((mem 39).toNat + 256 * (mem 40).toNat + 65536 * (mem 41).toNat +
      16777216 * (mem 42).toNat)
    length
    data := if length.toNat < dataMaxLen then
        data.take length.toNat ++ List.replicate (dataMaxLen - length.toNat) 0
      else data
    staMacAddr := sta }

/-- One confirmation of `hpav_decode_mtk_vs_file_access_cnf`. The copy takes all bytes behind
the header; the address and the link behind them are set afterwards, so the copy may run
over these 14 bytes, but not past them. `uninit` is what `malloc` left in the structure. -/
def decodeFileAccess (uninit : Nat → UInt8) (packet : MmePacket) : Except Fault FileAccessCnf :=
  if packet.dataSize < mtkMmeHeaderSize then
    .error .outOfBounds
  else
    let rx : RxPacket := ⟨UInt32.ofNat packet.dataSize, fun i => packet.data.getD i 0,
      packet.srcMacAddr⟩
    let (bytes, sta) := (decodeMtkVsFileAccessCnf rx).val
    if bytes.length ≤ fileAccessCnfSize + 6 + 8 then
      .ok (FileAccessCnf.ofMemory (fun i => bytes.getD i (uninit i)) sta)
    else
      .error .outOfBounds

/-- What pcap does in one exchange: whether the filter is set and the request sent, and the
dispatches up to the timeout. -/
structure ChannelRun where
  sent : Bool
  dispatches : List Dispatch

/-- `hpav_mtk_vs_file_access_sndrcv` -/
def fileAccessSndrcv (uninit : Nat → UInt8) (host : Mac) (scan : Bool) (run : ChannelRun) :
    Except Fault Outcome :=
  if run.sent = false then
    .ok .pcapError
  else
    match receiveLoop host scan run.dispatches [] with
    | none => .ok .pcapError
    | some rxFrames => do
      let rxMmePackets ← defragFrames rxFrames
      let response ← rxMmePackets.mapM (decodeFileAccess uninit)
      return .received response

/-! ## Where confirmations come from -/

/-- The frames captured in a run. -/
def ChannelRun.captured (run : ChannelRun) : List EthFrame :=
  run.dispatches.flatMap fun
    | .packets captured => captured
    | .error => []
    | .breakLoop => []

/-- The frame carries the confirmation, in one piece. -/
def Carries (uninit : Nat → UInt8) (f : EthFrame) (c : FileAccessCnf) : Prop :=
  f.fmiNfFn = 0 ∧ ethHeaderSize ≤ f.frameSize ∧ decodeFileAccess uninit (framePacket f) = .ok c

theorem Carries.unique {uninit : Nat → UInt8} {f : EthFrame} {c c' : FileAccessCnf}
    (h : Carries uninit f c) (h' : Carries uninit f c') : c = c' := by
  have heq := h.2.2.symm.trans h'.2.2
  injection heq

/-- The data field of a confirmation is an array of fixed size. -/
theorem FileAccessCnf.length_data_ofMemory (mem : Nat → UInt8) (sta : Mac) :
    (FileAccessCnf.ofMemory mem sta).data.length = dataMaxLen := by
  unfold FileAccessCnf.ofMemory
  simp only
  split
  · rename_i hlt
    rw [List.length_append, List.length_take, List.length_map, List.length_range,
      List.length_replicate]
    omega
  · rw [List.length_map, List.length_range]

theorem Carries.length_data {uninit : Nat → UInt8} {f : EthFrame} {c : FileAccessCnf}
    (h : Carries uninit f c) : c.data.length = dataMaxLen := by
  have hdecode := h.2.2
  unfold decodeFileAccess at hdecode
  split at hdecode
  · cases hdecode
  · simp only at hdecode
    split at hdecode
    · injection hdecode with hc
      rw [← hc]
      exact FileAccessCnf.length_data_ofMemory _ _
    · cases hdecode

theorem receiveLoop_subset {host : Mac} {scan : Bool} {dispatches : List Dispatch}
    {rxFrames frames : List EthFrame} (h : receiveLoop host scan dispatches rxFrames = some frames) :
    ∀ f ∈ frames, f ∈ rxFrames ∨
      (f ∈ (ChannelRun.mk true dispatches).captured ∧ rxAccepted host f = true) := by
  -- on the dispatches: the list only grows by frames the filter let through
  induction dispatches generalizing rxFrames with
  | nil =>
    injection h with h
    intro f hf
    exact Or.inl (h ▸ hf)
  | cons d rest ih =>
    intro f hf
    cases d with
    | packets captured =>
      have hmem : f ∈ rxFrames ++ captured.filter (rxAccepted host) ∨
          (f ∈ (ChannelRun.mk true rest).captured ∧ rxAccepted host f = true) := by
        unfold receiveLoop at h
        simp only at h
        split at h
        · injection h with h
          exact Or.inl (h ▸ hf)
        · exact ih h f hf
      simp only [ChannelRun.captured, List.flatMap_cons, List.mem_append]
      rcases hmem with hmem | ⟨hmem, hacc⟩
      · rcases List.mem_append.mp hmem with hmem | hmem
        · exact Or.inl hmem
        · rcases List.mem_filter.mp hmem with ⟨hcap, hacc⟩
          exact Or.inr ⟨Or.inl hcap, hacc⟩
      · exact Or.inr ⟨Or.inr hmem, hacc⟩
    | error => cases h
    | breakLoop =>
      rcases ih h f hf with hmem | hmem
      · exact Or.inl hmem
      · exact Or.inr hmem

/-- A group of unfragmented frames is accepted only if it is a single frame. -/
theorem acceptedPacket_unfragmented {g : Group} {p : MmePacket} (hp : acceptedPacket g = some p)
    (hfrag : ∀ f ∈ g, f.fmiNfFn = 0) : ∃ f, g = [f] ∧ p = framePacket f := by
  have hcomplete : Complete g := by
    by_contra hnot
    rw [acceptedPacket_incomplete hnot] at hp
    cases hp
  rcases g with _ | ⟨first, rest⟩
  · exact absurd rfl hcomplete.ne_nil
  · have hfirst : first.numFragments = 0 := by
      unfold EthFrame.numFragments
      rw [hfrag first List.mem_cons_self]
      rfl
    have hcount := hcomplete.2
    simp only [List.head?_cons, Option.map_some, hfirst, List.length_cons, Option.some.injEq] at hcount
    obtain rfl : rest = [] := List.length_eq_zero_iff.mp (by omega)
    have hsized : Sized [first] := by
      by_contra hnot
      rcases defragGroupedFrames_short hcomplete hnot with ⟨e, he⟩
      unfold acceptedPacket at hp
      rw [he] at hp
      cases hp
    rw [acceptedPacket_complete hcomplete hsized] at hp
    injection hp with hp
    refine ⟨first, rfl, ?_⟩
    rw [← hp]
    have hdata : groupData [first] = first.bytesFrom ethHeaderSize := by simp [groupData]
    rw [hdata, first.length_bytesFrom]
    rfl

theorem mapM_mem {α β : Type} {k : α → Except Fault β} {xs : List α} {ys : List β}
    (h : xs.mapM k = .ok ys) : ∀ y ∈ ys, ∃ x ∈ xs, k x = .ok y := by
  induction xs generalizing ys with
  | nil =>
    simp only [List.mapM_nil, pure, Except.pure, Except.ok.injEq] at h
    subst h
    simp
  | cons x xs ih =>
    rw [List.mapM_cons] at h
    rcases hx : k x with e | y
    · rw [hx] at h
      cases h
    rw [hx, bind_ok] at h
    rcases hxs : xs.mapM k with e | ys'
    · rw [hxs] at h
      cases h
    rw [hxs, bind_ok] at h
    injection h with h
    subst h
    intro z hz
    rcases List.mem_cons.mp hz with rfl | hz
    · exact ⟨x, List.mem_cons_self, hx⟩
    · rcases ih hxs z hz with ⟨x', hx', hk⟩
      exact ⟨x', List.mem_cons_of_mem _ hx', hk⟩

/-- Where all answers to the host are unfragmented, every confirmation of an exchange is
carried by a frame captured in it. -/
theorem fileAccessSndrcv_sound {uninit : Nat → UInt8} {host : Mac} {scan : Bool}
    {run : ChannelRun} {response : List FileAccessCnf}
    (h : fileAccessSndrcv uninit host scan run = .ok (.received response))
    (hfrag : ∀ f ∈ run.captured, rxAccepted host f = true → f.fmiNfFn = 0) :
    ∀ c ∈ response, ∃ f ∈ run.captured, rxAccepted host f = true ∧ Carries uninit f c := by
  unfold fileAccessSndrcv at h
  by_cases hsent : run.sent = false
  · rw [if_pos hsent] at h
    cases h
  rw [if_neg hsent] at h
  -- receive, reassemble, decode: each stage takes what the one before it gave
  rcases hloop : receiveLoop host scan run.dispatches [] with _ | frames
  · rw [hloop] at h
    cases h
  rw [hloop] at h
  simp only at h
  rcases hdefrag : defragFrames frames with e | packets
  · rw [hdefrag] at h
    cases h
  rw [hdefrag, bind_ok] at h
  rcases hdecode : packets.mapM (decodeFileAccess uninit) with e | response'
  · rw [hdecode] at h
    cases h
  rw [hdecode, bind_ok] at h
  injection h with h
  injection h with h
  subst h
  have hframes : ∀ f ∈ frames, f ∈ run.captured ∧ rxAccepted host f = true := by
    intro f hf
    rcases receiveLoop_subset hloop f hf with hmem | hmem
    · cases hmem
    · exact hmem
  intro c hc
  -- and back from a confirmation to its packet, its group and its only frame
  rcases mapM_mem hdecode c hc with ⟨p, hp, hpc⟩
  rw [defragFrames_sound hdefrag] at hp
  rcases List.mem_filterMap.mp hp with ⟨g, hg, hgp⟩
  have hgframes : ∀ f ∈ g, f ∈ frames := by
    intro f hf
    rcases List.mem_map.mp hg with ⟨k, _, rfl⟩
    exact (List.mem_filter.mp hf).1
  rcases acceptedPacket_unfragmented hgp (fun f hf =>
    hfrag f (hframes f (hgframes f hf)).1 (hframes f (hgframes f hf)).2) with ⟨f, rfl, rfl⟩
  have hf := hframes f (hgframes f List.mem_cons_self)
  have hfn := hfrag f hf.1 hf.2
  refine ⟨f, hf.1, hf.2, hfn, ?_, hpc⟩
  by_contra hshort
  have hlt : f.frameSize - ethHeaderSize < mtkMmeHeaderSize := by
    have hzero : f.frameSize - ethHeaderSize = 0 := by omega
    rw [hzero]
    decide
  unfold decodeFileAccess framePacket at hpc
  rw [if_pos hlt] at hpc
  cases hpc

end Hpav
