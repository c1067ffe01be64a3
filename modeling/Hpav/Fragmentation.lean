import Mathlib.Tactic.Common
import Mathlib.Data.List.Forall2
import Hpav.DefragChain

/-!
# Reassembly undoes fragmentation

The abstract side of defragmentation: a `Message` is an MME header and a payload cut
into pieces, `IsFragment` says which frames carry one piece of it, and a capture is any
interleaving of the frames of several messages. The frames of a message form a complete
group (`Fragments.complete`), whose packet is the message (`Fragments.groupPacket_eq`).
-/

namespace Hpav

open CMem Grouping

/-! ## Messages and their fragments -/

/-- An MME on its way through a station that fragments it. The OUI is there for the
vendor-specific types only; a piece fits the memory of a received frame. -/
structure Message where
  dst : Mac
  src : Mac
  mmv : UInt8
  mmtype : UInt16
  fmsn : UInt8
  oui : List UInt8
  pieces : List (List UInt8)
  oui_length : mmeHeaderSize + oui.length = sizeOfMmeHeader mmtype
  pieces_pos : 1 ≤ pieces.length
  pieces_le : pieces.length ≤ 16
  piece_fits : ∀ p ∈ pieces, ethHeaderSize + sizeOfMmeHeader mmtype + p.length ≤ ethFrameArea

namespace Message

def key (m : Message) : FrameKey :=
  ⟨m.dst, m.src, m.mmv, m.mmtype, m.fmsn⟩

/-- The fragmentation byte of fragment `i`: its index above the number of the last one. -/
def nfFn (m : Message) (i : Nat) : UInt8 :=
  UInt8.ofNat (16 * i + (m.pieces.length - 1))

/-- The MME header in front of piece `i`. -/
def header (m : Message) (i : Nat) : List UInt8 :=
  [m.mmv] ++ bytes16 m.mmtype ++ [m.nfFn i, m.fmsn] ++ m.oui

/-- The packet that stands for the whole message. -/
def packet (m : Message) : MmePacket where
  dataSize := sizeOfMmeHeader m.mmtype + m.pieces.flatten.length
  data := m.header 0 ++ m.pieces.flatten
  dstMacAddr := m.dst
  srcMacAddr := m.src

end Message

/-- The frame `f` carries the piece `p` of `m` as its fragment number `i`. What the
frame holds behind `frame_size` and its Ethernet type do not matter. -/
structure IsFragment (m : Message) (i : Nat) (p : List UInt8) (f : EthFrame) : Prop where
  dst : f.dstMacAddr = m.dst
  src : f.srcMacAddr = m.src
  frameSize : f.frameSize = ethHeaderSize + sizeOfMmeHeader m.mmtype + p.length
  mme : f.bytesFrom ethHeaderSize = m.header i ++ p

/-- The frames of a message, in the order of its pieces. -/
def Fragments (m : Message) (fs : List EthFrame) : Prop :=
  fs.length = m.pieces.length ∧
    ∀ i p f, m.pieces[i]? = some p → fs[i]? = some f → IsFragment m i p f

/-- The frame a station sends for piece `p`. -/
def Message.frame (m : Message) (i : Nat) (p : List UInt8)
    (hp : ethHeaderSize + sizeOfMmeHeader m.mmtype + p.length ≤ ethFrameArea) : EthFrame :=
  EthFrame.ofCapture (m.dst.bytes ++ m.src.bytes ++ [0x88, 0xE1] ++ (m.header i ++ p)) (by
    have h := m.oui_length
    simp only [Message.header, List.length_append, List.length_cons, List.length_nil,
      length_bytes16, m.dst.length_eq, m.src.length_eq, ethHeaderSize, mmeHeaderSize] at h hp ⊢
    omega)

/-- The frames a station sends for the whole message. -/
def Message.frames (m : Message) : List EthFrame :=
  m.pieces.attach.mapIdx fun i p => m.frame i p.1 (m.piece_fits p.1 p.2)

/-! ## What a fragment's header reads as -/

/-- A byte is its two halves. -/
theorem nfFn_fields : ∀ b : Fin 256,
    (((UInt8.ofNat b &&& 0x0F) >>> 0).toNat = b % 16) ∧
      (((UInt8.ofNat b &&& 0xF0) >>> 4).toNat = b / 16) := by
  decide +kernel

/-- The header has the length its type says. -/
theorem Message.length_header (m : Message) (i : Nat) :
    (m.header i).length = sizeOfMmeHeader m.mmtype := by
  have h := m.oui_length
  simp only [Message.header, List.length_append, List.length_cons, List.length_nil,
    length_bytes16]
  omega

/-- A byte inside the frame is a byte of its MME. -/
theorem EthFrame.byte_eq (f : EthFrame) (i : Nat) (h : ethHeaderSize + i < f.frameSize) :
    f.byte (ethHeaderSize + i) = (f.bytesFrom ethHeaderSize).getD i 0 := by
  unfold EthFrame.byte EthFrame.bytesFrom
  rw [List.getD_eq_getElem?_getD, List.getD_eq_getElem?_getD, List.getElem?_take_of_lt (by omega),
    List.getElem?_drop]

/-- The bytes of a frame behind its front are those captured. -/
theorem EthFrame.bytesFrom_ofCapture (pre rest : List UInt8)
    (h : (pre ++ rest).length ≤ ethFrameArea) :
    (EthFrame.ofCapture (pre ++ rest) h).bytesFrom pre.length = rest := by
  change ((pre ++ rest ++ _).drop pre.length).take ((pre ++ rest).length - pre.length) = rest
  rw [List.append_assoc, List.drop_left, List.length_append, Nat.add_sub_cancel_left,
    List.take_left]

/-- What a station sends is a fragment of its message. -/
theorem Message.frame_isFragment (m : Message) (i : Nat) (p : List UInt8)
    (hp : ethHeaderSize + sizeOfMmeHeader m.mmtype + p.length ≤ ethFrameArea) :
    IsFragment m i p (m.frame i p hp) := by
  have hdst := m.dst.length_eq
  have hsrc := m.src.length_eq
  have hhdr := m.length_header i
  refine ⟨?_, ?_, ?_, ?_⟩
  · apply Mac.ext_bytes
    simp only [Message.frame, EthFrame.dstMacAddr, EthFrame.ofCapture, List.append_assoc]
    exact List.take_left' hdst
  · apply Mac.ext_bytes
    simp only [Message.frame, EthFrame.srcMacAddr, EthFrame.ofCapture, List.append_assoc]
    rw [List.drop_left' hdst, List.take_left' hsrc]
  · simp only [Message.frame, EthFrame.ofCapture, List.length_append, List.length_cons,
      List.length_nil, hdst, hsrc, hhdr, ethHeaderSize]
    omega
  · have hpre : (m.dst.bytes ++ m.src.bytes ++ [0x88, 0xE1]).length = ethHeaderSize := by
      simp [hdst, hsrc]
    unfold Message.frame
    rw [← hpre]
    exact EthFrame.bytesFrom_ofCapture _ _ _

/-- The frames of a message are its fragments. -/
theorem Message.frames_fragments (m : Message) : Fragments m m.frames := by
  refine ⟨by simp [Message.frames], ?_⟩
  intro i p f hp hf
  rw [Message.frames, List.getElem?_mapIdx, List.getElem?_attach, Option.map_eq_some_iff] at hf
  rcases hf with ⟨q, hq, rfl⟩
  rcases Option.pmap_eq_some_iff.mp hq with ⟨p', hp', hmem, rfl⟩
  obtain rfl : p = p' := by simpa [hp] using hmem
  exact m.frame_isFragment i _ _

section Fragment

variable {m : Message} {i : Nat} {p : List UInt8} {f : EthFrame}

/-- The bytes of the header are in the frame. -/
theorem IsFragment.byte (h : IsFragment m i p f) (j : Nat) (hj : j < mmeHeaderSize) :
    f.byte (ethHeaderSize + j) = (m.header i).getD j 0 := by
  have hsize := h.frameSize
  have hhdr := m.oui_length
  have hlt : j < (m.header i).length := by
    rw [m.length_header]
    omega
  rw [f.byte_eq j (by omega), h.mme, List.getD_eq_getElem?_getD, List.getElem?_append_left hlt,
    ← List.getD_eq_getElem?_getD]

/-- A fragment has the type of its message. -/
theorem IsFragment.mmtype (h : IsFragment m i p f) : f.mmtype = m.mmtype := by
  have hlo := h.byte 1 (by decide)
  have hhi := h.byte 2 (by decide)
  unfold EthFrame.mmtype
  rw [hlo, hhi]
  exact le16_bytes16 m.mmtype

/-- It has the key of its message. -/
theorem IsFragment.key (h : IsFragment m i p f) : f.key = m.key := by
  have hmmv : f.mmv = m.mmv := h.byte 0 (by decide)
  have hfmsn : f.fmiFmsn = m.fmsn := h.byte 4 (by decide)
  simp only [EthFrame.key, Message.key, h.dst, h.src, h.mmtype, hmmv, hfmsn]

/-- It has its own fragment byte. -/
theorem IsFragment.fmiNfFn (h : IsFragment m i p f) : f.fmiNfFn = m.nfFn i :=
  h.byte 3 (by decide)

/-- It has its own number. -/
theorem IsFragment.fragmentNumber (h : IsFragment m i p f) (hi : i < m.pieces.length) :
    f.fragmentNumber = i := by
  have hle := m.pieces_le
  have hlt : 16 * i + (m.pieces.length - 1) < 256 := by omega
  have hfields := (nfFn_fields ⟨_, hlt⟩).2
  unfold EthFrame.fragmentNumber
  rw [h.fmiNfFn, Message.nfFn]
  simp only at hfields
  rw [hfields]
  omega

/-- It says how many pieces there are. -/
theorem IsFragment.numFragments (h : IsFragment m i p f) (hi : i < m.pieces.length) :
    f.numFragments + 1 = m.pieces.length := by
  have hle := m.pieces_le
  have hlt : 16 * i + (m.pieces.length - 1) < 256 := by omega
  have hfields := (nfFn_fields ⟨_, hlt⟩).1
  unfold EthFrame.numFragments
  rw [h.fmiNfFn, Message.nfFn]
  simp only at hfields
  rw [hfields]
  omega

/-- Behind the header a fragment holds its piece. -/
theorem IsFragment.payload (h : IsFragment m i p f) :
    f.bytesFrom (ethHeaderSize + sizeOfMmeHeader m.mmtype) = p := by
  have hmme := h.mme
  have hdrop : f.bytesFrom (ethHeaderSize + sizeOfMmeHeader m.mmtype) =
      (f.bytesFrom ethHeaderSize).drop (sizeOfMmeHeader m.mmtype) := by
    unfold EthFrame.bytesFrom
    rw [List.drop_take, List.drop_drop, Nat.sub_sub]
  rw [hdrop, hmme]
  exact List.drop_left' (m.length_header i)

end Fragment

/-! ## The frames of one message -/

section Fragments

variable {m : Message} {fs : List EthFrame}

/-- Each frame is the fragment at its place. -/
theorem Fragments.isFragment (h : Fragments m fs) {i : Nat} {f : EthFrame}
    (hf : fs[i]? = some f) : ∃ p, m.pieces[i]? = some p ∧ IsFragment m i p f := by
  have hlt := (List.getElem?_eq_some_iff.mp hf).1
  have hlt' : i < m.pieces.length := h.1 ▸ hlt
  exact ⟨m.pieces[i], List.getElem?_eq_getElem hlt', h.2 i _ f (List.getElem?_eq_getElem hlt') hf⟩

/-- A message has a fragment. -/
theorem Fragments.ne_nil (h : Fragments m fs) : fs ≠ [] := by
  have hpos := m.pieces_pos
  rintro rfl
  have hlen := h.1
  simp only [List.length_nil] at hlen
  omega

/-- All fragments have the key of the message. -/
theorem Fragments.key_eq (h : Fragments m fs) : ∀ f ∈ fs, f.key = m.key := by
  intro f hf
  rcases List.mem_iff_getElem?.mp hf with ⟨i, hi⟩
  rcases h.isFragment hi with ⟨p, _, hfrag⟩
  exact hfrag.key

/-- All fragments are a complete group. -/
theorem Fragments.complete (h : Fragments m fs) : Complete fs := by
  constructor
  · apply List.ext_getElem?
    intro i
    rw [List.getElem?_map]
    rcases hi : fs[i]? with _ | f
    · have hge : fs.length ≤ i := List.getElem?_eq_none_iff.mp hi
      simp [hge]
    · rcases h.isFragment hi with ⟨p, hp, hfrag⟩
      have hlt := (List.getElem?_eq_some_iff.mp hi).1
      have hlt' := (List.getElem?_eq_some_iff.mp hp).1
      rw [Option.map_some, hfrag.fragmentNumber hlt', List.getElem?_range hlt]
  · rcases hfs : fs with _ | ⟨first, rest⟩
    · exact absurd hfs h.ne_nil
    · have hfirst : fs[0]? = some first := by rw [hfs]; rfl
      rcases h.isFragment hfirst with ⟨p, _, hfrag⟩
      rw [List.head?_cons, Option.map_some, hfrag.numFragments m.pieces_pos, ← hfs, h.1]

/-- They fit the packet that is allocated for them. -/
theorem Fragments.sized (h : Fragments m fs) : Sized fs := by
  have hsize : ∀ f ∈ fs, ethHeaderSize + sizeOfMmeHeader m.mmtype ≤ f.frameSize := by
    intro f hf
    rcases List.mem_iff_getElem?.mp hf with ⟨i, hi⟩
    rcases h.isFragment hi with ⟨p, _, hfrag⟩
    rw [hfrag.frameSize]
    omega
  rcases hfs : fs with _ | ⟨first, rest⟩
  · exact trivial
  · have hfirst : fs[0]? = some first := by rw [hfs]; rfl
    rcases h.isFragment hfirst with ⟨p, _, hfrag⟩
    rw [hfs] at hsize
    refine ⟨?_, ?_⟩
    · have := hsize first List.mem_cons_self
      omega
    · intro f hf
      rw [hfrag.mmtype]
      exact hsize f (List.mem_cons_of_mem _ hf)

/-- The payloads of the later fragments are the later pieces. -/
theorem Fragments.payloads (h : Fragments m fs) :
    fs.map (·.bytesFrom (ethHeaderSize + sizeOfMmeHeader m.mmtype)) = m.pieces := by
  apply List.ext_getElem?
  intro i
  rw [List.getElem?_map]
  rcases hi : fs[i]? with _ | f
  · have hge : fs.length ≤ i := List.getElem?_eq_none_iff.mp hi
    exact (List.getElem?_eq_none_iff.mpr (h.1 ▸ hge)).symm
  · rcases h.isFragment hi with ⟨p, hp, hfrag⟩
    rw [Option.map_some, hfrag.payload, hp]

/-- The group of a message's fragments is its packet. -/
theorem Fragments.groupPacket_eq (h : Fragments m fs) : groupPacket fs = some m.packet := by
  rcases hfs : fs with _ | ⟨first, rest⟩
  · exact absurd hfs h.ne_nil
  · have hfirst : fs[0]? = some first := by rw [hfs]; rfl
    rcases h.isFragment hfirst with ⟨p, hp, hfrag⟩
    have hpay := h.payloads
    rw [hfs, List.map_cons, hfrag.payload] at hpay
    have hdata : groupData (first :: rest) = m.packet.data := by
      change first.bytesFrom ethHeaderSize ++ rest.flatMap _ = m.header 0 ++ m.pieces.flatten
      rw [hfrag.mme, hfrag.mmtype, ← hpay, List.flatten_cons, List.flatMap_def, List.append_assoc]
    have hsize : m.packet.data.length = m.packet.dataSize := by
      simp [Message.packet, m.length_header]
    simp only [groupPacket, hdata, hsize, hfrag.dst, hfrag.src]
    rfl

end Fragments

/-! ## What has arrived of several messages -/

/-- Of each message the first fragments have arrived, in their order, and nothing else has. -/
structure Arrived (msgs : List Message) (frames : List EthFrame) : Prop where
  known : ∀ f ∈ frames, ∃ m ∈ msgs, f.key = m.key
  ordered : ∀ m ∈ msgs, ∃ fs, Fragments m fs ∧ classOf EthFrame.key frames m.key <+: fs

/-- So it is when stations send in any order and each of them may not be through yet. -/
theorem arrived_of_interleaving {msgs : List Message} {fss : List (List EthFrame)} {frames : List EthFrame}
    (hkeys : (msgs.map Message.key).Nodup)
    (hfrag : List.Forall₂ (fun m fs => ∃ all, Fragments m all ∧ fs <+: all) msgs fss) (h : Interleaving fss frames) :
    Arrived msgs frames := by
  have hclasses : List.Forall₂ (fun k l => ∀ f ∈ l, EthFrame.key f = k) (msgs.map Message.key) fss := by
    rw [List.forall₂_map_left_iff]
    apply hfrag.imp
    rintro m fs ⟨all, hall, hbegins⟩ f hf
    exact hall.key_eq f (hbegins.mem hf)
  have hclass := h.map_classOf hkeys hclasses
  constructor
  · intro f hf
    obtain ⟨fs, hfs, hmem⟩ := (h.mem_iff f).mp hf
    rw [← hclass, List.map_map] at hfs
    obtain ⟨m, hm, rfl⟩ := List.mem_map.mp hfs
    exact ⟨m, hm, key_of_mem_classOf hmem⟩
  · intro m hm
    obtain ⟨i, hi⟩ := List.mem_iff_getElem?.mp hm
    obtain ⟨fs, hfs, all, hall, hbegins⟩ := exists_right_of_forall₂ hfrag hi
    refine ⟨all, hall, ?_⟩
    have hget : classOf EthFrame.key frames m.key = fs := by
      have hat := congrArg (·[i]?) hclass
      simpa [hi, hfs] using hat
    rw [hget]
    exact hbegins

/-- If more had arrived, less had arrived before. -/
theorem Arrived.of_begins {msgs : List Message} {frames frames' : List EthFrame} (h : Arrived msgs frames')
    (hbegins : frames <+: frames') : Arrived msgs frames := by
  obtain ⟨rest, rfl⟩ := hbegins
  constructor
  · intro f hf
    exact h.known f (List.mem_append_left _ hf)
  · intro m hm
    obtain ⟨fs, hfs, hclass⟩ := h.ordered m hm
    rw [classOf_append] at hclass
    exact ⟨fs, hfs, (List.prefix_append _ _).trans hclass⟩

/-- As many frames as the first of them announces. -/
def Whole (group : Group) : Prop :=
  group.head?.map (fun first => first.numFragments + 1) = some group.length

instance (group : Group) : Decidable (Whole group) :=
  inferInstanceAs (Decidable (_ = _))

/-- The first fragments of a message are all of them if they are as many as announced. -/
theorem Fragments.whole_iff {m : Message} {fs group : List EthFrame} (h : Fragments m fs) (hbegins : group <+: fs)
    (hne : group ≠ []) : Whole group ↔ group = fs := by
  obtain ⟨first, rest, rfl⟩ := List.exists_cons_of_ne_nil hne
  have hfirst : fs[0]? = some first := by
    obtain ⟨behind, rfl⟩ := hbegins
    rfl
  obtain ⟨p, -, hfrag⟩ := h.isFragment hfirst
  have hcount := hfrag.numFragments m.pieces_pos
  have hlength := h.1
  unfold Whole
  rw [List.head?_cons, Option.map_some, Option.some.injEq, hcount, ← hlength]
  constructor
  · intro heq
    exact hbegins.eq_of_length heq.symm
  · rintro rfl
    rfl

section Group

variable {msgs : List Message} {frames : List EthFrame} {group : Group}

/-- The groups of such frames are the first fragments of messages. -/
theorem Arrived.of_mem_groups (h : Arrived msgs frames) (hgroup : group ∈ groups EthFrame.key frames) :
    ∃ m ∈ msgs, ∃ fs, Fragments m fs ∧ classOf EthFrame.key frames m.key = group ∧ group <+: fs := by
  obtain ⟨f, hf, rfl⟩ := mem_groups.mp hgroup
  obtain ⟨m, hm, hkey⟩ := h.known f hf
  obtain ⟨fs, hfs, hclass⟩ := h.ordered m hm
  rw [hkey]
  exact ⟨m, hm, fs, hfs, rfl, hclass⟩

/-- A group is complete exactly if its message is whole. -/
theorem Arrived.complete_iff (h : Arrived msgs frames) (hgroup : group ∈ groups EthFrame.key frames) :
    Complete group ↔ Whole group := by
  constructor
  · intro hcomplete
    exact hcomplete.2
  · intro hwhole
    obtain ⟨m, -, fs, hfs, -, hbegins⟩ := h.of_mem_groups hgroup
    rw [(hfs.whole_iff hbegins (ne_nil_of_mem_groups hgroup)).mp hwhole]
    exact hfs.complete

/-- A whole group fits its packet. -/
theorem Arrived.sized (h : Arrived msgs frames) (hgroup : group ∈ groups EthFrame.key frames) (hwhole : Whole group) :
    Sized group := by
  obtain ⟨m, -, fs, hfs, -, hbegins⟩ := h.of_mem_groups hgroup
  rw [(hfs.whole_iff hbegins (ne_nil_of_mem_groups hgroup)).mp hwhole]
  exact hfs.sized

end Group

/-! ## The round trip -/

/-- Defragmenting any interleaving of the fragments of messages with pairwise different
keys delivers one packet for each message, and it is the message. -/
theorem defragFrames_interleaving (msgs : List Message) (fss : List (List EthFrame))
    (frames : List EthFrame) (hfrag : List.Forall₂ Fragments msgs fss)
    (hkeys : (msgs.map Message.key).Nodup) (hframes : Interleaving fss frames) :
    ∃ packets, defragFrames frames = .ok packets ∧ packets.Perm (msgs.map Message.packet) := by
  have hclasses : List.Forall₂ (fun k l => l ≠ [] ∧ ∀ f ∈ l, EthFrame.key f = k)
      (msgs.map Message.key) fss := by
    rw [List.forall₂_map_left_iff]
    exact hfrag.imp fun m fs h => ⟨h.ne_nil, h.key_eq⟩
  have hperm := hframes.groups_perm hkeys hclasses
  have hmem : ∀ g ∈ groups EthFrame.key frames, ∃ m, Fragments m g := by
    intro g hg
    have hg' : g ∈ fss := hperm.mem_iff.mp hg
    rcases List.mem_iff_getElem?.mp hg' with ⟨i, hi⟩
    rcases exists_left_of_forall₂ hfrag hi with ⟨m, -, hm⟩
    exact ⟨m, hm⟩
  -- every group is complete, so none can fail
  have hdeliverable : Deliverable False (groups EthFrame.key frames) := by
    refine ⟨?_, ?_⟩
    · intro g hg _
      rcases hmem g hg with ⟨m, hm⟩
      exact hm.sized
    · intro pre g post hsplit hincomplete _
      rcases hmem g (by rw [hsplit]; simp) with ⟨m, hm⟩
      exact absurd hm.complete hincomplete
  have haccepted : fss.filterMap acceptedPacket = msgs.map Message.packet := by
    clear hclasses hperm hmem hdeliverable hkeys hframes
    induction hfrag with
    | nil => rfl
    | cons h _ ih =>
      rw [List.filterMap_cons, acceptedPacket_complete h.complete h.sized, h.groupPacket_eq, ih]
      rfl
  refine ⟨packetsOf frames, defragFrames_of_deliverable hdeliverable, ?_⟩
  rw [← haccepted]
  exact hperm.filterMap acceptedPacket

/-- A standard message of two pieces and a vendor-specific one, in one capture. -/
def ampMapMessage : Message where
  dst := ⟨[0x00, 0x1A, 0x11, 0x00, 0x00, 0x01], rfl⟩
  src := ⟨[0x00, 0x1A, 0x11, 0x00, 0x00, 0x02], rfl⟩
  mmv := 0x01
  mmtype := 0x601D
  fmsn := 3
  oui := []
  pieces := [[1, 2, 3], [4, 5]]
  oui_length := rfl
  pieces_pos := by decide
  pieces_le := by decide
  piece_fits := by decide

def versionMessage : Message where
  dst := ⟨[0x00, 0x1A, 0x11, 0x00, 0x00, 0x01], rfl⟩
  src := ⟨[0x00, 0x1A, 0x11, 0x00, 0x00, 0x03], rfl⟩
  mmv := 0x01
  mmtype := 0xA001
  fmsn := 3
  oui := [0x00, 0x13, 0xD7]
  pieces := [[7]]
  oui_length := rfl
  pieces_pos := by decide
  pieces_le := by decide
  piece_fits := by decide

/-- A message of one frame comes between the fragments of another one. -/
theorem defragFrames_two_messages :
    ∃ packets, defragFrames (ampMapMessage.frames.take 1 ++ versionMessage.frames ++
        ampMapMessage.frames.drop 1) = .ok packets ∧
      packets.Perm [ampMapMessage.packet, versionMessage.packet] :=
  defragFrames_interleaving [ampMapMessage, versionMessage]
    [ampMapMessage.frames, versionMessage.frames] _
    (.cons ampMapMessage.frames_fragments (.cons versionMessage.frames_fragments .nil))
    (by decide)
    (.take (k := 0) rfl (.take (k := 1) rfl (.take (k := 0) rfl (.done (by simp)))))

end Hpav
