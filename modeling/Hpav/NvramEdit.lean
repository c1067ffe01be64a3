import Mathlib.Tactic.Common
import Hpav.NvramModify
import Hpav.NvramRead

/-!
# Editing the NVRAM of a station

`nvram read`, any commands `nvram modify` and `nvram parse`, and `nvram write`, one after the other. What
the commands in the middle make of a file is the block that was read with the address of the last
`modify` that returned 0 (`runAll_content`); `parse` displays that address, and `write` sends that
block (`editNvram_sends`).
-/

namespace Hpav

open CMem CNumeral CScan

/-! ## The commands on a local file -/

/-- `test_nvram_parse`: the value it returns, and what it prints. -/
def testNvramParse (fs : LocalFs) (argv : List CString) : Int × CString :=
  if argv.length ≠ 1 then (exitUsage, text "Usage: hpav_test nvram parse input_file\n")
  else
    let inputFile := argv.getD 0 []
    match fs.content inputFile with
    | none => (-1, text "error while opening file " ++ inputFile ++ text "\n")
    | some content =>
      if content.length < sizeofNvram then (-1, text "error while reading file " ++ inputFile ++ text "\n")
      else (exitSuccess, text "mac\t\t: " ++ mactos ((content.drop macOffset).take 6) ++ text "\n")

/-- A command on a local file, with the memory its variables start with. -/
inductive NvramCall where
  | modify (uninit : Nat → UInt8) (argv : List CString)
  | parse (argv : List CString)

/-- What a call returns, and the files it leaves. -/
def NvramCall.run (fs : LocalFs) : NvramCall → Int × LocalFs
  | .modify uninit argv => testNvramModify uninit fs argv
  | .parse argv => ((testNvramParse fs argv).1, fs)

/-- The calls one after the other. -/
def runAll : List NvramCall → LocalFs → List Int × LocalFs
  | [], fs => ([], fs)
  | call :: calls, fs =>
    let (rv, fs) := call.run fs
    let (rvs, fs) := runAll calls fs
    (rv :: rvs, fs)

/-! ## What they come to -/

/-- The address a call sets in a file, if it succeeds. -/
def NvramCall.macOf (file : CString) : NvramCall → Option (List UInt8)
  | .modify uninit argv => if argv.getD 0 [] = file then some (macData uninit (argv.getD 2 [])) else none
  | .parse _ => none

/-- The address of the last call that sets one and returned 0, or the one before. -/
def macAfter (file : CString) : List NvramCall → List Int → Option (List UInt8) → Option (List UInt8)
  | call :: calls, rv :: rvs, mac =>
    macAfter file calls rvs (if rv = 0 then (call.macOf file).orElse fun _ => mac else mac)
  | _, _, mac => mac

/-- A block in which an address was set: one structure is left of it. -/
def editedBlock (block : List UInt8) : Option (List UInt8) → List UInt8
  | none => block
  | some mac => setMac (block.take sizeofNvram) mac

/-- What the file holds: the block, with the address if there is one. -/
structure Held (fs : LocalFs) (file : CString) (block : List UInt8) (mac : Option (List UInt8)) : Prop where
  content : fs.content file = some (editedBlock block mac)
  length : ∀ m, mac = some m → m.length = 6
  whole : mac.isSome = true → sizeofNvram ≤ block.length

/-! ## One call -/

section Calls

variable {file : CString} {block : List UInt8} {fs : LocalFs}

/-- A `modify` fails and leaves the files alone, or sets the address in the structure at the front of
its file. -/
theorem testNvramModify_cases (uninit : Nat → UInt8) (fs : LocalFs) (argv : List CString) :
    (∃ rv, rv ≠ 0 ∧ testNvramModify uninit fs argv = (rv, fs)) ∨
    ∃ content, fs.content (argv.getD 0 []) = some content ∧ sizeofNvram ≤ content.length ∧
      testNvramModify uninit fs argv = (0, fs.write (argv.getD 0 [])
        (setMac (content.take sizeofNvram) (macData uninit (argv.getD 2 [])))) := by
  unfold testNvramModify
  by_cases hargc : argv.length < 3 ∨ argv.length &&& 1 = 0
  · exact Or.inl ⟨exitUsage, by decide, if_pos hargc⟩
  rw [if_neg hargc]
  simp only
  rcases hcontent : fs.content (argv.getD 0 []) with _ | content
  · exact Or.inl ⟨-1, by decide, rfl⟩
  simp only
  by_cases hshort : content.length < sizeofNvram
  · exact Or.inl ⟨-1, by decide, if_pos hshort⟩
  rw [if_neg hshort]
  by_cases hkey : argv.getD 1 [] = text "mac"
  · rw [if_pos hkey]
    by_cases hwritable : fs.writable (argv.getD 0 []) = true
    · rw [if_pos hwritable]
      exact Or.inr ⟨content, rfl, Nat.not_lt.mp hshort, rfl⟩
    · exact Or.inl ⟨-1, by decide, if_neg hwritable⟩
  · exact Or.inl ⟨exitUsage, by decide, if_neg hkey⟩

theorem length_editedBlock {mac : List UInt8} (hblock : sizeofNvram ≤ block.length) (hmac : mac.length = 6) :
    (editedBlock block (some mac)).length = sizeofNvram := by
  have htake : (block.take sizeofNvram).length = sizeofNvram := List.length_take_of_le hblock
  show (setMac (block.take sizeofNvram) mac).length = _
  rw [length_setMac (by rw [htake]; decide) hmac, htake]

/-- Setting an address twice is setting the second one. -/
theorem setMac_setMac {data mac mac' : List UInt8} (hdata : macOffset + 6 ≤ data.length) (hmac : mac.length = 6) :
    setMac (setMac data mac) mac' = setMac data mac' := by
  have hfront : (data.take macOffset).length = macOffset := List.length_take_of_le (by omega)
  have hmiddle : (data.take macOffset ++ mac).length = macOffset + 6 := by
    rw [List.length_append, hfront, hmac]
  unfold setMac
  rw [List.drop_left' hmiddle, List.append_assoc (data.take macOffset), List.take_left' hfront]

/-- What the next structure that is written is made of. -/
theorem Held.set {mac : Option (List UInt8)} (h : Held fs file block mac)
    (hlong : sizeofNvram ≤ (editedBlock block mac).length) (m : List UInt8) :
    setMac ((editedBlock block mac).take sizeofNvram) m = editedBlock block (some m) ∧ sizeofNvram ≤ block.length := by
  cases mac with
  | none => exact ⟨rfl, hlong⟩
  | some m' =>
    have hblock := h.whole rfl
    have hlength := length_editedBlock hblock (h.length m' rfl)
    have htake : (block.take sizeofNvram).length = sizeofNvram := List.length_take_of_le hblock
    refine ⟨?_, hblock⟩
    rw [List.take_of_length_le hlength.le]
    show setMac (setMac (block.take sizeofNvram) m') m = setMac (block.take sizeofNvram) m
    rw [setMac_setMac (by rw [htake]; decide) (h.length m' rfl)]

/-- One call on a file in which an address may have been set. -/
theorem Held.run {mac : Option (List UInt8)} (h : Held fs file block mac) (call : NvramCall) :
    Held (call.run fs).2 file block
      (if (call.run fs).1 = 0 then (call.macOf file).orElse fun _ => mac else mac) := by
  cases call with
  | parse argv =>
    have hsame : (if ((NvramCall.parse argv).run fs).1 = 0 then ((NvramCall.parse argv).macOf file).orElse fun _ => mac
        else mac) = mac := ite_self mac
    rw [hsame]
    exact h
  | modify uninit argv =>
    rcases testNvramModify_cases uninit fs argv with ⟨rv, hrv, hrun⟩ | ⟨content, hcontent, hlong, hrun⟩
    · have hcall : (NvramCall.modify uninit argv).run fs = (rv, fs) := hrun
      rw [hcall, if_neg hrv]
      exact h
    · have hcall : (NvramCall.modify uninit argv).run fs = (0, fs.write (argv.getD 0 [])
          (setMac (content.take sizeofNvram) (macData uninit (argv.getD 2 [])))) := hrun
      rw [hcall, if_pos rfl]
      by_cases hname : argv.getD 0 [] = file
      · -- the address is set in this file
        have hmac : (NvramCall.modify uninit argv).macOf file = some (macData uninit (argv.getD 2 [])) := if_pos hname
        rw [hname, h.content] at hcontent
        injection hcontent with hcontent
        rw [← hcontent] at hlong ⊢
        rcases h.set hlong (macData uninit (argv.getD 2 [])) with ⟨hset, hblock⟩
        rw [hmac, hname, hset]
        refine ⟨?_, ?_, fun _ => hblock⟩
        · rw [LocalFs.content_write, if_pos rfl]
          rfl
        · intro m hm
          rw [← Option.some.inj hm]
          exact length_macData _ _
      · have hmac : (NvramCall.modify uninit argv).macOf file = none := if_neg hname
        rw [hmac]
        refine ⟨?_, h.length, h.whole⟩
        rw [LocalFs.content_write, if_neg (fun hfile => hname hfile.symm)]
        exact h.content

/-- All the calls. -/
theorem Held.runAll {mac : Option (List UInt8)} (h : Held fs file block mac) (calls : List NvramCall) :
    Held (runAll calls fs).2 file block (macAfter file calls (runAll calls fs).1 mac) := by
  induction calls generalizing fs mac with
  | nil => exact h
  | cons call calls ih => exact ih (h.run call)

/-- The block behind the calls: nothing but the address has changed, and what is behind the structure
is lost once an address was set. -/
theorem editedBlock_getElem? (h : sizeofNvram ≤ block.length) {mac : List UInt8} (hmac : mac.length = 6) {i : Nat}
    (hi : i < sizeofNvram) : (editedBlock block (some mac))[i]? =
      if macOffset ≤ i ∧ i < macOffset + 6 then mac[i - macOffset]? else block[i]? := by
  have htake : (block.take sizeofNvram).length = sizeofNvram := List.length_take_of_le h
  have hfront : ((block.take sizeofNvram).take macOffset).length = macOffset :=
    List.length_take_of_le (by rw [htake]; decide)
  show ((block.take sizeofNvram).take macOffset ++ mac ++ (block.take sizeofNvram).drop (macOffset + 6))[i]? = _
  by_cases hbefore : i < macOffset
  · rw [if_neg (by omega), List.append_assoc, List.getElem?_append_left (by rw [hfront]; exact hbefore),
      List.getElem?_take_of_lt hbefore, List.getElem?_take_of_lt hi]
  by_cases hinside : i < macOffset + 6
  · rw [if_pos ⟨Nat.not_lt.mp hbefore, hinside⟩, List.append_assoc,
      List.getElem?_append_right (by rw [hfront]; exact Nat.not_lt.mp hbefore), hfront,
      List.getElem?_append_left (by omega)]
  · have hlength : ((block.take sizeofNvram).take macOffset ++ mac).length = macOffset + 6 := by
      rw [List.length_append, hfront, hmac]
    rw [if_neg (by omega), List.getElem?_append_right (by rw [hlength]; omega), hlength, List.getElem?_drop,
      Nat.add_sub_cancel' (by omega), List.getElem?_take_of_lt hi]

/-- The address that `parse` displays. -/
theorem Held.parse {mac : Option (List UInt8)} (h : Held fs file block mac) (hblock : sizeofNvram ≤ block.length) :
    testNvramParse fs [file] =
      (0, text "mac\t\t: " ++ mactos (mac.getD ((block.drop macOffset).take 6)) ++ text "\n") := by
  have hlong : ¬ (editedBlock block mac).length < sizeofNvram := by
    cases mac with
    | none => exact Nat.not_lt.mpr hblock
    | some m =>
      rw [length_editedBlock hblock (h.length m rfl)]
      exact lt_irrefl _
  have haddress : ((editedBlock block mac).drop macOffset).take 6 = mac.getD ((block.drop macOffset).take 6) := by
    cases mac with
    | none => rfl
    | some m =>
      have htake : (block.take sizeofNvram).length = sizeofNvram := List.length_take_of_le hblock
      have hfront : ((block.take sizeofNvram).take macOffset).length = macOffset :=
        List.length_take_of_le (by rw [htake]; decide)
      show ((setMac (block.take sizeofNvram) m).drop macOffset).take 6 = m
      unfold setMac
      rw [List.append_assoc, List.drop_left' hfront, List.take_left' (h.length m rfl)]
  have hargc : ¬ [file].length ≠ 1 := not_not.mpr rfl
  unfold testNvramParse
  rw [if_neg hargc]
  show (match fs.content file with | none => _ | some content => _) = _
  rw [h.content]
  show (if (editedBlock block mac).length < sizeofNvram then _ else _) = _
  rw [if_neg hlong, haddress]

end Calls

/-! ## Reading, editing, writing -/

/-- What goes out if a file holds a block: its size, its checksum and its bytes. -/
theorem nvramWrite_sends {fs : LocalFs} {file : CString} {block : List UInt8} (hfile : fs.content file = some block)
    (hsome : 0 < block.length) (hbounded : block.length ≤ mtkNvramBlockSize) {s : Setting} {argv : List CString}
    {dest : Mac} (hargv : argv[1]? = some file) (hdest : address argv 0 = .ok dest) :
    (block.length % 4 = 0 → s.pcap.compile ≠ -1 → s.pcap.setfilter ≠ -1 → ∃ r : SetNvramReq,
      r.nvramSize.toNat = block.length ∧ r.checksum = wordChecksum block ∧ r.data.take block.length = block ∧
      NvramCommand.nvramWrite.sent s fs argv = [NvramCommand.requestFrame s dest r.wire]) ∧
    (block.length % 4 ≠ 0 → NvramCommand.nvramWrite.sent s fs argv = []) := by
  obtain ⟨hlong, -⟩ := List.getElem?_eq_some_iff.mp hargv
  have hprepared : NvramCommand.nvramWrite.Prepared fs argv dest block block :=
    ⟨hlong, hdest, ⟨file, hargv, hfile⟩, if_neg (by omega)⟩
  constructor
  · intro hwhole hcompile hsetfilter
    rcases hprepared.parameters hwhole s with ⟨mmeSent, hparameters, hval⟩
    refine ⟨NvramCommand.nvramWrite.requestIn s argv block block, ?_, rfl, List.take_left, ?_⟩
    · show (UInt16.ofNat block.length).toNat = block.length
      rw [UInt16.toNat_ofNat']
      simp only [mtkNvramBlockSize] at hbounded
      omega
    · unfold NvramCommand.sent
      rw [hparameters]
      show (NvramCommand.transmission s dest mmeSent).sent = _
      rw [NvramCommand.transmission_sent_one dest mmeSent hcompile hsetfilter, hval]
  · intro hragged
    unfold NvramCommand.sent
    rcases hparameters : NvramCommand.nvramWrite.parameters s fs argv with leave | ⟨dest', mmeSent⟩
    · rfl
    · -- the checksum is made of whole words only
      rcases NvramCommand.parameters_ok.mp hparameters with ⟨content, data, hprepared', hreq⟩
      rcases hprepared'.file with ⟨file', hfile', hcontent⟩
      obtain rfl : file = file' := Option.some.inj (hargv.symm.trans hfile')
      obtain rfl : block = content := Option.some.inj (hfile.symm.trans hcontent)
      have hdata : data = block := by
        have hread : (if block.length = 0 ∨ block.length > mtkNvramBlockSize then .error .localError
          else .ok block : Except Leave (List UInt8)) = .ok data := hprepared'.read
        rw [if_neg (by omega)] at hread
        injection hread with hread
        exact hread.symm
      rw [hdata] at hreq
      exact absurd (setNvramReq_whole hreq) hragged

/-- What the commands behind `nvram read` come to, where `block` was read into the file. -/
structure NvramEdited (file : CString) (block : List UInt8) (calls : List NvramCall) (fs : LocalFs) : Prop where
  /-- the file holds the block with the address of the last call that set one -/
  held : Held (runAll calls fs).2 file block (macAfter file calls (runAll calls fs).1 none)
  /-- apart from this address the structure is the one that was read -/
  bytes : ∀ mac, macAfter file calls (runAll calls fs).1 none = some mac → ∀ i < sizeofNvram,
    (editedBlock block (some mac))[i]? = if macOffset ≤ i ∧ i < macOffset + 6 then mac[i - macOffset]? else block[i]?
  /-- `parse` displays it -/
  displayed : sizeofNvram ≤ block.length → testNvramParse (runAll calls fs).2 [file] =
    (0, text "mac\t\t: " ++
      mactos ((macAfter file calls (runAll calls fs).1 none).getD ((block.drop macOffset).take 6)) ++ text "\n")
  /-- `write` sends it, if it consists of whole words -/
  sent : ∀ (s : Setting) (argv : List CString) (dest : Mac) (edited : List UInt8), argv[1]? = some file →
    address argv 0 = .ok dest → edited = editedBlock block (macAfter file calls (runAll calls fs).1 none) →
    (edited.length % 4 = 0 → s.pcap.compile ≠ -1 → s.pcap.setfilter ≠ -1 → ∃ r : SetNvramReq,
      r.nvramSize.toNat = edited.length ∧ r.checksum = wordChecksum edited ∧ r.data.take edited.length = edited ∧
      NvramCommand.nvramWrite.sent s (runAll calls fs).2 argv = [NvramCommand.requestFrame s dest r.wire]) ∧
    (edited.length % 4 ≠ 0 → NvramCommand.nvramWrite.sent s (runAll calls fs).2 argv = [])

/-- Whatever is called between reading the NVRAM of a station and writing it back: the file is the
block that was read with the address of the last `modify` that succeeded, `parse` displays this
address, and this block is what the first `nvramSize` bytes of the data sent are. -/
theorem editNvram_sends {s : Setting} {argv : List CString} {file : CString} {dest : Mac} {packet : MmePacket}
    {rest : List MmePacket} (hfile : argv[1]? = some file) (hdest : address argv 0 = .ok dest)
    (hreceives : Receives s dest (packet :: rest)) (hgood : GoodCnf packet.payload) {fs : LocalFs}
    (hwritable : fs.writable file = true) :
    ∃ v block, testNvramRead s fs argv = .ok (v, fs.write file block) ∧ CnfBlock packet.payload block ∧
      ∀ calls, NvramEdited file block calls (fs.write file block) := by
  rcases testNvramRead_received hfile hdest hreceives with ⟨v, v', hrun⟩
  rcases @nvramData_storedCnf s.behind packet hgood with ⟨block, hdata, hblock, hsome⟩
  refine ⟨v, block, ?_, hblock, ?_⟩
  · rw [hrun fs, if_pos hwritable, hdata]
    rfl
  intro calls
  have hstart : Held (fs.write file block) file block none := by
    refine ⟨?_, fun _ hm => (nomatch hm), fun hm => (nomatch hm)⟩
    rw [LocalFs.content_write, if_pos rfl]
    rfl
  have hheld := hstart.runAll calls
  generalize hmac : macAfter file calls (runAll calls (fs.write file block)).1 none = mac at hheld
  -- with an address one structure is left, without one it is the block
  have hsize : 0 < (editedBlock block mac).length ∧ (editedBlock block mac).length ≤ mtkNvramBlockSize := by
    cases mac with
    | none => exact ⟨hsome, hblock.bounded⟩
    | some m =>
      rw [length_editedBlock (hheld.whole rfl) (hheld.length m rfl)]
      decide
  refine ⟨hmac ▸ hheld, ?_, ?_, ?_⟩
  · intro m hm i hi
    obtain rfl : mac = some m := hmac.symm.trans hm
    exact editedBlock_getElem? (hheld.whole rfl) (hheld.length m rfl) hi
  · intro hlong
    rw [hmac]
    exact hheld.parse hlong
  · intro s' argv' dest' edited hargv' hdest' hedited
    rw [hmac] at hedited
    rw [hedited]
    exact nvramWrite_sends hheld.content hsize.1 hsize.2 hargv' hdest'

/-! ## A run -/

/-- An answer with a whole block. -/
def wholeBlockCnf : List UInt8 :=
  [0, 0, 0, 4] ++ List.replicate 1024 7

theorem editNvram_sends_wholeBlock : ∃ v block,
    testNvramRead (answeringSetting wholeBlockCnf) noFiles nvramArguments =
      .ok (v, noFiles.write (text "nvram.bin") block) ∧ CnfBlock wholeBlockCnf block ∧
      ∀ calls, NvramEdited (text "nvram.bin") block calls (noFiles.write (text "nvram.bin") block) := by
  have hlength : wholeBlockCnf.length = 1028 := by
    unfold wholeBlockCnf
    rw [List.length_append, List.length_replicate]
    rfl
  have hdelivers : Delivers (answeringSetting wholeBlockCnf).pcap
      [cnfFrame (answeringSetting wholeBlockCnf).macAddr secondStation wholeBlockCnf] := delivers_one _
  rcases @receives_cnfFrame (answeringSetting wholeBlockCnf) secondStation secondStation _ hdelivers
    (by rw [hlength]; decide) (by rw [hlength]; decide) with ⟨packet, hpayload, hreceives⟩
  have hsize : (le16 (wholeBlockCnf.getD 2 0) (wholeBlockCnf.getD 3 0)).toNat = 1024 := rfl
  have hgood : GoodCnf packet.payload := by
    rw [hpayload]
    exact ⟨rfl, by rw [hsize]; decide, by rw [hsize], by rw [hsize, hlength]⟩
  have hfile : nvramArguments[1]? = some (text "nvram.bin") := rfl
  have hdest : address nvramArguments 0 = .ok secondStation := rfl
  rcases @editNvram_sends _ _ _ _ _ _ hfile hdest hreceives hgood noFiles rfl with ⟨v, block, hread, hblock, hedited⟩
  rw [hpayload] at hblock
  exact ⟨v, block, hread, hblock, hedited⟩

end Hpav
