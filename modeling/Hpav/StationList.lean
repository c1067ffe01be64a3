import Mathlib.Tactic.Common
import Hpav.ArgumentReads
import Hpav.MacText

/-!
# The list of stations

A scan leaves the addresses of the stations in a file, one a line, and a command for all of them
reads the file into a table of 64 entries. `scanListed_iff` says when it finds the stations
that have answered.
-/

namespace Hpav

open CMem CScan CNumeral

/-! ## The address in a confirmation -/

/-- Eight bits of a number, from one of them on. -/
def byteFrom (n k : Nat) : Nat :=
  n / 2 ^ k % 2 ^ 8

/-- A byte of a disjunction is the disjunction of the bytes. -/
theorem byteFrom_or (a b k : Nat) : byteFrom (a ||| b) k = byteFrom a k ||| byteFrom b k := by
  unfold byteFrom
  rw [Nat.or_div_two_pow, Nat.or_mod_two_pow]

/-- A byte of a conjunction is the conjunction of the bytes. -/
theorem byteFrom_and (a b k : Nat) : byteFrom (a &&& b) k = byteFrom a k &&& byteFrom b k := by
  unfold byteFrom
  rw [Nat.and_div_two_pow, Nat.and_mod_two_pow]

/-- Under a mask that has all of the eight bits. -/
theorem byteFrom_masked {a m k : Nat} (h : byteFrom m k = 2 ^ 8 - 1) : byteFrom (a &&& m) k = byteFrom a k := by
  rw [byteFrom_and, h, Nat.and_two_pow_sub_one_eq_mod]
  exact Nat.mod_mod _ _

/-- Under a mask that has none of them. -/
theorem byteFrom_cleared {a m k : Nat} (h : byteFrom m k = 0) : byteFrom (a &&& m) k = 0 := by
  rw [byteFrom_and, h, Nat.and_zero]

/-- A byte of a number shifted right is further up. -/
theorem byteFrom_shiftRight (n s k : Nat) : byteFrom (n >>> s) k = byteFrom n (s + k) := by
  unfold byteFrom
  rw [Nat.shiftRight_eq_div_pow, Nat.div_div_eq_div_mul, ← Nat.pow_add]

/-- 64 bits keep their bytes. -/
theorem byteFrom_mod (n k : Nat) (h : k + 8 ≤ 64) : byteFrom (n % 2 ^ 64) k = byteFrom n k := by
  unfold byteFrom
  rw [show (2 : Nat) ^ 64 = 2 ^ k * 2 ^ (64 - k) by rw [← Nat.pow_add]; congr 1; omega, Nat.mod_mul_right_div_self]
  exact Nat.mod_mod_of_dvd _ (Nat.pow_dvd_pow 2 (by omega))

/-- A byte of a number shifted left is further down. -/
theorem byteFrom_shiftLeft (n s k : Nat) (h : s + k + 8 ≤ 64) : byteFrom (n <<< s % 2 ^ 64) (s + k) = byteFrom n k := by
  rw [byteFrom_mod _ _ h]
  unfold byteFrom
  rw [Nat.shiftLeft_eq, Nat.pow_add, ← Nat.div_div_eq_div_mul, Nat.mul_div_cancel _ (Nat.two_pow_pos s)]

/-- The six shifts under their masks turn the bytes around. -/
theorem byteFrom_shifts (mac : UInt64) : ∀ i < 6,
    byteFrom (((mac <<< 40) &&& (0xFF0000000000 : UInt64)) ||| ((mac <<< 24) &&& (0x00FF00000000 : UInt64)) |||
      ((mac <<< 8) &&& (0x0000FF000000 : UInt64)) ||| ((mac >>> 8) &&& (0x000000FF0000 : UInt64)) |||
      ((mac >>> 24) &&& (0x00000000FF00 : UInt64)) ||| ((mac >>> 40) &&& (0x0000000000FF : UInt64))).toNat (8 * i) =
      byteFrom mac.toNat (8 * (5 - i)) := by
  have hright : ∀ {s : UInt64} (k : Nat), s.toNat < 64 →
      byteFrom (mac >>> s).toNat k = byteFrom mac.toNat (s.toNat + k) := by
    intro s k hs
    rw [UInt64.toNat_shiftRight, Nat.mod_eq_of_lt hs, byteFrom_shiftRight]
  have hleft : ∀ {s : UInt64} (k : Nat), s.toNat + k + 8 ≤ 64 →
      byteFrom (mac <<< s).toNat (s.toNat + k) = byteFrom mac.toNat k := by
    intro s k hs
    have hs' : s.toNat < 64 := by omega
    rw [UInt64.toNat_shiftLeft, Nat.mod_eq_of_lt hs', byteFrom_shiftLeft _ _ _ hs]
  intro i hi
  simp only [UInt64.toNat_or, UInt64.toNat_and, byteFrom_or]
  -- each byte is left by one of the masks
  match i, hi with
  | 0, _ =>
    rw [byteFrom_cleared (by decide), byteFrom_cleared (by decide), byteFrom_cleared (by decide),
      byteFrom_cleared (by decide), byteFrom_cleared (by decide), byteFrom_masked (by decide)]
    simp only [Nat.zero_or]
    exact hright 0 (by decide)
  | 1, _ =>
    rw [byteFrom_cleared (by decide), byteFrom_cleared (by decide), byteFrom_cleared (by decide),
      byteFrom_cleared (by decide), byteFrom_masked (by decide), byteFrom_cleared (by decide)]
    simp only [Nat.zero_or, Nat.or_zero]
    exact hright 8 (by decide)
  | 2, _ =>
    rw [byteFrom_cleared (by decide), byteFrom_cleared (by decide), byteFrom_cleared (by decide),
      byteFrom_masked (by decide), byteFrom_cleared (by decide), byteFrom_cleared (by decide)]
    simp only [Nat.zero_or, Nat.or_zero]
    exact hright 16 (by decide)
  | 3, _ =>
    rw [byteFrom_cleared (by decide), byteFrom_cleared (by decide), byteFrom_masked (by decide),
      byteFrom_cleared (by decide), byteFrom_cleared (by decide), byteFrom_cleared (by decide)]
    simp only [Nat.zero_or, Nat.or_zero]
    exact @hleft 8 16 (by decide)
  | 4, _ =>
    rw [byteFrom_cleared (by decide), byteFrom_masked (by decide), byteFrom_cleared (by decide),
      byteFrom_cleared (by decide), byteFrom_cleared (by decide), byteFrom_cleared (by decide)]
    simp only [Nat.zero_or, Nat.or_zero]
    exact @hleft 24 8 (by decide)
  | 5, _ =>
    rw [byteFrom_masked (by decide), byteFrom_cleared (by decide), byteFrom_cleared (by decide),
      byteFrom_cleared (by decide), byteFrom_cleared (by decide), byteFrom_cleared (by decide)]
    simp only [Nat.or_zero]
    exact @hleft 40 0 (by decide)

/-- The value that the first eight bytes make, lowest byte first. -/
theorem foldr_bytes (b0 b1 b2 b3 b4 b5 b6 b7 : UInt8) (rest : List UInt8) :
    ∃ above, (b0 :: b1 :: b2 :: b3 :: b4 :: b5 :: b6 :: b7 :: rest).foldr (fun b n => b.toNat + 256 * n) 0 =
      b0.toNat + 256 * b1.toNat + 2 ^ 16 * (b2.toNat + 2 ^ 8 * b3.toNat + 2 ^ 16 * b4.toNat + 2 ^ 24 * b5.toNat +
        2 ^ 32 * b6.toNat + 2 ^ 40 * b7.toNat) + 2 ^ 64 * above := by
  refine ⟨rest.foldr (fun b n => b.toNat + 256 * n) 0, ?_⟩
  simp only [List.foldr_cons]
  omega

/-- What is read of eight bytes is the upper six, the last one first. -/
theorem scanMac_eq (b0 b1 b2 b3 b4 b5 b6 b7 : UInt8) (rest : List UInt8) :
    scanMac (b0 :: b1 :: b2 :: b3 :: b4 :: b5 :: b6 :: b7 :: rest) = [b7, b6, b5, b4, b3, b2] := by
  have h0 := b0.toNat_lt
  have h1 := b1.toNat_lt
  have h2 := b2.toNat_lt
  have h3 := b3.toNat_lt
  have h4 := b4.toNat_lt
  have h5 := b5.toNat_lt
  have h6 := b6.toNat_lt
  have h7 := b7.toNat_lt
  obtain ⟨above, hvalue⟩ := foldr_bytes b0 b1 b2 b3 b4 b5 b6 b7 rest
  unfold scanMac
  generalize List.foldr (fun (b : UInt8) n => b.toNat + 256 * n) 0 _ = value at hvalue ⊢
  simp only
  generalize hmac : UInt64.ofNat value >>> 16 = mac
  have hbytes : mac.toNat = b2.toNat + 2 ^ 8 * b3.toNat + 2 ^ 16 * b4.toNat + 2 ^ 24 * b5.toNat +
      2 ^ 32 * b6.toNat + 2 ^ 40 * b7.toNat := by
    have hsixteen : (16 : UInt64).toNat % 64 = 16 := by decide
    rw [← hmac, UInt64.toNat_shiftRight, UInt64.toNat_ofNat', hsixteen, Nat.shiftRight_eq_div_pow]
    omega
  have hbyte : ∀ i < 6, ∀ b : UInt8, byteFrom mac.toNat (8 * (5 - i)) = b.toNat →
      UInt8.ofNat ((((mac <<< 40) &&& (0xFF0000000000 : UInt64)) ||| ((mac <<< 24) &&& (0x00FF00000000 : UInt64)) |||
        ((mac <<< 8) &&& (0x0000FF000000 : UInt64)) ||| ((mac >>> 8) &&& (0x000000FF0000 : UInt64)) |||
        ((mac >>> 24) &&& (0x00000000FF00 : UInt64)) ||| ((mac >>> 40) &&& (0x0000000000FF : UInt64))).toNat /
          256 ^ i % 256) = b := by
    intro i hi b hb
    rw [← byteFrom_shifts mac i hi] at hb
    unfold byteFrom at hb
    rw [Nat.pow_mul] at hb
    rw [show (256 : Nat) = 2 ^ 8 from rfl, hb, UInt8.ofNat_toNat]
  unfold byteFrom at hbyte
  rw [hbytes] at hbyte
  simp only [List.range, List.range.loop, List.map_cons, List.map_nil]
  rw [hbyte 0 (by decide) b7 (by omega), hbyte 1 (by decide) b6 (by omega), hbyte 2 (by decide) b5 (by omega),
    hbyte 3 (by decide) b4 (by omega), hbyte 4 (by decide) b3 (by omega), hbyte 5 (by decide) b2 (by omega)]

/-- The address in a confirmation of a scan: its byte `i` is byte `7 - i` of the data. -/
def staAddress (c : FileAccessCnf) : Mac :=
  ⟨(List.range 6).map fun i => c.data.getD (7 - i) 0, by rw [List.length_map, List.length_range]⟩

/-- A successful confirmation of a scan: an address in the upper six bytes of eight. -/
structure ScanConfirmation (c : FileAccessCnf) : Prop where
  mstatus : c.mstatus = 0
  op : c.op = opScanSta
  length : c.length = 8
  data : 8 ≤ c.data.length

/-- The address is scanned from the confirmation, whatever the variable held. -/
theorem ScanConfirmation.scanMac {c : FileAccessCnf} (h : ScanConfirmation c) (mac : List UInt8) :
    Hpav.scanMac (macVariable mac c.payload) = (staAddress c).bytes := by
  have hpayload : c.payload = c.data.take 8 := by
    unfold FileAccessCnf.payload
    rw [h.length]
    rfl
  have hdata := h.data
  unfold macVariable
  rw [hpayload]
  match hbytes : c.data, hdata with
  | b0 :: b1 :: b2 :: b3 :: b4 :: b5 :: b6 :: b7 :: rest, _ =>
    refine (scanMac_eq b0 b1 b2 b3 b4 b5 b6 b7 _).trans ?_
    unfold staAddress
    rw [hbytes]
    rfl

/-! ## The file -/

/-- The line of a station. -/
def stationLine (c : FileAccessCnf) : List UInt8 :=
  mactos (staAddress c).bytes ++ [10]

/-- A turn of the loop. Without the file the line is only printed. -/
theorem processSuccess_scan {command : FileAccessCommand} {c : FileAccessCnf} (h : ScanConfirmation c) (fs : LocalFs)
    (mac : List UInt8) :
    (∀ path, processSuccess command ⟨fs, .opened path, mac⟩ c =
      .ok ⟨fs.append path (stationLine c), .opened path, macVariable mac c.payload⟩) ∧
    processSuccess command ⟨fs, .null, mac⟩ c = .ok ⟨fs, .null, macVariable mac c.payload⟩ := by
  have hread : ¬(c.op = opRead ∨ c.op = opListDir) := by
    rw [h.op]
    decide
  have hsave : c.op ≠ opSave := by
    rw [h.op]
    decide
  have hlength : ¬8 < c.length.toNat := by
    rw [h.length]
    decide
  constructor
  · intro path
    unfold processSuccess
    rw [if_neg hread, if_pos h.op, if_neg hlength]
    simp only [bind_ok, if_neg hsave, h.scanMac]
    rfl
  · unfold processSuccess
    rw [if_neg hread, if_pos h.op, if_neg hlength]
    simp only [bind_ok, if_neg hsave]

/-- The confirmations leave one line each. -/
theorem processLoop_scan {command : FileAccessCommand} {path : CString} {chain : List FileAccessCnf} :
    ∀ {fs : LocalFs} {mac content : List UInt8}, (∀ c ∈ chain, ScanConfirmation c) → fs.content path = some content →
      ∃ fs' mac', processLoop command ⟨fs, .opened path, mac⟩ chain = .ok (⟨fs', .opened path, mac'⟩, true) ∧
        fs'.content path = some (content ++ (chain.map stationLine).flatten) := by
  induction chain with
  | nil =>
    intro fs mac content _ hcontent
    exact ⟨fs, mac, rfl, by rw [hcontent, List.map_nil, List.flatten_nil, List.append_nil]⟩
  | cons c chain ih =>
    intro fs mac content hchain hcontent
    have hc := hchain c List.mem_cons_self
    have happended : (fs.append path (stationLine c)).content path = some (content ++ stationLine c) := by
      unfold LocalFs.append
      rw [LocalFs.content_write, if_pos rfl, hcontent]
      rfl
    obtain ⟨fs', mac', hloop, hcontent'⟩ := ih (fun d hd => hchain d (List.mem_cons_of_mem c hd)) happended
    refine ⟨fs', mac', ?_, ?_⟩
    · unfold processLoop
      rw [if_pos hc.mstatus, (processSuccess_scan hc fs mac).1 path, bind_ok]
      exact hloop
    · rw [hcontent', List.map_cons, List.flatten_cons, List.append_assoc]

/-- Without a file the confirmations are read, and nothing is written. -/
theorem processLoop_scan_null {command : FileAccessCommand} {chain : List FileAccessCnf} {fs : LocalFs} :
    ∀ {mac : List UInt8}, (∀ c ∈ chain, ScanConfirmation c) →
      ∃ mac', processLoop command ⟨fs, .null, mac⟩ chain = .ok (⟨fs, .null, mac'⟩, true) := by
  induction chain with
  | nil =>
    intro mac _
    exact ⟨mac, rfl⟩
  | cons c chain ih =>
    intro mac hchain
    have hc := hchain c List.mem_cons_self
    obtain ⟨mac', hloop⟩ := @ih (macVariable mac c.payload) fun d hd => hchain d (List.mem_cons_of_mem c hd)
    refine ⟨mac', ?_⟩
    unfold processLoop
    rw [if_pos hc.mstatus, (processSuccess_scan hc fs mac).2, bind_ok]
    exact hloop

section

variable {command : FileAccessCommand} {fs : LocalFs} {chain : List FileAccessCnf}

/-- A scan writes the list of its stations. -/
theorem processMtkVsFileAccessCnf_scan (uninit : List UInt8) (hop : command.op = opScanSta) (hne : chain ≠ [])
    (hchain : ∀ c ∈ chain, ScanConfirmation c) (hwritable : fs.writable staListFileName = true) :
    ∃ fs', processMtkVsFileAccessCnf uninit command fs chain = .ok (fs', true) ∧
      fs'.content staListFileName = some (chain.map stationLine).flatten := by
  have hempty : (fs.write staListFileName []).content staListFileName = some [] := by
    rw [LocalFs.content_write, if_pos rfl]
  obtain ⟨fs', mac', hloop, hcontent⟩ := @processLoop_scan command staListFileName chain _ uninit [] hchain hempty
  refine ⟨fs', ?_, hcontent⟩
  unfold processMtkVsFileAccessCnf
  rw [if_neg (by rwa [List.isEmpty_iff])]
  simp only [hop, if_true, hwritable, hloop, bind_ok]
  rfl

/-- A list that could not be opened is closed all the same. -/
theorem processMtkVsFileAccessCnf_null (uninit : List UInt8) (hop : command.op = opScanSta) (hne : chain ≠ [])
    (hchain : ∀ c ∈ chain, ScanConfirmation c) (hwritable : fs.writable staListFileName ≠ true) :
    processMtkVsFileAccessCnf uninit command fs chain = .error .nullDeref := by
  obtain ⟨mac', hloop⟩ := @processLoop_scan_null command chain fs uninit hchain
  unfold processMtkVsFileAccessCnf
  rw [if_neg (by rwa [List.isEmpty_iff])]
  simp only [hop, if_true, if_neg hwritable, hloop, bind_ok]

end

/-! ## The table -/

/-- The text of an address contains no blank. -/
theorem not_space_of_mem_mactos {bytes : List UInt8} (hne : bytes ≠ []) : ∀ b ∈ mactos bytes, isSpace b = false := by
  intro b hb
  rcases (colonHex_mactos hne).mem b hb with hdigit | rfl
  · exact (not_special_of_isHexDigit hdigit).1
  · decide

/-- The text of an address has 17 characters. -/
theorem length_mactos (mac : Mac) : (mactos mac.bytes).length = 17 := by
  obtain ⟨bytes, hlength⟩ := mac
  match bytes, hlength with
  | [_, _, _, _, _, _], _ => rfl

/-- A line without blanks is a word. -/
theorem tokens_line {word : List UInt8} (hne : word ≠ []) (hword : ∀ b ∈ word, isSpace b = false) (rest : List UInt8) :
    tokens (word ++ [10] ++ rest) = word :: tokens rest := by
  unfold tokens
  rw [List.append_assoc, List.singleton_append, List.splitOnP_append_cons_of_forall_mem hword 10 rfl,
    List.filter_cons_of_pos (by simpa using hne)]

/-- The words of the file are the addresses, in order. -/
theorem tokens_lines (chain : List FileAccessCnf) :
    tokens (chain.map stationLine).flatten = (chain.map staAddress).map fun mac => mactos mac.bytes := by
  induction chain with
  | nil => rfl
  | cons c chain ih =>
    have hne : mactos (staAddress c).bytes ≠ [] := by
      intro hnil
      have hlength := length_mactos (staAddress c)
      rw [hnil] at hlength
      cases hlength
    rw [List.map_cons, List.flatten_cons, List.map_cons, List.map_cons, ← ih]
    exact tokens_line hne (not_space_of_mem_mactos (staAddress c).bytes_ne_nil) _

/-- The table takes what is printed as long as there is a place in it. -/
theorem readMacList_mactos (macs : List Mac) : ∀ staCount ≤ 64,
    readMacList staCount (macs.map fun mac => mactos mac.bytes) =
      if staCount + macs.length ≤ 64 then .ok (some macs) else .error .outOfBounds := by
  induction macs with
  | nil =>
    intro staCount hcount
    have hempty : staCount + ([] : List Mac).length ≤ 64 := hcount
    rw [if_pos hempty]
    rfl
  | cons mac macs ih =>
    intro staCount hcount
    have hcopy : strcpy 32 (mactos mac.bytes) = .ok (mactos mac.bytes) :=
      if_pos (by rw [length_mactos]; decide)
    rw [List.map_cons, readMacList, hcopy, bind_ok]
    simp only [stomac_mactos, List.length_cons]
    by_cases hfull : 64 ≤ staCount
    · rw [if_pos hfull, if_neg (by omega)]
    · rw [if_neg hfull, ih (staCount + 1) (by omega)]
      by_cases hfits : staCount + 1 + macs.length ≤ 64
      · rw [if_pos hfits, if_pos (by omega)]
        rfl
      · rw [if_neg hfits, if_neg (by omega)]
        rfl

/-! ## The stations that are found -/

/-- The scan succeeds, and as long as its file is left alone the stations of the confirmations are
loaded from it. -/
def ScanListed (fs : LocalFs) (chain : List FileAccessCnf) : Prop :=
  ∀ (uninit : List UInt8) (command : FileAccessCommand), command.op = opScanSta →
    ∃ fs', processMtkVsFileAccessCnf uninit command fs chain = .ok (fs', true) ∧
      ∀ later : LocalFs, later.content staListFileName = fs'.content staListFileName →
        stationList later = .ok (some (chain.map staAddress))

section

variable {fs : LocalFs} {chain : List FileAccessCnf}

/-- A later command that is given `all` goes on with these stations. -/
theorem ScanListed.access (h : ScanListed fs chain) {σ : Type} (host : FileHost σ) (env : σ) {command : FileAccessCommand}
    (hop : command.op = opScanSta) (uninit : List UInt8) : ∃ fs',
      processMtkVsFileAccessCnf uninit command fs chain = .ok (fs', true) ∧
      ∀ later : LocalFs, later.content staListFileName = fs'.content staListFileName →
        ∀ {argv : List CString} {a : CString} {mac : Mac} {cmd : FileAccessCommand}, argv[0]? = some a →
          stomac a = some mac → parseMtkVsFileAccess (accessWords mac argv) = .ok (some (cmd, true)) →
          testMmeMtkVsFileAccessReq host argv later env = accessFiles host cmd (chain.map staAddress) later env := by
  obtain ⟨fs', hprocess, hlist⟩ := h uninit command hop
  refine ⟨fs', hprocess, ?_⟩
  intro later hlater argv a mac cmd ha hmac hparse
  have hstations := hlist later hlater
  rw [testMmeMtkVsFileAccessReq_words host later env ha hmac, hparse, bind_ok]
  show accessStations host later env _ cmd true = _
  unfold accessStations
  simp only [if_true, hstations, bind_ok]

/-- A file of up to 64 lines is read as the addresses, and a longer one faults. -/
theorem stationList_lines {later : LocalFs} (h : later.content staListFileName = some (chain.map stationLine).flatten) :
    stationList later = if chain.length ≤ 64 then .ok (some (chain.map staAddress)) else .error .outOfBounds := by
  unfold stationList
  rw [h]
  simp only
  rw [tokens_lines, readMacList_mactos _ 0 (Nat.zero_le _), Nat.zero_add, List.length_map]

/-- More stations than there are places are written past the table. -/
theorem ScanListed.length_le (h : ScanListed fs chain) (hne : chain ≠ []) (hchain : ∀ c ∈ chain, ScanConfirmation c) :
    fs.writable staListFileName = true ∧ chain.length ≤ 64 := by
  obtain ⟨fs', hprocess, hlist⟩ := h [] ⟨opScanSta, fileTypeGeneralFile, [], []⟩ rfl
  have hwritable : fs.writable staListFileName = true := by
    by_contra hnot
    rw [processMtkVsFileAccessCnf_null [] rfl hne hchain hnot] at hprocess
    cases hprocess
  refine ⟨hwritable, ?_⟩
  obtain ⟨fs'', hprocess', hcontent⟩ :=
    @processMtkVsFileAccessCnf_scan ⟨opScanSta, fileTypeGeneralFile, [], []⟩ fs chain [] rfl hne hchain hwritable
  rw [hprocess] at hprocess'
  obtain rfl : fs' = fs'' := congrArg Prod.fst (Except.ok.inj hprocess')
  by_contra hmany
  have hload := hlist fs' rfl
  rw [stationList_lines hcontent, if_neg hmany] at hload
  cases hload

end

/-- The stations of a scan are loaded exactly if the list can be written and there are at most 64
of them. -/
theorem scanListed_iff {chain : List FileAccessCnf} (hne : chain ≠ []) (hchain : ∀ c ∈ chain, ScanConfirmation c)
    (fs : LocalFs) : ScanListed fs chain ↔ fs.writable staListFileName = true ∧ chain.length ≤ 64 := by
  constructor
  · intro h
    exact h.length_le hne hchain
  · rintro ⟨hwritable, hlength⟩ uninit command hop
    obtain ⟨fs', hprocess, hcontent⟩ := processMtkVsFileAccessCnf_scan uninit hop hne hchain hwritable
    refine ⟨fs', hprocess, ?_⟩
    intro later hlater
    rw [stationList_lines (hlater.trans hcontent), if_pos hlength]

/-- The first station, 00:13:d7:00:00:01. -/
def scannedStation : FileAccessCnf where
  mstatus := 0
  op := opScanSta
  fileType := fileTypeGeneralFile
  parameter := List.replicate 32 0
  totalFragments := 0
  fragmentNumber := 0
  offset := 0
  length := 8
  data := [0, 0, 0x01, 0, 0, 0xd7, 0x13, 0x00] ++ List.replicate 1016 0
  staMacAddr := broadcast

/-- The first station answers the scan. -/
theorem scannedStation_confirmation : ScanConfirmation scannedStation := by
  refine ⟨rfl, rfl, rfl, ?_⟩
  unfold scannedStation
  rw [List.length_append, List.length_replicate]
  exact Nat.le_add_right _ _

/-- The second one. -/
def otherScannedStation : FileAccessCnf :=
  { scannedStation with data := [0, 0, 0x02, 0, 0, 0xd7, 0x13, 0x00] ++ List.replicate 1016 0 }

/-- The second station answers the scan. -/
theorem otherScannedStation_confirmation : ScanConfirmation otherScannedStation := by
  refine ⟨rfl, rfl, rfl, ?_⟩
  unfold otherScannedStation
  rw [List.length_append, List.length_replicate]
  exact Nat.le_add_right _ _

/-- Two stations, one behind the other. -/
theorem scanListed_iff_twoStations : ScanListed noFiles [otherScannedStation, scannedStation] := by
  have hchain : ∀ c ∈ [otherScannedStation, scannedStation], ScanConfirmation c := by
    intro c hc
    rcases List.mem_cons.mp hc with rfl | hc
    · exact otherScannedStation_confirmation
    · rw [List.mem_singleton.mp hc]
      exact scannedStation_confirmation
  exact (scanListed_iff (List.cons_ne_nil _ _) hchain noFiles).mpr ⟨rfl, by decide⟩

/-- With one station more than there are places the table is overrun. -/
theorem sixtyFive_not_scanListed : ¬ ∀ (fs : LocalFs) (chain : List FileAccessCnf), chain ≠ [] →
    (∀ c ∈ chain, ScanConfirmation c) → ScanListed fs chain := by
  intro h
  have hchain : ∀ c ∈ List.replicate 65 scannedStation, ScanConfirmation c := by
    intro c hc
    rw [(List.mem_replicate.mp hc).2]
    exact scannedStation_confirmation
  have hne : List.replicate 65 scannedStation ≠ [] := List.cons_ne_nil _ _
  have hlength := ((h noFiles _ hne hchain).length_le hne hchain).2
  rw [List.length_replicate] at hlength
  omega

end Hpav
