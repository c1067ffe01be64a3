import Mathlib.Tactic.Common
import Hpav.NvramWrite

/-!
# Changing the MAC address in an NVRAM file

`test_nvram_modify` reads a `nvram_t` from the file, scans the address without looking at
what `sscanf` returns, and writes the structure into the file, which is truncated first.
What was not scanned is uninitialized, and what the file had behind the structure is lost.
-/

namespace Hpav

open CMem CNumeral CScan

/-! ## The structure -/

/-- The sizes of the fields of `nvram_t` in front of the MAC address: `magic`, `reserved`,
`version`, `reserved2`, `product_name`, `product_partnb`, `product_desc`, `serial_number`,
`reserved3`, `vendor_info`, `manufactory_info`, `oem_info`, `reserved4`. -/
def fieldsBeforeMac : List Nat :=
  [8, 16, 4, 4, 64, 64, 128, 64, 256, 64, 64, 64, 128]

/-- The sizes of the fields behind it: `reserved5`, `device_password`. -/
def fieldsBehindMac : List Nat :=
  [2, 32]

/-- The offset of `mac`. -/
abbrev macOffset : Nat := fieldsBeforeMac.sum

/-- `sizeof(nvram_t)` -/
abbrev sizeofNvram : Nat := macOffset + 6 + fieldsBehindMac.sum

/-- `memcpy(modify_data.mac, mac_data, 6)` -/
def setMac (data mac : List UInt8) : List UInt8 :=
  data.take macOffset ++ mac ++ data.drop (macOffset + 6)

/-! ## The command -/

/-- `mac_data`: the lowest bytes of the six variables, of which `sscanf` sets those it has
read a number for. -/
def macData (uninit : Nat → UInt8) (s : CString) : List UInt8 :=
  (List.range 6).map fun i => (scanColonHex none 6 s).getD i (uninit i)

/-- `test_nvram_modify`: the value it returns, and the files. -/
def testNvramModify (uninit : Nat → UInt8) (fs : LocalFs) (argv : List CString) : Int × LocalFs :=
  if argv.length < 3 ∨ argv.length &&& 1 = 0 then (exitUsage, fs)
  else
    let inputFile := argv.getD 0 []
    match fs.content inputFile with
    | none => (-1, fs)
    | some content =>
      if content.length < sizeofNvram then (-1, fs)
      else
        let nvramData := content.take sizeofNvram
        if argv.getD 1 [] = text "mac" then
          -- the rest of the file is not read, and is gone once it is opened for writing
          let modifyData := setMac nvramData (macData uninit (argv.getD 2 []))
          if fs.writable inputFile then (exitSuccess, fs.write inputFile modifyData)
          else (-1, fs)
        else (exitUsage, fs)

/-! ## What it is for -/

/-- Six hexadecimal bytes with colons between them. -/
def MacText (s : CString) (mac : List UInt8) : Prop :=
  ColonHex s mac ∧ mac.length = 6

/-- The command sets the address and nothing else, or fails and changes nothing. -/
def ModifiesMac (fs : LocalFs) (file : CString) (content : List UInt8) (s : CString) : Prop :=
  ∀ uninit,
    (∃ mac, MacText s mac ∧ testNvramModify uninit fs [file, text "mac", s] =
      (exitSuccess, fs.write file (setMac content mac))) ∨
    (∃ rv, rv ≠ exitSuccess ∧ testNvramModify uninit fs [file, text "mac", s] = (rv, fs))

theorem length_setMac {data mac : List UInt8} (hdata : macOffset + 6 ≤ data.length) (hmac : mac.length = 6) :
    (setMac data mac).length = data.length := by
  unfold setMac
  rw [List.length_append, List.length_append, List.length_take, List.length_drop, hmac]
  omega

theorem length_macData (uninit : Nat → UInt8) (s : CString) : (macData uninit s).length = 6 := by
  unfold macData
  rw [List.length_map, List.length_range]

/-- Six bytes are read, whatever the variables held. -/
theorem macData_macText {s : CString} {mac : List UInt8} (h : MacText s mac) (uninit : Nat → UInt8) :
    macData uninit s = mac := by
  obtain ⟨hhex, hlength⟩ := h
  have hscan := hhex.scanColonHex_eq
  rw [hlength] at hscan
  unfold macData
  rw [hscan]
  apply List.ext_getElem
  · rw [List.length_map, List.length_range, hlength]
  · intro i hi hi'
    rw [List.getElem_map, List.getElem_range, List.getD_eq_getElem _ _ hi']

section Modify

variable {fs : LocalFs} {file : CString} {content : List UInt8} {s : CString}

/-- The run on a file that is long enough. -/
theorem testNvramModify_mac (hcontent : fs.content file = some content) (hlong : sizeofNvram ≤ content.length)
    (uninit : Nat → UInt8) : testNvramModify uninit fs [file, text "mac", s] =
      if fs.writable file then
        (exitSuccess, fs.write file (setMac (content.take sizeofNvram) (macData uninit s)))
      else (-1, fs) := by
  have hargc : ¬ ([file, text "mac", s].length < 3 ∨ [file, text "mac", s].length &&& 1 = 0) := by
    show ¬ (3 < 3 ∨ 3 &&& 1 = 0)
    decide
  unfold testNvramModify
  rw [if_neg hargc]
  show (match fs.content file with | none => _ | some content => _) = _
  rw [hcontent]
  show (if content.length < sizeofNvram then _ else _) = _
  rw [if_neg (by omega)]
  exact if_pos rfl

/-- Without the right to write nothing happens. -/
theorem modifiesMac_of_not_writable (hcontent : fs.content file = some content)
    (hlong : sizeofNvram ≤ content.length) (hwritable : fs.writable file = false) :
    ModifiesMac fs file content s := by
  intro uninit
  refine Or.inr ⟨-1, by decide, ?_⟩
  rw [testNvramModify_mac hcontent hlong, hwritable]
  rfl

/-- A file that is one structure keeps everything but the address. -/
theorem MacText.modifiesMac {mac : List UInt8} (h : MacText s mac) (hcontent : fs.content file = some content)
    (hlength : content.length = sizeofNvram) (hwritable : fs.writable file = true) :
    ModifiesMac fs file content s := by
  intro uninit
  refine Or.inl ⟨mac, h, ?_⟩
  rw [testNvramModify_mac hcontent hlength.ge, if_pos hwritable, macData_macText h,
    List.take_of_length_le hlength.le]

/-- What is written is one structure, whatever the argument was. -/
theorem whole_of_modifiesMac (hcontent : fs.content file = some content) (hlong : sizeofNvram ≤ content.length)
    (hwritable : fs.writable file = true) (h : ModifiesMac fs file content s) :
    content.length = sizeofNvram ∧ ∃ mac, MacText s mac := by
  have hrun := @testNvramModify_mac fs file content s hcontent hlong (fun _ => 0)
  rw [if_pos hwritable] at hrun
  rcases h fun _ => 0 with ⟨mac, hmac, hset⟩ | ⟨rv, hrv, hset⟩
  · refine ⟨?_, mac, hmac⟩
    have hfs := congrArg (fun p : Int × LocalFs => p.2.content file) (hrun.symm.trans hset)
    simp only [LocalFs.content_write, if_true] at hfs
    have hlength := congrArg List.length (Option.some.inj hfs)
    have hread : (content.take sizeofNvram).length = sizeofNvram := List.length_take_of_le hlong
    rw [length_setMac (by rw [hread]; exact Nat.le_add_right _ _) (length_macData _ s), hread,
      length_setMac ((Nat.le_add_right _ _).trans hlong) hmac.2] at hlength
    exact hlength.symm
  · rw [hrun] at hset
    injection hset with hset _
    exact absurd hset.symm hrv

/-- The address alone is changed exactly if the file is one structure and the argument is an
address. -/
theorem modifiesMac_iff (hcontent : fs.content file = some content) (hlong : sizeofNvram ≤ content.length)
    (s : CString) : ModifiesMac fs file content s ↔
      fs.writable file = false ∨ (content.length = sizeofNvram ∧ ∃ mac, MacText s mac) := by
  cases hwritable : fs.writable file with
  | false =>
    refine iff_of_true ?_ (Or.inl rfl)
    exact modifiesMac_of_not_writable hcontent hlong hwritable
  | true =>
    constructor
    · intro h
      exact Or.inr (whole_of_modifiesMac hcontent hlong hwritable h)
    · rintro (hfalse | ⟨hlength, mac, hmac⟩)
      · cases hfalse
      · exact hmac.modifiesMac hcontent hlength hwritable

end Modify

/-- The text of an address. -/
theorem macText_second : MacText (text "00:13:d7:00:00:02") secondStation.bytes := by
  have hbyte : ∀ a b : UInt8, isHexDigit a = true → isHexDigit b = true → HexByte [a, b] := by
    intro a b ha hb
    refine ⟨Or.inr rfl, ?_⟩
    intro c hc
    rcases List.mem_cons.mp hc with rfl | hc
    · exact ha
    · rw [List.mem_singleton.mp hc]
      exact hb
  refine ⟨?_, rfl⟩
  exact .more (hbyte 48 48 rfl rfl) (.more (hbyte 49 51 rfl rfl) (.more (hbyte 100 55 rfl rfl)
    (.more (hbyte 48 48 rfl rfl) (.more (hbyte 48 48 rfl rfl) (.last (hbyte 48 50 rfl rfl))))))

/-- A file of 968 bytes and an address. -/
theorem modifiesMac_iff_oneStructure : ModifiesMac (nvramFs (List.replicate 968 0)) (text "nvram.bin")
    (List.replicate 968 0) (text "00:13:d7:00:00:02") := by
  have hlength : (List.replicate 968 (0 : UInt8)).length = sizeofNvram := List.length_replicate
  refine (modifiesMac_iff rfl hlength.ge _).mpr (Or.inr ⟨hlength, ?_⟩)
  exact ⟨_, macText_second⟩

/-- A file of 1024 bytes, as the tool itself saves it, loses its last 56 bytes. -/
theorem savedBlock_not_modifiesMac : ¬ ∀ (fs : LocalFs) (file : CString) (content : List UInt8) (s : CString),
    fs.content file = some content → sizeofNvram ≤ content.length → ModifiesMac fs file content s := by
  intro h
  have hlength : (List.replicate 1024 (0 : UInt8)).length = 1024 := List.length_replicate
  have hlong : sizeofNvram ≤ (List.replicate 1024 (0 : UInt8)).length := by
    rw [hlength]
    decide
  have hmodifies := h (nvramFs (List.replicate 1024 0)) (text "nvram.bin") _ (text "00:13:d7:00:00:02") rfl hlong
  obtain ⟨hwhole, -⟩ := whole_of_modifiesMac rfl hlong rfl hmodifies
  rw [hlength] at hwhole
  exact absurd hwhole (by decide)

end Hpav
