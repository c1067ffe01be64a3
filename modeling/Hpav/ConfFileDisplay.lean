import Hpav.ConfFileRuns

/-!
# What `conf_file_parse` prints

The whole command: the lines of the three functions of `ConfFileParse` and all the others.
What it prints behind a run of `conf_file_modify` is what it printed before, with the line of
each key that was set replaced by what was entered last (`confFileParse_modifyAll`).
-/

namespace Hpav

open Binary64 CMem CNumeral CScan

/-! ## The lines -/

/-- `json_object_get_boolean` -/
def jsonObjectGetBoolean (object : Members) (name : List UInt8) : Int :=
  match jsonObjectGetValue object name with
  | some (.boolean b) => if b then 1 else 0
  | _ => -1

/-- `json_object_get_string` -/
def jsonObjectGetString (object : Members) (name : List UInt8) : Option (List UInt8) :=
  match jsonObjectGetValue object name with
  | some (.string s) => some s
  | _ => none

/-- `%u` with an `int`. -/
def formatUnsigned (i : Int) : List UInt8 :=
  Decimal.numeral (i % 2 ^ 32).toNat

/-- `conf_file_parse_version` -/
def confFileParseVersion (object : Members) : List UInt8 :=
  let version := (jsonObjectGetNumber object (text "version")).toSigned 32
  let subVersion := (jsonObjectGetNumber object (text "sub_version")).toSigned 32
  text "Version                                              : " ++
    formatUnsigned version ++ 46 :: formatUnsigned subVersion ++ [10]

/-- What is printed for a switch. -/
def switchText (value : Int) : List UInt8 :=
  if value = -1 then text "parse failed!" ++ [10]
  else if value ≠ 0 then text "true" ++ [10]
  else text "false" ++ [10]

/-- `conf_file_parse_enable_nvram`; its result is not used. -/
def confFileParseEnableNvram (object : Members) : List UInt8 :=
  text "Enable NVRAM                                         : " ++
    switchText (jsonObjectGetBoolean object (text "use_nvram"))

/-- `conf_file_parse_store_key_change` -/
def confFileParseStoreKeyChange (object : Members) : List UInt8 :=
  text "Store Key Change                                     : " ++
    switchText (jsonObjectGetBoolean object (text "host_set_key_save"))

/-- `printf` of a label and a string. There is no telling what `%s` does without one. -/
def stringLine (label : List UInt8) (s : Option (List UInt8)) : Except Fault (List UInt8) :=
  match s with
  | none => .error .nullDeref
  | some s => .ok (label ++ s ++ [10])

/-- `conf_file_parse_role` -/
def confFileParseRole (object : Members) : Except Fault (List UInt8) :=
  stringLine (text "Role(cco : EVSE, sta : PEV)                          : ")
    (jsonObjectGetString object (text "force_role"))

/-- `conf_file_parse_hfids` -/
def confFileParseHfids (object : Members) : Except Fault (List UInt8) := do
  let avln ← stringLine (text "AVLN(network) HFID                                   : ")
    (jsonObjectGetString object (text "avln_hfid"))
  let m ← stringLine (text "Manufacturer-set HFID                                : ")
    (jsonObjectGetString object (text "m_hfid"))
  let u ← stringLine (text "User-set HFID                                        : ")
    (jsonObjectGetString object (text "u_hfid"))
  .ok (avln ++ m ++ u)

/-- `conf_file_parse_psd_limit`. The difference is one of unsigned numbers, and `%d` takes it for
one with a sign. -/
def confFileParsePsdLimit (object : Members) : List UInt8 :=
  let afe := (jsonObjectGetNumber object (text "direct_afe_tx_idx")).toUnsigned32
  text "PSD Limit                                            : " ++
    if afe ≤ 15 then formatInt (Int.bmod (-50 - (15 - afe) * 3) (2 ^ 32)) ++ text " dBm/Hz" ++ [10]
    else text "parse failed!" ++ [10]

/-- `conf_file_parse_spi_slave_clk`. Without an object the number is read all the same, and is 0. -/
def confFileParseSpiSlaveClk (object : Members) : List UInt8 :=
  let inkaEosObject := jsonObjectGetObject object (text "eos")
  let spiClock := (jsonObjectGetNumber (inkaEosObject.getD []) (text "spi_clock_idx")).toUnsigned32
  text "SPI Slave Input Clock                                : " ++
    (if inkaEosObject.isNone then text "parse SPI slave input clock failed!" ++ [10] else []) ++
    if spiClock = 1 then text "6 MHz" ++ [10]
    else if spiClock = 2 then text "6.25 MHz" ++ [10]
    else if spiClock = 3 then text "6.85 MHz" ++ [10]
    else if spiClock = 4 then text "7.14 MHz" ++ [10]
    else text "parse SPI slave input clock failed!" ++ [10]

/-- `conf_file_parse`: what it returns and what it prints. -/
def confFileParse (files : FileSystem) (argv : List Argument) : Except Fault (Int × List UInt8) :=
  let usage := text "Usage : hpav_test conf_file parse filename" ++ [10]
  match argv with
  | [] => .ok (exitUsage, usage)
  | filename :: _ =>
    match jsonParseFile files filename with
    | none => .ok (exitUsage, usage)
    | some inkaValue =>
      match jsonValueGetObject inkaValue with
      | none => .ok (-1, text "Failed : file content incorrect!" ++ [10])
      | some inkaObject =>
        match jsonObjectGetObject inkaObject (text "hpav"), jsonObjectGetObject inkaObject (text "cp"),
          jsonObjectGetObject inkaObject (text "phy") with
        | some hpav, some cp, some phy => do
          let role ← confFileParseRole cp
          let hfids ← confFileParseHfids hpav
          .ok (0, 10 :: confFileParseVersion inkaObject ++ confFileParseEnableNvram inkaObject ++
            confFileParseMac inkaObject ++ confFileParseNmk hpav ++ confFileParseNid hpav ++ role ++ hfids ++
            confFileParseStoreKeyChange hpav ++ confFileParsePsdLimit phy ++
            (if hasSpiClock inkaObject then confFileParseSpiSlaveClk inkaObject else []) ++ [10])
        | _, _, _ => .ok (-1, text "Failed : file content incorrect!" ++ [10])

/-! ## The lines of the settings -/

/-- The settings that have a line, in the order of the lines. -/
inductive Shown where
  | useNvram
  | mac
  | nmk
  | nid
  | role
  | avlnHfid
  | mHfid
  | uHfid
  | storeKeyChange
  | psdLimit
  | spiSlaveClk
  deriving DecidableEq

namespace Shown

def all : List Shown :=
  [useNvram, mac, nmk, nid, role, avlnHfid, mHfid, uHfid, storeKeyChange, psdLimit, spiSlaveClk]

theorem mem_all (s : Shown) : s ∈ all := by
  cases s <;> decide

/-- Where the setting is in the file. -/
def path : Shown → List (List UInt8)
  | useNvram => [text "use_nvram"]
  | mac => [text "mac"]
  | nmk => [text "hpav", text "nmk"]
  | nid => [text "hpav", text "nid"]
  | role => [text "cp", text "force_role"]
  | avlnHfid => [text "hpav", text "avln_hfid"]
  | mHfid => [text "hpav", text "m_hfid"]
  | uHfid => [text "hpav", text "u_hfid"]
  | storeKeyChange => [text "hpav", text "host_set_key_save"]
  | psdLimit => [text "phy", text "direct_afe_tx_idx"]
  | spiSlaveClk => [text "eos", text "spi_clock_idx"]

/-- The key it is modified by. -/
def key : Shown → List UInt8
  | useNvram => text "enable_nvram"
  | mac => text "mac"
  | nmk => text "nmk"
  | nid => text "nmk"
  | role => text "role"
  | avlnHfid => text "avln_hfid"
  | mHfid => text "m_hfid"
  | uHfid => text "u_hfid"
  | storeKeyChange => text "store_key_change"
  | psdLimit => text "psd_limit"
  | spiSlaveClk => text "spi_slave_clk"

def label : Shown → List UInt8
  | useNvram => text "Enable NVRAM                                         : "
  | mac => text "MAC Address                                          : "
  | nmk => text "NMK                                                  : "
  | nid => text "Network ID                                           : "
  | role => text "Role(cco : EVSE, sta : PEV)                          : "
  | avlnHfid => text "AVLN(network) HFID                                   : "
  | mHfid => text "Manufacturer-set HFID                                : "
  | uHfid => text "User-set HFID                                        : "
  | storeKeyChange => text "Store Key Change                                     : "
  | psdLimit => text "PSD Limit                                            : "
  | spiSlaveClk => text "SPI Slave Input Clock                                : "

/-- The line of the setting; there is none for the clock of a version without one, and `none`
stands for a string that is missing. -/
def line (inkaObj : Members) : Shown → Option (List UInt8)
  | useNvram => some (confFileParseEnableNvram inkaObj)
  | mac => some (confFileParseMac inkaObj)
  | nmk => some (confFileParseNmk ((jsonObjectGetObject inkaObj (text "hpav")).getD []))
  | nid => some (confFileParseNid ((jsonObjectGetObject inkaObj (text "hpav")).getD []))
  | role => (confFileParseRole ((jsonObjectGetObject inkaObj (text "cp")).getD [])).toOption
  | avlnHfid => (stringLine (label avlnHfid)
      (jsonObjectGetString ((jsonObjectGetObject inkaObj (text "hpav")).getD []) (text "avln_hfid"))).toOption
  | mHfid => (stringLine (label mHfid)
      (jsonObjectGetString ((jsonObjectGetObject inkaObj (text "hpav")).getD []) (text "m_hfid"))).toOption
  | uHfid => (stringLine (label uHfid)
      (jsonObjectGetString ((jsonObjectGetObject inkaObj (text "hpav")).getD []) (text "u_hfid"))).toOption
  | storeKeyChange => some (confFileParseStoreKeyChange ((jsonObjectGetObject inkaObj (text "hpav")).getD []))
  | psdLimit => some (confFileParsePsdLimit ((jsonObjectGetObject inkaObj (text "phy")).getD []))
  | spiSlaveClk => some (if hasSpiClock inkaObj then confFileParseSpiSlaveClk inkaObj else [])

/-- What is shown of an input that was accepted. -/
def entered (input : List UInt8) : Shown → List UInt8
  | mac => colonText upperDigit (scanColonHex none 6 input)
  | nmk => colonText upperDigit (scanColonHex (some 2) 16 input)
  | nid => text "auto-gen by NMK"
  | psdLimit => formatInt (atoi input) ++ text " dBm/Hz"
  | spiSlaveClk =>
    if atoi input = 1 then text "6 MHz"
    else if atoi input = 2 then text "6.25 MHz"
    else if atoi input = 3 then text "6.85 MHz"
    else text "7.14 MHz"
  | useNvram | role | avlnHfid | mHfid | uHfid | storeKeyChange => input

end Shown

/-- What the command returns and prints, from the line of each setting. -/
def printed (version : List UInt8) (line : Shown → Option (List UInt8)) : Except Fault (Int × List UInt8) :=
  match Shown.all.mapM line with
  | none => .error .nullDeref
  | some lines => .ok (0, 10 :: version ++ lines.flatten ++ [10])

/-- The call changes the setting, if it returns 0. -/
def ModifyCall.Sets (clock : Bool) (c : ModifyCall) (s : Shown) : Prop :=
  c.key.val = s.key ∧ (s = .spiSlaveClk → clock = true)

instance (clock : Bool) (c : ModifyCall) (s : Shown) : Decidable (c.Sets clock s) :=
  inferInstanceAs (Decidable (_ ∧ _))

/-- The line of a setting behind a call that returned 0. -/
def ModifyCall.shows (clock : Bool) (c : ModifyCall) (s : Shown) (line : Option (List UInt8)) :
    Option (List UInt8) :=
  if c.Sets clock s then some (s.label ++ s.entered c.input ++ [10]) else line

/-! ## The lines and the fields -/

section Lines

variable {env : ModifyEnv} {filename : List UInt8} {inkaObj inkaObj' : Members}

/-- The command prints the lines of the settings one after the other. -/
theorem confFileParse_eq {filename : Argument} (h : Accepted env filename inkaObj) :
    confFileParse env.files [filename] = printed (confFileParseVersion inkaObj) (Shown.line inkaObj) := by
  rcases h.hpav with ⟨hpav, hhpav⟩
  rcases h.cp with ⟨cp, hcp⟩
  rcases h.phy with ⟨phy, hphy⟩
  unfold confFileParse
  simp only [h.parsed, jsonValueGetObject, hhpav, hcp, hphy]
  unfold printed Shown.all confFileParseRole confFileParseHfids
  simp only [List.mapM_cons, List.mapM_nil, Shown.line, confFileParseRole, hhpav, hcp, hphy, Option.getD_some]
  rcases jsonObjectGetString cp (text "force_role") with _ | role
  · rfl
  rcases jsonObjectGetString hpav (text "avln_hfid") with _ | avln
  · rfl
  rcases jsonObjectGetString hpav (text "m_hfid") with _ | m
  · rfl
  rcases jsonObjectGetString hpav (text "u_hfid") with _ | u
  · rfl
  simp [stringLine, Except.toOption, Shown.label]

/-- A field of an object is the same where it is at the same path. -/
theorem getValue_member_congr {name : List UInt8} (hobject : (∃ object, jsonObjectGetObject inkaObj' name = some object) ↔
    ∃ object, jsonObjectGetObject inkaObj name = some object) {field : List UInt8}
    (hat : valueAt [name, field] (.object inkaObj') = valueAt [name, field] (.object inkaObj)) :
    jsonObjectGetValue ((jsonObjectGetObject inkaObj' name).getD []) field =
      jsonObjectGetValue ((jsonObjectGetObject inkaObj name).getD []) field := by
  rcases hold : jsonObjectGetObject inkaObj name with _ | object
  · rcases hnew : jsonObjectGetObject inkaObj' name with _ | object'
    · rfl
    · rcases hobject.mp ⟨object', hnew⟩ with ⟨object, hobject⟩
      rw [hold] at hobject
      cases hobject
  · rcases hobject.mpr ⟨object, hold⟩ with ⟨object', hnew⟩
    rw [valueAt_pair hnew, valueAt_pair hold] at hat
    rw [hnew]
    exact hat

/-- A line depends on its field, and on the objects and the version, which stay. -/
theorem line_congr {leaves : List (List UInt8) → Option Json → Option Json} (h : Changed inkaObj inkaObj' leaves)
    {s : Shown} (hat : valueAt s.path (.object inkaObj') = valueAt s.path (.object inkaObj)) :
    s.line inkaObj' = s.line inkaObj := by
  have hclock := h.hasSpiClock_eq
  cases s with
  | useNvram =>
    rw [Shown.path, valueAt_singleton, valueAt_singleton] at hat
    simp only [Shown.line, confFileParseEnableNvram, jsonObjectGetBoolean, hat]
  | mac =>
    rw [Shown.path, valueAt_singleton, valueAt_singleton] at hat
    simp only [Shown.line, confFileParseMac, jsonObjectGetNumber, hat]
  | nmk =>
    have hget := getValue_member_congr (h.objects (text "hpav") (by decide)) hat
    simp only [Shown.line, confFileParseNmk, jsonObjectGetArray, hget]
  | nid =>
    have hget := getValue_member_congr (h.objects (text "hpav") (by decide)) hat
    have hnumber := congrArg jsonValueGetNumber hget
    unfold Shown.line confFileParseNid jsonObjectGetNumber
    rw [hnumber]
  | role =>
    have hget := getValue_member_congr (h.objects (text "cp") (by decide)) hat
    simp only [Shown.line, confFileParseRole, jsonObjectGetString, hget]
  | avlnHfid | mHfid | uHfid =>
    have hget := getValue_member_congr (h.objects (text "hpav") (by decide)) hat
    simp only [Shown.line, jsonObjectGetString, hget]
  | storeKeyChange =>
    have hget := getValue_member_congr (h.objects (text "hpav") (by decide)) hat
    simp only [Shown.line, confFileParseStoreKeyChange, jsonObjectGetBoolean, hget]
  | psdLimit =>
    have hget := getValue_member_congr (h.objects (text "phy") (by decide)) hat
    have hnumber := congrArg jsonValueGetNumber hget
    unfold Shown.line confFileParsePsdLimit jsonObjectGetNumber
    rw [hnumber]
  | spiSlaveClk =>
    have heos := h.objects (text "eos") (by decide)
    have hget := getValue_member_congr heos hat
    have hnone : (jsonObjectGetObject inkaObj' (text "eos")).isNone = (jsonObjectGetObject inkaObj (text "eos")).isNone := by
      rw [Bool.eq_iff_iff, ← not_iff_not]
      simp only [Bool.not_eq_true, Option.isNone_eq_false_iff, Option.isSome_iff_exists]
      exact heos
    have hnumber := congrArg jsonValueGetNumber hget
    have hline : confFileParseSpiSlaveClk inkaObj' = confFileParseSpiSlaveClk inkaObj := by
      unfold confFileParseSpiSlaveClk jsonObjectGetNumber
      simp only
      rw [hnumber, hnone]
    show some (if hasSpiClock inkaObj' then confFileParseSpiSlaveClk inkaObj' else []) = some _
    rw [hclock, hline]

end Lines

/-! ## What a call leaves of a shown setting -/

theorem Shown.path_mem : ∀ s : Shown, s.path ∈ settings := by
  intro s
  cases s <;> decide +kernel

/-- Which field a key stands for does not depend on the input. -/
theorem requestedSetting_path (key input : List UInt8) :
    (requestedSetting key input).1 = (requestedSetting key []).1 := by
  unfold requestedSetting
  split_ifs <;> rfl

/-- The keys that stand for one value. -/
def singleKeys : List (List UInt8) :=
  [text "mac", text "enable_nvram", text "store_key_change", text "role", text "avln_hfid", text "m_hfid",
    text "u_hfid", text "psd_limit", text "spi_slave_clk"]

theorem singleKeys_path : ∀ key ∈ singleKeys, ∀ s ∈ Shown.all,
    (s.path = (requestedSetting key []).1 ↔ key = s.key) := by
  decide +kernel

theorem key_of_findModifier {key : List UInt8} (h : (findModifier key).isSome) :
    key = text "nmk" ∨ key = text "psd_cali" ∨ key ∈ singleKeys := by
  rcases Option.isSome_iff_exists.mp h with ⟨fct, hfct⟩
  rcases findModifier_cases hfct with ⟨rfl, -⟩ | ⟨rfl, -⟩ | ⟨rfl, -⟩ | ⟨rfl, -⟩ | ⟨rfl, -⟩ | ⟨rfl, -⟩ | ⟨rfl, -⟩ |
    ⟨rfl, -⟩ | ⟨rfl, -⟩ | ⟨rfl, -⟩ | ⟨rfl, -⟩
  case inr.inr.inr.inl => exact Or.inl rfl
  case inr.inr.inr.inr.inr.inr.inr.inr.inr.inl => exact Or.inr (Or.inl rfl)
  all_goals exact Or.inr (Or.inr (by decide))

section Leaves

variable {env : ModifyEnv} {filename : Argument} {c : ModifyCall} {inkaObj inkaObj' : Members}

/-- A call does not touch the settings of the other keys. -/
theorem leaves_of_not_sets {clock : Bool} {s : Shown} (hkey : (findModifier c.key).isSome)
    (hsets : ¬ c.Sets clock s) (old : Option Json) : c.leaves env.files clock s.path old = old := by
  unfold ModifyCall.leaves
  rcases key_of_findModifier hkey with hnmk | hpsd | hsingle
  · rw [if_pos hnmk]
    have hs : s ≠ .nmk ∧ s ≠ .nid := by
      constructor
      · rintro rfl
        exact hsets ⟨hnmk, fun hs => nomatch hs⟩
      · rintro rfl
        exact hsets ⟨hnmk, fun hs => nomatch hs⟩
    have hpath : ∀ s : Shown, s ≠ .nmk ∧ s ≠ .nid →
        s.path ≠ [text "hpav", text "nmk"] ∧ s.path ≠ [text "hpav", text "nid"] := by
      intro s
      cases s <;> decide
    rw [if_neg (hpath s hs).1, if_neg (hpath s hs).2]
  · have hnmk : c.key.val ≠ text "nmk" := by
      rw [hpsd]
      decide
    have hpath : ∀ s : Shown, s.path ≠ [text "phy", text "am_infile"] := by
      intro s
      cases s <;> decide
    rw [if_neg hnmk, if_pos hpsd]
    split
    · exact if_neg (hpath s)
    · rfl
  · have hother : ∀ key ∈ singleKeys, key ≠ text "nmk" ∧ key ≠ text "psd_cali" := by decide
    rw [if_neg (hother _ hsingle).1, if_neg (hother _ hsingle).2]
    by_cases hclock : c.key.val = text "spi_slave_clk" ∧ clock = false
    · rw [if_pos hclock]
    · rw [if_neg hclock, if_neg]
      rw [requestedSetting_path, singleKeys_path _ hsingle s s.mem_all]
      intro hk
      refine hsets ⟨hk, ?_⟩
      rintro rfl
      by_contra hno
      exact hclock ⟨hk, Bool.not_eq_true _ ▸ hno⟩

/-- A setting of a key that stands for one value is what was asked for. -/
theorem leaves_of_single {s : Shown} (hdone : c.Done env inkaObj) (hsets : c.Sets (hasSpiClock inkaObj) s)
    (hnmk : c.key.val ≠ text "nmk") (old : Option Json) :
    ∃ v, (requestedSetting s.key c.input).2 = some v ∧
      c.leaves env.files (hasSpiClock inkaObj) s.path old = some v := by
  rcases hsets with ⟨hk, hspi⟩
  rcases key_of_findModifier hdone.1 with hnmk' | hpsd | hsingle
  · exact absurd hnmk' hnmk
  · have hnone : ∀ s : Shown, text "psd_cali" ≠ s.key := by
      intro s
      cases s <;> decide
    exact absurd (hpsd.symm.trans hk) (hnone s)
  · have hother : ∀ key ∈ singleKeys, key ≠ text "nmk" ∧ key ≠ text "psd_cali" := by decide
    have hspiKey : ∀ s : Shown, s.key = text "spi_slave_clk" → s = .spiSlaveClk := by
      intro s
      cases s <;> decide
    have hclock : c.key.val = text "spi_slave_clk" → hasSpiClock inkaObj = true := by
      intro hkspi
      exact hspi (hspiKey s (hk.symm.trans hkspi))
    have hrequest := hdone.2 (hother _ hsingle).2 hclock
    unfold requestedTree at hrequest
    rw [if_neg hnmk, if_neg (hother _ hsingle).2] at hrequest
    have hsome : ((requestedSetting c.key c.input).2.bind fun v =>
        setAt (requestedSetting c.key c.input).1 v (some (.object inkaObj))).isSome := hrequest
    rcases hvalue : (requestedSetting c.key c.input).2 with _ | v
    · rw [hvalue] at hsome
      cases hsome
    · refine ⟨v, by rw [← hk]; exact hvalue, ?_⟩
      unfold ModifyCall.leaves
      rw [if_neg hnmk, if_neg (hother _ hsingle).2, if_neg, if_pos, hvalue]
      · rw [requestedSetting_path, singleKeys_path _ hsingle s s.mem_all]
        exact hk
      · rintro ⟨hkspi, hno⟩
        rw [hclock hkspi] at hno
        cases hno

end Leaves

/-! ## What is shown of it -/

section Entered

variable {inkaObj : Members} {input : List UInt8} {v : Json}

theorem member_of_valueAt {name field : List UInt8} (h : valueAt [name, field] (.object inkaObj) = some v) :
    jsonObjectGetValue ((jsonObjectGetObject inkaObj name).getD []) field = some v := by
  rcases getMember_of_valueAt h with ⟨object, member, hobject, hmember, hget⟩
  cases hobject
  rw [hmember]
  exact hget

theorem switchText_of_switchValue (hv : switchValue input = some v) {object : Members} {name : List UInt8}
    (hget : jsonObjectGetValue object name = some v) : switchText (jsonObjectGetBoolean object name) = input ++ [10] := by
  unfold switchValue at hv
  unfold jsonObjectGetBoolean
  rw [hget]
  split at hv
  · rename_i htrue
    cases hv
    rw [htrue]
    rfl
  · split at hv
    · rename_i hfalse
      cases hv
      rw [hfalse]
      rfl
    · cases hv

theorem stringLine_of_string {object : Members} {name : List UInt8} (label : List UInt8)
    (hget : jsonObjectGetValue object name = some (.string input)) :
    (stringLine label (jsonObjectGetString object name)).toOption = some (label ++ input ++ [10]) := by
  unfold jsonObjectGetString
  rw [hget]
  rfl

/-- The address is shown as its bytes. -/
theorem macLine_of_macNumber (hv : macNumber input = some v) (hget : jsonObjectGetValue inkaObj (text "mac") = some v) :
    confFileParseMac inkaObj = Shown.mac.label ++ Shown.mac.entered input ++ [10] := by
  unfold macNumber at hv
  rcases Option.map_eq_some_iff.mp hv with ⟨mac, hmac, rfl⟩
  unfold hpavStomac at hmac
  simp only at hmac
  split at hmac
  · cases hmac
  · rename_i hsix
    injection hmac with hmac
    have hlen : mac.length = 6 := by
      rw [← hmac]
      exact not_not.mp hsix
    have hnumber : jsonObjectGetNumber inkaObj (text "mac") = Double.ofInt (bigEndian mac) := by
      unfold jsonObjectGetNumber
      rw [hget]
      rfl
    rw [confFileParseMac_eq hlen hnumber, List.append_assoc, ← hmac]
    rfl

/-- The limit is shown in the unit it is entered in: the two conversions undo each other. -/
theorem psdLimitLine_of_index (hv : psdLimitIndex input = some v) {object : Members}
    (hget : jsonObjectGetValue object (text "direct_afe_tx_idx") = some v) :
    confFileParsePsdLimit object = Shown.psdLimit.label ++ Shown.psdLimit.entered input ++ [10] := by
  unfold psdLimitIndex at hv
  simp only at hv
  split at hv
  · rename_i hrange
    injection hv with hv
    rcases Int.eq_ofNat_of_zero_le (show 0 ≤ (atoi input + 95) / 3 by omega) with ⟨n, hn⟩
    have hafe : (jsonObjectGetNumber object (text "direct_afe_tx_idx")).toUnsigned32 = n := by
      unfold jsonObjectGetNumber
      rw [hget, ← hv, hn]
      exact Double.toUnsigned32_eq (Double.trunc_ofInt (by omega)) (by omega)
    have hval : (-50 - (15 - (n : Int)) * 3) = atoi input := by omega
    have hsame : Int.bmod (atoi input) (2 ^ 32) = atoi input := by
      rw [Int.bmod_eq_of_le (by omega) (by omega)]
    unfold confFileParsePsdLimit
    simp only [hafe, if_pos (show n ≤ 15 by omega), hval, hsame]
    simp [Shown.label, Shown.entered]
  · cases hv

/-- The clock is shown by its frequency. -/
theorem spiSlaveClkLine_of_index (hv : spiClockIndex input = some v)
    (hat : valueAt Shown.spiSlaveClk.path (.object inkaObj) = some v) :
    confFileParseSpiSlaveClk inkaObj = Shown.spiSlaveClk.label ++ Shown.spiSlaveClk.entered input ++ [10] := by
  rcases getMember_of_valueAt hat with ⟨object, eos, hobject, heos, hget⟩
  cases hobject
  unfold spiClockIndex at hv
  simp only at hv
  split at hv
  · rename_i hrange
    injection hv with hv
    rcases Int.eq_ofNat_of_zero_le (show 0 ≤ atoi input by omega) with ⟨n, hn⟩
    have hclock : (jsonObjectGetNumber eos (text "spi_clock_idx")).toUnsigned32 = n := by
      unfold jsonObjectGetNumber
      rw [hget, ← hv, hn]
      exact Double.toUnsigned32_eq (Double.trunc_ofInt (by omega)) (by omega)
    unfold confFileParseSpiSlaveClk Shown.entered
    simp only [heos, Option.getD_some, Option.isNone_some, hclock, hn]
    rw [hn] at hrange
    obtain rfl | rfl | rfl | rfl : n = 1 ∨ n = 2 ∨ n = 3 ∨ n = 4 := by omega
    all_goals rfl
  · cases hv

end Entered

/-- A value that a key asked for is shown as it was entered. -/
theorem line_of_requested {inkaObj : Members} {s : Shown} {input : List UInt8} {v : Json} (hs : s ≠ .nmk ∧ s ≠ .nid)
    (hclock : s = .spiSlaveClk → hasSpiClock inkaObj = true) (hv : (requestedSetting s.key input).2 = some v)
    (hat : valueAt s.path (.object inkaObj) = some v) :
    s.line inkaObj = some (s.label ++ s.entered input ++ [10]) := by
  cases s with
  | useNvram =>
    rw [Shown.path, valueAt_singleton] at hat
    show some (Shown.useNvram.label ++ switchText _) = _
    rw [switchText_of_switchValue hv hat, List.append_assoc]
    rfl
  | mac =>
    rw [Shown.path, valueAt_singleton] at hat
    exact congrArg some (macLine_of_macNumber hv hat)
  | nmk => exact absurd rfl hs.1
  | nid => exact absurd rfl hs.2
  | role =>
    have hrole : roleName input = some v := hv
    unfold roleName at hrole
    split at hrole
    · injection hrole with hrole
      subst hrole
      exact stringLine_of_string _ (member_of_valueAt hat)
    · cases hrole
  | avlnHfid | mHfid | uHfid =>
    have hhfid : hfidName input = some v := hv
    unfold hfidName at hhfid
    split at hhfid
    · injection hhfid with hhfid
      subst hhfid
      exact stringLine_of_string _ (member_of_valueAt hat)
    · cases hhfid
  | storeKeyChange =>
    show some (Shown.storeKeyChange.label ++ switchText _) = _
    rw [switchText_of_switchValue hv (member_of_valueAt hat), List.append_assoc]
    rfl
  | psdLimit => exact congrArg some (psdLimitLine_of_index hv (member_of_valueAt hat))
  | spiSlaveClk =>
    show some (if hasSpiClock inkaObj then confFileParseSpiSlaveClk inkaObj else []) = _
    rw [if_pos (hclock rfl), spiSlaveClkLine_of_index hv hat]

section Step

variable {env : ModifyEnv} {filename : Argument} {c : ModifyCall} {inkaObj inkaObj' : Members}

/-- A key is shown as its bytes, and no identifier with it. -/
theorem line_of_nmk (hdone : c.Done env inkaObj)
    (hchanged : Changed inkaObj inkaObj' (c.leaves env.files (hasSpiClock inkaObj))) (hnmk : c.key.val = text "nmk")
    {s : Shown} (hs : s = .nmk ∨ s = .nid) : s.line inkaObj' = some (s.label ++ s.entered c.input ++ [10]) := by
  have hrequest := hdone.2 (by rw [hnmk]; decide) (fun hk => absurd (hnmk.symm.trans hk) (by decide))
  rw [hnmk] at hrequest
  have hsome : (requestedNmk (.object inkaObj) c.input).isSome := hrequest
  unfold requestedNmk at hsome
  rcases hitems : itemsAt [text "hpav", text "nmk"] (.object inkaObj) with _ | items
  · simp only [hitems, Option.bind_eq_bind, Option.bind_none] at hsome
    cases hsome
  simp only [hitems, Option.bind_eq_bind, Option.bind_some] at hsome
  split at hsome
  · rename_i hsizes
    rcases hs with rfl | rfl
    · have hat := hchanged.fields _ Shown.nmk.path_mem
      unfold ModifyCall.leaves at hat
      rw [if_pos hnmk, if_pos (show Shown.nmk.path = [text "hpav", text "nmk"] from rfl)] at hat
      have hold : (valueAt Shown.nmk.path (.object inkaObj)).bind jsonValueGetArray = some items := hitems
      rw [hold] at hat
      have hget := member_of_valueAt hat
      have harray : jsonObjectGetArray ((jsonObjectGetObject inkaObj' (text "hpav")).getD []) (text "nmk") =
          some (numbers (nmkWords (scanColonHex (some 2) 16 c.input)) ++ items.drop 4) := by
        unfold jsonObjectGetArray
        rw [hget]
        rfl
      show some (confFileParseNmk _) = _
      rw [confFileParseNmk_eq hsizes.1 harray, List.append_assoc]
      rfl
    · have hat := hchanged.fields _ Shown.nid.path_mem
      unfold ModifyCall.leaves at hat
      rw [if_pos hnmk, if_neg (by decide), if_pos (show Shown.nid.path = [text "hpav", text "nid"] from rfl)] at hat
      have hget := member_of_valueAt hat
      have hnumber : jsonObjectGetNumber ((jsonObjectGetObject inkaObj' (text "hpav")).getD []) (text "nid") =
          Double.ofInt 0 := by
        unfold jsonObjectGetNumber
        rw [hget]
        rfl
      show some (confFileParseNid _) = _
      rw [confFileParseNid_eq hnumber, List.append_assoc]
      rfl
  · cases hsome

/-- Behind a call that returned 0 the lines are those before it, but for the ones it sets. -/
theorem line_step (hdone : c.Done env inkaObj)
    (hchanged : Changed inkaObj inkaObj' (c.leaves env.files (hasSpiClock inkaObj))) (s : Shown) :
    s.line inkaObj' = c.shows (hasSpiClock inkaObj) s (s.line inkaObj) := by
  have hat := hchanged.fields s.path s.path_mem
  unfold ModifyCall.shows
  by_cases hsets : c.Sets (hasSpiClock inkaObj) s
  · rw [if_pos hsets]
    by_cases hs : s = .nmk ∨ s = .nid
    · refine line_of_nmk hdone hchanged ?_ hs
      rcases hs with rfl | rfl
      · exact hsets.1
      · exact hsets.1
    · rw [not_or] at hs
      have hnmk : c.key.val ≠ text "nmk" := by
        have hother : ∀ s : Shown, s ≠ .nmk ∧ s ≠ .nid → s.key ≠ text "nmk" := by
          intro s
          cases s <;> decide
        rw [hsets.1]
        exact hother s hs
      rcases leaves_of_single hdone hsets hnmk (valueAt s.path (.object inkaObj)) with ⟨v, hv, hleaves⟩
      rw [hleaves] at hat
      refine line_of_requested hs ?_ hv hat
      intro hspi
      rw [hchanged.hasSpiClock_eq]
      exact hsets.2 hspi
  · rw [if_neg hsets]
    rw [leaves_of_not_sets hdone.1 hsets] at hat
    exact line_congr hchanged hat

theorem confFileParseVersion_congr {leaves : List (List UInt8) → Option Json → Option Json}
    (h : Changed inkaObj inkaObj' leaves) : confFileParseVersion inkaObj' = confFileParseVersion inkaObj := by
  have hversion := h.others [text "version"] fun p hp => (settings_fields p hp).2.2.2.1
  have hsub := h.others [text "sub_version"] fun p hp => (settings_fields p hp).2.2.2.2
  rw [valueAt_singleton, valueAt_singleton] at hversion hsub
  unfold confFileParseVersion jsonObjectGetNumber
  rw [hversion, hsub]

/-- The lines behind a run. -/
theorem lines_modifyAll {env : ModifyEnv} {inkaObj : Members} (h : Accepted env filename inkaObj)
    (hrestorable : Restorable (.object inkaObj)) (hwritable : env.files.writable filename = true)
    {calls : List ModifyCall} (hcalls : ∀ c ∈ calls, c.Valid filename) {rvs : List Int} {files' : FileSystem}
    (hrun : modifyAll filename calls env.files = .ok (rvs, files')) :
    ∃ inkaObj', Accepted ⟨files', env.uninitialized⟩ filename inkaObj' ∧
      confFileParseVersion inkaObj' = confFileParseVersion inkaObj ∧
      ∀ s : Shown, s.line inkaObj' =
        (succeeded calls rvs).foldl (fun line c => c.shows (hasSpiClock inkaObj) s line) (s.line inkaObj) := by
  induction calls generalizing env inkaObj rvs with
  | nil =>
    cases hrun
    exact ⟨inkaObj, h.of_files rfl, rfl, fun _ => rfl⟩
  | cons c cs ih =>
    have hrest : ∀ c ∈ cs, c.Valid filename := fun c' hc' => hcalls c' (List.mem_cons_of_mem c hc')
    rcases bind_eq_ok.mp hrun with ⟨⟨rv, files⟩, hcall, hrun⟩
    rcases bind_eq_ok.mp hrun with ⟨⟨rvs', files''⟩, hothers, hrun⟩
    cases hrun
    have hstart : Accepted ⟨env.files, c.uninitialized⟩ filename inkaObj := h.of_files rfl
    rw [succeeded_cons]
    rcases confFileModify_step hstart hrestorable hwritable (hcalls c List.mem_cons_self).hfid rfl hcall with
      ⟨hrv, rfl⟩ | ⟨inkaObj', rfl, hdone, hchanged, haccepted, hwritable', -⟩
    · rw [if_neg hrv]
      rcases ih hstart hrestorable hwritable hrest hothers with ⟨inkaObj'', haccepted, hversion, hlines⟩
      exact ⟨inkaObj'', haccepted.of_files rfl, hversion, hlines⟩
    · rw [if_pos rfl]
      have hstill : files.writable filename = true := by
        rw [hwritable']
        exact hwritable
      rcases ih haccepted hchanged.restorable hstill hrest hothers with ⟨inkaObj'', haccepted', hversion, hlines⟩
      refine ⟨inkaObj'', haccepted'.of_files rfl, hversion.trans (confFileParseVersion_congr hchanged), ?_⟩
      intro s
      rw [hlines s, hchanged.hasSpiClock_eq, line_step hdone hchanged s, List.foldl_cons]

end Step

/-- Behind any run of commands whose inputs come through their text, `conf_file_parse` prints what
it printed before, but that the line of each key that was set shows what was entered by the last
call that returned 0. -/
theorem confFileParse_modifyAll {env : ModifyEnv} {filename : Argument} {inkaObj : Members}
    (h : Accepted env filename inkaObj) (hrestorable : Restorable (.object inkaObj))
    (hwritable : env.files.writable filename = true) {calls : List ModifyCall}
    (hcalls : ∀ c ∈ calls, c.Valid filename) {rvs : List Int} {files' : FileSystem}
    (hrun : modifyAll filename calls env.files = .ok (rvs, files')) :
    confFileParse env.files [filename] = printed (confFileParseVersion inkaObj) (Shown.line inkaObj) ∧
      confFileParse files' [filename] = printed (confFileParseVersion inkaObj) fun s =>
        (succeeded calls rvs).foldl (fun line c => c.shows (hasSpiClock inkaObj) s line) (s.line inkaObj) := by
  rcases lines_modifyAll h hrestorable hwritable hcalls hrun with ⟨inkaObj', haccepted, hversion, hlines⟩
  refine ⟨confFileParse_eq h, ?_⟩
  have hparse := confFileParse_eq haccepted
  rw [hversion, funext hlines] at hparse
  exact hparse

/-- The strings that the empty configuration lacks, and a limit that is entered twice. -/
def stringCalls : List ModifyCall :=
  [⟨⟨text "psd_limit", by decide⟩, ⟨text "-50", by decide⟩, 0⟩,
    ⟨roleKey, ⟨text "sta", by decide⟩, 0⟩,
    ⟨⟨text "avln_hfid", by decide⟩, ⟨text "a", by decide⟩, 0⟩,
    ⟨⟨text "m_hfid", by decide⟩, ⟨text "b", by decide⟩, 0⟩,
    ⟨⟨text "u_hfid", by decide⟩, ⟨text "c", by decide⟩, 0⟩,
    ⟨⟨text "psd_limit", by decide⟩, ⟨text "-83", by decide⟩, 0⟩]

/-- What is shown behind them. -/
def stringLines (s : Shown) : List UInt8 :=
  match s with
  | .mac => s.label ++ text "00:00:00:00:00:00" ++ [10]
  | .nid => s.label ++ text "auto-gen by NMK" ++ [10]
  | .role => s.label ++ text "sta" ++ [10]
  | .avlnHfid => s.label ++ text "a" ++ [10]
  | .mHfid => s.label ++ text "b" ++ [10]
  | .uHfid => s.label ++ text "c" ++ [10]
  | .psdLimit => s.label ++ text "-83 dBm/Hz" ++ [10]
  | .useNvram | .nmk | .storeKeyChange => s.label ++ text "parse failed!" ++ [10]
  | .spiSlaveClk => []

theorem confFileParse_modifyAll_strings : ∃ files',
    modifyAll emptyFilename stringCalls emptyConfiguration.files = .ok ([0, 0, 0, 0, 0, 0], files') ∧
      confFileParse files' [emptyFilename] =
        .ok (0, 10 :: confFileParseVersion emptyMembers ++ Shown.all.flatMap stringLines ++ [10]) := by
  have hvalid : ∀ c ∈ stringCalls, c.Valid emptyFilename := by
    intro c hc
    simp only [stringCalls, List.mem_cons, List.not_mem_nil, or_false] at hc
    rcases hc with rfl | rfl | rfl | rfl | rfl | rfl
    all_goals exact ⟨fun _ => by decide +kernel, fun hk => absurd hk (by decide)⟩
  have hcodes : (modifyAll emptyFilename stringCalls emptyConfiguration.files).toOption.map (·.1) =
      some [0, 0, 0, 0, 0, 0] := by
    decide +kernel
  rcases hrun : modifyAll emptyFilename stringCalls emptyConfiguration.files with f | ⟨rvs, files'⟩
  · rw [hrun] at hcodes
    cases hcodes
  · rw [hrun] at hcodes
    injection hcodes with hcodes
    have hparse := (confFileParse_modifyAll accepted_emptyConfiguration (by decide +kernel) rfl hvalid hrun).2
    subst hcodes
    have hlines : ∀ s : Shown, (succeeded stringCalls [0, 0, 0, 0, 0, 0]).foldl
        (fun line c => c.shows (hasSpiClock emptyMembers) s line) (s.line emptyMembers) = some (stringLines s) := by
      intro s
      cases s <;> decide +kernel
    rw [funext hlines] at hparse
    exact ⟨files', rfl, hparse⟩

end Hpav
