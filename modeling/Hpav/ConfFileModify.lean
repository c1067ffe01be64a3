import Mathlib.Tactic.Common
import Mathlib.Tactic.Ring
import Hpav.Json.Path
import Hpav.PsdCali

/-!
# Modifying a configuration file

`conf_file_modify` and its modifiers (`conf_file.c`). A modifier changes the tree of the
file and returns 0, or it returns another number; the tree is written over the file in the
first case only, and whether that worked is not looked at. `requestedTree` says which tree a
key and an input ask for: the tree of the file with one value put at one path. Every
modifier but the last two below makes that tree or fails (`Follows`).
-/

namespace Hpav

open Binary64 CMem CScan

/-! ## The surroundings -/

/-- The characters of a name. -/
def text (s : String) : List UInt8 :=
  s.toList.map fun c => UInt8.ofNat c.toNat

/-- An argument of the command line. -/
abbrev Argument := { s : List UInt8 // 0 ∉ s }

/-- The files that can be read, with what they hold, and those that can be written. -/
structure FileSystem where
  contents : List UInt8 → Option (List UInt8)
  writable : List UInt8 → Bool

/-- `fopen` for writing, then `fputs`. -/
def FileSystem.write (files : FileSystem) (name bytes : List UInt8) : FileSystem :=
  if files.writable name then { files with contents := Function.update files.contents name (some bytes) }
  else files

/-- `json_parse_file` -/
def jsonParseFile (files : FileSystem) (name : List UInt8) : Option Json :=
  (files.contents name).bind jsonParseContents

/-- `json_serialize_to_file`; its result is not used by the caller. -/
def jsonSerializeToFile (files : FileSystem) (value : Json) (name : List UInt8) : FileSystem :=
  files.write name (jsonSerialize value)

/-- The files, and what a variable holds that is not initialized. -/
structure ModifyEnv where
  files : FileSystem
  uninitialized : UInt64

/-- How a modifier ends that does not return 0. -/
inductive Stop where
  | code (rv : Int)
  | fault (f : Fault)
  deriving DecidableEq

/-! ## Modifiers -/

/-- `json_object_set_*` with -2 for a failure. -/
def setOrFail (object : Members) (name : List UInt8) (value : Option Json) : Except Stop Members :=
  match jsonObjectSetValue object name value with
  | none => .error (.code (-2))
  | some object => .ok object

/-- A change of an object that is a member of the root: the tree leads there by a pointer. On
no object every `json_object_set_*` fails. -/
def inObject (inkaObj : Members) (name : List UInt8) (change : Members → Except Stop Members) :
    Except Stop Members :=
  match jsonObjectGetObject inkaObj name with
  | none => .error (.code (-2))
  | some object => do
    let object ← change object
    .ok (overwrite name (.object object) inkaObj)

/-- A modifier; of its arguments only the first is looked at. -/
abbrev Modifier := ModifyEnv → Members → List UInt8 → Except Stop Members

/-- `conf_file_modify_enable_nvram` -/
def confFileModifyEnableNvram : Modifier := fun _ inkaObj input =>
  if input = text "true" then setOrFail inkaObj (text "use_nvram") (some (.boolean true))
  else if input = text "false" then setOrFail inkaObj (text "use_nvram") (some (.boolean false))
  else .error (.code (-1))

/-- `hpav_stomac` -/
def hpavStomac (macAddr : List UInt8) : Option (List UInt8) :=
  let out := scanColonHex none 6 macAddr
  if out.length ≠ 6 then none else some out

/-- `mac_value` -/
def macValue (mac : List UInt8) : Nat :=
  ((mac.getD 0 0).toNat <<< 40) ||| ((mac.getD 1 0).toNat <<< 32) ||| ((mac.getD 2 0).toNat <<< 24) |||
    ((mac.getD 3 0).toNat <<< 16) ||| ((mac.getD 4 0).toNat <<< 8) ||| (mac.getD 5 0).toNat

/-- `conf_file_modify_mac` -/
def confFileModifyMac : Modifier := fun _ inkaObj input =>
  match hpavStomac input with
  | none => .error (.code (-1))
  | some mac => setOrFail inkaObj (text "mac") (some (.number (Double.ofInt (macValue mac))))

/-- `nmk_array_val` -/
def nmkArrayVal (nmk : List UInt8) (i : Nat) : Nat :=
  (nmk.getD (i * 4) 0).toNat ||| ((nmk.getD (i * 4 + 1) 0).toNat <<< 8) |||
    ((nmk.getD (i * 4 + 2) 0).toNat <<< 16) ||| ((nmk.getD (i * 4 + 3) 0).toNat <<< 24)

/-- `conf_file_modify_nmk` -/
def confFileModifyNmk : Modifier := fun _ inkaObj input =>
  let nmk := scanColonHex (some 2) 16 input
  if nmk.length ≠ 16 then .error (.code (-1))
  else
    inObject inkaObj (text "hpav") fun hpav =>
      match (List.range 4).foldlM (fun array i => (jsonArrayReplaceValue array i
          (.number (Double.ofInt (nmkArrayVal nmk i)))).map some) (jsonObjectGetArray hpav (text "nmk")) with
      | none | some none => .error (.code (-2))
      | some (some array) =>
        setOrFail (overwrite (text "nmk") (.array array) hpav) (text "nid") (some (.number (Double.ofInt 0)))

/-- `conf_file_modify_role` -/
def confFileModifyRole : Modifier := fun _ inkaObj input =>
  if input ≠ text "cco" ∧ input ≠ text "sta" then .error (.code (-1))
  else inObject inkaObj (text "cp") fun cp => setOrFail cp (text "force_role") (jsonValueInitString input)

/-- The three modifiers of an identifier differ in its name. -/
def modifyHfid (name : List UInt8) : Modifier := fun _ inkaObj input =>
  if 64 < input.length then .error (.code (-1))
  else inObject inkaObj (text "hpav") fun hpav => setOrFail hpav name (jsonValueInitString input)

/-- `conf_file_modify_avln_hfid` -/
def confFileModifyAvlnHfid : Modifier :=
  modifyHfid (text "avln_hfid")

/-- `conf_file_modify_m_hfid` -/
def confFileModifyMHfid : Modifier :=
  modifyHfid (text "m_hfid")

/-- `conf_file_modify_u_hfid` -/
def confFileModifyUHfid : Modifier :=
  modifyHfid (text "u_hfid")

/-- `conf_file_modify_store_key_change` -/
def confFileModifyStoreKeyChange : Modifier := fun _ inkaObj input =>
  if input = text "true" then
    inObject inkaObj (text "hpav") fun hpav => setOrFail hpav (text "host_set_key_save") (some (.boolean true))
  else if input = text "false" then
    inObject inkaObj (text "hpav") fun hpav => setOrFail hpav (text "host_set_key_save") (some (.boolean false))
  else .error (.code (-1))

/-- `conf_file_modify_psd_limit` -/
def confFileModifyPsdLimit : Modifier := fun _ inkaObj input =>
  let val := atoi input
  if -50 < val ∨ val < -95 then .error (.code (-1))
  else if (-50 - val) % 3 ≠ 0 then .error (.code (-1))
  else
    let psdLimit := 15 - (-50 - val) / 3
    inObject inkaObj (text "phy") fun phy =>
      setOrFail phy (text "direct_afe_tx_idx") (some (.number (Double.ofInt psdLimit)))

/-- `conf_file_modify_psd_cali`. Without an array there are no carriers, and nothing is saved. -/
def confFileModifyPsdCali : Modifier := fun env inkaObj input =>
  match env.files.contents input with
  | none => .error (.code (-3))
  | some content =>
    inObject inkaObj (text "phy") fun phy =>
      let amInfileArray := jsonObjectGetArray phy (text "am_infile")
      -- without the array there are no carriers, but the lines are read all the same
      match calibrated (amInfileArray.getD []) content with
      | .error f => .error (.fault f)
      | .ok backoffs =>
        match amInfileArray with
        | none => .ok phy
        | some amInfile =>
          match savedItems env.uninitialized.toNat amInfile backoffs with
          | none => .error (.code (-2))
          | some items => .ok (overwrite (text "am_infile") (.array items) phy)

/-- The version of a file that has a setting for the clock. -/
def hasSpiClock (inkaObj : Members) : Bool :=
  (jsonObjectGetNumber inkaObj (text "version")).toSigned 32 = 4 &&
    0 < (jsonObjectGetNumber inkaObj (text "sub_version")).toSigned 32

/-- `conf_file_modify_spi_slave_clk`; a version that does not match is no failure. -/
def confFileModifySpiSlaveClk : Modifier := fun _ inkaObj input =>
  if hasSpiClock inkaObj then
    let spiClkIdx := atoi input
    if (jsonObjectGetObject inkaObj (text "eos")).isNone ∨ spiClkIdx < 1 ∨ 4 < spiClkIdx then
      .error (.code (-1))
    else
      inObject inkaObj (text "eos") fun eos =>
        setOrFail eos (text "spi_clock_idx") (some (.number (Double.ofInt spiClkIdx)))
  else .ok inkaObj

/-! ## The command -/

/-- `conf_file_modify_fct_name_table` -/
def confFileModifyFctNameTable : List (List UInt8 × Modifier) :=
  [(text "mac", confFileModifyMac), (text "enable_nvram", confFileModifyEnableNvram),
    (text "store_key_change", confFileModifyStoreKeyChange), (text "nmk", confFileModifyNmk),
    (text "role", confFileModifyRole), (text "avln_hfid", confFileModifyAvlnHfid),
    (text "m_hfid", confFileModifyMHfid), (text "u_hfid", confFileModifyUHfid),
    (text "psd_limit", confFileModifyPsdLimit), (text "psd_cali", confFileModifyPsdCali),
    (text "spi_slave_clk", confFileModifySpiSlaveClk)]

/-- The loop that looks for the key, from the end of the table. -/
def findModifier (key : List UInt8) : Option Modifier :=
  (confFileModifyFctNameTable.reverse.find? fun entry => key = entry.1).map (·.2)

/-- `EXIT_USAGE` -/
abbrev exitUsage : Int := 2

/-- `conf_file_modify`: what it returns, and the files it leaves. -/
def confFileModify (env : ModifyEnv) (argv : List Argument) : Except Fault (Int × FileSystem) :=
  match argv with
  | filename :: key :: input :: _ =>
    match jsonParseFile env.files filename with
    | none => .ok (-1, env.files)
    | some inkaValue =>
      match jsonValueGetObject inkaValue with
      | none => .ok (-1, env.files)
      | some inkaObj =>
        if (jsonObjectGetObject inkaObj (text "hpav")).isNone ∨ (jsonObjectGetObject inkaObj (text "cp")).isNone ∨
            (jsonObjectGetObject inkaObj (text "phy")).isNone then
          .ok (-1, env.files)
        else
          match findModifier key with
          | none => .ok (-1, env.files)
          | some fct =>
            match fct env inkaObj input with
            | .ok inkaObj => .ok (0, jsonSerializeToFile env.files (.object inkaObj) filename)
            -- only -1 prints the usage
            | .error (.code rv) => .ok (if rv = -1 then exitUsage else rv, env.files)
            | .error (.fault f) => .error f
  | _ => .ok (-1, env.files)

/-! ## What is asked for -/

/-- The number with these bytes, the first one the most significant. -/
def bigEndian (bytes : List UInt8) : Nat :=
  bytes.foldl (fun n b => n * 256 + b.toNat) 0

/-- The number with these bytes, the first one the least significant. -/
def littleEndian (bytes : List UInt8) : Nat :=
  bytes.foldr (fun b n => b.toNat + 256 * n) 0

/-- `true` or `false` -/
def switchValue (input : List UInt8) : Option Json :=
  if input = text "true" then some (.boolean true)
  else if input = text "false" then some (.boolean false)
  else none

/-- An address as a number. -/
def macNumber (input : List UInt8) : Option Json :=
  (hpavStomac input).map fun mac => .number (Double.ofInt (bigEndian mac))

/-- `cco` or `sta` -/
def roleName (input : List UInt8) : Option Json :=
  if input = text "cco" ∨ input = text "sta" then some (.string input) else none

/-- Up to 64 characters of UTF-8. -/
def hfidName (input : List UInt8) : Option Json :=
  if input.length ≤ 64 ∧ isValidUtf8 input then some (.string input) else none

/-- -95, -92 and so on up to -50 are the indices 0, 1 and so on up to 15. -/
def psdLimitIndex (input : List UInt8) : Option Json :=
  let val := atoi input
  if -95 ≤ val ∧ val ≤ -50 ∧ (val + 95) % 3 = 0 then some (.number (Double.ofInt ((val + 95) / 3))) else none

/-- 1 to 4. -/
def spiClockIndex (input : List UInt8) : Option Json :=
  let idx := atoi input
  if 1 ≤ idx ∧ idx ≤ 4 then some (.number (Double.ofInt idx)) else none

/-- The path and the value of a key that stands for one value. -/
def requestedSetting (key input : List UInt8) : List (List UInt8) × Option Json :=
  if key = text "mac" then ([text "mac"], macNumber input)
  else if key = text "enable_nvram" then ([text "use_nvram"], switchValue input)
  else if key = text "store_key_change" then ([text "hpav", text "host_set_key_save"], switchValue input)
  else if key = text "role" then ([text "cp", text "force_role"], roleName input)
  else if key = text "avln_hfid" then ([text "hpav", text "avln_hfid"], hfidName input)
  else if key = text "m_hfid" then ([text "hpav", text "m_hfid"], hfidName input)
  else if key = text "u_hfid" then ([text "hpav", text "u_hfid"], hfidName input)
  else if key = text "psd_limit" then ([text "phy", text "direct_afe_tx_idx"], psdLimitIndex input)
  else if key = text "spi_slave_clk" then ([text "eos", text "spi_clock_idx"], spiClockIndex input)
  else ([], none)

/-- The four words of a key. -/
def nmkWords (nmk : List UInt8) : List Nat :=
  (List.range 4).map fun i => littleEndian ((nmk.drop (4 * i)).take 4)

/-- The items of the array at a path. -/
def itemsAt (path : List (List UInt8)) (tree : Json) : Option (List Json) :=
  (valueAt path tree).bind jsonValueGetArray

/-- The words of the key over the first four of the array, and no network identifier. -/
def requestedNmk (tree : Json) (input : List UInt8) : Option Json := do
  let nmk := scanColonHex (some 2) 16 input
  let items ← itemsAt [text "hpav", text "nmk"] tree
  if nmk.length = 16 ∧ 4 ≤ items.length then do
    let tree ← setAt [text "hpav", text "nmk"] (.array (numbers (nmkWords nmk) ++ items.drop 4)) (some tree)
    setAt [text "hpav", text "nid"] (.number (Double.ofInt 0)) (some tree)
  else none

/-- The words of the map with every carrier adjusted as the file says. -/
def calibratedWords (amInfile : List Json) (as : List Adjustment) : List Nat :=
  packedWords ((backoffArray amInfile).mapIdx (applyAll as))

/-- The map with the words of the calibration file, if the file can be applied to it. -/
def requestedPsdCali (files : FileSystem) (tree : Json) (input : List UInt8) : Option Json := do
  let content ← files.contents input
  let items ← itemsAt [text "phy", text "am_infile"] tree
  let as ← (fileAdjustments content).toOption
  if ∀ a ∈ as, a.Within (8 * items.length) then
    setAt [text "phy", text "am_infile"] (.array (numbers (calibratedWords items as))) (some tree)
  else none

/-- The tree a key and an input ask for; none if they ask for nothing that could be done. -/
def requestedTree (files : FileSystem) (tree : Json) (key input : List UInt8) : Option Json :=
  if key = text "nmk" then requestedNmk tree input
  else if key = text "psd_cali" then requestedPsdCali files tree input
  else
    let (path, value) := requestedSetting key input
    value.bind fun value => setAt path value (some tree)

end Hpav
