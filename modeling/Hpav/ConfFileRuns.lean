import Mathlib.Tactic.Common
import Hpav.ConfFileParse

/-!
# One command after the other on a configuration file

Every `conf_file_modify` reads the file, changes it and writes it, so between two commands
there is nothing but the text of the file. A file whose values come through this text
(`Restorable`) keeps that property as long as what is entered does (`ModifyCall.Valid`), and over
any run of such commands it is a store of fields: a command that returned 0 changes the fields of
its key, as `leaves` says, and nothing else. The block that the text is serialized to is looked at
elsewhere (`writingPass`); here a file holds the text.
-/

namespace Hpav

open Binary64 CMem CScan

/-! ## A run -/

/-- The arguments of a command behind the name of the file, and what its process finds in the
variable that is not initialized. -/
structure ModifyCall where
  key : Argument
  input : Argument
  uninitialized : UInt64

/-- The commands one after the other: what they returned, and the files they leave. -/
def modifyAll (filename : Argument) : List ModifyCall → FileSystem → Except Fault (List Int × FileSystem)
  | [], files => .ok ([], files)
  | c :: cs, files => do
    let (rv, files) ← confFileModify ⟨files, c.uninitialized⟩ [filename, c.key, c.input]
    let (rvs, files) ← modifyAll filename cs files
    .ok (rv :: rvs, files)

/-- The calls that returned 0. -/
def succeeded (cs : List ModifyCall) (rvs : List Int) : List ModifyCall :=
  ((cs.zip rvs).filter fun p => p.2 = 0).map (·.1)

/-- A call counts among those that succeeded if it returned 0. -/
theorem succeeded_cons (c : ModifyCall) (cs : List ModifyCall) (rv : Int) (rvs : List Int) :
    succeeded (c :: cs) (rv :: rvs) = if rv = 0 then c :: succeeded cs rvs else succeeded cs rvs := by
  unfold succeeded
  rw [List.zip_cons_cons]
  by_cases hrv : rv = 0
  · rw [if_pos hrv, List.filter_cons_of_pos (by simpa using hrv), List.map_cons]
  · rw [if_neg hrv, List.filter_cons_of_neg (by simpa using hrv)]

/-! ## The store -/

/-- The fields that have a key; the network identifier is changed with the network key. -/
def settings : List (List (List UInt8)) :=
  [[text "mac"], [text "use_nvram"], [text "hpav", text "host_set_key_save"], [text "hpav", text "nmk"],
    [text "hpav", text "nid"], [text "cp", text "force_role"], [text "hpav", text "avln_hfid"],
    [text "hpav", text "m_hfid"], [text "hpav", text "u_hfid"], [text "phy", text "direct_afe_tx_idx"],
    [text "phy", text "am_infile"], [text "eos", text "spi_clock_idx"]]

/-- The map behind a calibration file: the words that are saved of it. -/
def ModifyCall.map (c : ModifyCall) (content : List UInt8) (items : List Json) : Json :=
  .array (numbers (firstWord c.uninitialized.toNat
    ((calibratedWords items ((fileAdjustments content).toOption.getD [])).map signExtend)))

/-- What a call that returned 0 leaves of what was in a field. `clock` says whether the file has
a version with a setting for the clock. -/
def ModifyCall.leaves (files : FileSystem) (clock : Bool) (c : ModifyCall) (path : List (List UInt8))
    (old : Option Json) : Option Json :=
  if c.key.val = text "nmk" then
    if path = [text "hpav", text "nmk"] then
      (old.bind jsonValueGetArray).map fun items =>
        .array (numbers (nmkWords (scanColonHex (some 2) 16 c.input)) ++ items.drop 4)
    else if path = [text "hpav", text "nid"] then some (.number (Double.ofInt 0))
    else old
  else if c.key.val = text "psd_cali" then
    match files.contents c.input, old.bind jsonValueGetArray with
    | some content, some items => if path = [text "phy", text "am_infile"] then some (c.map content items) else old
    | _, _ => old
  else if c.key.val = text "spi_slave_clk" ∧ clock = false then old
  else if path = (requestedSetting c.key c.input).1 then (requestedSetting c.key c.input).2
  else old

/-! ## A field that is set -/

/-- The members of such an object have names and values that are read back. -/
theorem Restorable.members {members : Members} (h : Restorable (.object members)) :
    (∀ m ∈ members, Writable m.1) ∧ ∀ m ∈ members, Restorable m.2 := by
  cases h with
  | object hnames hvalues => exact ⟨hnames, hvalues⟩

/-- A tree that survives being written does so with another value in it that does. -/
theorem Restorable.setAt {path : List (List UInt8)} {value t t' : Json} (ht : Restorable t)
    (hvalue : Restorable value) (hpath : ∀ name ∈ path, Writable name)
    (h : setAt path value (some t) = some t') : Restorable t' := by
  induction path generalizing t t' with
  | nil =>
    cases h
    exact hvalue
  | cons name path ih =>
    rcases setAt_cons h with ⟨members, pre, post, child, ht', hplace, hchild, rfl⟩
    cases ht'
    have hname : Writable name := hpath name List.mem_cons_self
    have hrest : ∀ name ∈ path, Writable name := fun n hn => hpath n (List.mem_cons_of_mem name hn)
    rcases hplace.was with ⟨old, rfl⟩ | ⟨rfl, rfl, -⟩
    · have hparts := restorable_splice_iff.mp ht
      rw [jsonObjectGetValue_splice hplace.fresh] at hchild
      exact restorable_splice_iff.mpr ⟨hparts.1, ih hparts.2 hrest hchild⟩
    · have hnone : jsonObjectGetValue members name = none := by
        unfold jsonObjectGetValue
        rw [List.find?_eq_none.mpr fun m hm => by simpa using hplace.fresh m hm]
        rfl
      rw [hnone] at hchild
      have hparts := ht.members
      rw [restorable_splice_iff, List.append_nil]
      refine ⟨⟨hname, hparts⟩, ?_⟩
      cases path with
      | nil =>
        cases hchild
        exact hvalue
      | cons name' path => cases hchild

/-- What is not within what is set is an object if it was one. -/
theorem object_setAt_iff {p q : List (List UInt8)} {value t t' : Json} (h : setAt p value (some t) = some t')
    (hpq : ¬ p <+: q) : (∃ members, valueAt q t' = some (.object members)) ↔
      ∃ members, valueAt q t = some (.object members) := by
  induction p generalizing q t t' with
  | nil => exact absurd List.nil_prefix hpq
  | cons name p ih =>
    rcases setAt_cons h with ⟨ms, pre, post, child, ht, hplace, hchild, rfl⟩
    cases ht
    cases q with
    | nil => exact iff_of_true ⟨_, rfl⟩ ⟨_, rfl⟩
    | cons name' q =>
      unfold valueAt
      by_cases hname : name = name'
      · subst hname
        have hrest : ¬ p <+: q := fun hp => hpq (List.cons_prefix_cons.mpr ⟨rfl, hp⟩)
        rcases hold : jsonObjectGetValue ms name with _ | old
        · -- only the last name of a path may be new
          rw [hold] at hchild
          cases p with
          | nil => exact absurd List.nil_prefix hrest
          | cons name' p => cases hchild
        · rw [hold] at hchild
          rw [hplace.get, Option.bind_some, Option.bind_some]
          exact ih hchild hrest
      · rw [hplace.get_ne (Ne.symm hname)]

/-! ## What a call does to the tree -/

/-- No two settings are on one path. -/
theorem settings_apart : ∀ p ∈ settings, ∀ q ∈ settings, p ≠ q → Apart p q := by
  unfold Apart
  decide +kernel

/-- The objects that settings are in. -/
def settingObjects : List (List UInt8) :=
  [text "hpav", text "cp", text "phy", text "eos"]

/-- A setting is a field with a name that can be written, none of the objects that settings are
in, and apart from the version. -/
theorem settings_fields : ∀ p ∈ settings, FieldPath p ∧ (∀ name ∈ p, Writable name) ∧
    (∀ name ∈ settingObjects, ¬ p <+: [name]) ∧ Apart p [text "version"] ∧ Apart p [text "sub_version"] := by
  unfold Apart
  decide +kernel

/-- The settings of a tree become what `leaves` makes of them, and all else stays. -/
structure Changed (inkaObj inkaObj' : Members) (leaves : List (List UInt8) → Option Json → Option Json) : Prop where
  parsed : Parsed maxNesting (.object inkaObj')
  restorable : Restorable (.object inkaObj')
  fields : ∀ path ∈ settings, valueAt path (.object inkaObj') = leaves path (valueAt path (.object inkaObj))
  others : ∀ path, (∀ p ∈ settings, Apart p path) →
    valueAt path (.object inkaObj') = valueAt path (.object inkaObj)
  objects : ∀ name ∈ settingObjects, (∃ object, jsonObjectGetObject inkaObj' name = some object) ↔
    ∃ object, jsonObjectGetObject inkaObj name = some object

/-- A path of one name is a lookup. -/
theorem valueAt_singleton (inkaObj : Members) (name : List UInt8) :
    valueAt [name] (.object inkaObj) = jsonObjectGetValue inkaObj name := by
  show (jsonObjectGetValue inkaObj name).bind some = _
  exact Option.bind_fun_some _

/-- An object is found by its name exactly if one is at the path. -/
theorem getObject_iff_valueAt {inkaObj : Members} {name : List UInt8} :
    (∃ object, jsonObjectGetObject inkaObj name = some object) ↔
      ∃ object, valueAt [name] (.object inkaObj) = some (.object object) := by
  rw [valueAt_singleton]
  simp only [jsonObjectGetObject_eq_some]

/-- A tree that is left alone has changed by nothing. -/
theorem Changed.refl {inkaObj : Members} (hparsed : Parsed maxNesting (.object inkaObj))
    (hrestorable : Restorable (.object inkaObj)) : Changed inkaObj inkaObj fun _ old => old :=
  ⟨hparsed, hrestorable, fun _ _ => rfl, fun _ _ => rfl, fun _ _ => Iff.rfl⟩

/-- Two changes are one, path by path. -/
theorem Changed.trans {inkaObj inkaObj' inkaObj'' : Members}
    {leaves leaves' : List (List UInt8) → Option Json → Option Json} (h : Changed inkaObj inkaObj' leaves)
    (h' : Changed inkaObj' inkaObj'' leaves') :
    Changed inkaObj inkaObj'' fun path old => leaves' path (leaves path old) where
  parsed := h'.parsed
  restorable := h'.restorable
  fields := by
    intro path hpath
    rw [h'.fields path hpath, h.fields path hpath]
  others := by
    intro path hpath
    rw [h'.others path hpath, h.others path hpath]
  objects := fun name hname => (h'.objects name hname).trans (h.objects name hname)

/-- One field is set. -/
theorem Changed.setAt {inkaObj inkaObj' : Members} {p : List (List UInt8)} {value : Json}
    (hp : p ∈ settings) (hrestorable : Restorable (.object inkaObj)) (hvalue : Restorable value)
    (hparsed : Parsed maxNesting (.object inkaObj'))
    (h : setAt p value (some (.object inkaObj)) = some (.object inkaObj')) :
    Changed inkaObj inkaObj' fun path old => if path = p then some value else old where
  parsed := hparsed
  restorable := hrestorable.setAt hvalue (settings_fields p hp).2.1 h
  fields := by
    intro path hpath
    by_cases hsame : path = p
    · rw [if_pos hsame, hsame]
      exact valueAt_setAt h
    · rw [if_neg hsame]
      exact valueAt_setAt_apart h (settings_apart p hp path hpath (Ne.symm hsame))
  others := by
    intro path hpath
    exact valueAt_setAt_apart h (hpath p hp)
  objects := by
    intro name hname
    rw [getObject_iff_valueAt, getObject_iff_valueAt]
    exact object_setAt_iff h ((settings_fields p hp).2.2.1 name hname)

/-! ## The keys -/

/-- What is inside a tree that is read back is read back. -/
theorem restorable_valueAt {path : List (List UInt8)} {t v : Json} (ht : Restorable t)
    (h : valueAt path t = some v) : Restorable v := by
  induction path generalizing t with
  | nil =>
    cases h
    exact ht
  | cons name path ih =>
    cases t with
    | object members =>
      unfold valueAt at h
      rcases Option.bind_eq_some_iff.mp h with ⟨child, hget, hchild⟩
      rcases jsonObjectGetValue_eq_some hget with ⟨pre, post, rfl, -⟩
      exact ih (restorable_splice_iff.mp ht).2 hchild
    | null | boolean | number | string | array => cases h

/-- So are the items of an array inside it. -/
theorem restorable_itemsAt {path : List (List UInt8)} {t : Json} {items : List Json} (ht : Restorable t)
    (h : itemsAt path t = some items) : ∀ v ∈ items, Restorable v := by
  unfold itemsAt at h
  rcases Option.bind_eq_some_iff.mp h with ⟨v, hv, harray⟩
  cases v with
  | array items' =>
    cases harray
    have hvalue := restorable_valueAt ht hv
    cases hvalue with
    | array hitems => exact hitems
  | null | boolean | number | string | object => cases harray

/-- The identifiers are the only inputs that are written as they are entered. -/
def HfidKey (key : List UInt8) : Prop :=
  key = text "avln_hfid" ∨ key = text "m_hfid" ∨ key = text "u_hfid"

/-- A setting that has a value has a field, and the value survives being written. -/
structure LastingSetting (setting : List (List UInt8) × Option Json) : Prop where
  path : ∀ v, setting.2 = some v → setting.1 ∈ settings
  value : ∀ v, setting.2 = some v → Restorable v

/-- A setting under a condition lasts if it does in both branches. -/
theorem lastingSetting_ite {p : Prop} [Decidable p] {path : List (List UInt8)} {value : Option Json}
    {setting : List (List UInt8) × Option Json} (hpath : path ∈ settings)
    (hvalue : p → ∀ v, value = some v → Restorable v) (hsetting : LastingSetting setting) :
    LastingSetting (if p then (path, value) else setting) := by
  split
  · exact ⟨fun _ _ => hpath, hvalue ‹_›⟩
  · exact hsetting

/-- An address is read back as it was written. -/
theorem restorable_macNumber {input : List UInt8} {v : Json} (h : macNumber input = some v) : Restorable v := by
  unfold macNumber at h
  rcases Option.map_eq_some_iff.mp h with ⟨mac, hmac, rfl⟩
  have hlen : mac.length = 6 := by
    unfold hpavStomac at hmac
    simp only at hmac
    split at hmac
    · cases hmac
    · rename_i hsix
      cases hmac
      exact not_not.mp hsix
  have hlt := bigEndian_lt mac
  rw [hlen] at hlt
  exact restorable_ofInt (by omega)

/-- A switch is read back as it was written. -/
theorem restorable_switchValue {input : List UInt8} {v : Json} (h : switchValue input = some v) :
    Restorable v := by
  unfold switchValue at h
  split at h
  · cases h
    exact Restorable.boolean
  · split at h
    · cases h
      exact Restorable.boolean
    · cases h

/-- A role is read back as it was written. -/
theorem restorable_roleName {input : List UInt8} {v : Json} (h : roleName input = some v) : Restorable v := by
  unfold roleName at h
  split at h
  · rename_i hrole
    cases h
    rcases hrole with rfl | rfl
    · exact Restorable.string (by decide +kernel)
    · exact Restorable.string (by decide +kernel)
  · cases h

/-- An identifier of writable characters is read back as it was written. -/
theorem restorable_hfidName {input : List UInt8} (hinput : Writable input) {v : Json}
    (h : hfidName input = some v) : Restorable v := by
  unfold hfidName at h
  split at h
  · cases h
    exact Restorable.string hinput
  · cases h

/-- An index of a limit is read back as it was written. -/
theorem restorable_psdLimitIndex {input : List UInt8} {v : Json} (h : psdLimitIndex input = some v) :
    Restorable v := by
  unfold psdLimitIndex at h
  simp only at h
  split at h
  · rename_i hval
    cases h
    exact restorable_ofInt (by omega)
  · cases h

/-- What a key sets is read back, and its path is one of the settings. -/
theorem lastingSetting_requestedSetting {key input : List UInt8} (hinput : HfidKey key → Writable input) :
    LastingSetting (requestedSetting key input) := by
  unfold requestedSetting
  -- the keys in the order of the table
  refine lastingSetting_ite (by decide +kernel) (fun _ _ => restorable_macNumber) ?_
  refine lastingSetting_ite (by decide +kernel) (fun _ _ => restorable_switchValue) ?_
  refine lastingSetting_ite (by decide +kernel) (fun _ _ => restorable_switchValue) ?_
  refine lastingSetting_ite (by decide +kernel) (fun _ _ => restorable_roleName) ?_
  refine lastingSetting_ite (by decide +kernel) (fun hkey _ => restorable_hfidName (hinput (Or.inl hkey))) ?_
  refine lastingSetting_ite (by decide +kernel)
    (fun hkey _ => restorable_hfidName (hinput (Or.inr (Or.inl hkey)))) ?_
  refine lastingSetting_ite (by decide +kernel)
    (fun hkey _ => restorable_hfidName (hinput (Or.inr (Or.inr hkey)))) ?_
  refine lastingSetting_ite (by decide +kernel) (fun _ _ => restorable_psdLimitIndex) ?_
  refine lastingSetting_ite (by decide +kernel) (fun _ _ => restorable_spiClockIndex) ?_
  exact ⟨nofun, nofun⟩

section Keys

variable {env : ModifyEnv} {filename : Argument} {c : ModifyCall} {inkaObj inkaObj' : Members}

/-- A modifier that follows its request has made the tree asked for. -/
theorem requested_of_ok {m : Except Stop Members} {request : Option Json} (h : Follows m request)
    (hrun : m = .ok inkaObj') : request = some (.object inkaObj') := by
  rcases request with _ | r
  · rcases h with ⟨rv, hrv, -⟩
    rw [hrun] at hrv
    cases hrv
  · rcases h with ⟨object, hok, rfl⟩
    rw [hrun] at hok
    cases hok
    rfl

/-- A key that stands for one value. -/
theorem changed_of_setting (h : Accepted env filename inkaObj) (hrestorable : Restorable (.object inkaObj))
    (hinput : HfidKey c.key → Writable c.input) {fct : Modifier} (hkey : findModifier c.key = some fct)
    (hnmk : c.key.val ≠ text "nmk") (hpsd : c.key.val ≠ text "psd_cali")
    (hspi : c.key.val = text "spi_slave_clk" → hasSpiClock inkaObj = true)
    (hrun : fct env inkaObj c.input = .ok inkaObj') :
    Changed inkaObj inkaObj' (c.leaves env.files (hasSpiClock inkaObj)) := by
  have hrequest := requested_of_ok (follows_requestedTree h hkey hpsd hspi) hrun
  have hparsed := parsed_requestedTree c.input.2 (parsed_of_jsonParseFile h.parsed) hrequest
  unfold requestedTree at hrequest
  rw [if_neg hnmk, if_neg hpsd] at hrequest
  have hsetting : (requestedSetting c.key c.input).2.bind (fun v =>
      setAt (requestedSetting c.key c.input).1 v (some (.object inkaObj))) = some (.object inkaObj') := hrequest
  rcases Option.bind_eq_some_iff.mp hsetting with ⟨v, hv, hset⟩
  have hlasting := lastingSetting_requestedSetting hinput
  have hchanged := Changed.setAt (hlasting.path v hv) hrestorable (hlasting.value v hv) hparsed hset
  have hclock : ¬ (c.key.val = text "spi_slave_clk" ∧ hasSpiClock inkaObj = false) := by
    rintro ⟨hk, hno⟩
    rw [hspi hk] at hno
    cases hno
  have hleaves : c.leaves env.files (hasSpiClock inkaObj) = fun path old =>
      if path = (requestedSetting c.key c.input).1 then some v else old := by
    funext path old
    unfold ModifyCall.leaves
    rw [if_neg hnmk, if_neg hpsd, if_neg hclock, hv]
  rw [hleaves]
  exact hchanged

/-- The network key, and with it the network identifier. -/
theorem changed_of_nmk (h : Accepted env filename inkaObj) (hrestorable : Restorable (.object inkaObj))
    (hkey : c.key.val = text "nmk") (hrun : confFileModifyNmk env inkaObj c.input = .ok inkaObj') :
    Changed inkaObj inkaObj' (c.leaves env.files (hasSpiClock inkaObj)) := by
  have hrequest := requested_of_ok (follows_nmk h) hrun
  have htree : requestedTree env.files (.object inkaObj) (text "nmk") c.input = some (.object inkaObj') := hrequest
  have hparsed := parsed_requestedTree c.input.2 (parsed_of_jsonParseFile h.parsed) htree
  unfold requestedNmk at hrequest
  simp only [Option.bind_eq_bind, Option.bind_eq_some_iff] at hrequest
  rcases hrequest with ⟨items, hitems, hrequest⟩
  split at hrequest
  · rename_i hsizes
    rcases Option.bind_eq_some_iff.mp hrequest with ⟨tree, hfirst, hsecond⟩
    rcases setAt_cons hfirst with ⟨members, pre, post, child, -, -, -, rfl⟩
    generalize hbetween : pre ++ (text "hpav", child) :: post = between at hfirst hsecond
    have hnmk : [text "hpav", text "nmk"] ∈ settings := by decide +kernel
    have hnid : [text "hpav", text "nid"] ∈ settings := by decide +kernel
    have hwords : (nmkWords (scanColonHex (some 2) 16 c.input)).length = 4 := by
      unfold nmkWords
      rw [List.length_map, List.length_range]
    -- the words are numbers, and the rest of the array was there before
    have hvalue : Restorable (.array (numbers (nmkWords (scanColonHex (some 2) 16 c.input)) ++ items.drop 4)) := by
      refine Restorable.array ?_
      intro v hv
      rcases List.mem_append.mp hv with hv | hv
      · rcases List.mem_map.mp hv with ⟨word, hword, rfl⟩
        have hlt := nmkWords_lt _ word hword
        exact restorable_ofInt (by omega)
      · exact restorable_itemsAt hrestorable hitems v (List.mem_of_mem_drop hv)
    have harray : Parsed (maxNesting - 2)
        (.array (numbers (nmkWords (scanColonHex (some 2) 16 c.input)) ++ items.drop 4)) := by
      refine parsed_items (parsed_itemsAt (settings_fields _ hnmk).1 (parsed_of_jsonParseFile h.parsed) hitems) ?_ ?_
      · rw [List.length_append, length_numbers, hwords, List.length_drop]
        omega
      · intro v hv
        rcases List.mem_append.mp hv with hv | hv
        · exact Or.inr (mem_numbers hv)
        · exact Or.inl (List.mem_of_mem_drop hv)
    have hmiddle := (settings_fields _ hnmk).1.parsed (parsed_of_jsonParseFile h.parsed) harray hfirst
    have hone := Changed.setAt hnmk hrestorable hvalue hmiddle hfirst
    have htwo := Changed.setAt hnid hone.restorable (restorable_ofInt (by decide)) hparsed hsecond
    have hboth := hone.trans htwo
    refine ⟨hboth.parsed, hboth.restorable, ?_, hboth.others, hboth.objects⟩
    intro path hpath
    rw [hboth.fields path hpath]
    unfold ModifyCall.leaves
    rw [if_pos hkey]
    by_cases hid : path = [text "hpav", text "nid"]
    · rw [if_pos hid, if_neg (by rw [hid]; decide), if_pos hid]
    · rw [if_neg hid]
      by_cases hwordsAt : path = [text "hpav", text "nmk"]
      · rw [if_pos hwordsAt, if_pos hwordsAt, hwordsAt]
        show some _ = Option.map _ (itemsAt [text "hpav", text "nmk"] (.object inkaObj))
        rw [hitems]
        rfl
      · rw [if_neg hwordsAt, if_neg hwordsAt, if_neg hid]
  · cases hrequest

/-- Putting the value that is there changes nothing. -/
theorem overwrite_same {object : Members} {name : List UInt8} {value : Json}
    (h : jsonObjectGetValue object name = some value) : overwrite name value object = object := by
  rcases jsonObjectGetValue_eq_some h with ⟨pre, post, rfl, hfresh⟩
  exact overwrite_splice hfresh value value post

/-- The amplitude map. -/
theorem changed_of_psdCali (h : Accepted env filename inkaObj) (hrestorable : Restorable (.object inkaObj))
    (hkey : c.key.val = text "psd_cali") (huninitialized : env.uninitialized = c.uninitialized)
    (hrun : confFileModifyPsdCali env inkaObj c.input = .ok inkaObj') :
    Changed inkaObj inkaObj' (c.leaves env.files (hasSpiClock inkaObj)) := by
  have hparsed := parsed_of_jsonParseFile h.parsed
  have hnmk : c.key.val ≠ text "nmk" := by
    rw [hkey]
    decide
  rcases h.phy with ⟨phy, hphy⟩
  have hat : itemsAt [text "phy", text "am_infile"] (.object inkaObj) = jsonObjectGetArray phy (text "am_infile") :=
    itemsAt_pair hphy
  rcases hfile : env.files.contents c.input with _ | content
  · rw [psdCali_no_file hfile] at hrun
    cases hrun
  have hleaves : ∀ path old, c.leaves env.files (hasSpiClock inkaObj) path old =
      match old.bind jsonValueGetArray with
      | some items => if path = [text "phy", text "am_infile"] then some (c.map content items) else old
      | none => old := by
    intro path old
    unfold ModifyCall.leaves
    rw [if_neg hnmk, if_pos hkey, hfile]
    rcases old.bind jsonValueGetArray with _ | items
    · rfl
    · rfl
  have hother : ∀ path old, path ≠ [text "phy", text "am_infile"] →
      c.leaves env.files (hasSpiClock inkaObj) path old = old := by
    intro path old hpath
    rw [hleaves]
    split
    · exact if_neg hpath
    · rfl
  rcases harray : jsonObjectGetArray phy (text "am_infile") with _ | items
  · -- without a map the object is put back as it was
    have hsame : inkaObj' = inkaObj := by
      unfold confFileModifyPsdCali inObject at hrun
      simp only [hfile, hphy, harray, Option.getD_none] at hrun
      rcases hcalibrated : calibrated [] content with f | backoffs
      · rw [hcalibrated] at hrun
        cases hrun
      · rw [hcalibrated] at hrun
        injection hrun with hrun
        rw [← hrun]
        exact overwrite_same (jsonObjectGetObject_eq_some.mp hphy)
    rw [hsame]
    have hrefl := Changed.refl hparsed hrestorable
    refine ⟨hparsed, hrestorable, ?_, hrefl.others, hrefl.objects⟩
    intro path hpath
    by_cases hmap : path = [text "phy", text "am_infile"]
    · rw [hleaves, hmap]
      show _ = match itemsAt [text "phy", text "am_infile"] (.object inkaObj) with
        | some items => if _ then some (c.map content items) else _
        | none => _
      rw [hat, harray]
    · rw [hother path _ hmap]
  · rw [harray] at hat
    have hcalibrated : ∃ backoffs, calibrated items content = .ok backoffs := by
      unfold confFileModifyPsdCali inObject at hrun
      simp only [hfile, hphy, harray, Option.getD_some] at hrun
      rcases hcalibrated : calibrated items content with f | backoffs
      · rw [hcalibrated] at hrun
        cases hrun
      · exact ⟨backoffs, rfl⟩
    rcases hcalibrated with ⟨backoffs, hcalibrated⟩
    rcases calibrated_eq_ok_iff.mp hcalibrated with ⟨as, has, hwithin, -⟩
    rcases psdCali_ok h hfile hat has hwithin with ⟨inkaObj'', hrun', hset⟩
    rw [hrun] at hrun'
    injection hrun' with hsame
    subst hsame
    have hmapField : [text "phy", text "am_infile"] ∈ settings := by decide +kernel
    have hwords : ∀ word ∈ savedWords env (calibratedWords items as), word < 2 ^ 64 :=
      firstWord_lt env.uninitialized.toNat_lt (calibratedWords_lt items as)
    have hchanged := Changed.setAt hmapField hrestorable (restorable_numbers hwords)
      (parsed_amInfile hparsed hat (length_savedWords env items as) hset) hset
    have hmap : c.map content items = .array (numbers (savedWords env (calibratedWords items as))) := by
      unfold ModifyCall.map savedWords
      rw [has, huninitialized]
      rfl
    refine ⟨hchanged.parsed, hchanged.restorable, ?_, hchanged.others, hchanged.objects⟩
    intro path hpath
    rw [hchanged.fields path hpath]
    by_cases hfield : path = [text "phy", text "am_infile"]
    · rw [if_pos hfield, hleaves, hfield]
      show _ = match itemsAt [text "phy", text "am_infile"] (.object inkaObj) with
        | some items => if _ then some (c.map content items) else _
        | none => _
      rw [hat, ← hmap]
      rfl
    · rw [if_neg hfield, hother path _ hfield]

/-- The clock of a version without one. -/
theorem changed_of_no_clock (h : Accepted env filename inkaObj) (hrestorable : Restorable (.object inkaObj))
    (hkey : c.key.val = text "spi_slave_clk") (hno : hasSpiClock inkaObj = false)
    (hrun : confFileModifySpiSlaveClk env inkaObj c.input = .ok inkaObj') :
    Changed inkaObj inkaObj' (c.leaves env.files (hasSpiClock inkaObj)) := by
  unfold confFileModifySpiSlaveClk at hrun
  rw [hno] at hrun
  injection hrun with hsame
  subst hsame
  have hleaves : c.leaves env.files (hasSpiClock inkaObj) = fun _ old => old := by
    funext path old
    unfold ModifyCall.leaves
    rw [if_neg (by rw [hkey]; decide), if_neg (by rw [hkey]; decide), if_pos ⟨hkey, hno⟩]
  rw [hleaves]
  exact Changed.refl (parsed_of_jsonParseFile h.parsed) hrestorable

/-- Whatever key it is, a modifier that returns 0 changes its settings. -/
theorem changed_of_ok (h : Accepted env filename inkaObj) (hrestorable : Restorable (.object inkaObj))
    (hinput : HfidKey c.key → Writable c.input) (huninitialized : env.uninitialized = c.uninitialized)
    {fct : Modifier} (hkey : findModifier c.key = some fct) (hrun : fct env inkaObj c.input = .ok inkaObj') :
    Changed inkaObj inkaObj' (c.leaves env.files (hasSpiClock inkaObj)) := by
  by_cases hnmk : c.key.val = text "nmk"
  · have hfct : findModifier c.key = some confFileModifyNmk := by
      rw [hnmk]
      rfl
    rw [hfct] at hkey
    cases hkey
    exact changed_of_nmk h hrestorable hnmk hrun
  by_cases hpsd : c.key.val = text "psd_cali"
  · have hfct : findModifier c.key = some confFileModifyPsdCali := by
      rw [hpsd]
      rfl
    rw [hfct] at hkey
    cases hkey
    exact changed_of_psdCali h hrestorable hpsd huninitialized hrun
  by_cases hspi : c.key.val = text "spi_slave_clk" ∧ hasSpiClock inkaObj = false
  · have hfct : findModifier c.key = some confFileModifySpiSlaveClk := by
      rw [hspi.1]
      rfl
    rw [hfct] at hkey
    cases hkey
    exact changed_of_no_clock h hrestorable hspi.1 hspi.2 hrun
  · refine changed_of_setting h hrestorable hinput hkey hnmk hpsd ?_ hrun
    intro hk
    by_contra hno
    exact hspi ⟨hk, Bool.not_eq_true _ ▸ hno⟩

end Keys

/-! ## One call -/

/-- Only the files decide whether a configuration is accepted. -/
theorem Accepted.of_files {env env' : ModifyEnv} {filename : List UInt8} {inkaObj : Members}
    (h : Accepted env filename inkaObj) (hfiles : env'.files = env.files) : Accepted env' filename inkaObj where
  parsed := by
    rw [hfiles]
    exact h.parsed
  hpav := h.hpav
  cp := h.cp
  phy := h.phy

/-- No call changes the version. -/
theorem Changed.hasSpiClock_eq {inkaObj inkaObj' : Members}
    {leaves : List (List UInt8) → Option Json → Option Json} (h : Changed inkaObj inkaObj' leaves) :
    hasSpiClock inkaObj' = hasSpiClock inkaObj := by
  have hsame : ∀ name, (∀ p ∈ settings, Apart p [name]) →
      jsonObjectGetNumber inkaObj' name = jsonObjectGetNumber inkaObj name := by
    intro name hname
    have hat := h.others [name] hname
    rw [valueAt_singleton, valueAt_singleton] at hat
    unfold jsonObjectGetNumber
    rw [hat]
  unfold hasSpiClock
  rw [hsame (text "version") fun p hp => (settings_fields p hp).2.2.2.1,
    hsame (text "sub_version") fun p hp => (settings_fields p hp).2.2.2.2]

section Call

variable {env : ModifyEnv} {filename : Argument} {c : ModifyCall} {inkaObj : Members}

/-- Every modifier but that of the map returns. -/
theorem returns_of_not_psdCali (h : Accepted env filename inkaObj) {input : List UInt8} {fct : Modifier}
    (hkey : findModifier c.key = some fct) (hpsd : c.key.val ≠ text "psd_cali") :
    (∃ inkaObj', fct env inkaObj input = .ok inkaObj') ∨ ∃ rv, fct env inkaObj input = .error (.code rv) ∧ rv ≠ 0 := by
  by_cases hspi : c.key.val = text "spi_slave_clk" ∧ hasSpiClock inkaObj = false
  · have hfct : findModifier c.key = some confFileModifySpiSlaveClk := by
      rw [hspi.1]
      rfl
    rw [hfct] at hkey
    cases hkey
    refine Or.inl ⟨inkaObj, ?_⟩
    unfold confFileModifySpiSlaveClk
    rw [hspi.2]
    rfl
  · have hclock : c.key.val = text "spi_slave_clk" → hasSpiClock inkaObj = true := by
      intro hk
      by_contra hno
      exact hspi ⟨hk, Bool.not_eq_true _ ▸ hno⟩
    have hfollows := @follows_requestedTree _ _ input _ h _ _ hkey hpsd hclock
    rcases hr : requestedTree env.files (.object inkaObj) c.key input with _ | r
    · rw [hr] at hfollows
      exact Or.inr hfollows
    · rw [hr] at hfollows
      rcases hfollows with ⟨object, hok, -⟩
      exact Or.inl ⟨object, hok⟩

/-- The number of a modifier that fails is none that would be taken for success. -/
theorem code_ne_zero (h : Accepted env filename inkaObj) {input : List UInt8} {fct : Modifier}
    (hkey : findModifier c.key = some fct) {rv : Int} (hrun : fct env inkaObj input = .error (.code rv)) : rv ≠ 0 := by
  by_cases hpsd : c.key.val = text "psd_cali"
  · have hfct : findModifier c.key = some confFileModifyPsdCali := by
      rw [hpsd]
      rfl
    rw [hfct] at hkey
    cases hkey
    by_cases hfile : env.files.contents input = none
    · rw [psdCali_no_file hfile] at hrun
      cases hrun
      decide
    · rcases hr : requestedPsdCali env.files (.object inkaObj) input with _ | r
      · exact absurd hrun (psdCali_none h hfile hr rv)
      · rcases requestedPsdCali_eq_some hr with ⟨content, items, as, hcontent, hitems, has, hwithin, -⟩
        rcases psdCali_ok h hcontent hitems has hwithin with ⟨object, hok, -⟩
        rw [hrun] at hok
        cases hok
  · rcases @returns_of_not_psdCali _ _ c _ h input _ hkey hpsd with ⟨object, hok⟩ | ⟨rv', hcode, hne⟩
    · rw [hrun] at hok
      cases hok
    · rw [hrun] at hcode
      cases hcode
      exact hne

/-- A call whose modifier does something asks for something that can be done. -/
def ModifyCall.Done (env : ModifyEnv) (inkaObj : Members) (c : ModifyCall) : Prop :=
  (findModifier c.key).isSome ∧ (c.key.val ≠ text "psd_cali" →
    (c.key.val = text "spi_slave_clk" → hasSpiClock inkaObj = true) →
    (requestedTree env.files (.object inkaObj) c.key c.input).isSome)

/-- A call leaves the files as they were, or it returns 0 and the file is read as a tree in
which the settings are changed. -/
theorem confFileModify_step (h : Accepted env filename inkaObj) (hrestorable : Restorable (.object inkaObj))
    (hwritable : env.files.writable filename = true) (hinput : HfidKey c.key → Writable c.input)
    (huninitialized : env.uninitialized = c.uninitialized) {rv : Int} {files' : FileSystem}
    (hrun : confFileModify env [filename, c.key, c.input] = .ok (rv, files')) :
    (rv ≠ 0 ∧ files' = env.files) ∨
      ∃ inkaObj', rv = 0 ∧ c.Done env inkaObj ∧ Changed inkaObj inkaObj' (c.leaves env.files (hasSpiClock inkaObj)) ∧
        Accepted ⟨files', env.uninitialized⟩ filename inkaObj' ∧ files'.writable = env.files.writable ∧
        ∀ name, name ≠ filename.val → files'.contents name = env.files.contents name := by
  rcases hkey : findModifier c.key with _ | fct
  · have hrejected : confFileModify env [filename, c.key, c.input] = .ok (-1, env.files) := by
      refine confFileModify_rejected ?_
      intro filename' key input rest inkaObj' hargv _
      cases hargv
      exact hkey
    rw [hrejected] at hrun
    cases hrun
    exact Or.inl ⟨by decide, rfl⟩
  rw [confFileModify_run h hkey c.input []] at hrun
  rcases hfct : fct env inkaObj c.input with (rv' | f) | inkaObj'
  · rw [hfct] at hrun
    cases hrun
    refine Or.inl ⟨?_, rfl⟩
    split
    · decide
    · exact code_ne_zero h hkey hfct
  · rw [hfct] at hrun
    cases hrun
  · rw [hfct] at hrun
    cases hrun
    have hchanged := changed_of_ok h hrestorable hinput huninitialized hkey hfct
    refine Or.inr ⟨inkaObj', rfl, ⟨?_, ?_⟩, hchanged, ⟨?_, ?_, ?_, ?_⟩, ?_, ?_⟩
    · rw [hkey]
      rfl
    · intro hpsd hspi
      rw [requested_of_ok (follows_requestedTree h hkey hpsd hspi) hfct]
      rfl
    · show jsonParseFile (jsonSerializeToFile env.files (.object inkaObj') filename) filename = some (.object inkaObj')
      rw [jsonParseFile_write hchanged.parsed h.parsed, if_pos hwritable]
      exact (reread_eq_self_iff _).mpr hchanged.restorable
    · exact (hchanged.objects (text "hpav") (by decide)).mpr h.hpav
    · exact (hchanged.objects (text "cp") (by decide)).mpr h.cp
    · exact (hchanged.objects (text "phy") (by decide)).mpr h.phy
    · unfold jsonSerializeToFile FileSystem.write
      rw [if_pos hwritable]
    · intro name hname
      unfold jsonSerializeToFile FileSystem.write
      rw [if_pos hwritable]
      exact Function.update_of_ne hname _ _

/-- Only the lines of a calibration file can make a call end in a fault. -/
theorem psdCali_of_fault (h : Accepted env filename inkaObj) {f : Fault}
    (hrun : confFileModify env [filename, c.key, c.input] = .error f) : c.key.val = text "psd_cali" := by
  by_contra hpsd
  rcases hkey : findModifier c.key with _ | fct
  · have hrejected : confFileModify env [filename, c.key, c.input] = .ok (-1, env.files) := by
      refine confFileModify_rejected ?_
      intro filename' key input rest inkaObj' hargv _
      cases hargv
      exact hkey
    rw [hrejected] at hrun
    cases hrun
  rw [confFileModify_run h hkey c.input []] at hrun
  rcases @returns_of_not_psdCali _ _ c _ h c.input _ hkey hpsd with ⟨object, hok⟩ | ⟨rv, hcode, -⟩
  · rw [hok] at hrun
    cases hrun
  · rw [hcode] at hrun
    cases hrun

end Call

/-! ## All calls -/

/-- A call depends on the files by its calibration file only. -/
theorem ModifyCall.leaves_congr {files files' : FileSystem} {c : ModifyCall}
    (h : c.key.val = text "psd_cali" → files'.contents c.input = files.contents c.input) (clock : Bool)
    (path : List (List UInt8)) (old : Option Json) : c.leaves files' clock path old = c.leaves files clock path old := by
  unfold ModifyCall.leaves
  by_cases hpsd : c.key.val = text "psd_cali"
  · rw [h hpsd]
  · simp only [if_neg hpsd]

/-- So do all of them, one after the other. -/
theorem foldl_leaves_congr {files files' : FileSystem} {cs : List ModifyCall}
    (h : ∀ c ∈ cs, c.key.val = text "psd_cali" → files'.contents c.input = files.contents c.input) (clock : Bool)
    (path : List (List UInt8)) (old : Option Json) :
    cs.foldl (fun old c => c.leaves files' clock path old) old =
      cs.foldl (fun old c => c.leaves files clock path old) old := by
  refine List.foldl_ext _ _ old ?_
  intro old c hc
  exact c.leaves_congr (h c hc) clock path old

/-- What succeeded is one of the calls. -/
theorem mem_of_mem_succeeded {c : ModifyCall} {cs : List ModifyCall} {rvs : List Int} (h : c ∈ succeeded cs rvs) :
    c ∈ cs := by
  unfold succeeded at h
  rcases List.mem_map.mp h with ⟨⟨c', rv⟩, hmem, rfl⟩
  exact (List.of_mem_zip (List.mem_filter.mp hmem).1).1

/-- What a run needs of its calls: the identifiers can be written, and a calibration file is not
the configuration file. -/
structure ModifyCall.Valid (filename : Argument) (c : ModifyCall) : Prop where
  hfid : HfidKey c.key → Writable c.input
  calibration : c.key.val = text "psd_cali" → c.input.val ≠ filename.val

/-- What the files are behind a run, where `cs` are the calls that returned 0. -/
structure Stored (env : ModifyEnv) (filename : Argument) (inkaObj : Members) (cs : List ModifyCall)
    (files' : FileSystem) (inkaObj' : Members) : Prop where
  accepted : Accepted ⟨files', env.uninitialized⟩ filename inkaObj'
  fields : ∀ path ∈ settings, valueAt path (.object inkaObj') =
    cs.foldl (fun old c => c.leaves env.files (hasSpiClock inkaObj) path old) (valueAt path (.object inkaObj))
  others : ∀ path, (∀ p ∈ settings, Apart p path) → valueAt path (.object inkaObj') = valueAt path (.object inkaObj)
  files : ∀ name, name ≠ filename.val → files'.contents name = env.files.contents name

section Run

variable {env : ModifyEnv} {filename : Argument} {inkaObj : Members}

/-- Before the first call the file is stored as it is. -/
theorem stored_nil (h : Accepted env filename inkaObj) : Stored env filename inkaObj [] env.files inkaObj :=
  ⟨h.of_files rfl, fun _ _ => rfl, fun _ _ => rfl, fun _ _ => rfl⟩

/-- A call in front of a run: its change is what the rest of the run starts from. -/
theorem Stored.cons {c : ModifyCall} {cs : List ModifyCall} {files files' : FileSystem} {uninitialized : UInt64}
    {inkaObj' inkaObj'' : Members} (hc : ∀ c ∈ cs, c.Valid filename)
    (hchanged : Changed inkaObj inkaObj' (c.leaves env.files (hasSpiClock inkaObj)))
    (hfiles : ∀ name, name ≠ filename.val → files.contents name = env.files.contents name)
    (h : Stored ⟨files, uninitialized⟩ filename inkaObj' cs files' inkaObj'') :
    Stored env filename inkaObj (c :: cs) files' inkaObj'' where
  accepted := h.accepted.of_files rfl
  fields := by
    intro path hpath
    rw [h.fields path hpath, hchanged.fields path hpath, hchanged.hasSpiClock_eq, List.foldl_cons]
    refine foldl_leaves_congr ?_ _ path _
    intro c' hc' hpsd
    exact hfiles c'.input ((hc c' hc').calibration hpsd)
  others := by
    intro path hpath
    rw [h.others path hpath, hchanged.others path hpath]
  files := by
    intro name hname
    rw [h.files name hname, hfiles name hname]

/-- After the calls the file holds what those that succeeded have made of it: on the calls. -/
theorem modifyAll_stored (h : Accepted env filename inkaObj) (hrestorable : Restorable (.object inkaObj))
    (hwritable : env.files.writable filename = true) {calls : List ModifyCall}
    (hcalls : ∀ c ∈ calls, c.Valid filename) {rvs : List Int} {files' : FileSystem}
    (hrun : modifyAll filename calls env.files = .ok (rvs, files')) :
    ∃ inkaObj', Stored env filename inkaObj (succeeded calls rvs) files' inkaObj' := by
  induction calls generalizing env inkaObj rvs with
  | nil =>
    cases hrun
    exact ⟨inkaObj, stored_nil h⟩
  | cons c cs ih =>
    have hrest : ∀ c ∈ cs, c.Valid filename := fun c' hc' => hcalls c' (List.mem_cons_of_mem c hc')
    rcases bind_eq_ok.mp hrun with ⟨⟨rv, files⟩, hcall, hrun⟩
    rcases bind_eq_ok.mp hrun with ⟨⟨rvs', files''⟩, hothers, hrun⟩
    cases hrun
    have hstart : Accepted ⟨env.files, c.uninitialized⟩ filename inkaObj := h.of_files rfl
    rw [succeeded_cons]
    rcases confFileModify_step hstart hrestorable hwritable (hcalls c List.mem_cons_self).hfid rfl hcall with
      ⟨hrv, rfl⟩ | ⟨inkaObj', rfl, -, hchanged, haccepted, hwritable', hfiles⟩
    · rw [if_neg hrv]
      rcases ih hstart hrestorable hwritable hrest hothers with ⟨inkaObj'', hstored⟩
      exact ⟨inkaObj'', hstored.accepted.of_files rfl, hstored.fields, hstored.others, hstored.files⟩
    · rw [if_pos rfl]
      have hstill : files.writable filename = true := by
        rw [hwritable']
        exact hwritable
      rcases ih haccepted hchanged.restorable hstill hrest hothers with ⟨inkaObj'', hstored⟩
      refine ⟨inkaObj'', Stored.cons ?_ hchanged hfiles hstored⟩
      intro c' hc'
      exact hrest c' (mem_of_mem_succeeded hc')

/-- Only a calibration can fault. -/
theorem psdCali_of_modifyAll_fault (h : Accepted env filename inkaObj) (hrestorable : Restorable (.object inkaObj))
    (hwritable : env.files.writable filename = true) {calls : List ModifyCall}
    (hcalls : ∀ c ∈ calls, c.Valid filename) {f : Fault}
    (hrun : modifyAll filename calls env.files = .error f) : ∃ c ∈ calls, c.key.val = text "psd_cali" := by
  induction calls generalizing env inkaObj f with
  | nil => cases hrun
  | cons c cs ih =>
    have hrest : ∀ c ∈ cs, c.Valid filename := fun c' hc' => hcalls c' (List.mem_cons_of_mem c hc')
    have hstart : Accepted ⟨env.files, c.uninitialized⟩ filename inkaObj := h.of_files rfl
    unfold modifyAll at hrun
    rcases hcall : confFileModify ⟨env.files, c.uninitialized⟩ [filename, c.key, c.input] with f' | ⟨rv, files⟩
    · exact ⟨c, List.mem_cons_self, psdCali_of_fault hstart hcall⟩
    · rw [hcall, bind_ok] at hrun
      rcases hothers : modifyAll filename cs files with f' | ⟨rvs, files''⟩
      · rcases confFileModify_step hstart hrestorable hwritable (hcalls c List.mem_cons_self).hfid rfl hcall with
          ⟨hrv, rfl⟩ | ⟨inkaObj', rfl, -, hchanged, haccepted, hwritable', hfiles⟩
        · rcases ih hstart hrestorable hwritable hrest hothers with ⟨c', hc', hpsd⟩
          exact ⟨c', List.mem_cons_of_mem c hc', hpsd⟩
        · have hstill : files.writable filename = true := by
            rw [hwritable']
            exact hwritable
          rcases ih haccepted hchanged.restorable hstill hrest hothers with ⟨c', hc', hpsd⟩
          exact ⟨c', List.mem_cons_of_mem c hc', hpsd⟩
      · simp only [hothers, bind_ok] at hrun
        cases hrun

end Run

/-- Over any run of commands on a file that can be written, with a tree and inputs that come
through their text, the file is a store of fields: it can be parsed again, every setting holds
what the calls that returned 0 left of it one after the other, and every other field and every
other file is as before. Only a calibration can keep a run from its end. -/
theorem modifyAll_settings {env : ModifyEnv} {filename : Argument} {inkaObj : Members}
    (h : Accepted env filename inkaObj) (hrestorable : Restorable (.object inkaObj))
    (hwritable : env.files.writable filename = true) {calls : List ModifyCall}
    (hcalls : ∀ c ∈ calls, c.Valid filename) :
    (∀ rvs files', modifyAll filename calls env.files = .ok (rvs, files') →
      ∃ inkaObj', Stored env filename inkaObj (succeeded calls rvs) files' inkaObj') ∧
    ∀ f, modifyAll filename calls env.files = .error f → ∃ c ∈ calls, c.key.val = text "psd_cali" := by
  constructor
  · intro rvs files' hrun
    exact modifyAll_stored h hrestorable hwritable hcalls hrun
  · intro f hrun
    exact psdCali_of_modifyAll_fault h hrestorable hwritable hcalls hrun

/-- The name of the configuration with nothing in it. -/
def emptyFilename : Argument :=
  ⟨text "inka.conf", by decide⟩

def roleKey : Argument :=
  ⟨text "role", by decide⟩

/-- A switch that is turned on, an input that is refused, and the switch turned off. -/
def switchCalls : List ModifyCall :=
  [⟨⟨text "enable_nvram", by decide⟩, ⟨text "true", by decide⟩, 0⟩,
    ⟨roleKey, ⟨text "evse", by decide⟩, 0⟩,
    ⟨⟨text "enable_nvram", by decide⟩, ⟨text "false", by decide⟩, 0⟩]

/-- The last of the values stays. -/
theorem modifyAll_settings_switch : ∃ files' inkaObj',
    modifyAll emptyFilename switchCalls emptyConfiguration.files = .ok ([0, exitUsage, 0], files') ∧
      jsonParseFile files' emptyFilename = some (.object inkaObj') ∧
      valueAt [text "use_nvram"] (.object inkaObj') = some (.boolean false) := by
  have hvalid : ∀ c ∈ switchCalls, c.Valid emptyFilename := by
    intro c hc
    simp only [switchCalls, List.mem_cons, List.not_mem_nil, or_false] at hc
    rcases hc with rfl | rfl | rfl
    all_goals exact ⟨fun _ => by decide +kernel, fun hk => absurd hk (by decide)⟩
  have hcodes : (modifyAll emptyFilename switchCalls emptyConfiguration.files).toOption.map (·.1) =
      some [0, exitUsage, 0] := by
    decide +kernel
  rcases hrun : modifyAll emptyFilename switchCalls emptyConfiguration.files with f | ⟨rvs, files'⟩
  · rw [hrun] at hcodes
    cases hcodes
  · rw [hrun] at hcodes
    injection hcodes with hcodes
    have hstored := (modifyAll_settings accepted_emptyConfiguration (by decide +kernel) rfl hvalid).1 rvs files' hrun
    rcases hstored with ⟨inkaObj', hstored⟩
    subst hcodes
    refine ⟨files', inkaObj', rfl, hstored.accepted.parsed, ?_⟩
    rw [hstored.fields _ (by decide +kernel)]
    decide +kernel

end Hpav
