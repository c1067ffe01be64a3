import Mathlib.Tactic.Common
import Mathlib.Tactic.Ring
import Mathlib.Data.List.GetD
import Hpav.ConfFileModify

/-!
# What a modified configuration file holds

A modifier makes the tree that is asked for or fails, but for two of them: the clock of a
version without one is left alone and 0 returned, and the words of the amplitude map are
saved with a sign extended and with what a variable held that was never initialized. The
tree is then written, and a file that was written is read back as `reread` says. So the
command does what it promises exactly under the conditions of `Kept`.
-/

namespace Hpav

open Binary64 CMem CScan

/-! ## Values -/

/-- A byte or-ed in below a shifted number makes the next digit in base 256. -/
theorem or_byte (h e : Nat) {b : Nat} (hb : b < 256) : (h <<< (e + 8)) ||| (b <<< e) = (h * 256 + b) <<< e := by
  have hlt : b <<< e < 2 ^ (e + 8) := by
    rw [Nat.shiftLeft_eq, Nat.pow_add, Nat.mul_comm]
    exact Nat.mul_lt_mul_of_pos_left hb (Nat.two_pow_pos e)
  rw [← Nat.shiftLeft_add_eq_or_of_lt hlt, Nat.shiftLeft_eq, Nat.shiftLeft_eq, Nat.shiftLeft_eq, Nat.pow_add]
  ring

/-- The shifts of `mac_value` make the number with these bytes, the first one on top. -/
theorem macValue_eq {mac : List UInt8} (h : mac.length = 6) : macValue mac = bigEndian mac := by
  rcases mac with _ | ⟨b0, _ | ⟨b1, _ | ⟨b2, _ | ⟨b3, _ | ⟨b4, _ | ⟨b5, _ | ⟨b6, mac⟩⟩⟩⟩⟩⟩⟩
  case cons.cons.cons.cons.cons.cons.nil =>
    show (b0.toNat <<< 40) ||| (b1.toNat <<< 32) ||| (b2.toNat <<< 24) ||| (b3.toNat <<< 16) |||
      (b4.toNat <<< 8) ||| (b5.toNat <<< 0) = _
    rw [or_byte b0.toNat 32 b1.toNat_lt, or_byte _ 24 b2.toNat_lt, or_byte _ 16 b3.toNat_lt,
      or_byte _ 8 b4.toNat_lt, or_byte _ 0 b5.toNat_lt, Nat.shiftLeft_zero]
    simp [bigEndian]
  all_goals
    simp only [List.length_cons, List.length_nil] at h
    omega

/-- Four bytes of a key, the least significant one first. -/
theorem or_littleEndian {b0 b1 b2 b3 : Nat} (h0 : b0 < 256) (h1 : b1 < 256) (h2 : b2 < 256) :
    b0 ||| (b1 <<< 8) ||| (b2 <<< 16) ||| (b3 <<< 24) = b0 + 256 * (b1 + 256 * (b2 + 256 * b3)) := by
  have hswap : b0 ||| (b1 <<< 8) ||| (b2 <<< 16) ||| (b3 <<< 24) =
      (b3 <<< 24) ||| (b2 <<< 16) ||| (b1 <<< 8) ||| (b0 <<< 0) := by
    rw [Nat.shiftLeft_zero, Nat.or_comm, Nat.or_comm (b0 ||| b1 <<< 8), Nat.or_comm b0, ← Nat.or_assoc,
      ← Nat.or_assoc]
  rw [hswap, or_byte b3 16 h2, or_byte _ 8 h1, or_byte _ 0 h0, Nat.shiftLeft_zero]
  ring

/-- The shifts of `nmk_array_val` make the number with four bytes, the first one at the bottom. -/
theorem nmkArrayVal_eq {nmk : List UInt8} {i : Nat} (h : 4 * i + 4 ≤ nmk.length) :
    nmkArrayVal nmk i = littleEndian ((nmk.drop (4 * i)).take 4) := by
  have hdrop : (nmk.drop (4 * i)).take 4 =
      [nmk.getD (i * 4) 0, nmk.getD (i * 4 + 1) 0, nmk.getD (i * 4 + 2) 0, nmk.getD (i * 4 + 3) 0] := by
    refine List.ext_getElem (by simp; omega) ?_
    intro k hk hk'
    rw [List.getElem_take, List.getElem_drop]
    simp only [List.length_cons, List.length_nil] at hk'
    obtain rfl | rfl | rfl | rfl : k = 0 ∨ k = 1 ∨ k = 2 ∨ k = 3 := by omega
    all_goals
      simp only [List.getElem_cons_zero, List.getElem_cons_succ, Nat.mul_comm i 4, Nat.add_zero]
      rw [List.getD_eq_getElem _ _ (by omega)]
  rw [hdrop]
  unfold nmkArrayVal
  rw [or_littleEndian (UInt8.toNat_lt _) (UInt8.toNat_lt _) (UInt8.toNat_lt _)]
  simp [littleEndian]

/-! ## Modifiers that follow the request -/

/-- A modifier makes the tree that is asked for, or fails with a code. -/
def Follows (m : Except Stop Members) : Option Json → Prop
  | some r => ∃ inkaObj, m = .ok inkaObj ∧ r = .object inkaObj
  | none => ∃ rv, m = .error (.code rv) ∧ rv ≠ 0

/-- A modifier that refuses follows a request for nothing. -/
theorem follows_code {rv : Int} (h : rv ≠ 0) : Follows (.error (.code rv)) none :=
  ⟨rv, rfl, h⟩

/-- An object is found under a name if the value found is an object. -/
theorem jsonObjectGetObject_eq_some {object member : Members} {name : List UInt8} :
    jsonObjectGetObject object name = some member ↔ jsonObjectGetValue object name = some (.object member) := by
  unfold jsonObjectGetObject
  rw [Option.bind_eq_some_iff]
  constructor
  · rintro ⟨v, hv, hm⟩
    cases v with
    | object ms =>
      cases hm
      exact hv
    | null | boolean | number | string | array => cases hm
  · intro h
    exact ⟨_, h, rfl⟩

/-- A member that is there is overwritten. -/
theorem jsonObjectSetValue_of_get {object : Members} {name : List UInt8} {old : Json}
    (h : jsonObjectGetValue object name = some old) (value : Json) :
    jsonObjectSetValue object name (some value) = some (overwrite name value object) := by
  unfold jsonObjectSetValue
  rw [h]
  rfl

/-- A change within a member of the root. -/
theorem setAt_member {inkaObj object : Members} {name : List UInt8}
    (hget : jsonObjectGetObject inkaObj name = some object) (path : List (List UInt8)) (value : Json) :
    setAt (name :: path) value (some (.object inkaObj)) =
      (setAt path value (some (.object object))).map fun child => .object (overwrite name child inkaObj) := by
  rw [jsonObjectGetObject_eq_some] at hget
  show (jsonObjectSetValue inkaObj name (setAt path value (jsonObjectGetValue inkaObj name))).map Json.object = _
  rw [hget]
  rcases setAt path value (some (.object object)) with _ | child
  · rfl
  · rw [jsonObjectSetValue_of_get hget]
    rfl

/-- A member of the root is set as the request sets it. -/
theorem follows_setOrFail (inkaObj : Members) (name : List UInt8) (value : Option Json) :
    Follows (setOrFail inkaObj name value) (value.bind fun v => setAt [name] v (some (.object inkaObj))) := by
  cases value with
  | none => exact follows_code (by decide)
  | some v =>
    show Follows (setOrFail inkaObj name (some v)) ((jsonObjectSetValue inkaObj name (some v)).map Json.object)
    unfold setOrFail
    rcases jsonObjectSetValue inkaObj name (some v) with _ | object
    · exact follows_code (by decide)
    · exact ⟨object, rfl, rfl⟩

/-- A field of a member is set as the request sets it. -/
theorem follows_inObject {inkaObj object : Members} {name : List UInt8}
    (hget : jsonObjectGetObject inkaObj name = some object) (field : List UInt8) (value : Option Json) :
    Follows (inObject inkaObj name fun object => setOrFail object field value)
      (value.bind fun v => setAt [name, field] v (some (.object inkaObj))) := by
  have hin : (inObject inkaObj name fun object => setOrFail object field value) =
      (setOrFail object field value).bind fun object => .ok (overwrite name (.object object) inkaObj) := by
    unfold inObject
    rw [hget]
    rfl
  rw [hin]
  cases value with
  | none => exact follows_code (by decide)
  | some v =>
    rw [Option.bind_some, setAt_member hget]
    show Follows _ (((jsonObjectSetValue object field (some v)).map Json.object).map _)
    unfold setOrFail
    rcases jsonObjectSetValue object field (some v) with _ | object'
    · exact follows_code (by decide)
    · exact ⟨_, rfl, rfl⟩

/-! ## The commands -/

/-- The objects of a file that every modifier may rely on. -/
structure Accepted (env : ModifyEnv) (filename : List UInt8) (inkaObj : Members) : Prop where
  parsed : jsonParseFile env.files filename = some (.object inkaObj)
  hpav : ∃ object, jsonObjectGetObject inkaObj (text "hpav") = some object
  cp : ∃ object, jsonObjectGetObject inkaObj (text "cp") = some object
  phy : ∃ object, jsonObjectGetObject inkaObj (text "phy") = some object

section Keys

variable {env : ModifyEnv} {filename input : List UInt8} {inkaObj : Members}

/-- The address follows the request. -/
theorem follows_mac : Follows (confFileModifyMac env inkaObj input)
    ((macNumber input).bind fun v => setAt [text "mac"] v (some (.object inkaObj))) := by
  unfold confFileModifyMac macNumber
  rcases hmac : hpavStomac input with _ | mac
  · exact follows_code (by decide)
  · have hlen : mac.length = 6 := by
      unfold hpavStomac at hmac
      simp only at hmac
      split at hmac
      · cases hmac
      · cases hmac
        exact not_not.mp ‹_›
    rw [Option.map_some, ← macValue_eq hlen]
    exact follows_setOrFail inkaObj _ _

/-- A switch is one of two values; the modifiers that set one fail on any other input. -/
theorem follows_switch {set : Option Json → Except Stop Members} {path : List (List UInt8)}
    (hset : ∀ value, Follows (set value) (value.bind fun v => setAt path v (some (.object inkaObj)))) :
    Follows (if input = text "true" then set (some (.boolean true))
        else if input = text "false" then set (some (.boolean false)) else .error (.code (-1)))
      ((switchValue input).bind fun v => setAt path v (some (.object inkaObj))) := by
  unfold switchValue
  split
  · exact hset _
  · split
    · exact hset _
    · exact follows_code (by decide)

/-- The switch of the NVRAM follows the request. -/
theorem follows_enableNvram : Follows (confFileModifyEnableNvram env inkaObj input)
    ((switchValue input).bind fun v => setAt [text "use_nvram"] v (some (.object inkaObj))) :=
  follows_switch fun value => follows_setOrFail inkaObj (text "use_nvram") value

/-- The switch that saves keys follows the request. -/
theorem follows_storeKeyChange (h : Accepted env filename inkaObj) :
    Follows (confFileModifyStoreKeyChange env inkaObj input)
      ((switchValue input).bind fun v =>
        setAt [text "hpav", text "host_set_key_save"] v (some (.object inkaObj))) := by
  rcases h.hpav with ⟨hpav, hhpav⟩
  let set := fun value => inObject inkaObj (text "hpav") fun hpav =>
    setOrFail hpav (text "host_set_key_save") value
  have hset : ∀ value, Follows (set value)
      (value.bind fun v => setAt [text "hpav", text "host_set_key_save"] v (some (.object inkaObj))) :=
    fun value => follows_inObject hhpav _ value
  exact follows_switch hset

/-- The role follows the request. -/
theorem follows_role (h : Accepted env filename inkaObj) : Follows (confFileModifyRole env inkaObj input)
    ((roleName input).bind fun v => setAt [text "cp", text "force_role"] v (some (.object inkaObj))) := by
  rcases h.cp with ⟨cp, hcp⟩
  unfold confFileModifyRole roleName
  by_cases hrole : input = text "cco" ∨ input = text "sta"
  · have hutf8 : jsonValueInitString input = some (.string input) := by
      rcases hrole with rfl | rfl
      · exact if_pos (by decide)
      · exact if_pos (by decide)
    rw [if_neg (by tauto), if_pos hrole, hutf8]
    exact follows_inObject hcp _ _
  · rw [if_pos (by tauto), if_neg hrole]
    exact follows_code (by decide)

/-- Each of the three identifiers follows its request. -/
theorem follows_hfid (h : Accepted env filename inkaObj) (name : List UInt8) :
    Follows (modifyHfid name env inkaObj input)
      ((hfidName input).bind fun v => setAt [text "hpav", name] v (some (.object inkaObj))) := by
  rcases h.hpav with ⟨hpav, hhpav⟩
  unfold modifyHfid
  by_cases hlen : input.length ≤ 64
  · have hname : hfidName input = jsonValueInitString input := by
      unfold hfidName jsonValueInitString
      simp only [hlen, true_and]
    rw [if_neg (not_lt.mpr hlen), hname]
    exact follows_inObject hhpav _ _
  · have hname : hfidName input = none := if_neg fun hboth => hlen hboth.1
    rw [if_pos (not_le.mp hlen), hname]
    exact follows_code (by decide)

/-- The limit follows the request: counting steps of three down from -50 or up from -95 is the
same. -/
theorem follows_psdLimit (h : Accepted env filename inkaObj) : Follows (confFileModifyPsdLimit env inkaObj input)
    ((psdLimitIndex input).bind fun v =>
      setAt [text "phy", text "direct_afe_tx_idx"] v (some (.object inkaObj))) := by
  rcases h.phy with ⟨phy, hphy⟩
  unfold confFileModifyPsdLimit psdLimitIndex
  simp only
  generalize atoi input = val
  by_cases hrange : -50 < val ∨ val < -95
  · rw [if_pos hrange, if_neg (by omega)]
    exact follows_code (by decide)
  · by_cases hthree : (-50 - val) % 3 = 0
    · have hindex : 15 - (-50 - val) / 3 = (val + 95) / 3 := by omega
      rw [if_neg hrange, if_neg (not_not.mpr hthree), if_pos (by omega), hindex]
      exact follows_inObject hphy _ _
    · rw [if_neg hrange, if_pos hthree, if_neg (by omega)]
      exact follows_code (by decide)

/-- Nothing is set below a member that is no object. -/
theorem setAt_none {name : List UInt8} {path : List (List UInt8)} {value : Json} {object : Members}
    (h : jsonObjectGetObject object name = none) (hpath : path ≠ []) :
    setAt (name :: path) value (some (.object object)) = none := by
  rcases hset : setAt (name :: path) value (some (.object object)) with _ | t'
  · rfl
  · rcases setAt_cons hset with ⟨members, pre, post, child, hobject, -, hchild, -⟩
    cases hobject
    cases path with
    | nil => exact absurd rfl hpath
    | cons name' path =>
      rcases setAt_cons hchild with ⟨members', -, -, -, hmember, -⟩
      rw [jsonObjectGetObject_eq_some.mpr hmember] at h
      cases h

/-- The clock of a version that has one. -/
theorem follows_spiSlaveClk (hclock : hasSpiClock inkaObj = true) :
    Follows (confFileModifySpiSlaveClk env inkaObj input)
      ((spiClockIndex input).bind fun v => setAt [text "eos", text "spi_clock_idx"] v (some (.object inkaObj))) := by
  unfold confFileModifySpiSlaveClk spiClockIndex
  rw [if_pos hclock]
  simp only
  generalize atoi input = idx
  rcases heos : jsonObjectGetObject inkaObj (text "eos") with _ | eos
  · have hnone : ∀ value : Option Json, (value.bind fun v =>
        setAt [text "eos", text "spi_clock_idx"] v (some (.object inkaObj))) = none := by
      intro value
      rw [Option.bind_eq_none_iff]
      intro v _
      exact setAt_none heos (List.cons_ne_nil _ _)
    have hmissing : (none : Option Members).isNone = true := rfl
    rw [if_pos (Or.inl hmissing), hnone]
    exact follows_code (by decide)
  · by_cases hrange : 1 ≤ idx ∧ idx ≤ 4
    · have hok : ¬ ((some eos).isNone = true ∨ idx < 1 ∨ 4 < idx) := by
        rintro (hnone | hlow | hhigh)
        · cases hnone
        · omega
        · omega
      rw [if_neg hok, if_pos hrange]
      exact follows_inObject heos _ _
    · rw [if_pos (Or.inr (by omega)), if_neg hrange]
      exact follows_code (by decide)

/-! ### The network key -/

/-- The loop replaces the first four items, or fails. -/
theorem replaceLoop_eq {nmk : List UInt8} (hnmk : nmk.length = 16) (array : Option (List Json)) :
    (List.range 4).foldlM (fun array i => (jsonArrayReplaceValue array i
        (.number (Double.ofInt (nmkArrayVal nmk i)))).map some) array =
      match array with
      | none => none
      | some items =>
        if 4 ≤ items.length then some (some (numbers (nmkWords nmk) ++ items.drop 4)) else none := by
  have hwords : nmkWords nmk = (List.range 4).map (nmkArrayVal nmk) := by
    unfold nmkWords
    refine List.map_congr_left ?_
    intro i hi
    rw [List.mem_range] at hi
    exact (nmkArrayVal_eq (by omega)).symm
  rw [hwords]
  rcases array with _ | items
  · rfl
  · rcases items with _ | ⟨v0, _ | ⟨v1, _ | ⟨v2, _ | ⟨v3, items⟩⟩⟩⟩
    all_goals
      simp [List.range_succ, jsonArrayReplaceValue, numbers]

/-- A path of two names is a lookup in the member. -/
theorem valueAt_pair {inkaObj object : Members} {name field : List UInt8}
    (hget : jsonObjectGetObject inkaObj name = some object) :
    valueAt [name, field] (.object inkaObj) = jsonObjectGetValue object field := by
  rw [jsonObjectGetObject_eq_some] at hget
  unfold valueAt
  rw [hget, Option.bind_some]
  unfold valueAt
  rcases jsonObjectGetValue object field with _ | v
  · rfl
  · rfl

/-- The array at a path of two names is the array of the member. -/
theorem itemsAt_pair {inkaObj object : Members} {name field : List UInt8}
    (hget : jsonObjectGetObject inkaObj name = some object) :
    itemsAt [name, field] (.object inkaObj) = jsonObjectGetArray object field := by
  unfold itemsAt jsonObjectGetArray
  rw [valueAt_pair hget]

/-- One member after the other is looked at. -/
theorem overwrite_cons (name : List UInt8) (value : Json) (m : List UInt8 × Json) (ms : Members) :
    overwrite name value (m :: ms) = if m.1 = name then (m.1, value) :: ms else m :: overwrite name value ms := rfl

/-- The later of two values stays. -/
theorem overwrite_overwrite (name : List UInt8) (v w : Json) (object : Members) :
    overwrite name w (overwrite name v object) = overwrite name w object := by
  induction object with
  | nil => rfl
  | cons m ms ih =>
    by_cases hm : m.1 = name
    · simp only [overwrite_cons, if_pos hm]
    · simp only [overwrite_cons, if_neg hm, ih]

/-- The value that was put is found. -/
theorem jsonObjectGetValue_overwrite {object : Members} {name : List UInt8} {old : Json}
    (h : jsonObjectGetValue object name = some old) (value : Json) :
    jsonObjectGetValue (overwrite name value object) name = some value := by
  rcases jsonObjectGetValue_eq_some h with ⟨pre, post, rfl, hfresh⟩
  rw [overwrite_splice hfresh]
  exact jsonObjectGetValue_splice hfresh value post

/-- The object that was put is found. -/
theorem jsonObjectGetObject_overwrite {object member : Members} {name : List UInt8}
    (h : jsonObjectGetObject object name = some member) (member' : Members) :
    jsonObjectGetObject (overwrite name (.object member') object) name = some member' := by
  rw [jsonObjectGetObject_eq_some] at h ⊢
  exact jsonObjectGetValue_overwrite h _

/-- Where an array is found there is a value. -/
theorem exists_of_getArray {object : Members} {name : List UInt8} {items : List Json}
    (h : jsonObjectGetArray object name = some items) : ∃ old, jsonObjectGetValue object name = some old := by
  unfold jsonObjectGetArray at h
  rw [Option.bind_eq_some_iff] at h
  exact h.imp fun v hv => hv.1

/-- The key follows the request: four words, then the identifier. -/
theorem follows_nmk (h : Accepted env filename inkaObj) :
    Follows (confFileModifyNmk env inkaObj input) (requestedNmk (.object inkaObj) input) := by
  rcases h.hpav with ⟨hpav, hhpav⟩
  unfold confFileModifyNmk requestedNmk
  simp only [itemsAt_pair hhpav]
  generalize scanColonHex (some 2) 16 input = nmk
  by_cases hnmk : nmk.length = 16
  · rw [if_neg (not_not.mpr hnmk)]
    unfold inObject
    rw [hhpav]
    simp only [replaceLoop_eq hnmk]
    rcases harray : jsonObjectGetArray hpav (text "nmk") with _ | items
    · exact follows_code (by decide)
    · by_cases hfour : 4 ≤ items.length
      · -- both settings are made within the one object
        rcases exists_of_getArray harray with ⟨old, hold⟩
        simp only [Option.bind_eq_bind, Option.bind_some, hnmk, hfour, and_self, if_true]
        generalize numbers (nmkWords nmk) ++ items.drop 4 = items'
        have hfirst : setAt [text "hpav", text "nmk"] (.array items') (some (.object inkaObj)) =
            some (.object (overwrite (text "hpav") (.object (overwrite (text "nmk") (.array items') hpav)) inkaObj)) := by
          rw [setAt_member hhpav]
          show ((jsonObjectSetValue hpav (text "nmk") (some (.array items'))).map Json.object).map _ = _
          rw [jsonObjectSetValue_of_get hold]
          rfl
        -- the second setting starts from the tree the first one left: `nid` goes into
        -- the `hpav` object that already holds the new `nmk`
        have hhpav' := jsonObjectGetObject_overwrite hhpav (overwrite (text "nmk") (.array items') hpav)
        have hsecond := follows_inObject hhpav' (text "nid") (some (.number (Double.ofInt 0)))
        unfold inObject at hsecond
        simp only [hhpav', overwrite_overwrite, Option.bind_some] at hsecond
        rw [hfirst]
        exact hsecond
      · -- fewer than four words: the command gives up before the first setting
        simp only [Option.bind_eq_bind, Option.bind_some, hfour, and_false, if_false]
        exact follows_code (by decide)
  · -- fewer than sixteen bytes are read from the argument, whatever the tree holds
    rw [if_pos hnmk]
    have hnone : (do
        let items ← jsonObjectGetArray hpav (text "nmk")
        if nmk.length = 16 ∧ 4 ≤ items.length then do
          let tree ← setAt [text "hpav", text "nmk"] (.array (numbers (nmkWords nmk) ++ items.drop 4))
            (some (.object inkaObj))
          setAt [text "hpav", text "nid"] (.number (Double.ofInt 0)) (some tree)
        else none) = none := by
      rcases jsonObjectGetArray hpav (text "nmk") with _ | items
      · rfl
      · exact if_neg fun hboth => hnmk hboth.1
    rw [hnone]
    exact follows_code (by decide)

/-- The modifier of every key. -/
theorem findModifier_cases {key : List UInt8} {fct : Modifier} (h : findModifier key = some fct) :
    (key = text "mac" ∧ fct = confFileModifyMac) ∨
    (key = text "enable_nvram" ∧ fct = confFileModifyEnableNvram) ∨
    (key = text "store_key_change" ∧ fct = confFileModifyStoreKeyChange) ∨
    (key = text "nmk" ∧ fct = confFileModifyNmk) ∨
    (key = text "role" ∧ fct = confFileModifyRole) ∨
    (key = text "avln_hfid" ∧ fct = confFileModifyAvlnHfid) ∨
    (key = text "m_hfid" ∧ fct = confFileModifyMHfid) ∨
    (key = text "u_hfid" ∧ fct = confFileModifyUHfid) ∨
    (key = text "psd_limit" ∧ fct = confFileModifyPsdLimit) ∨
    (key = text "psd_cali" ∧ fct = confFileModifyPsdCali) ∨
    (key = text "spi_slave_clk" ∧ fct = confFileModifySpiSlaveClk) := by
  unfold findModifier at h
  rw [Option.map_eq_some_iff] at h
  rcases h with ⟨⟨name, modifier⟩, hfind, rfl⟩
  have hmem := List.mem_of_find?_eq_some hfind
  have hname : key = name := by simpa using List.find?_some hfind
  subst hname
  rw [List.mem_reverse] at hmem
  simpa only [confFileModifyFctNameTable, List.mem_cons, List.not_mem_nil, or_false, Prod.mk.injEq] using hmem

/-- Every key but that of the map, and that of the clock on a version without one. -/
theorem follows_requestedTree (h : Accepted env filename inkaObj) {key : List UInt8} {fct : Modifier}
    (hkey : findModifier key = some fct) (hpsd : key ≠ text "psd_cali")
    (hspi : key = text "spi_slave_clk" → hasSpiClock inkaObj = true) :
    Follows (fct env inkaObj input) (requestedTree env.files (.object inkaObj) key input) := by
  rcases findModifier_cases hkey with ⟨rfl, rfl⟩ | ⟨rfl, rfl⟩ | ⟨rfl, rfl⟩ | ⟨rfl, rfl⟩ | ⟨rfl, rfl⟩ | ⟨rfl, rfl⟩ |
    ⟨rfl, rfl⟩ | ⟨rfl, rfl⟩ | ⟨rfl, rfl⟩ | ⟨rfl, rfl⟩ | ⟨rfl, rfl⟩
  · exact follows_mac
  · exact follows_enableNvram
  · exact follows_storeKeyChange h
  · exact follows_nmk h
  · exact follows_role h
  · exact follows_hfid h (text "avln_hfid")
  · exact follows_hfid h (text "m_hfid")
  · exact follows_hfid h (text "u_hfid")
  · exact follows_psdLimit h
  · exact absurd rfl hpsd
  · exact follows_spiSlaveClk (hspi rfl)

/-! ### The amplitude map -/

/-- The words that are saved for a map, where `words` are meant. -/
def savedWords (env : ModifyEnv) (words : List Nat) : List Nat :=
  firstWord env.uninitialized.toNat (words.map signExtend)

/-- A file that can be applied to the map is applied, and the words that are saved are put
where the map was. -/
theorem psdCali_ok (h : Accepted env filename inkaObj) {content : List UInt8} {items : List Json}
    {as : List Adjustment} (hfile : env.files.contents input = some content)
    (hitems : itemsAt [text "phy", text "am_infile"] (.object inkaObj) = some items)
    (has : fileAdjustments content = .ok as) (hwithin : ∀ a ∈ as, a.Within (8 * items.length)) :
    ∃ inkaObj', confFileModifyPsdCali env inkaObj input = .ok inkaObj' ∧
      setAt [text "phy", text "am_infile"] (.array (numbers (savedWords env (calibratedWords items as))))
        (some (.object inkaObj)) = some (.object inkaObj') := by
  rcases h.phy with ⟨phy, hphy⟩
  rw [itemsAt_pair hphy] at hitems
  have hcalibrated := calibrated_eq_ok_iff.mpr ⟨as, has, hwithin, rfl⟩
  have hsaved := savedItems_eq env.uninitialized.toNat (nibbles_mapIdx items as)
  rcases exists_of_getArray hitems with ⟨old, hold⟩
  refine ⟨overwrite (text "phy") (.object (overwrite (text "am_infile")
    (.array (numbers (savedWords env (calibratedWords items as)))) phy)) inkaObj, ?_, ?_⟩
  · unfold confFileModifyPsdCali inObject
    simp only [hfile, hphy, hitems, Option.getD_some, hcalibrated, hsaved]
    rfl
  · rw [setAt_member hphy]
    show ((jsonObjectSetValue phy (text "am_infile") (some (.array _))).map Json.object).map _ = _
    rw [jsonObjectSetValue_of_get hold]
    rfl

/-- A file that cannot be opened is an error. -/
theorem psdCali_no_file (hfile : env.files.contents input = none) :
    confFileModifyPsdCali env inkaObj input = .error (.code (-3)) := by
  unfold confFileModifyPsdCali
  rw [hfile]

/-- What is done with a file that asks for nothing is no error that would be reported. -/
theorem psdCali_none (h : Accepted env filename inkaObj) (hfile : env.files.contents input ≠ none)
    (hnone : requestedPsdCali env.files (.object inkaObj) input = none) :
    ∀ rv, confFileModifyPsdCali env inkaObj input ≠ .error (.code rv) := by
  intro rv hrun
  rcases h.phy with ⟨phy, hphy⟩
  rcases hcontent : env.files.contents input with _ | content
  · exact hfile hcontent
  have hitems : itemsAt [text "phy", text "am_infile"] (.object inkaObj) =
      jsonObjectGetArray phy (text "am_infile") := itemsAt_pair hphy
  unfold confFileModifyPsdCali inObject at hrun
  rcases harray : jsonObjectGetArray phy (text "am_infile") with _ | items
  · -- no `am_infile`: the lines are still read, and a run that comes through them
    -- ends without a refusal
    simp only [hcontent, hphy, harray, Option.getD_none] at hrun
    rcases hcalibrated : calibrated [] content with e | backoffs
    · rw [hcalibrated] at hrun
      cases hrun
    · rw [hcalibrated] at hrun
      cases hrun
  · simp only [hcontent, hphy, harray, Option.getD_some] at hrun
    rcases hcalibrated : calibrated items content with e | backoffs
    · rw [hcalibrated] at hrun
      cases hrun
    · -- then the file could be applied
      rcases calibrated_eq_ok_iff.mp hcalibrated with ⟨as, has, hwithin, -⟩
      rw [harray] at hitems
      rcases psdCali_ok h hcontent hitems has hwithin with ⟨inkaObj', -, hset⟩
      have hsome := setAt_isSome (.array (numbers (calibratedWords items as))) (by rw [hset]; rfl)
      unfold requestedPsdCali at hnone
      simp only [hcontent, hitems, has, Except.toOption, Option.bind_eq_bind, Option.bind_some] at hnone
      rw [if_pos hwithin] at hnone
      rw [hnone] at hsome
      cases hsome

/-- A calibration that is asked for has a file, a map, and adjustments within the map. -/
theorem requestedPsdCali_eq_some {r : Json} (h : requestedPsdCali env.files (.object inkaObj) input = some r) :
    ∃ content items as, env.files.contents input = some content ∧
      itemsAt [text "phy", text "am_infile"] (.object inkaObj) = some items ∧
      fileAdjustments content = .ok as ∧ (∀ a ∈ as, a.Within (8 * items.length)) ∧
      setAt [text "phy", text "am_infile"] (.array (numbers (calibratedWords items as))) (some (.object inkaObj)) =
        some r := by
  unfold requestedPsdCali at h
  simp only [Option.bind_eq_bind, Option.bind_eq_some_iff] at h
  rcases h with ⟨content, hcontent, items, hitems, as, has, h⟩
  split at h
  · rcases hfile : fileAdjustments content with e | as'
    · rw [hfile] at has
      cases has
    · rw [hfile] at has
      cases has
      exact ⟨content, items, as, hcontent, hitems, hfile, ‹_›, h⟩
  · cases h

end Keys

/-! ## The trees are trees of a file -/

/-- Whatever stands within a field, a value without nesting may stand there. -/
def Scalar (v : Json) : Prop :=
  ∀ n, Parsed n v

/-- A value under a condition is scalar if the value is. -/
theorem scalar_of_ite {p : Prop} [Decidable p] {w : Json} (hw : Scalar w) :
    ∀ v, (if p then some w else none) = some v → Scalar v := by
  intro v hv
  split at hv
  · cases hv
    exact hw
  · cases hv

/-- A switch is scalar. -/
theorem scalar_switchValue (input : List UInt8) : ∀ v, switchValue input = some v → Scalar v := by
  intro v hv n
  unfold switchValue at hv
  split at hv
  · cases hv
    exact Parsed.boolean
  · split at hv
    · cases hv
      exact Parsed.boolean
    · cases hv

/-- An address is scalar. -/
theorem scalar_macNumber (input : List UInt8) : ∀ v, macNumber input = some v → Scalar v := by
  intro v hv n
  unfold macNumber at hv
  rw [Option.map_eq_some_iff] at hv
  rcases hv with ⟨mac, -, rfl⟩
  exact Parsed.number

/-- The fields have names that can be written, at most two levels below the root. -/
def FieldPath (path : List (List UInt8)) : Prop :=
  path.length ≤ 2 ∧ ∀ name ∈ path, 0 ∉ name

instance (path : List (List UInt8)) : Decidable (FieldPath path) :=
  inferInstanceAs (Decidable (_ ∧ _))

/-- A setting of a field whose value has nothing within it. -/
structure ScalarSetting (setting : List (List UInt8) × Option Json) : Prop where
  path : FieldPath setting.1
  value : ∀ v, setting.2 = some v → Scalar v

/-- A setting under a condition is scalar in both branches. -/
theorem scalarSetting_ite {p : Prop} [Decidable p] {path : List (List UInt8)} {value : Option Json}
    {setting : List (List UInt8) × Option Json} (hpath : FieldPath path)
    (hvalue : ∀ v, value = some v → Scalar v) (hsetting : ScalarSetting setting) :
    ScalarSetting (if p then (path, value) else setting) := by
  split
  · exact ⟨hpath, hvalue⟩
  · exact hsetting

/-- Every key of one value sets a scalar at the path of a field. -/
theorem scalarSetting_requestedSetting (key : List UInt8) {input : List UInt8} (hinput : 0 ∉ input) :
    ScalarSetting (requestedSetting key input) := by
  have hstring : Scalar (.string input) := fun n => Parsed.string hinput
  have hnumber : ∀ x, Scalar (.number x) := fun x n => Parsed.number
  unfold requestedSetting
  -- the keys in the order of the table: a MAC address, switches, strings, numbers
  refine scalarSetting_ite (by decide) (scalar_macNumber input) ?_
  refine scalarSetting_ite (by decide) (scalar_switchValue input) ?_
  refine scalarSetting_ite (by decide) (scalar_switchValue input) ?_
  refine scalarSetting_ite (by decide) (scalar_of_ite hstring) ?_
  refine scalarSetting_ite (by decide) (scalar_of_ite hstring) ?_
  refine scalarSetting_ite (by decide) (scalar_of_ite hstring) ?_
  refine scalarSetting_ite (by decide) (scalar_of_ite hstring) ?_
  refine scalarSetting_ite (by decide) (scalar_of_ite (hnumber _)) ?_
  refine scalarSetting_ite (by decide) (scalar_of_ite (hnumber _)) ?_
  exact ⟨(by decide : FieldPath []), nofun⟩

/-- A tree that could have been parsed stays one if such a value is put at a field. -/
theorem FieldPath.parsed {path : List (List UInt8)} (hpath : FieldPath path) {tree r value : Json}
    (htree : Parsed maxNesting tree) (hvalue : Parsed (maxNesting - path.length) value)
    (h : setAt path value (some tree) = some r) : Parsed maxNesting r := by
  have hlevels : maxNesting - path.length + path.length = maxNesting := by
    have hlen := hpath.1
    have hmax : maxNesting = 19 := rfl
    omega
  have hset := Parsed.setAt (n := maxNesting - path.length) (by rw [hlevels]; exact htree) hvalue hpath.2 h
  rw [hlevels] at hset
  exact hset

/-- An array whose items are old ones or numbers, as many as there were. -/
theorem parsed_items {n : Nat} {items items' : List Json} (h : Parsed n (.array items))
    (hlen : items'.length = items.length) (hitems : ∀ v ∈ items', v ∈ items ∨ ∃ x, v = .number x) :
    Parsed n (.array items') := by
  cases h with
  | emptyArray =>
    obtain rfl : items' = [] := List.length_eq_zero_iff.mp hlen
    exact Parsed.emptyArray
  | array hmax hparsed =>
    refine Parsed.array (by rw [hlen]; exact hmax) ?_
    intro v hv
    rcases hitems v hv with hold | ⟨x, rfl⟩
    · exact hparsed v hold
    · exact Parsed.number

/-- Words are numbers. -/
theorem mem_numbers {words : List Nat} {v : Json} (h : v ∈ numbers words) : ∃ x, v = .number x := by
  unfold numbers at h
  rw [List.mem_map] at h
  rcases h with ⟨word, -, rfl⟩
  exact ⟨_, rfl⟩

/-- There are as many numbers as words. -/
theorem length_numbers (words : List Nat) : (numbers words).length = words.length :=
  List.length_map _

/-- An array of a parsed tree could have been parsed. -/
theorem parsed_itemsAt {path : List (List UInt8)} (hpath : FieldPath path) {tree : Json} {items : List Json}
    (htree : Parsed maxNesting tree) (h : itemsAt path tree = some items) :
    Parsed (maxNesting - path.length) (.array items) := by
  have hlevels : maxNesting - path.length + path.length = maxNesting := by
    have hlen := hpath.1
    have hmax : maxNesting = 19 := rfl
    omega
  unfold itemsAt at h
  rw [Option.bind_eq_some_iff] at h
  rcases h with ⟨v, hv, harray⟩
  cases v with
  | array items' =>
    cases harray
    exact parsed_valueAt (by rw [hlevels]; exact htree) hv
  | null | boolean | number | string | object => cases harray

/-- A calibration keeps the number of words. -/
theorem length_calibratedWords (items : List Json) (as : List Adjustment) :
    (calibratedWords items as).length = items.length :=
  length_packedWords items.length (nibbles_mapIdx items as).length

/-- Every calibrated word fits 32 bits. -/
theorem calibratedWords_lt (items : List Json) (as : List Adjustment) :
    ∀ word ∈ calibratedWords items as, word < 2 ^ 32 :=
  packedWords_lt (nibbles_mapIdx items as).lt

/-- The words that are saved are as many as there were. -/
theorem length_savedWords (env : ModifyEnv) (items : List Json) (as : List Adjustment) :
    (savedWords env (calibratedWords items as)).length = items.length := by
  unfold savedWords
  rw [length_firstWord, List.length_map, length_calibratedWords]

/-- Words in the place of the map, as many as there were. -/
theorem parsed_amInfile {tree saved : Json} {items : List Json} {words : List Nat} (htree : Parsed maxNesting tree)
    (hitems : itemsAt [text "phy", text "am_infile"] tree = some items) (hwords : words.length = items.length)
    (hset : setAt [text "phy", text "am_infile"] (.array (numbers words)) (some tree) = some saved) :
    Parsed maxNesting saved := by
  have ham : FieldPath [text "phy", text "am_infile"] := by decide
  refine ham.parsed htree (parsed_items (parsed_itemsAt ham htree hitems) ?_ ?_) hset
  · rw [length_numbers, hwords]
  · intro v hv
    exact Or.inr (mem_numbers hv)

/-- The tree that is asked for is one the parser could have made. -/
theorem parsed_requestedTree {files : FileSystem} {tree r : Json} {key input : List UInt8} (hinput : 0 ∉ input)
    (htree : Parsed maxNesting tree) (h : requestedTree files tree key input = some r) : Parsed maxNesting r := by
  unfold requestedTree at h
  split at h
  · -- two settings one after the other, each at a path of fields
    unfold requestedNmk at h
    simp only [Option.bind_eq_bind, Option.bind_eq_some_iff] at h
    rcases h with ⟨items, hitems, h⟩
    split at h
    · rename_i hsizes
      rw [Option.bind_eq_some_iff] at h
      rcases h with ⟨tree', hfirst, hsecond⟩
      have hwords : (nmkWords (scanColonHex (some 2) 16 input)).length = 4 := by
        unfold nmkWords
        rw [List.length_map, List.length_range]
      have hnmk : FieldPath [text "hpav", text "nmk"] := by decide
      have hnid : FieldPath [text "hpav", text "nid"] := by decide
      have harray : Parsed (maxNesting - 2)
          (.array (numbers (nmkWords (scanColonHex (some 2) 16 input)) ++ items.drop 4)) := by
        refine parsed_items (parsed_itemsAt hnmk htree hitems) ?_ ?_
        · rw [List.length_append, length_numbers, hwords, List.length_drop]
          omega
        · intro v hv
          rw [List.mem_append] at hv
          rcases hv with hv | hv
          · exact Or.inr (mem_numbers hv)
          · exact Or.inl (List.mem_of_mem_drop hv)
      exact hnid.parsed (hnmk.parsed htree harray hfirst) Parsed.number hsecond
    · cases h
  · split at h
    · -- one setting, of an array of the length the old one had
      unfold requestedPsdCali at h
      simp only [Option.bind_eq_bind, Option.bind_eq_some_iff] at h
      rcases h with ⟨content, -, items, hitems, as, -, h⟩
      split at h
      · exact parsed_amInfile htree hitems (length_calibratedWords items as) h
      · cases h
    · simp only [Option.bind_eq_some_iff] at h
      rcases h with ⟨value, hvalue, hset⟩
      have hsetting := scalarSetting_requestedSetting key hinput
      exact hsetting.path.parsed htree (hsetting.value value hvalue _) hset

/-! ## What is written -/

/-- What a file is parsed to could have been parsed. -/
theorem parsed_of_jsonParseFile {files : FileSystem} {filename : List UInt8} {tree : Json}
    (h : jsonParseFile files filename = some tree) : Parsed maxNesting tree := by
  unfold jsonParseFile at h
  rw [Option.bind_eq_some_iff] at h
  rcases h with ⟨bytes, -, hparse⟩
  exact parsed_of_jsonParseContents hparse

/-- The index of a clock is read back as it was written. -/
theorem restorable_spiClockIndex {input : List UInt8} {v : Json} (h : spiClockIndex input = some v) :
    Restorable v := by
  unfold spiClockIndex at h
  simp only at h
  split at h
  · cases h
    exact restorable_ofInt (by omega)
  · cases h

/-- An array of words is read back as it was written. -/
theorem restorable_numbers {words : List Nat} (h : ∀ word ∈ words, word < 2 ^ 64) :
    Restorable (.array (numbers words)) := by
  refine Restorable.array ?_
  intro v hv
  unfold numbers at hv
  rw [List.mem_map] at hv
  rcases hv with ⟨word, hword, rfl⟩
  rcases Double.whole_ofInt (h word hword) with ⟨units, hrep, heq, hwhole⟩
  rw [heq]
  exact Restorable.number (rereadNumber_whole hwhole)

/-- Behind the command the file is read as `reread` says if it could be written, and as
before if not. -/
theorem jsonParseFile_write {files : FileSystem} {filename : List UInt8} {tree value : Json}
    (hvalue : Parsed maxNesting value) (htree : jsonParseFile files filename = some tree) :
    jsonParseFile (jsonSerializeToFile files value filename) filename =
      if files.writable filename then reread value else some tree := by
  unfold jsonSerializeToFile FileSystem.write
  split
  · unfold jsonParseFile
    simp only [Function.update_self, Option.bind_some]
    exact jsonParseContents_jsonSerialize hvalue
  · exact htree

/-! ## The promise and its conditions -/

/-- What the command promises: it returns, and if it returns 0 the file can be parsed again
and is the tree that was asked for; if it returns anything else the file is as it was. -/
def Promised (env : ModifyEnv) (argv : List Argument) : Prop :=
  ∃ rv files', confFileModify env argv = .ok (rv, files') ∧
    (rv = 0 → ∃ filename key input rest tree r, argv = filename :: key :: input :: rest ∧
      jsonParseFile env.files filename = some tree ∧ requestedTree env.files tree key input = some r ∧
      jsonParseFile files' filename = some r) ∧
    (rv ≠ 0 → ∀ filename, files'.contents filename = env.files.contents filename)

/-- What the tree that is asked for has to be like to be what the file is read as. -/
structure Survives (env : ModifyEnv) (inkaObj : Members) (key input : List UInt8) (r : Json) : Prop where
  restorable : Restorable r
  clock : key = text "spi_slave_clk" → hasSpiClock inkaObj = true ∨
    ∃ old, valueAt [text "eos", text "spi_clock_idx"] (.object inkaObj) = some old ∧
      reread old = spiClockIndex input
  words : key = text "psd_cali" → ∀ content items as, env.files.contents input = some content →
    itemsAt [text "phy", text "am_infile"] (.object inkaObj) = some items → fileAdjustments content = .ok as →
    WordsKept env.uninitialized.toNat (calibratedWords items as)

/-- The conditions under which the command keeps its promise. -/
def Kept (env : ModifyEnv) (argv : List Argument) : Prop :=
  ∀ (filename key input : Argument) (rest : List Argument) (inkaObj : Members),
    argv = filename :: key :: input :: rest → Accepted env filename inkaObj → (findModifier key).isSome →
    ((key.val = text "spi_slave_clk" ∧ hasSpiClock inkaObj = false) ∨
        (key.val = text "psd_cali" ∧ env.files.contents input ≠ none) →
      requestedTree env.files (.object inkaObj) key input ≠ none) ∧
    ∀ r, requestedTree env.files (.object inkaObj) key input = some r →
      if env.files.writable filename then Survives env inkaObj key input r else r = .object inkaObj

section Run

variable {env : ModifyEnv} {filename key input : Argument} {rest : List Argument} {inkaObj : Members}
  {fct : Modifier}

/-- A command that gets as far as a modifier. -/
theorem confFileModify_run (h : Accepted env filename inkaObj) (hkey : findModifier key = some fct)
    (input : Argument) (rest : List Argument) :
    confFileModify env (filename :: key :: input :: rest) =
      match fct env inkaObj input with
      | .ok inkaObj => .ok (0, jsonSerializeToFile env.files (.object inkaObj) filename)
      | .error (.code rv) => .ok (if rv = -1 then exitUsage else rv, env.files)
      | .error (.fault f) => .error f := by
  rcases h.hpav with ⟨hpav, hhpav⟩
  rcases h.cp with ⟨cp, hcp⟩
  rcases h.phy with ⟨phy, hphy⟩
  have hobjects : ¬ ((some hpav).isNone = true ∨ (some cp).isNone = true ∨ (some phy).isNone = true) := by
    rintro (hnone | hnone | hnone) <;> cases hnone
  unfold confFileModify
  rcases hfct : fct env inkaObj input with (rv | f) | inkaObj'
  all_goals
    simp only [h.parsed, jsonValueGetObject, hhpav, hcp, hphy, if_neg hobjects, hkey, hfct]

/-- Any other command leaves the files alone. -/
theorem confFileModify_rejected {argv : List Argument}
    (h : ∀ (filename key input : Argument) (rest : List Argument) (inkaObj : Members),
      argv = filename :: key :: input :: rest → Accepted env filename inkaObj → findModifier key = none) :
    confFileModify env argv = .ok (-1, env.files) := by
  unfold confFileModify
  split
  · rename_i filename key input rest
    rcases hparse : jsonParseFile env.files filename with _ | inkaValue
    · rfl
    simp only
    rcases hobject : jsonValueGetObject inkaValue with _ | inkaObj
    · rfl
    simp only
    split
    · rfl
    · rename_i hobjects
      have hvalue : inkaValue = .object inkaObj := by
        cases inkaValue with
        | object ms =>
          cases hobject
          rfl
        | null | boolean | number | string | array => cases hobject
      simp only [not_or, Option.isNone_iff_eq_none, ← Option.isSome_iff_ne_none,
        Option.isSome_iff_exists] at hobjects
      rw [hvalue] at hparse
      have hnone := h filename key input rest inkaObj rfl ⟨hparse, hobjects.1, hobjects.2.1, hobjects.2.2⟩
      rw [hnone]
  · rfl

/-- A modifier that refuses leaves the file alone, and the promise holds. -/
theorem promised_of_code (h : Accepted env filename inkaObj) (hkey : findModifier key = some fct) {rv : Int}
    (hrun : fct env inkaObj input = .error (.code rv)) (hrv : rv ≠ 0) :
    Promised env (filename :: key :: input :: rest) := by
  have hcommand := confFileModify_run h hkey input rest
  rw [hrun] at hcommand
  refine ⟨_, _, hcommand, ?_, fun _ _ => rfl⟩
  intro hzero
  exfalso
  split at hzero
  · cases hzero
  · exact hrv hzero

/-- The promise of a modifier that returns 0. -/
theorem promised_of_ok_iff (h : Accepted env filename inkaObj) (hkey : findModifier key = some fct)
    {inkaObj' : Members} (hrun : fct env inkaObj input = .ok inkaObj')
    (hparsed : ∀ r, requestedTree env.files (.object inkaObj) key input = some r →
      Parsed maxNesting (.object inkaObj')) :
    Promised env (filename :: key :: input :: rest) ↔
      ∃ r, requestedTree env.files (.object inkaObj) key input = some r ∧
        if env.files.writable filename then reread (.object inkaObj') = some r else r = .object inkaObj := by
  have hcommand := confFileModify_run h hkey input rest
  rw [hrun] at hcommand
  have hfile : ∀ r, requestedTree env.files (.object inkaObj) key input = some r →
      ((if env.files.writable filename then reread (.object inkaObj') = some r else r = .object inkaObj) ↔
        jsonParseFile (jsonSerializeToFile env.files (.object inkaObj') filename) filename = some r) := by
    intro r hr
    rw [jsonParseFile_write (hparsed r hr) h.parsed]
    split
    · exact Iff.rfl
    · rw [Option.some.injEq]
      exact eq_comm
  constructor
  · rintro ⟨rv, files', hrun', hzero, -⟩
    rw [hcommand] at hrun'
    cases hrun'
    rcases hzero rfl with ⟨filename', key', input', rest', tree, r, hargv, htree, hr, hread⟩
    cases hargv
    rw [h.parsed] at htree
    cases htree
    exact ⟨r, hr, (hfile r hr).mpr hread⟩
  · rintro ⟨r, hr, hread⟩
    refine ⟨0, _, hcommand, ?_, fun hne => absurd rfl hne⟩
    intro _
    exact ⟨filename, key, input, rest, _, r, rfl, h.parsed, hr, (hfile r hr).mp hread⟩

/-- A run that faults promises nothing. -/
theorem not_promised_of_fault (h : Accepted env filename inkaObj) (hkey : findModifier key = some fct) {f : Fault}
    (hrun : fct env inkaObj input = .error (.fault f)) : ¬ Promised env (filename :: key :: input :: rest) := by
  have hcommand := confFileModify_run h hkey input rest
  rw [hrun] at hcommand
  rintro ⟨rv, files', hrun', -⟩
  rw [hcommand] at hrun'
  cases hrun'

/-- The conditions, for a command that gets as far as a modifier. -/
theorem kept_iff (h : Accepted env filename inkaObj) (hkey : findModifier key = some fct) :
    Kept env (filename :: key :: input :: rest) ↔
      ((key.val = text "spi_slave_clk" ∧ hasSpiClock inkaObj = false) ∨
          (key.val = text "psd_cali" ∧ env.files.contents input ≠ none) →
        requestedTree env.files (.object inkaObj) key input ≠ none) ∧
      ∀ r, requestedTree env.files (.object inkaObj) key input = some r →
        if env.files.writable filename then Survives env inkaObj key input r else r = .object inkaObj := by
  constructor
  · intro hkept
    exact hkept filename key input rest inkaObj rfl h (by rw [hkey]; rfl)
  · intro hbody filename' key' input' rest' inkaObj' hargv h' _
    cases hargv
    have hsame := h.parsed.symm.trans h'.parsed
    cases hsame
    exact hbody

/-- A modifier that returns 0 for what nothing could be asked for breaks the promise. -/
theorem not_promised_of_nothing (h : Accepted env filename inkaObj) (hkey : findModifier key = some fct)
    {inkaObj' : Members} (hrun : fct env inkaObj input = .ok inkaObj')
    (hnone : requestedTree env.files (.object inkaObj) key input = none) :
    ¬ Promised env (filename :: key :: input :: rest) := by
  have hnever : ∀ r, requestedTree env.files (.object inkaObj) key input ≠ some r := by
    intro r hr
    rw [hnone] at hr
    cases hr
  rw [promised_of_ok_iff h hkey hrun fun r hr => absurd hr (hnever r)]
  rintro ⟨r, hr, -⟩
  exact hnever r hr

/-- Where the request is known, all that is left to see is when it is read back. -/
theorem promised_iff_of_request (h : Accepted env filename inkaObj) (hkey : findModifier key = some fct)
    {inkaObj' : Members} {r : Json} (hrun : fct env inkaObj input = .ok inkaObj')
    (hr : requestedTree env.files (.object inkaObj) key input = some r)
    (hparsed : Parsed maxNesting (.object inkaObj'))
    (hread : reread (.object inkaObj') = some r ↔ Survives env inkaObj key input r) :
    Promised env (filename :: key :: input :: rest) ↔ Kept env (filename :: key :: input :: rest) := by
  rw [promised_of_ok_iff h hkey hrun fun _ _ => hparsed, kept_iff h hkey, hr]
  constructor
  · rintro ⟨r', hr', hfile⟩
    cases hr'
    rw [hread] at hfile
    refine ⟨fun _ => Option.some_ne_none _, ?_⟩
    intro r' hr'
    cases hr'
    exact hfile
  · rintro ⟨-, hall⟩
    refine ⟨r, rfl, ?_⟩
    rw [hread]
    exact hall r rfl

/-- A modifier that follows the request. -/
theorem promised_iff_of_follows (h : Accepted env filename inkaObj) (hkey : findModifier key = some fct)
    (hpsd : key.val ≠ text "psd_cali") (hspi : key.val = text "spi_slave_clk" → hasSpiClock inkaObj = true) :
    Promised env (filename :: key :: input :: rest) ↔ Kept env (filename :: key :: input :: rest) := by
  have hfollows := @follows_requestedTree _ _ input _ h _ _ hkey hpsd hspi
  rcases hr : requestedTree env.files (.object inkaObj) key input with _ | r
  · -- a setting that cannot be made is refused with a code
    rw [hr] at hfollows
    rcases hfollows with ⟨rv, hrun, hrv⟩
    rw [kept_iff h hkey, hr]
    refine iff_of_true (promised_of_code h hkey hrun hrv) ⟨?_, fun r hr => nomatch hr⟩
    rintro (⟨hkeyspi, hno⟩ | ⟨hkeypsd, -⟩)
    · rw [hspi hkeyspi] at hno
      cases hno
    · exact absurd hkeypsd hpsd
  · -- the tree that is written is the one asked for, and it has to survive that
    rw [hr] at hfollows
    rcases hfollows with ⟨inkaObj', hrun, rfl⟩
    have hparsed := parsed_requestedTree input.property (parsed_of_jsonParseFile h.parsed) hr
    refine promised_iff_of_request h hkey hrun hr hparsed ?_
    rw [reread_eq_self_iff]
    constructor
    · intro hrestorable
      exact ⟨hrestorable, fun hk => Or.inl (hspi hk), fun hk => absurd hk hpsd⟩
    · intro hsurvives
      exact hsurvives.restorable

/-- The tree a clock is set in is read back with that clock exactly if it had it already. -/
theorem reread_spiClock_iff (hno : hasSpiClock inkaObj = false) (hkey : key.val = text "spi_slave_clk")
    {v r : Json} (hv : spiClockIndex input = some v)
    (hset : setAt [text "eos", text "spi_clock_idx"] v (some (.object inkaObj)) = some r) :
    reread (.object inkaObj) = some r ↔ Survives env inkaObj key input r := by
  have hscalar := restorable_spiClockIndex hv
  have hpsd : key.val ≠ text "psd_cali" := by
    rw [hkey]
    decide
  constructor
  · intro hread
    -- the field that is read back as the requested one was there before
    have hfield := @valueAt_reread [text "eos", text "spi_clock_idx"] _ _ hread
    rw [valueAt_setAt hset, eq_comm, Option.bind_eq_some_iff] at hfield
    rcases hfield with ⟨old, hold, hback⟩
    have hsame := (reread_setAt hscalar (setAt_valueAt hold) hset).mp hread
    exact ⟨hsame.1, fun _ => Or.inr ⟨old, hold, by rw [hback, hv]⟩, fun hk => absurd hk hpsd⟩
  · intro hsurvives
    rcases hsurvives.clock hkey with hclock | ⟨old, hold, hback⟩
    · rw [hno] at hclock
      cases hclock
    · rw [reread_setAt hscalar (setAt_valueAt hold) hset, hback]
      exact ⟨hsurvives.restorable, hv⟩

/-- The clock of a version without one: the tree is written as it was. -/
theorem promised_iff_of_no_clock (h : Accepted env filename inkaObj) (hkey : key.val = text "spi_slave_clk")
    (hno : hasSpiClock inkaObj = false) :
    Promised env (filename :: key :: input :: rest) ↔ Kept env (filename :: key :: input :: rest) := by
  have hfct : findModifier key = some confFileModifySpiSlaveClk := by
    rw [hkey]
    rfl
  have hrun : confFileModifySpiSlaveClk env inkaObj input = .ok inkaObj := by
    unfold confFileModifySpiSlaveClk
    rw [hno]
    rfl
  have hrequested : requestedTree env.files (.object inkaObj) key input = (spiClockIndex input).bind fun v =>
      setAt [text "eos", text "spi_clock_idx"] v (some (.object inkaObj)) := by
    rw [hkey]
    rfl
  rcases hr : requestedTree env.files (.object inkaObj) key input with _ | r
  · refine iff_of_false (not_promised_of_nothing h hfct hrun hr) ?_
    rw [kept_iff h hfct]
    rintro ⟨hsome, -⟩
    exact hsome (Or.inl ⟨hkey, hno⟩) hr
  · refine promised_iff_of_request h hfct hrun hr (parsed_of_jsonParseFile h.parsed) ?_
    rw [hrequested, Option.bind_eq_some_iff] at hr
    rcases hr with ⟨v, hv, hset⟩
    exact reread_spiClock_iff hno hkey hv hset

/-- The map that is saved is read back as the one that is asked for exactly if its words are. -/
theorem reread_psdCali_iff {items : List Json} {as : List Adjustment} {saved r : Json}
    (hsaved : setAt [text "phy", text "am_infile"]
      (.array (numbers (savedWords env (calibratedWords items as)))) (some (.object inkaObj)) = some saved)
    (hset : setAt [text "phy", text "am_infile"] (.array (numbers (calibratedWords items as)))
      (some (.object inkaObj)) = some r) :
    reread saved = some r ↔ Restorable r ∧ WordsKept env.uninitialized.toNat (calibratedWords items as) := by
  have hnarrow : ∀ word ∈ calibratedWords items as, word < 2 ^ 64 :=
    fun word hword => lt_trans (calibratedWords_lt items as word hword) (by decide)
  have hwide : ∀ word ∈ savedWords env (calibratedWords items as), word < 2 ^ 64 :=
    firstWord_lt env.uninitialized.toNat_lt (calibratedWords_lt items as)
  rw [reread_setAt (restorable_numbers hnarrow) hsaved hset, (reread_eq_self_iff _).mpr (restorable_numbers hwide),
    ← firstWord_eq_iff]
  refine and_congr_right fun _ => ?_
  constructor
  · intro hsame
    injection hsame with harray
    injection harray with hitems
    exact numbers_injective (fun word hword => lt_trans (calibratedWords_lt items as word hword) (by decide)) hitems
  · intro hsame
    unfold savedWords
    rw [hsame]

/-- The amplitude map. -/
theorem promised_iff_of_psdCali (h : Accepted env filename inkaObj) (hkey : key.val = text "psd_cali") :
    Promised env (filename :: key :: input :: rest) ↔ Kept env (filename :: key :: input :: rest) := by
  have hfct : findModifier key = some confFileModifyPsdCali := by
    rw [hkey]
    rfl
  have hrequested : requestedTree env.files (.object inkaObj) key input =
      requestedPsdCali env.files (.object inkaObj) input := by
    rw [hkey]
    rfl
  have hspi : key.val ≠ text "spi_slave_clk" := by
    rw [hkey]
    decide
  by_cases hfile : env.files.contents input = none
  · -- the calibration file cannot be opened: the command refuses
    have hnone : requestedPsdCali env.files (.object inkaObj) input = none := by
      unfold requestedPsdCali
      rw [hfile]
      rfl
    rw [kept_iff h hfct, hrequested, hnone]
    refine iff_of_true (promised_of_code h hfct (psdCali_no_file hfile) (by decide)) ⟨?_, fun r hr => nomatch hr⟩
    rintro (⟨hk, -⟩ | ⟨-, hsome⟩)
    · exact absurd hk hspi
    · exact absurd hfile hsome
  rcases hr : requestedPsdCali env.files (.object inkaObj) input with _ | r
  · -- nothing is reported, so the promise is broken
    rw [kept_iff h hfct, hrequested, hr]
    refine iff_of_false ?_ fun hkept => hkept.1 (Or.inr ⟨hkey, hfile⟩) rfl
    rcases hrun : confFileModifyPsdCali env inkaObj input with (rv | f) | inkaObj'
    · exact absurd hrun (psdCali_none h hfile hr rv)
    · exact not_promised_of_fault h hfct hrun
    · exact not_promised_of_nothing h hfct hrun (hrequested.trans hr)
  · -- the settings are made: the file is right exactly if the words that were
    -- saved are those that were calculated
    rcases requestedPsdCali_eq_some hr with ⟨content, items, as, hcontent, hitems, has, hwithin, hset⟩
    rcases psdCali_ok h hcontent hitems has hwithin with ⟨inkaObj', hrun, hset'⟩
    have hparsed : Parsed maxNesting (.object inkaObj') :=
      parsed_amInfile (parsed_of_jsonParseFile h.parsed) hitems (length_savedWords env items as) hset'
    refine promised_iff_of_request h hfct hrun (hrequested.trans hr) hparsed ?_
    rw [reread_psdCali_iff hset' hset]
    constructor
    · rintro ⟨hrestorable, hwords⟩
      refine ⟨hrestorable, fun hk => absurd hk hspi, ?_⟩
      intro _ content' items' as' hcontent' hitems' has'
      rw [hcontent] at hcontent'
      cases hcontent'
      rw [hitems] at hitems'
      cases hitems'
      rw [has] at has'
      cases has'
      exact hwords
    · intro hsurvives
      exact ⟨hsurvives.restorable, hsurvives.words hkey content items as hcontent hitems has⟩

end Run

/-- The command keeps its promise exactly under its conditions. -/
theorem promised_iff_kept (env : ModifyEnv) (argv : List Argument) : Promised env argv ↔ Kept env argv := by
  by_cases hrun : ∃ (filename key input : Argument) (rest : List Argument) (inkaObj : Members) (fct : Modifier),
      argv = filename :: key :: input :: rest ∧ Accepted env filename inkaObj ∧ findModifier key = some fct
  · rcases hrun with ⟨filename, key, input, rest, inkaObj, fct, rfl, h, hkey⟩
    by_cases hpsd : key.val = text "psd_cali"
    · exact promised_iff_of_psdCali h hpsd
    · by_cases hspi : key.val = text "spi_slave_clk" ∧ hasSpiClock inkaObj = false
      · exact promised_iff_of_no_clock h hspi.1 hspi.2
      · refine promised_iff_of_follows h hkey hpsd ?_
        intro hk
        by_contra hno
        exact hspi ⟨hk, Bool.not_eq_true _ ▸ hno⟩
  · have hnone : ∀ (filename key input : Argument) (rest : List Argument) (inkaObj : Members),
        argv = filename :: key :: input :: rest → Accepted env filename inkaObj → findModifier key = none := by
      intro filename key input rest inkaObj hargv h
      rcases hkey : findModifier key with _ | fct
      · rfl
      · exact absurd ⟨filename, key, input, rest, inkaObj, fct, hargv, h, hkey⟩ hrun
    refine iff_of_true ⟨-1, env.files, confFileModify_rejected hnone, ?_, fun _ _ => rfl⟩ ?_
    · intro hzero
      cases hzero
    · intro filename key input rest inkaObj hargv h hkey
      rw [hnone filename key input rest inkaObj hargv h] at hkey
      cases hkey

/-- A file with the objects every modifier needs, and nothing else. -/
def emptyConfiguration : ModifyEnv where
  files :=
    { contents := fun name =>
        if name = text "inka.conf" then
          some (text "\x7b\"hpav\":\x7b\x7d,\"cp\":\x7b\x7d,\"phy\":\x7b\x7d\x7d")
        else none
      writable := fun _ => true }
  uninitialized := 0

/-- An identifier with a control character: 0 is returned, and the file cannot be parsed any
more. -/
theorem not_promised_controlCharacter : ¬ Promised emptyConfiguration
    [⟨text "inka.conf", by decide⟩, ⟨text "avln_hfid", by decide⟩, ⟨[1], by decide⟩] := by
  rintro ⟨rv, files', hrun, hzero, -⟩
  have hcode : (confFileModify emptyConfiguration [⟨text "inka.conf", by decide⟩, ⟨text "avln_hfid", by decide⟩,
      ⟨[1], by decide⟩]).toOption.map (·.1) = some 0 := by
    decide +kernel
  have hfile : (confFileModify emptyConfiguration [⟨text "inka.conf", by decide⟩, ⟨text "avln_hfid", by decide⟩,
      ⟨[1], by decide⟩]).toOption.bind (fun p => jsonParseFile p.2 (text "inka.conf")) = none := by
    decide +kernel
  rw [hrun] at hcode hfile
  have hrv : rv = 0 := Option.some.inj hcode
  rcases hzero hrv with ⟨filename, key, input, rest, tree, r, hargv, -, -, hread⟩
  cases hargv
  rw [show jsonParseFile files' (text "inka.conf") = none from hfile] at hread
  cases hread

end Hpav
