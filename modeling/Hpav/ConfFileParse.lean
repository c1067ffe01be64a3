import Hpav.Lib.HexText
import Hpav.PsdWords

/-!
# What a configuration file is shown with

The functions of `conf_file_parse` that print the address, the network key and the network
identifier (`conf_file.c`). `conf_file_modify` keeps the address as one number, with the
first byte the most significant, and the key as four words, with the first byte of each the
least significant. Both directions have shifts and masks of their own.
-/

namespace Hpav

open Binary64 CMem CNumeral CScan

/-! ## The lines -/

/-- A digit of `%X`. -/
def upperDigit (n : Nat) : UInt8 :=
  if n < 10 then UInt8.ofNat (48 + n) else UInt8.ofNat (55 + n)

/-- `%02X` -/
def formatHex02 (n : Nat) : List UInt8 :=
  let digits := (Nat.digits 16 n).reverse.map upperDigit
  List.replicate (2 - digits.length) 48 ++ digits

/-- `(unsigned int)` -/
def toUnsignedInt (n : Nat) : Nat :=
  n % 2 ^ 32

/-- `json_array_get_number` -/
def jsonArrayGetNumber (array : List Json) (i : Nat) : Binary64.Double :=
  jsonValueGetNumber array[i]?

/-- `conf_file_parse_mac` -/
def confFileParseMac (object : Members) : List UInt8 :=
  let value := (jsonObjectGetNumber object (text "mac")).toUnsigned64
  text "MAC Address                                          : " ++
    formatHex02 (toUnsignedInt ((value &&& 0xff0000000000) >>> 40)) ++ 58 ::
    formatHex02 (toUnsignedInt ((value &&& 0x00ff00000000) >>> 32)) ++ 58 ::
    formatHex02 (toUnsignedInt ((value &&& 0x0000ff000000) >>> 24)) ++ 58 ::
    formatHex02 (toUnsignedInt ((value &&& 0x000000ff0000) >>> 16)) ++ 58 ::
    formatHex02 (toUnsignedInt ((value &&& 0x00000000ff00) >>> 8)) ++ 58 ::
    formatHex02 (toUnsignedInt (value &&& 0x0000000000ff)) ++ [10]

/-- One word of the key, and what is behind it. -/
def nmkWordText (array : List Json) (i : Nat) : List UInt8 :=
  let nmk := (jsonArrayGetNumber array i).toUnsigned32
  formatHex02 (nmk &&& 0x000000ff) ++ 58 ::
    formatHex02 ((nmk &&& 0x0000ff00) >>> 8) ++ 58 ::
    formatHex02 ((nmk &&& 0x00ff0000) >>> 16) ++ 58 ::
    formatHex02 ((nmk &&& 0xff000000) >>> 24) ++ (if i = 3 then [10] else [58])

/-- `conf_file_parse_nmk` -/
def confFileParseNmk (object : Members) : List UInt8 :=
  text "NMK                                                  : " ++
    match jsonObjectGetArray object (text "nmk") with
    | none => text "parse failed!" ++ [10]
    | some array => (List.range 4).flatMap (nmkWordText array)

/-- `conf_file_parse_nid` -/
def confFileParseNid (object : Members) : List UInt8 :=
  let value := (jsonObjectGetNumber object (text "nid")).toUnsigned64
  text "Network ID                                           : " ++
    if value = 0 then text "auto-gen by NMK" ++ [10]
    else
      formatHex02 (toUnsignedInt (value &&& 0x00000000000000ff)) ++ 58 ::
      formatHex02 (toUnsignedInt ((value &&& 0x000000000000ff00) >>> 8)) ++ 58 ::
      formatHex02 (toUnsignedInt ((value &&& 0x0000000000ff0000) >>> 16)) ++ 58 ::
      formatHex02 (toUnsignedInt ((value &&& 0x00000000ff000000) >>> 24)) ++ 58 ::
      formatHex02 (toUnsignedInt ((value &&& 0x000000ff00000000) >>> 32)) ++ 58 ::
      formatHex02 (toUnsignedInt ((value &&& 0x0000ff0000000000) >>> 40)) ++ 58 ::
      formatHex02 (toUnsignedInt ((value &&& 0x00ff000000000000) >>> 48)) ++ [10]

/-! ## Bytes of a number -/

theorem upperDigit_value : ∀ n < 16, isHexDigit (upperDigit n) = true ∧ hexDigitValue (upperDigit n) = n := by
  decide

/-- A byte is printed in two digits. -/
theorem formatHex02_toNat (b : UInt8) : formatHex02 b.toNat = byteText upperDigit b := by
  have hb := b.toNat_lt
  unfold formatHex02 byteText
  by_cases hzero : b.toNat = 0
  · rw [hzero]
    rfl
  · by_cases hshort : b.toNat < 16
    · have hhigh : b.toNat / 16 = 0 := Nat.div_eq_of_lt hshort
      have hlow : b.toNat % 16 = b.toNat := Nat.mod_eq_of_lt hshort
      rw [Nat.digits_of_lt 16 _ hzero hshort, hhigh, hlow]
      rfl
    · have hdigits : Nat.digits 16 b.toNat = [b.toNat % 16, b.toNat / 16] := by
        rw [Nat.digits_def' (by decide) (Nat.pos_of_ne_zero hzero),
          Nat.digits_of_lt 16 (b.toNat / 16) (by omega) (by omega)]
      rw [hdigits]
      rfl

/-- A mask of eight bits and its shift take a byte out of a number. -/
theorem mask_shiftRight {mask k : Nat} (hmask : mask = 255 <<< k) (value : Nat) :
    (value &&& mask) >>> k = value / 2 ^ k % 256 := by
  have hbyte : (value / 2 ^ k) &&& 255 = value / 2 ^ k % 256 := Nat.and_two_pow_sub_one_eq_mod _ 8
  rw [hmask, Nat.shiftRight_and_distrib, Nat.shiftLeft_shiftRight, Nat.shiftRight_eq_div_pow, hbyte]

/-- So it is printed as the byte it is. -/
theorem formatHex02_mask {mask k value : Nat} {b : UInt8} (hmask : mask = 255 <<< k)
    (hb : value / 2 ^ k % 256 = b.toNat) : formatHex02 ((value &&& mask) >>> k) = byteText upperDigit b := by
  rw [mask_shiftRight hmask, hb, formatHex02_toNat]

theorem formatHex02_toUnsignedInt {mask k value : Nat} {b : UInt8} (hmask : mask = 255 <<< k)
    (hb : value / 2 ^ k % 256 = b.toNat) :
    formatHex02 (toUnsignedInt ((value &&& mask) >>> k)) = byteText upperDigit b := by
  have hsmall : toUnsignedInt ((value &&& mask) >>> k) = (value &&& mask) >>> k := by
    have hlt := b.toNat_lt
    unfold toUnsignedInt
    rw [mask_shiftRight hmask, hb]
    omega
  rw [hsmall]
  exact formatHex02_mask hmask hb

/-! ## The displayed bytes -/

theorem bigEndian_lt (bytes : List UInt8) : bigEndian bytes < 256 ^ bytes.length := by
  induction bytes using List.reverseRecOn with
  | nil => exact Nat.one_pos
  | append_singleton bytes b ih =>
    have hb := b.toNat_lt
    unfold bigEndian at ih ⊢
    rw [List.foldl_append, List.length_append, List.length_singleton, pow_succ, List.foldl_cons, List.foldl_nil]
    omega

theorem littleEndian_lt (bytes : List UInt8) : littleEndian bytes < 256 ^ bytes.length := by
  induction bytes with
  | nil => exact Nat.one_pos
  | cons b bytes ih =>
    have hb := b.toNat_lt
    unfold littleEndian at ih ⊢
    rw [List.foldr_cons, List.length_cons, pow_succ]
    omega

theorem nmkWords_lt (nmk : List UInt8) : ∀ word ∈ nmkWords nmk, word < 2 ^ 32 := by
  intro word hword
  rcases List.mem_map.mp hword with ⟨i, -, rfl⟩
  have hlt := littleEndian_lt ((nmk.drop (4 * i)).take 4)
  have hle : 256 ^ ((nmk.drop (4 * i)).take 4).length ≤ 256 ^ 4 :=
    Nat.pow_le_pow_right (by decide) (List.length_take_le _ _)
  omega

/-- The bytes that are shown can be entered again. -/
theorem colonHex_shown {bytes : List UInt8} (h : bytes ≠ []) : ColonHex (colonText upperDigit bytes) bytes :=
  colonHex_colonText upperDigit_value h

/-- The number of an address is shown as its bytes. -/
theorem confFileParseMac_eq {object : Members} {mac : List UInt8} (hmac : mac.length = 6)
    (hget : jsonObjectGetNumber object (text "mac") = Double.ofInt (bigEndian mac)) :
    confFileParseMac object =
      text "MAC Address                                          : " ++ (colonText upperDigit mac ++ [10]) := by
  have hlt := bigEndian_lt mac
  rw [hmac] at hlt
  have hvalue : (jsonObjectGetNumber object (text "mac")).toUnsigned64 = bigEndian mac := by
    rw [hget]
    exact toUnsigned64_ofInt (by omega)
  rcases mac with _ | ⟨b0, _ | ⟨b1, _ | ⟨b2, _ | ⟨b3, _ | ⟨b4, _ | ⟨b5, _ | ⟨b6, mac⟩⟩⟩⟩⟩⟩⟩
  case cons.cons.cons.cons.cons.cons.nil =>
    have hbytes := And.intro b0.toNat_lt (And.intro b1.toNat_lt (And.intro b2.toNat_lt
      (And.intro b3.toNat_lt (And.intro b4.toNat_lt b5.toNat_lt))))
    have hbig : bigEndian [b0, b1, b2, b3, b4, b5] =
        ((((b0.toNat * 256 + b1.toNat) * 256 + b2.toNat) * 256 + b3.toNat) * 256 + b4.toNat) * 256 + b5.toNat := by
      show (((((0 * 256 + b0.toNat) * 256 + b1.toNat) * 256 + b2.toNat) * 256 + b3.toNat) * 256 + b4.toNat) * 256 +
        b5.toNat = _
      rw [Nat.zero_mul, Nat.zero_add]
    have h0 : formatHex02 (toUnsignedInt ((bigEndian [b0, b1, b2, b3, b4, b5] &&& 0xff0000000000) >>> 40)) =
        byteText upperDigit b0 := formatHex02_toUnsignedInt rfl (by omega)
    have h1 : formatHex02 (toUnsignedInt ((bigEndian [b0, b1, b2, b3, b4, b5] &&& 0x00ff00000000) >>> 32)) =
        byteText upperDigit b1 := formatHex02_toUnsignedInt rfl (by omega)
    have h2 : formatHex02 (toUnsignedInt ((bigEndian [b0, b1, b2, b3, b4, b5] &&& 0x0000ff000000) >>> 24)) =
        byteText upperDigit b2 := formatHex02_toUnsignedInt rfl (by omega)
    have h3 : formatHex02 (toUnsignedInt ((bigEndian [b0, b1, b2, b3, b4, b5] &&& 0x000000ff0000) >>> 16)) =
        byteText upperDigit b3 := formatHex02_toUnsignedInt rfl (by omega)
    have h4 : formatHex02 (toUnsignedInt ((bigEndian [b0, b1, b2, b3, b4, b5] &&& 0x00000000ff00) >>> 8)) =
        byteText upperDigit b4 := formatHex02_toUnsignedInt rfl (by omega)
    have h5 : formatHex02 (toUnsignedInt (bigEndian [b0, b1, b2, b3, b4, b5] &&& 0x0000000000ff)) =
        byteText upperDigit b5 := @formatHex02_toUnsignedInt 0xff 0 _ _ rfl (by omega)
    unfold confFileParseMac
    simp only [hvalue, h0, h1, h2, h3, h4, h5, List.append_assoc]
    rfl
  all_goals
    simp only [List.length_cons, List.length_nil] at hmac
    omega

/-- A word of the key is shown as its four bytes. -/
theorem nmkWordText_eq {array : List Json} {i : Nat} {b0 b1 b2 b3 : UInt8}
    (hget : array[i]? = some (.number (Double.ofInt (littleEndian [b0, b1, b2, b3])))) :
    nmkWordText array i = colonText upperDigit [b0, b1, b2, b3] ++ (if i = 3 then [10] else [58]) := by
  have hlt : littleEndian [b0, b1, b2, b3] < 256 ^ 4 := littleEndian_lt [b0, b1, b2, b3]
  have hvalue : (jsonArrayGetNumber array i).toUnsigned32 = littleEndian [b0, b1, b2, b3] := by
    unfold jsonArrayGetNumber
    rw [hget]
    exact Double.toUnsigned32_eq (Double.trunc_ofInt (by rw [Int.natAbs_natCast]; omega)) (by omega)
  have hbytes := And.intro b0.toNat_lt (And.intro b1.toNat_lt (And.intro b2.toNat_lt b3.toNat_lt))
  have hlittle : littleEndian [b0, b1, b2, b3] =
      b0.toNat + 256 * (b1.toNat + 256 * (b2.toNat + 256 * (b3.toNat + 256 * 0))) := rfl
  have h0 : formatHex02 (littleEndian [b0, b1, b2, b3] &&& 0x000000ff) = byteText upperDigit b0 :=
    @formatHex02_mask 0xff 0 _ _ rfl (by omega)
  have h1 : formatHex02 ((littleEndian [b0, b1, b2, b3] &&& 0x0000ff00) >>> 8) = byteText upperDigit b1 :=
    formatHex02_mask rfl (by omega)
  have h2 : formatHex02 ((littleEndian [b0, b1, b2, b3] &&& 0x00ff0000) >>> 16) = byteText upperDigit b2 :=
    formatHex02_mask rfl (by omega)
  have h3 : formatHex02 ((littleEndian [b0, b1, b2, b3] &&& 0xff000000) >>> 24) = byteText upperDigit b3 :=
    formatHex02_mask rfl (by omega)
  unfold nmkWordText
  simp only [hvalue, h0, h1, h2, h3, List.append_assoc]
  rfl

/-- The words of a key are shown as its bytes. -/
theorem confFileParseNmk_eq {object : Members} {nmk : List UInt8} {items : List Json} (hnmk : nmk.length = 16)
    (hget : jsonObjectGetArray object (text "nmk") = some (numbers (nmkWords nmk) ++ items)) :
    confFileParseNmk object =
      text "NMK                                                  : " ++ (colonText upperDigit nmk ++ [10]) := by
  -- four words, of four bytes each
  rcases @exists_word nmk (by omega) with ⟨a0, a1, a2, a3, s1, rfl⟩
  simp only [List.length_cons] at hnmk
  rcases @exists_word s1 (by omega) with ⟨b0, b1, b2, b3, s2, rfl⟩
  simp only [List.length_cons] at hnmk
  rcases @exists_word s2 (by omega) with ⟨c0, c1, c2, c3, s3, rfl⟩
  simp only [List.length_cons] at hnmk
  rcases @exists_word s3 (by omega) with ⟨d0, d1, d2, d3, s4, rfl⟩
  simp only [List.length_cons] at hnmk
  obtain rfl : s4 = [] := List.length_eq_zero_iff.mp (by omega)
  unfold confFileParseNmk
  rw [hget]
  have hrange : List.range 4 = [0, 1, 2, 3] := rfl
  simp only [hrange, List.flatMap_cons, List.flatMap_nil]
  rw [@nmkWordText_eq _ 0 a0 a1 a2 a3 rfl, @nmkWordText_eq _ 1 b0 b1 b2 b3 rfl, @nmkWordText_eq _ 2 c0 c1 c2 c3 rfl,
    @nmkWordText_eq _ 3 d0 d1 d2 d3 rfl]
  rfl

/-- The cleared identifier is shown as the one to be generated. -/
theorem confFileParseNid_eq {object : Members} (hget : jsonObjectGetNumber object (text "nid") = Double.ofInt 0) :
    confFileParseNid object =
      text "Network ID                                           : " ++ (text "auto-gen by NMK" ++ [10]) := by
  have hvalue : (jsonObjectGetNumber object (text "nid")).toUnsigned64 = 0 := by
    rw [hget]
    exact @toUnsigned64_ofInt 0 (Nat.zero_le _)
  unfold confFileParseNid
  simp only [hvalue]
  rfl

/-! ## The displayed tree -/

/-- `conf_file_parse` shows the address. -/
def ShowsMac (tree : Json) (mac : List UInt8) : Prop :=
  ∃ inkaObject, jsonValueGetObject tree = some inkaObject ∧
    confFileParseMac inkaObject =
      text "MAC Address                                          : " ++ (colonText upperDigit mac ++ [10])

/-- It shows the key. -/
def ShowsNmk (tree : Json) (nmk : List UInt8) : Prop :=
  ∃ inkaObject hpav, jsonValueGetObject tree = some inkaObject ∧
    jsonObjectGetObject inkaObject (text "hpav") = some hpav ∧
    confFileParseNmk hpav =
      text "NMK                                                  : " ++ (colonText upperDigit nmk ++ [10])

/-- It shows that there is no network identifier. -/
def ShowsAutoGen (tree : Json) : Prop :=
  ∃ inkaObject hpav, jsonValueGetObject tree = some inkaObject ∧
    jsonObjectGetObject inkaObject (text "hpav") = some hpav ∧
    confFileParseNid hpav =
      text "Network ID                                           : " ++ (text "auto-gen by NMK" ++ [10])

/-- A tree is displayed as it is, or as the parser reads a file it was written to. -/
def ReadAs (tree shown : Json) : Prop :=
  shown = tree ∨ jsonParseContents (jsonSerialize tree) = some shown

theorem getObject_of_valueAt {tree v : Json} {name : List UInt8} (h : valueAt [name] tree = some v) :
    ∃ object, jsonValueGetObject tree = some object ∧ jsonObjectGetValue object name = some v := by
  cases tree with
  | object members =>
    unfold valueAt at h
    rcases Option.bind_eq_some_iff.mp h with ⟨w, hget, hw⟩
    injection hw with hw
    subst hw
    exact ⟨members, rfl, hget⟩
  | null | boolean | number | string | array => cases h

theorem getMember_of_valueAt {tree v : Json} {name field : List UInt8} (h : valueAt [name, field] tree = some v) :
    ∃ object member, jsonValueGetObject tree = some object ∧ jsonObjectGetObject object name = some member ∧
      jsonObjectGetValue member field = some v := by
  cases tree with
  | object members =>
    unfold valueAt at h
    rcases Option.bind_eq_some_iff.mp h with ⟨w, hget, hw⟩
    rcases getObject_of_valueAt hw with ⟨member, hmember, hv⟩
    refine ⟨members, member, rfl, ?_, hv⟩
    unfold jsonObjectGetObject
    rw [hget]
    exact hmember
  | null | boolean | number | string | array => cases h

theorem showsMac_of_valueAt {tree : Json} {mac : List UInt8} (hmac : mac.length = 6)
    (h : valueAt [text "mac"] tree = some (.number (Double.ofInt (bigEndian mac)))) : ShowsMac tree mac := by
  rcases getObject_of_valueAt h with ⟨object, htree, hget⟩
  refine ⟨object, htree, confFileParseMac_eq hmac ?_⟩
  unfold jsonObjectGetNumber
  rw [hget]
  rfl

theorem showsNmk_of_valueAt {tree : Json} {nmk : List UInt8} {items : List Json} (hnmk : nmk.length = 16)
    (h : valueAt [text "hpav", text "nmk"] tree = some (.array (numbers (nmkWords nmk) ++ items))) :
    ShowsNmk tree nmk := by
  rcases getMember_of_valueAt h with ⟨object, hpav, htree, hhpav, hget⟩
  refine ⟨object, hpav, htree, hhpav, @confFileParseNmk_eq _ _ items hnmk ?_⟩
  unfold jsonObjectGetArray
  rw [hget]
  rfl

theorem showsAutoGen_of_valueAt {tree : Json}
    (h : valueAt [text "hpav", text "nid"] tree = some (.number (Double.ofInt 0))) : ShowsAutoGen tree := by
  rcases getMember_of_valueAt h with ⟨object, hpav, htree, hhpav, hget⟩
  refine ⟨object, hpav, htree, hhpav, confFileParseNid_eq ?_⟩
  unfold jsonObjectGetNumber
  rw [hget]
  rfl

/-! ## The tree and its file -/

/-- What is at a path of the tree is at that path of what is displayed, read back at most. -/
theorem ReadAs.valueAt {tree shown v : Json} {path : List (List UInt8)} (h : ReadAs tree shown)
    (hparsed : Parsed maxNesting tree) (hat : Hpav.valueAt path tree = some v) :
    ∃ v', (v' = v ∨ reread v = some v') ∧ Hpav.valueAt path shown = some v' := by
  rcases h with rfl | h
  · exact ⟨v, Or.inl rfl, hat⟩
  · rw [jsonParseContents_jsonSerialize hparsed] at h
    rcases reread_of_valueAt h hat with ⟨v', hback, hat'⟩
    exact ⟨v', Or.inr hback, hat'⟩

/-- A whole number stays the same. -/
theorem ReadAs.number {tree shown : Json} {path : List (List UInt8)} {n : Nat} (h : ReadAs tree shown)
    (hparsed : Parsed maxNesting tree) (hn : n ≤ 2 ^ 53)
    (hat : Hpav.valueAt path tree = some (.number (Double.ofInt n))) :
    Hpav.valueAt path shown = some (.number (Double.ofInt n)) := by
  rcases h.valueAt hparsed hat with ⟨v', hv', hat'⟩
  have hback : reread (.number (Double.ofInt n)) = some (.number (Double.ofInt n)) :=
    (reread_eq_self_iff _).mpr (restorable_ofInt (by rw [Int.natAbs_natCast]; exact hn))
  rcases hv' with rfl | hv'
  · exact hat'
  · obtain rfl : Json.number (Double.ofInt n) = v' := Option.some.inj (hback.symm.trans hv')
    exact hat'

/-- So do the words at the front of an array. -/
theorem ReadAs.words {tree shown : Json} {path : List (List UInt8)} {words : List Nat} {items : List Json}
    (h : ReadAs tree shown) (hparsed : Parsed maxNesting tree) (hwords : ∀ word ∈ words, word < 2 ^ 32)
    (hat : Hpav.valueAt path tree = some (.array (numbers words ++ items))) :
    ∃ items', Hpav.valueAt path shown = some (.array (numbers words ++ items')) := by
  rcases h.valueAt hparsed hat with ⟨v', hv', hat'⟩
  rcases hv' with rfl | hv'
  · exact ⟨items, hat'⟩
  · have hfront : (numbers words).mapM reread = some (numbers words) := by
      refine mapM_eq_self_iff.mpr ?_
      intro v hv
      rcases List.mem_map.mp hv with ⟨word, hword, rfl⟩
      have hlt := hwords word hword
      exact (reread_eq_self_iff _).mpr (restorable_ofInt (by rw [Int.natAbs_natCast]; omega))
    rw [reread, rereadItems_eq, List.mapM_append, hfront] at hv'
    simp only [Option.pure_def, Option.bind_eq_bind, Option.bind_some, Option.map_eq_some_iff,
      Option.bind_eq_some_iff] at hv'
    rcases hv' with ⟨_, ⟨items', -, hitems⟩, rfl⟩
    injection hitems with hitems
    subst hitems
    exact ⟨items', hat'⟩

/-! ## What the modifiers leave -/

section

variable {env : ModifyEnv} {filename : List UInt8} {inkaObj inkaObj' : Members} {e : Stop}

/-- An object of a file takes no new member: its table would have to be doubled past the limit. -/
def FullTable (object : Members) : Prop :=
  objectMaxCapacity < 2 * object.length

/-- The modifier goes on with the object that was set. -/
theorem setOrFail_eq_ok {object object' : Members} {name : List UInt8} {value : Option Json}
    (h : setOrFail object name value = .ok object') : jsonObjectSetValue object name value = some object' := by
  unfold setOrFail at h
  split at h
  · cases h
  · rename_i hset
    injection h with h
    subst h
    exact hset

/-- A member that is new is refused by a full table only. -/
theorem fullTable_of_refused {object : Members} {name : List UInt8} {value : Json}
    (hget : jsonObjectGetValue object name = none)
    (hset : jsonObjectSetValue object name (some value) = none) : FullTable object := by
  have hadd : (Table.trimmed object).add objectMaxCapacity (name, value) = none := by
    simpa [jsonObjectSetValue, jsonObjectAdd, Table.trimmed, hget] using hset
  unfold Table.add at hadd
  split at hadd
  · split at hadd
    · -- the table of a file is as long as its members, so the capacity is their number
      rename_i hlimit
      have hdoubled : objectMaxCapacity < max (object.length * 2) startingCapacity := hlimit
      have hlimits : startingCapacity < objectMaxCapacity := by decide
      unfold FullTable
      omega
    · cases hadd
  · cases hadd

/-- Only a member that is new can fail to be set, and only when the table is full. -/
theorem setOrFail_eq_error {object : Members} {name : List UInt8} {value : Json}
    (h : setOrFail object name (some value) = .error e) :
    e = .code (-2) ∧ jsonObjectGetValue object name = none ∧ FullTable object := by
  unfold setOrFail at h
  split at h
  · rename_i hset
    injection h with h
    rcases hget : jsonObjectGetValue object name with _ | old
    · exact ⟨h.symm, rfl, fullTable_of_refused hget hset⟩
    · rw [jsonObjectSetValue_of_get hget] at hset
      cases hset
  · cases h

/-- An address is set as the number with its bytes. -/
theorem confFileModifyMac_eq {input mac : List UInt8} (hhex : ColonHex input mac) (hmac : mac.length = 6) :
    confFileModifyMac env inkaObj input =
      setOrFail inkaObj (text "mac") (some (.number (Double.ofInt (bigEndian mac)))) := by
  have hscan : scanColonHex none 6 input = mac := by
    rw [← hmac]
    exact hhex.scanColonHex_eq
  have hstomac : hpavStomac input = some mac := by
    unfold hpavStomac
    rw [hscan]
    exact if_neg (not_not_intro hmac)
  unfold confFileModifyMac
  rw [hstomac, ← macValue_eq hmac]

/-- The address is put at its path. -/
theorem valueAt_mac {value : Json} (h : setOrFail inkaObj (text "mac") (some value) = .ok inkaObj') :
    setAt [text "mac"] value (some (.object inkaObj)) = some (.object inkaObj') := by
  have hset := setOrFail_eq_ok h
  show (jsonObjectSetValue inkaObj (text "mac") (some value)).map Json.object = _
  rw [hset]
  rfl

/-- A key is set as its words, and the identifier cleared. -/
theorem valueAt_nmk (h : Accepted env filename inkaObj) {input : Argument}
    (hrun : confFileModifyNmk env inkaObj input = .ok inkaObj') :
    Parsed maxNesting (.object inkaObj') ∧
      (∃ items, valueAt [text "hpav", text "nmk"] (.object inkaObj') =
        some (.array (numbers (nmkWords (scanColonHex (some 2) 16 input)) ++ items))) ∧
      valueAt [text "hpav", text "nid"] (.object inkaObj') = some (.number (Double.ofInt 0)) := by
  have hrequested : requestedNmk (.object inkaObj) input = some (.object inkaObj') := by
    have hfollows := @follows_nmk env filename input inkaObj h
    rw [hrun] at hfollows
    rcases hrequest : requestedNmk (.object inkaObj) input with _ | r
    · rw [hrequest] at hfollows
      rcases hfollows with ⟨rv, hrv, -⟩
      cases hrv
    · rw [hrequest] at hfollows
      rcases hfollows with ⟨inkaObj'', hok, rfl⟩
      injection hok with hok
      rw [hok]
  have htree : requestedTree env.files (.object inkaObj) (text "nmk") input = some (.object inkaObj') := hrequested
  refine ⟨parsed_requestedTree input.2 (parsed_of_jsonParseFile h.parsed) htree, ?_⟩
  unfold requestedNmk at hrequested
  simp only [Option.bind_eq_bind, Option.bind_eq_some_iff] at hrequested
  rcases hrequested with ⟨items, -, hrequested⟩
  split at hrequested
  · rcases Option.bind_eq_some_iff.mp hrequested with ⟨tree, hfirst, hsecond⟩
    refine ⟨⟨items.drop 4, ?_⟩, valueAt_setAt hsecond⟩
    rw [valueAt_setAt_apart hsecond ⟨by decide, by decide⟩]
    exact valueAt_setAt hfirst
  · cases hrequested

/-- The other members keep their values. -/
theorem jsonObjectGetValue_overwrite_ne {object : Members} {name other : List UInt8} {old : Json}
    (h : jsonObjectGetValue object name = some old) (hne : other ≠ name) (value : Json) :
    jsonObjectGetValue (overwrite name value object) other = jsonObjectGetValue object other := by
  rcases jsonObjectGetValue_eq_some h with ⟨pre, post, rfl, hfresh⟩
  rw [overwrite_splice hfresh, jsonObjectGetValue_splice_ne hne, jsonObjectGetValue_splice_ne hne]

/-- A member that is set again leaves the table as long as it was. -/
theorem length_overwrite {object : Members} {name : List UInt8} {old : Json}
    (h : jsonObjectGetValue object name = some old) (value : Json) :
    (overwrite name value object).length = object.length := by
  rcases jsonObjectGetValue_eq_some h with ⟨pre, post, rfl, hfresh⟩
  rw [overwrite_splice hfresh, List.length_append, List.length_append]
  rfl

/-- The bytes of a key are scanned from its text. -/
theorem scan_of_colonHex {input nmk : List UInt8} (hhex : ColonHex input nmk) (hnmk : nmk.length = 16) :
    scanColonHex (some 2) 16 input = nmk := by
  rw [← hnmk]
  exact hhex.scanColonHex_width (Or.inr rfl)

/-- A key of sixteen bytes is set unless the array is too short for it, or the identifier is new
and the table full. -/
theorem confFileModifyNmk_error (h : Accepted env filename inkaObj) {input : List UInt8}
    (hnmk : (scanColonHex (some 2) 16 input).length = 16)
    (hrun : confFileModifyNmk env inkaObj input = .error e) :
    e = .code (-2) ∧ ∀ items, itemsAt [text "hpav", text "nmk"] (.object inkaObj) = some items →
      4 ≤ items.length → valueAt [text "hpav", text "nid"] (.object inkaObj) = none ∧
        ∃ hpav, jsonObjectGetObject inkaObj (text "hpav") = some hpav ∧ FullTable hpav := by
  rcases h.hpav with ⟨hpav, hhpav⟩
  rw [itemsAt_pair hhpav, valueAt_pair hhpav]
  unfold confFileModifyNmk inObject at hrun
  simp only [hnmk, ne_eq, not_true_eq_false, if_false, hhpav, replaceLoop_eq hnmk] at hrun
  rcases harray : jsonObjectGetArray hpav (text "nmk") with _ | items
  · rw [harray] at hrun
    injection hrun with he
    refine ⟨he.symm, ?_⟩
    intro items hitems
    cases hitems
  · rcases exists_of_getArray harray with ⟨old, hold⟩
    simp only [harray] at hrun
    by_cases hfour : 4 ≤ items.length
    · simp only [if_pos hfour] at hrun
      rcases hset : setOrFail (overwrite (text "nmk") (.array (numbers (nmkWords (scanColonHex (some 2) 16 input)) ++
          items.drop 4)) hpav) (text "nid") (some (.number (Double.ofInt 0))) with e' | hpav'
      · rw [hset] at hrun
        injection hrun with he
        subst he
        rcases setOrFail_eq_error hset with ⟨hcode, hnone, hfull⟩
        rw [jsonObjectGetValue_overwrite_ne hold (by decide)] at hnone
        unfold FullTable at hfull
        rw [length_overwrite hold] at hfull
        exact ⟨hcode, fun _ _ _ => ⟨hnone, hpav, hhpav, hfull⟩⟩
      · rw [hset] at hrun
        cases hrun
    · simp only [if_neg hfour] at hrun
      injection hrun with he
      refine ⟨he.symm, ?_⟩
      intro items' hitems hfour'
      obtain rfl : items = items' := Option.some.inj hitems
      exact absurd hfour' hfour

/-- An address that is set is displayed. -/
theorem confFileModifyMac_displayed (h : Accepted env filename inkaObj) {input : Argument} {mac : List UInt8}
    (hhex : ColonHex input mac) (hmac : mac.length = 6) {inkaObj' : Members}
    (hrun : confFileModifyMac env inkaObj input = .ok inkaObj') {shown : Json}
    (hshown : ReadAs (.object inkaObj') shown) : ShowsMac shown mac := by
  rw [confFileModifyMac_eq hhex hmac] at hrun
  have hset := valueAt_mac hrun
  have hfield : FieldPath [text "mac"] := by decide
  have hparsed := hfield.parsed (parsed_of_jsonParseFile h.parsed) Parsed.number hset
  have hlt := bigEndian_lt mac
  rw [hmac] at hlt
  exact showsMac_of_valueAt hmac (hshown.number hparsed (by omega) (valueAt_setAt hset))

/-- An address is set unless it is new and the table full. -/
theorem confFileModifyMac_error {input : Argument} {mac : List UInt8} (hhex : ColonHex input mac)
    (hmac : mac.length = 6) (hrun : confFileModifyMac env inkaObj input = .error e) :
    e = .code (-2) ∧ valueAt [text "mac"] (.object inkaObj) = none ∧ FullTable inkaObj := by
  rw [confFileModifyMac_eq hhex hmac] at hrun
  rcases setOrFail_eq_error hrun with ⟨hcode, hnone, hfull⟩
  refine ⟨hcode, ?_, hfull⟩
  unfold valueAt
  rw [hnone]
  rfl

/-- A key that is set is displayed. -/
theorem confFileModifyNmk_displayed (h : Accepted env filename inkaObj) {input : Argument} {nmk : List UInt8}
    (hhex : ColonHex input nmk) (hnmk : nmk.length = 16) {inkaObj' : Members}
    (hrun : confFileModifyNmk env inkaObj input = .ok inkaObj') {shown : Json}
    (hshown : ReadAs (.object inkaObj') shown) : ShowsNmk shown nmk := by
  rcases valueAt_nmk h hrun with ⟨hparsed, ⟨items, hat⟩, -⟩
  rw [scan_of_colonHex hhex hnmk] at hat
  rcases hshown.words hparsed (nmkWords_lt nmk) hat with ⟨items', hat'⟩
  exact showsNmk_of_valueAt hnmk hat'

end

/-! ## Set and displayed -/

/-- Whatever address or key is set in a configuration that is accepted is displayed byte for
byte, and with a new key no identifier is displayed. A text of the right format is refused
only where a member is new in a full table, and a key where the array has no four words. -/
theorem confFileModify_displayed {env : ModifyEnv} {filename : List UInt8} {inkaObj : Members}
    (h : Accepted env filename inkaObj) (input : Argument) :
    (∀ mac, ColonHex input mac → mac.length = 6 →
      (∀ inkaObj', confFileModifyMac env inkaObj input = .ok inkaObj' →
        ∀ shown, ReadAs (.object inkaObj') shown → ShowsMac shown mac) ∧
      (∀ e, confFileModifyMac env inkaObj input = .error e →
        e = .code (-2) ∧ valueAt [text "mac"] (.object inkaObj) = none ∧ FullTable inkaObj)) ∧
    (∀ nmk, ColonHex input nmk → nmk.length = 16 →
      (∀ inkaObj', confFileModifyNmk env inkaObj input = .ok inkaObj' →
        ∀ shown, ReadAs (.object inkaObj') shown → ShowsNmk shown nmk) ∧
      (∀ e, confFileModifyNmk env inkaObj input = .error e →
        e = .code (-2) ∧ ∀ items, itemsAt [text "hpav", text "nmk"] (.object inkaObj) = some items →
          4 ≤ items.length → valueAt [text "hpav", text "nid"] (.object inkaObj) = none ∧
            ∃ hpav, jsonObjectGetObject inkaObj (text "hpav") = some hpav ∧ FullTable hpav)) ∧
    (∀ inkaObj', confFileModifyNmk env inkaObj input = .ok inkaObj' →
      ∀ shown, ReadAs (.object inkaObj') shown → ShowsAutoGen shown) := by
  refine ⟨?_, ?_, ?_⟩
  · intro mac hhex hmac
    constructor
    · intro inkaObj' hrun shown hshown
      exact confFileModifyMac_displayed h hhex hmac hrun hshown
    · intro e hrun
      exact confFileModifyMac_error hhex hmac hrun
  · intro nmk hhex hnmk
    constructor
    · intro inkaObj' hrun shown hshown
      exact confFileModifyNmk_displayed h hhex hnmk hrun hshown
    · intro e hrun
      exact confFileModifyNmk_error h (by rw [scan_of_colonHex hhex hnmk]; exact hnmk) hrun
  · intro inkaObj' hrun shown hshown
    rcases valueAt_nmk h hrun with ⟨hparsed, -, hat⟩
    exact showsAutoGen_of_valueAt (@ReadAs.number _ _ _ 0 hshown hparsed (Nat.zero_le _) hat)

/-- The members of the configuration with nothing in it. -/
def emptyMembers : Members :=
  [(text "hpav", .object []), (text "cp", .object []), (text "phy", .object [])]

theorem accepted_emptyConfiguration : Accepted emptyConfiguration (text "inka.conf") emptyMembers where
  parsed := by decide +kernel
  hpav := ⟨[], by decide⟩
  cp := ⟨[], by decide⟩
  phy := ⟨[], by decide⟩

/-- A configuration with a network key and an identifier. -/
def keyedConfiguration : ModifyEnv :=
  { emptyConfiguration with
    files :=
      { contents := fun _ =>
          some (text "\x7b\"hpav\":\x7b\"nmk\":[9,8,7,6],\"nid\":5\x7d,\"cp\":\x7b\x7d,\"phy\":\x7b\x7d\x7d")
        writable := fun _ => true } }

/-- Its members. -/
def keyedMembers : Members :=
  [(text "hpav", .object [(text "nmk", .array (numbers [9, 8, 7, 6])), (text "nid", .number (Double.ofInt 5))]),
    (text "cp", .object []), (text "phy", .object [])]

theorem accepted_keyedConfiguration : Accepted keyedConfiguration (text "inka.conf") keyedMembers where
  parsed := by decide +kernel
  hpav := ⟨_, rfl⟩
  cp := ⟨[], by decide⟩
  phy := ⟨[], by decide⟩

/-- The bytes 0 to 15. -/
def countingNmk : List UInt8 :=
  (List.range 16).map UInt8.ofNat

/-- An address is added to it and displayed, and a key whose words have four different bytes
takes the place of the one it has, and of its identifier. -/
theorem confFileModify_displayed_macAndNmk :
    (∃ inkaObj, confFileModifyMac keyedConfiguration keyedMembers (text "00:13:D7:00:00:01") = .ok inkaObj ∧
      ShowsMac (.object inkaObj) [0x00, 0x13, 0xD7, 0x00, 0x00, 0x01]) ∧
    ∃ inkaObj, confFileModifyNmk keyedConfiguration keyedMembers
        (text "00:01:02:03:04:05:06:07:08:09:0A:0B:0C:0D:0E:0F") = .ok inkaObj ∧
      ShowsNmk (.object inkaObj) countingNmk ∧ ShowsAutoGen (.object inkaObj) := by
  constructor
  · have htext : colonText upperDigit [0x00, 0x13, 0xD7, 0x00, 0x00, 0x01] = text "00:13:D7:00:00:01" := by decide
    have hhex : ColonHex (text "00:13:D7:00:00:01") [0x00, 0x13, 0xD7, 0x00, 0x00, 0x01] := by
      rw [← htext]
      exact colonHex_shown (List.cons_ne_nil _ _)
    have hinput : (0 : UInt8) ∉ text "00:13:D7:00:00:01" := by decide
    have hmac := (confFileModify_displayed accepted_keyedConfiguration ⟨_, hinput⟩).1 _ hhex rfl
    rcases hrun : confFileModifyMac keyedConfiguration keyedMembers (text "00:13:D7:00:00:01") with e | inkaObj
    · -- three members are no full table
      exact absurd (hmac.2 e hrun).2.2 (by unfold FullTable; decide)
    · exact ⟨inkaObj, rfl, hmac.1 inkaObj hrun _ (Or.inl rfl)⟩
  · have htext : colonText upperDigit countingNmk = text "00:01:02:03:04:05:06:07:08:09:0A:0B:0C:0D:0E:0F" := by
      decide
    have hhex : ColonHex (text "00:01:02:03:04:05:06:07:08:09:0A:0B:0C:0D:0E:0F") countingNmk := by
      rw [← htext]
      exact colonHex_shown (List.cons_ne_nil _ _)
    have hinput : (0 : UInt8) ∉ text "00:01:02:03:04:05:06:07:08:09:0A:0B:0C:0D:0E:0F" := by decide
    have hdisplayed := confFileModify_displayed accepted_keyedConfiguration ⟨_, hinput⟩
    have hnmk := hdisplayed.2.1 _ hhex rfl
    rcases hrun : confFileModifyNmk keyedConfiguration keyedMembers
      (text "00:01:02:03:04:05:06:07:08:09:0A:0B:0C:0D:0E:0F") with e | inkaObj
    · -- the identifier is there
      have hnone := ((hnmk.2 e hrun).2 (numbers [9, 8, 7, 6]) rfl (by decide)).1
      cases hnone
    · exact ⟨inkaObj, rfl, hnmk.1 inkaObj hrun _ (Or.inl rfl), hdisplayed.2.2 inkaObj hrun _ (Or.inl rfl)⟩

end Hpav
