import Mathlib.Tactic.Common
import Hpav.Json.Serialize

/-!
# Writing a value and reading it again

`reread v` is what the parser makes of the text of `v`, or nothing if it refuses it:
`jsonParseContents_jsonSerialize`. The loop of the parser is followed once, for arrays and
objects alike, over the elements that are still to come. A value survives exactly if its
numbers and strings do: `reread_eq_some_iff`.
-/

namespace Hpav

open Binary64 CNumeral Decimal

mutual

/-- What becomes of a value that is written and read again. -/
def reread : Json → Option Json
  | .null => some .null
  | .boolean b => some (.boolean b)
  | .number x => (rereadNumber x).map Json.number
  | .string s => if Writable s then some (.string s) else none
  | .array items => (rereadItems items).map Json.array
  | .object members => (rereadMembers members).map Json.object

def rereadItems : List Json → Option (List Json)
  | [] => some []
  | v :: vs => do
    let v ← reread v
    let vs ← rereadItems vs
    some (v :: vs)

def rereadMembers : List (List UInt8 × Json) → Option (List (List UInt8 × Json))
  | [] => some []
  | m :: ms => do
    let m ← rereadMember m
    let ms ← rereadMembers ms
    some (m :: ms)

def rereadMember : List UInt8 × Json → Option (List UInt8 × Json)
  | (name, value) => if Writable name then (reread value).map fun v => (name, v) else none

end

/-- The items are read back one by one. -/
theorem rereadItems_eq (items : List Json) : rereadItems items = items.mapM reread := by
  induction items with
  | nil => rfl
  | cons v vs ih =>
    rw [rereadItems, ih, List.mapM_cons]
    rfl

/-- The members are read back one by one. -/
theorem rereadMembers_eq (members : Members) : rereadMembers members = members.mapM rereadMember := by
  induction members with
  | nil => rfl
  | cons m ms ih =>
    rw [rereadMembers, ih, List.mapM_cons]
    rfl

/-! ## The loop of the parser -/

/-- What stands behind an element: a comma, or the closing bracket. -/
def Closes (close : UInt8) (rest : List UInt8) : Prop :=
  ∃ b r, rest = b :: r ∧ (b = 44 ∨ b = close)

/-- The function that reads an element does with the texts of `xs`, one behind the other,
what `back` says. `Held` is what is known of the table in between. -/
structure ReadsBack {α : Type} (close : UInt8)
    (element : Table α → List UInt8 → Option (Table α × List UInt8)) (text : α → List UInt8)
    (back : α → Option α) (Held : List α → Table α → Prop) (xs : List α) : Prop where
  start : ∀ x ∈ xs, ∃ b t, text x = b :: t ∧ isSpace b = false ∧ b ≠ close
  refused : ∀ pre x post t rest, xs = pre ++ x :: post → Held pre t → Closes close rest →
    back x = none → element t (text x ++ rest) = none
  added : ∀ pre x post t rest y, xs = pre ++ x :: post → Held pre t → Closes close rest →
    back x = some y → ∃ t', element t (text x ++ rest) = some (t', rest) ∧
      t'.entries = t.entries ++ [y] ∧ Held (pre ++ [x]) t'

/-- What is no blank is not skipped. -/
theorem skipWhitespaces_cons {b : UInt8} (hb : isSpace b = false) (s : List UInt8) :
    skipWhitespaces (b :: s) = b :: s := by
  unfold skipWhitespaces
  rw [List.dropWhile_cons_of_neg (by rw [hb]; decide)]

section Loop

variable {α : Type} {close : UInt8} {element : Table α → List UInt8 → Option (Table α × List UInt8)}
  {text : α → List UInt8} {back : α → Option α} {Held : List α → Table α → Prop} {xs : List α}

/-- The texts of elements begin with the first character of the first one. -/
theorem ReadsBack.commaSeparated_cons (h : ReadsBack close element text back Held xs) {x : α} (ys : List α)
    (hx : x ∈ xs) (rest : List UInt8) : ∃ b t, commaSeparated ((x :: ys).map text) ++ rest = b :: t ∧
      isSpace b = false ∧ b ≠ close := by
  rcases h.start x hx with ⟨b, t, ht, hspace, hne⟩
  cases ys with
  | nil =>
    refine ⟨b, t ++ rest, ?_, hspace, hne⟩
    simp only [List.map_cons, List.map_nil, commaSeparated, ht, List.cons_append]
  | cons y ys =>
    refine ⟨b, t ++ 44 :: (commaSeparated ((y :: ys).map text) ++ rest), ?_, hspace, hne⟩
    simp only [List.map_cons, commaSeparated, ht, List.cons_append, List.append_assoc]

/-- The loop reads back what is left of the sequence: on the elements left. -/
theorem ReadsBack.loop (h : ReadsBack close element text back Held xs) (hspace : isSpace close = false)
    (hcomma : close ≠ 44) (rest : List UInt8) (post : List α) :
    ∀ {pre : List α} {t : Table α} {turns : Nat}, xs = pre ++ post → post ≠ [] → Held pre t →
      (commaSeparated (post.map text) ++ close :: rest).length ≤ turns →
      (parseElements element turns t (commaSeparated (post.map text) ++ close :: rest)).map
          (fun p => (p.1.entries, p.2)) =
        (post.mapM back).map fun ys => (t.entries ++ ys, close :: rest) := by
  induction post with
  | nil =>
    intro pre t turns _ hne
    exact absurd rfl hne
  | cons x post ih =>
    intro pre t turns hxs _ hheld hturns
    have hx : x ∈ xs := by
      rw [hxs]
      exact List.mem_append_right pre List.mem_cons_self
    rcases h.commaSeparated_cons post hx (close :: rest) with ⟨b, s, hs, -, -⟩
    have hne : commaSeparated ((x :: post).map text) ++ close :: rest ≠ [] := by
      rw [hs]
      exact List.cons_ne_nil b s
    have hpos := List.length_pos_of_ne_nil hne
    obtain ⟨turns, rfl⟩ : ∃ k, turns = k + 1 := ⟨turns - 1, by omega⟩
    -- the first turn reads `x`
    rw [List.mapM_cons]
    cases post with
    | nil =>
      have htext : commaSeparated ([x].map text) ++ close :: rest = text x ++ close :: rest := rfl
      rw [htext] at hne ⊢
      rcases hback : back x with _ | y
      · rw [parseElements_refused hne (h.refused pre x [] t _ hxs hheld ⟨close, rest, rfl, Or.inr rfl⟩ hback)]
        rfl
      · rcases h.added pre x [] t _ y hxs hheld ⟨close, rest, rfl, Or.inr rfl⟩ hback with
          ⟨t', helement, hentries, -⟩
        rw [parseElements_last hne helement (skipWhitespaces_cons hspace rest) hcomma]
        simp only [Option.map_some, hentries]
        rfl
    | cons z post =>
      have htext : commaSeparated ((x :: z :: post).map text) ++ close :: rest =
          text x ++ 44 :: (commaSeparated ((z :: post).map text) ++ close :: rest) := by
        simp only [List.map_cons, commaSeparated, List.append_assoc, List.cons_append]
      rw [htext] at hturns hne ⊢
      rcases hback : back x with _ | y
      · rw [parseElements_refused hne (h.refused pre x _ t _ hxs hheld ⟨44, _, rfl, Or.inl rfl⟩ hback)]
        rfl
      · rcases h.added pre x _ t _ y hxs hheld ⟨44, _, rfl, Or.inl rfl⟩ hback with
          ⟨t', helement, hentries, hheld'⟩
        have hz : z ∈ xs := by
          rw [hxs]
          exact List.mem_append_right pre (List.mem_cons_of_mem x List.mem_cons_self)
        rcases h.commaSeparated_cons post hz (close :: rest) with ⟨b', s', hs', hspace', -⟩
        have hskip : skipWhitespaces (commaSeparated ((z :: post).map text) ++ close :: rest) =
            commaSeparated ((z :: post).map text) ++ close :: rest := by
          rw [hs', skipWhitespaces_cons hspace']
        have hlen : (commaSeparated ((z :: post).map text) ++ close :: rest).length ≤ turns := by
          rw [List.length_append, List.length_cons] at hturns
          omega
        have hrest := ih (t := t') (by rw [hxs, List.append_assoc, List.singleton_append])
          (List.cons_ne_nil z post) hheld' hlen
        have hcommaNext : skipWhitespaces (44 :: (commaSeparated ((z :: post).map text) ++ close :: rest)) =
            44 :: (commaSeparated ((z :: post).map text) ++ close :: rest) := skipWhitespaces_cons (by decide) _
        rw [parseElements_next hne helement hcommaNext, hskip, hrest]
        rcases (z :: post).mapM back with _ | ys
        · rfl
        · simp only [Option.map_some, Option.bind_eq_bind, Option.bind_some, hentries, List.append_assoc,
            List.singleton_append]
          rfl

/-- A sequence that is not empty is not read back as an empty one. -/
theorem mapM_ne_nil {x : α} {post ys : List α} (h : (x :: post).mapM back = some ys) : ys ≠ [] := by
  rw [List.mapM_cons] at h
  simp only [Option.bind_eq_bind, Option.bind_eq_some_iff] at h
  rcases h with ⟨y, -, zs, -, h⟩
  cases h
  exact List.cons_ne_nil y zs

/-- The parser of a sequence, with the blanks behind its bracket skipped. -/
theorem parseSequence_of_skip {s s' : List UInt8} (hskip : skipWhitespaces s.tail = s') :
    parseSequence close element s =
      if s'.head? = some close then some ([], s'.tail)
      else (parseElements element s'.length Table.empty s').bind fun p =>
        if (skipWhitespaces p.2).head? = some close ∧ p.1.entries ≠ [] then
          some (p.1.entries, (skipWhitespaces p.2).tail)
        else none := by
  subst hskip
  rfl

/-- A sequence is read element by element. -/
theorem ReadsBack.sequence (h : ReadsBack close element text back Held xs) (hspace : isSpace close = false)
    (hcomma : close ≠ 44) (hempty : Held [] Table.empty) (first : UInt8) (rest : List UInt8) :
    parseSequence close element (first :: (commaSeparated (xs.map text) ++ close :: rest)) =
      (xs.mapM back).map fun ys => (ys, rest) := by
  -- empty: the closing bracket comes at once
  cases xs with
  | nil =>
    have hskip : skipWhitespaces (first :: (commaSeparated (([] : List α).map text) ++ close :: rest)).tail =
        close :: rest := skipWhitespaces_cons hspace rest
    rw [parseSequence_of_skip hskip, List.head?_cons, if_pos rfl]
    rfl
  | cons x post =>
    rcases h.commaSeparated_cons post (List.mem_cons_self (a := x)) (close :: rest) with
      ⟨b, s, hs, hb, hne⟩
    have hskip : skipWhitespaces (first :: (commaSeparated ((x :: post).map text) ++ close :: rest)).tail =
        commaSeparated ((x :: post).map text) ++ close :: rest := by
      rw [List.tail_cons, hs, skipWhitespaces_cons hb]
    have hhead : ¬ ((commaSeparated ((x :: post).map text) ++ close :: rest).head? = some close) := by
      rw [hs, List.head?_cons, Option.some.injEq]
      exact hne
    have hall : x :: post = [] ++ x :: post := rfl
    -- otherwise the loop reads all of it, or fails at the first that is not read back
    have hloop := h.loop hspace hcomma rest (x :: post) hall (List.cons_ne_nil x post) hempty le_rfl
    rw [parseSequence_of_skip hskip, if_neg hhead]
    generalize parseElements element _ Table.empty (commaSeparated ((x :: post).map text) ++ close :: rest) =
      result at hloop ⊢
    rcases hys : (x :: post).mapM back with _ | ys
    · rw [hys] at hloop
      rcases result with _ | p
      · rfl
      · cases hloop
    · rw [hys] at hloop
      rcases result with _ | ⟨t, s'⟩
      · cases hloop
      · simp only [Option.map_some, Option.some.injEq, Prod.mk.injEq] at hloop
        rcases hloop with ⟨hentries, rfl⟩
        have hne' : t.entries ≠ [] := by
          rw [hentries]
          exact mapM_ne_nil hys
        rw [Option.bind_some]
        simp only [skipWhitespaces_cons hspace, List.head?_cons, List.tail_cons]
        rw [if_pos ⟨trivial, hne'⟩, hentries]
        rfl

end Loop

/-! ## Values -/

/-- Infinity is written as a word. -/
theorem numberText_infinite : numberText (.infinite false) = [105, 110, 102] := by
  decide +kernel

/-- What is no number is written as a word. -/
theorem numberText_nan : numberText (.nan false) = [110, 97, 110] := rfl

/-- A number begins with a sign or a digit, or it is refused. -/
theorem numberText_cons (x : Double) :
    (∃ b t, numberText x = b :: t ∧ (b = 45 ∨ isDigit b = true)) ∨ x = .infinite false ∨ x = .nan false := by
  unfold numberText
  split
  · left
    unfold formatInt
    split
    · exact ⟨45, _, rfl, Or.inl rfl⟩
    · rcases numeral_cons (x.toSigned 64).natAbs with ⟨b, t, hnum, hb⟩
      exact ⟨b, t, hnum, Or.inr hb⟩
  · cases x with
    | finite units h =>
      left
      rcases numeral_cons (millionths units / 10 ^ 6) with ⟨b, t, hnum, hb⟩
      rw [formatFixed_finite]
      by_cases hneg : units < 0
      · rw [if_pos hneg, List.append_assoc, List.singleton_append]
        exact ⟨45, _, rfl, Or.inl rfl⟩
      · rw [if_neg hneg, hnum, List.nil_append, List.cons_append]
        exact ⟨b, _, rfl, Or.inr hb⟩
    | infinite negative =>
      cases negative with
      | false => exact Or.inr (Or.inl rfl)
      | true => exact Or.inl ⟨45, _, rfl, Or.inl rfl⟩
    | nan negative =>
      cases negative with
      | false => exact Or.inr (Or.inr rfl)
      | true => exact Or.inl ⟨45, _, rfl, Or.inl rfl⟩

/-- A digit begins no other value. -/
theorem digit_cases {b : UInt8} (hb : isDigit b = true) :
    isSpace b = false ∧ b ≠ 93 ∧ b ≠ 125 ∧ b ≠ 123 ∧ b ≠ 91 ∧ b ≠ 34 ∧ b ≠ 102 ∧ b ≠ 116 := by
  have hspace := isSpace_digit hb
  rw [isDigit_iff] at hb
  refine ⟨hspace, ?_, ?_, ?_, ?_, ?_, ?_, ?_⟩ <;> (rintro rfl; exact absurd hb (by decide))

/-- No text of a value begins with a space or a closing bracket. -/
theorem jsonSerialize_cons (v : Json) : ∃ b t, jsonSerialize v = b :: t ∧ isSpace b = false ∧
    b ≠ 93 ∧ b ≠ 125 := by
  cases v with
  | null => exact ⟨110, _, rfl, rfl, by decide, by decide⟩
  | boolean b =>
    cases b with
    | false => exact ⟨102, _, rfl, rfl, by decide, by decide⟩
    | true => exact ⟨116, _, rfl, rfl, by decide, by decide⟩
  | number x =>
    rcases numberText_cons x with ⟨b, t, ht, rfl | hb⟩ | rfl | rfl
    · exact ⟨45, t, ht, rfl, by decide, by decide⟩
    · rcases digit_cases hb with ⟨hspace, h93, h125, -⟩
      exact ⟨b, t, ht, hspace, h93, h125⟩
    · exact ⟨105, _, numberText_infinite, rfl, by decide, by decide⟩
    · exact ⟨110, _, numberText_nan, rfl, by decide, by decide⟩
  | string s => exact ⟨34, _, rfl, rfl, by decide, by decide⟩
  | array items => exact ⟨91, _, rfl, rfl, by decide, by decide⟩
  | object members => exact ⟨123, _, rfl, rfl, by decide, by decide⟩

/-- A text closes where a value stops. -/
theorem Closes.stops {close : UInt8} {rest : List UInt8} (h : Closes close rest)
    (hclose : continues close = false) : Stops rest := by
  rcases h with ⟨b, r, rfl, rfl | rfl⟩
  · intro c hc
    obtain rfl : 44 = c := by simpa using hc
    rfl
  · intro c hc
    obtain rfl : b = c := by simpa using hc
    exact hclose

/-- `parse_value` on a text that does not begin with a space. -/
theorem parseValue_cons {n : Nat} {b : UInt8} (hb : isSpace b = false) (s : List UInt8) :
    parseValue (n + 1) (b :: s) =
      if b = 123 then parseObjectValue (parseValue n) (b :: s)
      else if b = 91 then parseArrayValue (parseValue n) (b :: s)
      else if b = 34 then parseStringValue (b :: s)
      else if b = 102 ∨ b = 116 then parseBooleanValue (b :: s)
      else if b = 45 ∨ isDigit b then parseNumberValue (b :: s)
      else if b = 110 then parseNullValue (b :: s)
      else none := by
  conv_lhs => unfold parseValue
  simp only [skipWhitespaces_cons hb, List.head?_cons]

/-- Behind a sign or a digit the parser expects a number. -/
theorem parseValue_number {n : Nat} {b : UInt8} (hb : b = 45 ∨ isDigit b = true) (s : List UInt8) :
    parseValue (n + 1) (b :: s) = parseNumberValue (b :: s) := by
  rcases hb with rfl | hb
  · rw [parseValue_cons rfl, if_neg (by decide), if_neg (by decide), if_neg (by decide), if_neg (by decide),
      if_pos (Or.inl rfl)]
  · rcases digit_cases hb with ⟨hspace, -, -, h123, h91, h34, h102, h116⟩
    rw [parseValue_cons hspace, if_neg h123, if_neg h91, if_neg h34, if_neg (not_or.mpr ⟨h102, h116⟩),
      if_pos (Or.inr hb)]

/-- `inf` and `nan` do not begin with a sign or a digit. -/
theorem rereadNumber_of_cons {x : Double} {b : UInt8} {t : List UInt8} (ht : numberText x = b :: t)
    (hb : b = 45 ∨ isDigit b = true) : ∃ y, rereadNumber x = some y := by
  cases x with
  | finite units h => exact ⟨_, rereadNumber_finite h⟩
  | infinite negative =>
    cases negative with
    | false =>
      rw [numberText_infinite] at ht
      cases ht
      rcases hb with hb | hb <;> exact absurd hb (by decide)
    | true => exact ⟨_, rfl⟩
  | nan negative =>
    cases negative with
    | false =>
      rw [numberText_nan] at ht
      cases ht
      rcases hb with hb | hb <;> exact absurd hb (by decide)
    | true => exact ⟨_, rfl⟩

/-- A number is read back, or refused. -/
theorem parseValue_numberText {n : Nat} (x : Double) {rest : List UInt8} (hs : Stops rest) :
    parseValue (n + 1) (numberText x ++ rest) = (rereadNumber x).map fun y => (.number y, rest) := by
  rcases numberText_cons x with ⟨b, t, ht, hb⟩ | rfl | rfl
  · -- digits or a sign: the number is read; `inf` and `nan` are no numbers to the parser
    rcases rereadNumber_of_cons ht hb with ⟨y, hx⟩
    rw [hx, Option.map_some, ← parseNumberValue_numberText hx hs, ht, List.cons_append]
    exact parseValue_number hb _
  · rw [numberText_infinite]
    exact parseValue_cons (b := 105) rfl _
  · rw [numberText_nan]
    exact parseValue_cons (b := 110) rfl _

/-- The table of an array behind the items `pre`. -/
def ItemsHeld (pre : List Json) (t : Table Json) : Prop :=
  Table.Grown 13 t ∧ t.entries.length = pre.length

/-- The items of an array are read back, if each of them is. -/
theorem readsBack_items {n : Nat} {items : List Json} (hlen : items.length ≤ arrayMaxCapacity)
    (ih : ∀ v ∈ items, ∀ {rest : List UInt8}, Stops rest →
      parseValue (n + 1) (jsonSerialize v ++ rest) = (reread v).map fun w => (w, rest)) :
    ReadsBack 93 (parseItem (parseValue (n + 1))) jsonSerialize reread ItemsHeld items := by
  have hmem : ∀ {pre x post}, items = pre ++ x :: post → x ∈ items := by
    rintro pre x post rfl
    exact List.mem_append_right pre List.mem_cons_self
  refine ⟨?_, ?_, ?_⟩
  · intro v _
    rcases jsonSerialize_cons v with ⟨b, t, ht, hspace, h93, -⟩
    exact ⟨b, t, ht, hspace, h93⟩
  · intro pre v post t rest hitems _ hrest hback
    unfold parseItem
    rw [ih v (hmem hitems) (hrest.stops rfl), hback]
    rfl
  · intro pre v post t rest w hitems hheld hrest hback
    -- there is room for the item, since all of them were in a table once
    have hlt : t.entries.length < startingCapacity * 2 ^ 13 := by
      have htotal := congrArg List.length hitems
      rw [List.length_append, List.length_cons] at htotal
      have hcount := hheld.2
      show t.entries.length < 122880
      have hmax : items.length ≤ 122880 := hlen
      omega
    rcases hheld.1.add hlt w with ⟨t', hadd, hentries, hgrown⟩
    refine ⟨t', ?_, hentries, hgrown, ?_⟩
    · unfold parseItem
      rw [ih v (hmem hitems) (hrest.stops rfl), hback]
      show (jsonArrayAdd t w).bind _ = _
      rw [show jsonArrayAdd t w = some t' from hadd]
      rfl
    · rw [hentries, List.length_append, List.length_append, hheld.2]
      rfl

/-- The table of an object behind the members `pre`. -/
def MembersHeld (pre : Members) (t : Table (List UInt8 × Json)) : Prop :=
  Table.Grown 6 t ∧ t.entries.map (·.1) = pre.map (·.1)

/-- The name and the colon of a member, then its value. -/
theorem parseMember_serializeMember (parse : Parser) (t : Table (List UInt8 × Json)) {name : List UInt8}
    (hname : 0 ∉ name) (value : Json) (rest : List UInt8) :
    parseMember parse t (serializeMember (name, value) ++ rest) =
      if Writable name then
        (parse (jsonSerialize value ++ rest)).bind fun p =>
          (jsonObjectAdd t name p.1).bind fun t' => some (t', p.2)
      else none := by
  have htext : serializeMember (name, value) ++ rest =
      jsonSerializeString name ++ (58 :: (jsonSerialize value ++ rest)) := by
    simp [serializeMember]
  rw [htext]
  unfold parseMember
  rw [getQuotedString_serialize hname]
  by_cases hw : Writable name
  · simp only [if_pos hw, Option.bind_eq_bind, Option.bind_some,
      skipWhitespaces_cons (b := 58) (by decide), if_true]
  · simp only [if_neg hw]
    rfl

/-- The members of an object are read back, if each of their values is. -/
theorem readsBack_members {n : Nat} {members : Members} (hlen : members.length ≤ objectMaxCapacity)
    (hnames : (members.map (·.1)).Nodup) (hnul : ∀ m ∈ members, 0 ∉ m.1)
    (ih : ∀ m ∈ members, ∀ {rest : List UInt8}, Stops rest →
      parseValue (n + 1) (jsonSerialize m.2 ++ rest) = (reread m.2).map fun w => (w, rest)) :
    ReadsBack 125 (parseMember (parseValue (n + 1))) serializeMember rereadMember MembersHeld members := by
  have hmem : ∀ {pre x post}, members = pre ++ x :: post → x ∈ members := by
    rintro pre x post rfl
    exact List.mem_append_right pre List.mem_cons_self
  refine ⟨?_, ?_, ?_⟩
  · rintro ⟨name, value⟩ _
    exact ⟨34, _, rfl, rfl, by decide⟩
  · rintro pre ⟨name, value⟩ post t rest hmembers _ hrest hback
    rw [parseMember_serializeMember _ t (hnul _ (hmem hmembers))]
    unfold rereadMember at hback
    by_cases hw : Writable name
    · rw [if_pos hw] at hback ⊢
      rw [ih _ (hmem hmembers) (hrest.stops rfl)]
      rw [Option.map_eq_none_iff] at hback
      rw [hback]
      rfl
    · rw [if_neg hw]
  · rintro pre ⟨name, value⟩ post t rest y hmembers hheld hrest hback
    unfold rereadMember at hback
    by_cases hw : Writable name
    · rw [if_pos hw, Option.map_eq_some_iff] at hback
      rcases hback with ⟨w, hback, rfl⟩
      -- there is room for the member, since all of them were in a table once
      have hlt : t.entries.length < startingCapacity * 2 ^ 6 := by
        have htotal := congrArg List.length hmembers
        have hcount := congrArg List.length hheld.2
        rw [List.length_append, List.length_cons] at htotal
        rw [List.length_map, List.length_map] at hcount
        show t.entries.length < 960
        have hmax : members.length ≤ 960 := hlen
        omega
      -- and its name is not taken by those before it
      have hfresh : ¬ (jsonObjectGetValue t.entries name).isSome = true := by
        rw [jsonObjectGetValue_isSome, hheld.2]
        rw [hmembers, List.map_append, List.map_cons, List.nodup_append] at hnames
        intro hin
        exact hnames.2.2 name hin name List.mem_cons_self rfl
      rcases hheld.1.add hlt (name, w) with ⟨t', hadd, hentries, hgrown⟩
      have hobject : jsonObjectAdd t name w = some t' := by
        unfold jsonObjectAdd
        rw [if_neg hfresh]
        exact hadd
      refine ⟨t', ?_, hentries, hgrown, ?_⟩
      · rw [parseMember_serializeMember _ t (hnul _ (hmem hmembers)), if_pos hw,
          ih _ (hmem hmembers) (hrest.stops rfl), hback]
        show (jsonObjectAdd t name w).bind _ = _
        rw [hobject]
        rfl
      · rw [hentries, List.map_append, List.map_append, hheld.2]
        rfl
    · rw [if_neg hw] at hback
      cases hback

/-- The parser makes of the text of a value what `reread` says, and leaves what follows. -/
theorem parseValue_jsonSerialize {n : Nat} {v : Json} (hv : Parsed n v) :
    ∀ {rest : List UInt8}, Stops rest →
      parseValue (n + 1) (jsonSerialize v ++ rest) = (reread v).map fun w => (w, rest) := by
  -- over the tree as the parser makes it, so the depth comes with it
  induction hv with
  | null =>
    intro rest _
    exact parseValue_cons (b := 110) rfl _
  | @boolean n b =>
    intro rest _
    cases b with
    | false => exact parseValue_cons (b := 102) rfl _
    | true => exact parseValue_cons (b := 116) rfl _
  | number =>
    intro rest hrest
    rw [reread, Option.map_map]
    exact parseValue_numberText _ hrest
  | @string n s hs =>
    intro rest _
    have hread := getQuotedString_serialize hs rest
    have hcons : jsonSerialize (.string s) ++ rest = 34 :: ((s.flatMap escape ++ [34]) ++ rest) := rfl
    have hparse : parseValue (n + 1) (jsonSerialize (.string s) ++ rest) =
        parseStringValue (jsonSerializeString s ++ rest) := by
      rw [hcons, parseValue_cons rfl]
      rfl
    rw [hparse, reread]
    unfold parseStringValue
    rw [hread]
    by_cases hw : Writable s
    · rw [if_pos hw, if_pos hw]
      rfl
    · rw [if_neg hw, if_neg hw]
      rfl
  | emptyArray =>
    intro rest _
    exact parseValue_cons (b := 91) rfl _
  | emptyObject =>
    intro rest _
    exact parseValue_cons (b := 123) rfl _
  | @array n items hlen _ ih =>
    intro rest _
    have hcons : jsonSerialize (.array items) ++ rest =
        91 :: (commaSeparated (items.map jsonSerialize) ++ 93 :: rest) := by
      simp [jsonSerialize, serializeItems_eq]
    -- items that are read back, between brackets, are an array that is read back
    have hseq := (readsBack_items hlen ih).sequence rfl (by decide)
      ⟨Table.grown_empty 13, rfl⟩ 91 rest
    rw [hcons, parseValue_cons rfl, reread, rereadItems_eq]
    show parseArrayValue _ _ = _
    unfold parseArrayValue
    rw [hseq, Option.map_map, Option.map_map]
    rfl
  | @object n members hlen hnames hnul _ ih =>
    intro rest _
    have hcons : jsonSerialize (.object members) ++ rest =
        123 :: (commaSeparated (members.map serializeMember) ++ 125 :: rest) := by
      simp [jsonSerialize, serializeMembers_eq]
    have hseq := (readsBack_members hlen hnames hnul ih).sequence rfl (by decide)
      ⟨Table.grown_empty 6, rfl⟩ 123 rest
    rw [hcons, parseValue_cons rfl, reread, rereadMembers_eq]
    show parseObjectValue _ _ = _
    unfold parseObjectValue
    rw [hseq, Option.map_map, Option.map_map]
    rfl

/-! ## The whole text -/

/-- Digits contain no NUL. -/
theorem not_digit_zero {ds : List UInt8} (hds : ∀ b ∈ ds, isDigit b = true) : 0 ∉ ds := by
  intro h
  exact absurd (hds 0 h) (by decide)

/-- The text of a number contains no NUL. -/
theorem zero_not_mem_numberText (x : Double) : 0 ∉ numberText x := by
  have hnumeral : ∀ n, 0 ∉ numeral n := fun n => not_digit_zero fun _ hb => isDigit_of_mem_numeral hb
  unfold numberText
  split
  · unfold formatInt
    split
    · rw [List.mem_cons]
      rintro (h | h)
      · cases h
      · exact hnumeral _ h
    · exact hnumeral _
  · cases x with
    | finite units h =>
      have hpadded : 0 ∉ padded 6 (millionths units) := not_digit_zero fun _ hb => isDigit_of_mem_padded hb
      have hsign : 0 ∉ (if units < 0 then [45] else [] : List UInt8) := by
        split <;> simp
      rw [formatFixed_finite, List.mem_append, List.mem_append, List.mem_cons]
      rintro ((h | h) | h | h)
      · exact hsign h
      · exact hnumeral _ h
      · cases h
      · exact hpadded h
    | infinite negative => cases negative <;> decide
    | nan negative => cases negative <;> decide

/-- The text of a string contains no NUL. -/
theorem zero_not_mem_jsonSerializeString {s : List UInt8} (hs : 0 ∉ s) : 0 ∉ jsonSerializeString s := by
  unfold jsonSerializeString
  rw [List.mem_cons, List.mem_append, List.mem_flatMap, List.mem_singleton]
  rintro (h | ⟨c, hc, h⟩ | h)
  · cases h
  · rcases escape_cases c with ⟨e, he, -, hback, -⟩ | ⟨he, -⟩
    · rw [he, List.mem_cons, List.mem_singleton] at h
      rcases h with h | rfl
      · cases h
      · cases hback
    · rw [he, List.mem_singleton] at h
      exact hs (h ▸ hc)
  · cases h

/-- Neither do texts with commas between them. -/
theorem zero_not_mem_commaSeparated {xs : List (List UInt8)} (h : ∀ x ∈ xs, 0 ∉ x) :
    0 ∉ commaSeparated xs := by
  fun_induction commaSeparated xs with
  | case1 => simp
  | case2 x => exact h x List.mem_cons_self
  | case3 x y xs ih =>
    rw [List.mem_append, List.mem_cons]
    rintro (hx | hx | hx)
    · exact h x List.mem_cons_self hx
    · cases hx
    · exact ih (fun z hz => h z (List.mem_cons_of_mem x hz)) hx

/-- The text of a tree contains no NUL, so all of it is parsed. -/
theorem zero_not_mem_jsonSerialize {n : Nat} {v : Json} (hv : Parsed n v) : 0 ∉ jsonSerialize v := by
  -- no text of the printer holds a NUL, so the file ends where the text does
  induction hv with
  | null => decide
  | @boolean n b => cases b <;> decide
  | number => exact zero_not_mem_numberText _
  | string hs => exact zero_not_mem_jsonSerializeString hs
  | emptyArray => decide
  | emptyObject => decide
  | @array n items _ _ ih =>
    have htexts : 0 ∉ commaSeparated (items.map jsonSerialize) := by
      refine zero_not_mem_commaSeparated ?_
      intro x hx
      rw [List.mem_map] at hx
      rcases hx with ⟨v, hv, rfl⟩
      exact ih v hv
    rw [jsonSerialize, serializeItems_eq, List.mem_cons, List.mem_append, List.mem_singleton]
    rintro (h | h | h)
    · cases h
    · exact htexts h
    · cases h
  | @object n members _ _ hnul _ ih =>
    have htexts : 0 ∉ commaSeparated (members.map serializeMember) := by
      refine zero_not_mem_commaSeparated ?_
      intro x hx
      rw [List.mem_map] at hx
      rcases hx with ⟨⟨name, value⟩, hm, rfl⟩
      rw [serializeMember, List.mem_append, List.mem_cons]
      rintro (h | h | h)
      · exact zero_not_mem_jsonSerializeString (hnul _ hm) h
      · cases h
      · exact ih _ hm h
    rw [jsonSerialize, serializeMembers_eq, List.mem_cons, List.mem_append, List.mem_singleton]
    rintro (h | h | h)
    · cases h
    · exact htexts h
    · cases h

/-- A file that holds the text of a value is read as `reread` says. -/
theorem jsonParseContents_jsonSerialize {v : Json} (hv : Parsed maxNesting v) :
    jsonParseContents (jsonSerialize v) = reread v := by
  have hnothing : Stops [] := fun b hb => nomatch hb
  have hread := parseValue_jsonSerialize hv hnothing
  rw [List.append_nil] at hread
  unfold jsonParseContents jsonParseString
  rw [cString_of_not_mem (zero_not_mem_jsonSerialize hv), hread, Option.map_map]
  show (reread v).map id = reread v
  exact congrFun Option.map_id (reread v)

/-! ## What survives -/

/-- The numbers and the strings of a value are read back as they are. -/
inductive Restorable : Json → Prop where
  | null : Restorable .null
  | boolean {b : Bool} : Restorable (.boolean b)
  | number {x : Double} (hx : rereadNumber x = some x) : Restorable (.number x)
  | string {s : List UInt8} (hs : Writable s) : Restorable (.string s)
  | array {items : List Json} (hitems : ∀ v ∈ items, Restorable v) : Restorable (.array items)
  | object {members : Members} (hnames : ∀ m ∈ members, Writable m.1)
      (hvalues : ∀ m ∈ members, Restorable m.2) : Restorable (.object members)

/-- A list is mapped to itself if every element is. -/
theorem mapM_eq_self_iff {α : Type} {f : α → Option α} {xs : List α} :
    xs.mapM f = some xs ↔ ∀ x ∈ xs, f x = some x := by
  induction xs with
  | nil => simp
  | cons x xs ih =>
    rw [List.mapM_cons, List.forall_mem_cons, ← ih]
    simp only [Option.bind_eq_bind, Option.bind_eq_some_iff]
    constructor
    · rintro ⟨y, hy, ys, hys, h⟩
      cases h
      exact ⟨hy, hys⟩
    · rintro ⟨hx, hxs⟩
      exact ⟨x, hx, xs, hxs, rfl⟩

/-- A tree is read back unchanged exactly if it is restorable. -/
theorem reread_eq_self_iff (v : Json) : reread v = some v ↔ Restorable v := by
  -- the tree comes back exactly if every leaf and every name does
  induction v using Json.induct with
  | null => exact ⟨fun _ => Restorable.null, fun _ => rfl⟩
  | boolean b => exact ⟨fun _ => Restorable.boolean, fun _ => rfl⟩
  | number x =>
    rw [reread, Option.map_eq_some_iff]
    constructor
    · rintro ⟨y, hy, h⟩
      cases h
      exact Restorable.number hy
    · rintro (_ | _ | hx | _ | _ | _)
      exact ⟨x, hx, rfl⟩
  | string s =>
    rw [reread]
    constructor
    · intro h
      split at h
      · exact Restorable.string ‹_›
      · cases h
    · rintro (_ | _ | _ | hs | _ | _)
      exact if_pos hs
  | array items ih =>
    rw [reread, rereadItems_eq, Option.map_eq_some_iff]
    constructor
    · rintro ⟨vs, hvs, h⟩
      cases h
      exact Restorable.array fun v hv => (ih v hv).mp (mapM_eq_self_iff.mp hvs v hv)
    · rintro (_ | _ | _ | _ | hitems | _)
      exact ⟨items, mapM_eq_self_iff.mpr fun v hv => (ih v hv).mpr (hitems v hv), rfl⟩
  | object members ih =>
    have hmember : ∀ m ∈ members, (rereadMember m = some m ↔ Writable m.1 ∧ Restorable m.2) := by
      rintro ⟨name, value⟩ hm
      rw [← ih _ hm]
      unfold rereadMember
      by_cases hw : Writable name
      · simp [hw]
      · simp [hw]
    rw [reread, rereadMembers_eq, Option.map_eq_some_iff]
    constructor
    · rintro ⟨ms, hms, h⟩
      cases h
      have hall := fun m hm => (hmember m hm).mp (mapM_eq_self_iff.mp hms m hm)
      exact Restorable.object (fun m hm => (hall m hm).1) fun m hm => (hall m hm).2
    · rintro (_ | _ | _ | _ | _ | ⟨hnames, hvalues⟩)
      exact ⟨members, mapM_eq_self_iff.mpr fun m hm => (hmember m hm).mpr ⟨hnames m hm, hvalues m hm⟩, rfl⟩

instance (v : Json) : Decidable (Restorable v) :=
  decidable_of_iff _ (reread_eq_self_iff v)

/-- An integer of up to 53 bits is read back. -/
theorem restorable_ofInt {i : Int} (hi : i.natAbs ≤ 2 ^ 53) : Restorable (.number (Double.ofInt i)) :=
  Restorable.number (rereadNumber_ofInt hi)

end Hpav
