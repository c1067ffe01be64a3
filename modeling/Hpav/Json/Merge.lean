import Mathlib.Tactic.Common
import Hpav.Json.Value

/-!
# Merging JSON values

`json_value_merge` of the bundled parson, which is not in its upstream version, and what it
is made of: the comparison, the copy and the removal. A merge changes its first argument as
far as it gets, whatever it returns.
-/

namespace Hpav

open Binary64

/-! ## Comparing -/

/-- `fabs(a - b) < 0.000001` -/
def closeNumbers : Double → Double → Bool
  | .finite x _, .finite y _ =>
    match Double.ofRatio false (x - y).natAbs one, Double.ofRatio false 1 (10 ^ 6) with
    | .finite difference _, .finite epsilon _ => difference < epsilon
    | _, _ => false
  | _, _ => false

mutual

/-- `json_value_equals`. The members are compared name by name; the names of an object are
pairwise different. -/
def jsonValueEquals : Json → Json → Bool
  | .array items, b => match b with
    | .array items' => items.length = items'.length && equalItems items items'
    | _ => false
  | .object members, b => match b with
    | .object members' => members.length = members'.length && equalMembers members members'
    | _ => false
  | .string s, b => match b with
    | .string s' => s = s'
    | _ => false
  | .boolean x, b => match b with
    | .boolean x' => x = x'
    | _ => false
  | .number x, b => match b with
    | .number x' => closeNumbers x x'
    | _ => false
  | .null, b => match b with
    | .null => true
    | _ => false

def equalItems : List Json → List Json → Bool
  | v :: vs, w :: ws => jsonValueEquals v w && equalItems vs ws
  | _, _ => true

def equalMembers : List (List UInt8 × Json) → Members → Bool
  | [], _ => true
  | m :: ms, members' => equalMember m members' && equalMembers ms members'

def equalMember : List UInt8 × Json → Members → Bool
  | (name, v), members' =>
    match jsonObjectGetValue members' name with
    | none => false
    | some w => jsonValueEquals v w

end

/-! ## Copying -/

mutual

/-- `json_value_deep_copy` -/
def jsonValueDeepCopy : Json → Option Json
  | .null => some .null
  | .boolean b => some (.boolean b)
  | .number x => some (.number x)
  | .string s => some (.string s)
  | .array items => (copyItems Table.empty items).map fun t => .array t.entries
  | .object members => (copyMembers Table.empty members).map fun t => .object t.entries

def copyItems (t : Table Json) : List Json → Option (Table Json)
  | [] => some t
  | v :: vs => do
    let copy ← jsonValueDeepCopy v
    let t ← jsonArrayAdd t copy
    copyItems t vs

def copyMembers (t : Table (List UInt8 × Json)) :
    List (List UInt8 × Json) → Option (Table (List UInt8 × Json))
  | [] => some t
  | m :: ms => do
    let t ← copyMember t m
    copyMembers t ms

def copyMember (t : Table (List UInt8 × Json)) : List UInt8 × Json → Option (Table (List UInt8 × Json))
  | (name, v) => do
    let copy ← jsonValueDeepCopy v
    jsonObjectAdd t name copy

end

/-! ## Merging -/

/-- `json_object_remove`: the last member takes the place of the one that goes. -/
def jsonObjectRemove (object : Table (List UInt8 × Json)) (name : List UInt8) : Table (List UInt8 × Json) :=
  match object.entries.findIdx? (fun m => m.1 = name), object.entries.getLast? with
  | some i, some last => { object with entries := (object.entries.set i last).dropLast }
  | _, _ => object

mutual

/-- `json_value_merge`: whether it succeeded, and what it made of `a`. -/
def jsonValueMerge (a : Json) : Json → Bool × Json
  | .object bMembers =>
    match a with
    | .object aMembers =>
      let (success, object) := mergeMembers (Table.trimmed aMembers) bMembers
      (success, .object object.entries)
    | _ => (false, a)
  | _ => (false, a)

/-- The loop over the members of `b`. -/
def mergeMembers (object : Table (List UInt8 × Json)) :
    List (List UInt8 × Json) → Bool × Table (List UInt8 × Json)
  | [] => (true, object)
  | m :: ms =>
    match mergeMember object m with
    | (true, object) => mergeMembers object ms
    | (false, object) => (false, object)

/-- One turn of it. A value that differs is merged into an object, whether or not that
works, and takes the place of anything else. -/
def mergeMember (object : Table (List UInt8 × Json)) :
    List UInt8 × Json → Bool × Table (List UInt8 × Json)
  | (key, bItem) =>
    match jsonObjectGetValue object.entries key with
    | none =>
      match (jsonValueDeepCopy bItem).bind (jsonObjectAdd object key) with
      | none => (false, object)
      | some object => (true, object)
    | some aItem =>
      if jsonValueEquals aItem bItem then (true, object)
      else
        match aItem with
        | .object aMembers =>
          -- the result of the call is dropped
          (true, { object with entries := overwrite key (jsonValueMerge (.object aMembers) bItem).2 object.entries })
        | _ =>
          -- removed first: the member is lost if the copy cannot be added
          let object := jsonObjectRemove object key
          match (jsonValueDeepCopy bItem).bind (jsonObjectAdd object key) with
          | none => (false, object)
          | some object => (true, object)

end

end Hpav
