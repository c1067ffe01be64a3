import Mathlib.Tactic.Common
import Hpav.Lib.OwnedLists
import Hpav.ConfFileParse
import Hpav.FileAccess

/-!
# Stacks of errors in memory

The stacks of `hpav_error.c`: records with two texts each, which a stack owns. A caller may have
several stacks, and may put one of them behind another one. `ErrorCall.run` is a call with its memory,
`ErrorCall.intended` what the call is for: a stack is a list of errors, and one that was appended
belongs to the other stack from then on. As long as the callers keep to that, the memory stands
for the lists, and nothing is lost or given back twice (`errorStacks_kept`).
-/

namespace Hpav

open CMem CNumeral

/-! ## The texts -/

/-- What an error says. -/
structure ErrorEntry where
  errorCategory : Int
  errorModule : Int
  errorCode : Int
  message : Option CString
  details : Option CString
  deriving DecidableEq

/-- `hpav_error_category_to_string` -/
def hpavErrorCategoryToString (errorCategory : Int) : CString :=
  match errorCategory with
  | -1 => text "Unknown"
  | 0 => text "Network"
  | 1 => text "Internal"
  | 2 => text "Protocol"
  | 3 => text "Input"
  | _ => text "Unrecognized (" ++ formatInt errorCategory ++ text ")"

/-- `hpav_error_module_to_string`, which knows two modules less than there are. -/
def hpavErrorModuleToString (errorModule : Int) : CString :=
  match errorModule with
  | -1 => text "Unknown"
  | 0 => text "CORE"
  | 1 => text "API"
  | 2 => text "CLI"
  | _ => text "Unrecognized (" ++ formatInt errorModule ++ text ")"

/-- `%08X` -/
def formatHex08 (code : Int) : CString :=
  let n := (code % 4294967296).toNat
  formatHex02 (n / 16777216) ++ formatHex02 (n / 65536 % 256) ++ formatHex02 (n / 256 % 256) ++ formatHex02 (n % 256)

/-- What `hpav_dump_error_stack` prints of an error. -/
def errorText (errorCategory errorModule errorCode : Int) (message details : CString) : CString :=
  text "Error category : " ++ hpavErrorCategoryToString errorCategory ++ text "\n" ++
    text "Module         : " ++ hpavErrorModuleToString errorModule ++ text "\n" ++
    text "Code           : 0x" ++ formatHex08 errorCode ++ text "\n" ++
    text "Message        : " ++ message ++ text "\n" ++
    text "Details        : " ++ details ++ text "\n"

/-! ## The memory -/

/-- `struct hpav_error`, without `next`. -/
structure ErrorRecord where
  errorCategory : Int
  errorModule : Int
  errorCode : Int
  message : Option Nat
  details : Option Nat
  deriving DecidableEq

/-- The texts of a record, in the order in which they are given back. -/
def ErrorRecord.owned (r : ErrorRecord) : List (Option Nat) :=
  [r.message, r.details]

/-- The records and their texts. -/
structure ErrorMemory where
  errors : Cells ErrorRecord
  texts : Cells CString

/-- `malloc(strlen(text) + 1)` and `strcpy`, unless the text is NULL. -/
def copyText (texts : Cells CString) : Option CString → Cells CString × Option Nat
  | none => (texts, none)
  | some s =>
    let (texts, a) := mallocCell texts s
    (texts, some a)

/-- Everything was given back. -/
def ErrorMemory.Reclaimed (m : ErrorMemory) : Prop :=
  CMem.Reclaimed m.errors ∧ CMem.Reclaimed m.texts

/-- What a walk over the records takes at most, unless it does not end. -/
def ErrorMemory.turns (m : ErrorMemory) : Nat :=
  m.errors.length + 1

/-- `hpav_add_error` -/
def ErrorMemory.addError (m : ErrorMemory) (errorStack : Option Nat) (e : ErrorEntry) :
    Except Fault (ErrorMemory × Option Nat) := do
  let (errors, newError) := mallocCell m.errors ⟨0, 0, 0, none, none⟩
  let errors ← storeCell errors (some newError) fun n => { n with next := errorStack }
  let errors ← storeCell errors (some newError) fun n =>
    { n with val := ⟨e.errorCategory, e.errorModule, e.errorCode, none, none⟩ }
  let (texts, message) := copyText m.texts e.message
  let errors ← storeCell errors (some newError) fun n => { n with val := { n.val with message } }
  let (texts, details) := copyText texts e.details
  let errors ← storeCell errors (some newError) fun n => { n with val := { n.val with details } }
  return (⟨errors, texts⟩, some newError)

/-- `hpav_append_error_stack` -/
def ErrorMemory.appendErrorStack (m : ErrorMemory) (errorStack secondErrorStack : Option Nat) :
    Except Fault (Option (ErrorMemory × Option Nat)) :=
  match secondErrorStack with
  | none => .ok (some (m, errorStack))
  | some secondError => do
    match ← lastCell m.errors m.turns secondError with
    | none => return none
    | some currentError => do
      let errors ← storeCell m.errors (some currentError) fun n => { n with next := errorStack }
      return some ({ m with errors }, some secondError)

/-- `hpav_free_error_stack`: the texts of a record go before it. -/
def ErrorMemory.freeErrorStack (m : ErrorMemory) (errorStack : Option Nat) :
    Except Fault (Option (ErrorMemory × Option Nat)) := do
  match ← freeLoop (freeOwned ErrorRecord.owned) m.turns errorStack m.errors m.texts with
  | none => return none
  | some (errors, texts) => return some (⟨errors, texts⟩, none)

/-- What is read of an error. -/
def ErrorMemory.entry (m : ErrorMemory) (r : ErrorRecord) : Except Fault ErrorEntry := do
  let message ← r.message.mapM fun a => Node.val <$> readCell m.texts (some a)
  let details ← r.details.mapM fun a => Node.val <$> readCell m.texts (some a)
  return ⟨r.errorCategory, r.errorModule, r.errorCode, message, details⟩

/-- The errors of a stack. -/
def ErrorMemory.entries (m : ErrorMemory) (errorStack : Option Nat) : Except Fault (Option (List ErrorEntry)) :=
  visitCells m.errors m.entry m.turns errorStack

/-- The five calls of `printf` for an error: `%s` does not take NULL. -/
def ErrorMemory.dumpError (m : ErrorMemory) (r : ErrorRecord) : Except Fault CString := do
  let message ← readCell m.texts r.message
  let details ← readCell m.texts r.details
  return errorText r.errorCategory r.errorModule r.errorCode message.val details.val

/-- `hpav_dump_error_stack` -/
def ErrorMemory.dumpErrorStack (m : ErrorMemory) (errorStack : Option Nat) : Except Fault (Option CString) :=
  match errorStack with
  | none => .ok (some (text "Empty error stack.\n"))
  | some _ => do
    match ← visitCells m.errors m.dumpError m.turns errorStack with
    | none => return none
    | some lines => return some lines.flatten

/-! ## The calls -/

/-- The calls on some stacks. `init` is `error_stack = NULL`, for the caller who reports the errors. -/
inductive ErrorCall (κ : Type) where
  | init (errorStack : κ)
  | add (errorStack : κ) (error : ErrorEntry)
  | append (errorStack secondErrorStack : κ)
  | dump (errorStack : κ)
  | free (errorStack : κ)

/-- The memory, the variables of the callers, and what was printed. -/
structure ErrorState (κ : Type) where
  memory : ErrorMemory
  errorStack : κ → Option Nat
  printed : CString

/-- What the stacks stand for: `none` is a stack that another one was extended by. -/
structure ErrorLists (κ : Type) where
  list : κ → Option (List ErrorEntry)
  printed : CString

def ErrorState.start (κ : Type) : ErrorState κ :=
  ⟨⟨[], []⟩, fun _ => none, []⟩

def ErrorLists.start (κ : Type) : ErrorLists κ :=
  ⟨fun _ => some [], []⟩

section Calls

variable {κ : Type} [DecidableEq κ]

/-- A call. -/
def ErrorCall.run (s : ErrorState κ) : ErrorCall κ → Except Fault (Option (ErrorState κ))
  | .init k => .ok (some { s with errorStack := Function.update s.errorStack k none })
  | .add k error => do
    let (memory, p) ← s.memory.addError (s.errorStack k) error
    return some { s with memory, errorStack := Function.update s.errorStack k p }
  | .append k j => do
    match ← s.memory.appendErrorStack (s.errorStack k) (s.errorStack j) with
    | none => return none
    | some (memory, p) => return some { s with memory, errorStack := Function.update s.errorStack k p }
  | .dump k => do
    match ← s.memory.dumpErrorStack (s.errorStack k) with
    | none => return none
    | some lines => return some { s with printed := s.printed ++ lines }
  | .free k => do
    match ← s.memory.freeErrorStack (s.errorStack k) with
    | none => return none
    | some (memory, p) => return some { s with memory, errorStack := Function.update s.errorStack k p }

/-- The calls of a program, in their order. -/
def runErrorCalls : List (ErrorCall κ) → ErrorState κ → Except Fault (Option (ErrorState κ))
  | [], s => .ok (some s)
  | call :: calls, s => do
    match ← call.run s with
    | none => return none
    | some s => runErrorCalls calls s

/-- The lines of an error that has both texts. -/
def ErrorEntry.dumped (e : ErrorEntry) : Option CString := do
  let message ← e.message
  let details ← e.details
  return errorText e.errorCategory e.errorModule e.errorCode message details

/-- What a call is for, where it keeps to the rules: no stack is used after it was appended to
another one, or appended to itself, none is forgotten that still has errors, and no error is
printed that lacks a text. -/
def ErrorCall.intended (s : ErrorLists κ) : ErrorCall κ → Option (ErrorLists κ)
  | .init k =>
    if (s.list k).getD [] = [] then some { s with list := Function.update s.list k (some []) } else none
  | .add k error => do
    let errors ← s.list k
    return { s with list := Function.update s.list k (some (error :: errors)) }
  | .append k j => do
    let errors ← s.list k
    let second ← s.list j
    if second = [] then return s
    else if k = j then none
    else return { s with list := Function.update (Function.update s.list k (some (second ++ errors))) j none }
  | .dump k => do
    let errors ← s.list k
    if errors = [] then return { s with printed := s.printed ++ text "Empty error stack.\n" }
    else
      let lines ← errors.mapM ErrorEntry.dumped
      return { s with printed := s.printed ++ lines.flatten }
  | .free k => do
    let _ ← s.list k
    return { s with list := Function.update s.list k (some []) }

/-- What the calls of a program come to. -/
def intendedLists (calls : List (ErrorCall κ)) (s : ErrorLists κ) : Option (ErrorLists κ) :=
  calls.foldlM ErrorCall.intended s

end Calls

/-! ## What the memory stands for -/

/-- The texts of some records. -/
def ownedTexts (records : List ErrorRecord) : List Nat :=
  (records.flatMap ErrorRecord.owned).filterMap id

/-- What a record says. -/
def ErrorRecord.entry (texts : Heap CString) (r : ErrorRecord) : ErrorEntry :=
  ⟨r.errorCategory, r.errorModule, r.errorCode, r.message.bind fun a => (texts[a]?).map Node.val,
    r.details.bind fun a => (texts[a]?).map Node.val⟩

/-- A variable stands for a list, with the nodes of `c`; or it stands for nothing any more. -/
def ListAt (t : Heap CString) (errorStack : Option Nat) (c : Chain ErrorRecord) : Option (List ErrorEntry) → Prop
  | some errors => errorStack = c.head ∧ c.payloads.map (ErrorRecord.entry t) = errors
  | none => c.payloads = []

/-- The memory and the variables stand for the lists. -/
structure StandsFor {κ : Type} (h : Heap ErrorRecord) (t : Heap CString) (goneErrors goneTexts : List Nat)
    (chainOf : κ → Chain ErrorRecord) (s : ErrorState κ) (l : ErrorLists κ) : Prop where
  errors : s.memory.errors = wipe goneErrors (cells h)
  texts : s.memory.texts = wipe goneTexts (cells t)
  lists : OwnedLists h goneErrors chainOf
  shares : Shares t.length goneTexts fun k => ownedTexts (chainOf k).payloads
  listAt : ∀ k, ListAt t (s.errorStack k) (chainOf k) (l.list k)
  printed : s.printed = l.printed

/-- The lists are what the memory holds. -/
def Represents {κ : Type} (s : ErrorState κ) (l : ErrorLists κ) : Prop :=
  ∃ h t goneErrors goneTexts chainOf, StandsFor h t goneErrors goneTexts chainOf s l

/-- The memory of the start stands for empty stacks. -/
theorem represents_start (κ : Type) : Represents (ErrorState.start κ) (ErrorLists.start κ) := by
  refine ⟨[], [], [], [], fun _ => Chain.empty, rfl, rfl, OwnedLists.start, Shares.start, ?_, rfl⟩
  intro k
  exact ⟨rfl, rfl⟩

/-- A record owns its message and its details. -/
theorem ownedTexts_cons (r : ErrorRecord) (records : List ErrorRecord) :
    ownedTexts (r :: records) = r.message.toList ++ r.details.toList ++ ownedTexts records := by
  unfold ownedTexts
  rw [List.flatMap_cons, List.filterMap_append]
  cases hm : r.message <;> cases hd : r.details <;> simp [ErrorRecord.owned, hm, hd]

/-- Two lists own what each of them does. -/
theorem ownedTexts_append (records records' : List ErrorRecord) :
    ownedTexts (records ++ records') = ownedTexts records ++ ownedTexts records' := by
  unfold ownedTexts
  rw [List.flatMap_append, List.filterMap_append]

/-- Texts that come later do not change what a record says. -/
theorem ErrorRecord.entry_append {t t' : Heap CString} {r : ErrorRecord} (hr : ∀ a ∈ ownedTexts [r], a < t.length) :
    r.entry (t ++ t') = r.entry t := by
  have hget : ∀ {p : Option Nat}, (∀ a ∈ p.toList, a < t.length) →
      (p.bind fun a => ((t ++ t')[a]?).map Node.val) = p.bind fun a => (t[a]?).map Node.val := by
    intro p hp
    cases p with
    | none => rfl
    | some a =>
      have hlt : a < t.length := hp a (by simp)
      simp only [Option.bind_some, List.getElem?_append_left hlt]
  rw [ownedTexts_cons] at hr
  unfold ErrorRecord.entry
  rw [hget (fun a ha => hr a (by simp only [List.mem_append, ha, true_or])),
    hget (fun a ha => hr a (by simp only [List.mem_append, ha, true_or, or_true]))]

/-- What a record owns is owned by its list. -/
theorem mem_ownedTexts {r : ErrorRecord} {records : List ErrorRecord} (hr : r ∈ records) {a : Nat}
    (ha : a ∈ ownedTexts [r]) : a ∈ ownedTexts records := by
  rcases List.append_of_mem hr with ⟨pre, post, rfl⟩
  rw [List.append_cons, ownedTexts_append, ownedTexts_append]
  exact List.mem_append_left _ (List.mem_append_right _ ha)

/-! ## Adding an error -/

/-- The copy of a text, if there is one. -/
def textCopy (s : Option CString) : Heap CString :=
  s.toList.map fun s => ⟨s, none⟩

/-- A text is copied behind those that are there, freed ones included. -/
theorem copyText_wipe {t : Heap CString} {gone : List Nat} (hgone : ∀ a ∈ gone, a < t.length) (s : Option CString) :
    copyText (wipe gone (cells t)) s = (wipe gone (cells (t ++ textCopy s)), s.map fun _ => t.length) := by
  cases s with
  | none =>
    show (wipe gone (cells t), none) = (wipe gone (cells (t ++ [])), none)
    rw [List.append_nil]
  | some s =>
    simp only [copyText, mallocCell_wipe hgone]
    rfl

/-- The copy is found at its address. -/
theorem textCopy_get (t t' : Heap CString) (s : Option CString) :
    ((s.map fun _ => t.length).bind fun a => ((t ++ textCopy s ++ t')[a]?).map Node.val) = s := by
  cases s with
  | none => rfl
  | some s => simp [textCopy]

/-- A copy takes one place, and no text takes none. -/
theorem length_append_textCopy (t : Heap CString) (s : Option CString) :
    (t ++ textCopy s).length = t.length + s.toList.length := by
  rw [List.length_append, textCopy, List.length_map]

/-- The copy belongs to the stack. -/
theorem shares_textCopy {κ : Type} [DecidableEq κ] {t : Heap CString} {gone : List Nat} {own : κ → List Nat}
    (hs : Shares t.length gone own) (k : κ) (s : Option CString) :
    Shares (t ++ textCopy s).length gone
      (Function.update own k ((s.map fun _ => t.length).toList ++ own k)) := by
  rw [length_append_textCopy]
  cases s with
  | none =>
    show Shares t.length gone (Function.update own k (own k))
    rw [Function.update_eq_self]
    exact hs
  | some s => exact hs.take k

/-- The record of an error whose texts are copied behind the texts there are. -/
def recordAt (t : Heap CString) (e : ErrorEntry) : ErrorRecord :=
  ⟨e.errorCategory, e.errorModule, e.errorCode, e.message.map fun _ => t.length,
    e.details.map fun _ => (t ++ textCopy e.message).length⟩

/-- The record that is allocated is read as the error that was added. -/
theorem recordAt_entry (t : Heap CString) (e : ErrorEntry) :
    (recordAt t e).entry (t ++ textCopy e.message ++ textCopy e.details) = e := by
  have hdetails := textCopy_get (t ++ textCopy e.message) [] e.details
  rw [List.append_nil] at hdetails
  simp only [ErrorRecord.entry, recordAt, textCopy_get t (textCopy e.details) e.message, hdetails]

/-- An error is put behind the memory, in front of its stack. -/
theorem addError_wipe {h : Heap ErrorRecord} {t : Heap CString} {goneErrors goneTexts : List Nat}
    (hgoneErrors : ∀ a ∈ goneErrors, a < h.length) (hgoneTexts : ∀ a ∈ goneTexts, a < t.length)
    (errorStack : Option Nat) (e : ErrorEntry) :
    ErrorMemory.addError ⟨wipe goneErrors (cells h), wipe goneTexts (cells t)⟩ errorStack e =
      .ok (⟨wipe goneErrors (cells (h ++ [⟨recordAt t e, errorStack⟩])),
        wipe goneTexts (cells (t ++ textCopy e.message ++ textCopy e.details))⟩, some h.length) := by
  have hgoneTexts' : ∀ a ∈ goneTexts, a < (t ++ textCopy e.message).length := by
    intro a ha
    rw [length_append_textCopy]
    exact Nat.lt_add_right _ (hgoneTexts a ha)
  unfold ErrorMemory.addError
  simp only [mallocCell_wipe hgoneErrors, storeCell_fresh hgoneErrors, bind_ok, copyText_wipe hgoneTexts,
    copyText_wipe hgoneTexts']
  rfl

/-! ## The steps -/

section Steps

variable {κ : Type} {h : Heap ErrorRecord} {t : Heap CString} {goneErrors goneTexts : List Nat}
  {chainOf : κ → Chain ErrorRecord} {s : ErrorState κ} {l : ErrorLists κ}

/-- What a variable stands for is not changed by texts that come later. -/
theorem ListAt.append {p : Option Nat} {c : Chain ErrorRecord} {errors : Option (List ErrorEntry)}
    (hv : ListAt t p c errors) (hlt : ∀ a ∈ ownedTexts c.payloads, a < t.length) (t' : Heap CString) :
    ListAt (t ++ t') p c errors := by
  cases errors with
  | none => exact hv
  | some errors =>
    rcases hv with ⟨hhead, hentries⟩
    refine ⟨hhead, ?_⟩
    rw [← hentries]
    apply List.map_congr_left
    intro r hr
    exact ErrorRecord.entry_append fun a ha => hlt a (mem_ownedTexts hr ha)

/-- A variable that stands for a list. -/
theorem StandsFor.list (hs : StandsFor h t goneErrors goneTexts chainOf s l) {k : κ} {errors : List ErrorEntry}
    (hk : l.list k = some errors) :
    s.errorStack k = (chainOf k).head ∧ (chainOf k).payloads.map (ErrorRecord.entry t) = errors := by
  have hv := hs.listAt k
  rw [hk] at hv
  exact hv

/-- A stack that stands for no errors has no nodes. -/
theorem StandsFor.empty (hs : StandsFor h t goneErrors goneTexts chainOf s l) {k : κ} (hk : l.list k = some []) :
    s.errorStack k = none := by
  rcases hs.list hk with ⟨hhead, hentries⟩
  have hpath := hs.lists.path k
  rw [List.map_eq_nil_iff.mp hentries] at hpath
  rw [hhead, hpath.head_nil]

/-- The walks over a stack have turns enough. -/
theorem StandsFor.length_lt_turns (hs : StandsFor h t goneErrors goneTexts chainOf s l) (k : κ) :
    (chainOf k).nodes.length < s.memory.turns := by
  unfold ErrorMemory.turns
  rw [hs.errors, length_wipe_cells]
  exact Nat.lt_succ_of_le (length_le_of_nodup (hs.lists.shares.nodup k) fun a ha => hs.lists.shares.lt a ha)

/-- A stack that stands for errors starts at one of its nodes. -/
theorem StandsFor.exists_head (hs : StandsFor h t goneErrors goneTexts chainOf s l) {k : κ} {errors : List ErrorEntry}
    (hk : l.list k = some errors) (hne : errors ≠ []) :
    ∃ a, a ∈ (chainOf k).nodes ∧ s.errorStack k = some a := by
  rcases hs.list hk with ⟨hhead, hentries⟩
  have hpath := hs.lists.path k
  have hpayloads : (chainOf k).payloads ≠ [] := by
    intro hnil
    rw [hnil] at hentries
    exact hne hentries.symm
  rcases List.exists_cons_of_ne_nil hpayloads with ⟨x, xs, hcons⟩
  rw [hcons] at hpath
  rcases hpath.head_mem with ⟨a, ha, hmem⟩
  exact ⟨a, hmem, hhead.trans ha⟩

/-- The texts of a stack are given back with it. -/
theorem StandsFor.gives (hs : StandsFor h t goneErrors goneTexts chainOf s l) (k : κ) :
    Gives (freeOwned ErrorRecord.owned) (chainOf k).payloads (wipe goneTexts (cells t))
      (wipe (goneTexts ++ ownedTexts (chainOf k).payloads) (cells t)) :=
  gives_freeOwned (hs.shares.nodup k) (fun a ha => hs.shares.live a ha) fun a ha => hs.shares.lt a ha

/-! ### Reading -/

/-- The texts of a record were not given back. -/
theorem StandsFor.readText (hs : StandsFor h t goneErrors goneTexts chainOf s l) {k : κ} {r : ErrorRecord}
    (hr : r ∈ (chainOf k).payloads) {p : Option Nat} (hp : p = r.message ∨ p = r.details) {a : Nat} (ha : p = some a) :
    ∃ text, (p.bind fun a => (t[a]?).map Node.val) = some text.val ∧ readCell s.memory.texts p = .ok text := by
  have hmem : a ∈ ownedTexts (chainOf k).payloads := by
    apply mem_ownedTexts hr
    rw [ownedTexts_cons]
    rcases hp with rfl | rfl <;> simp [ha]
  obtain ⟨text, hget⟩ : ∃ text, t[a]? = some text := ⟨_, List.getElem?_eq_getElem (hs.shares.lt a hmem)⟩
  refine ⟨text, ?_, ?_⟩
  · rw [ha, Option.bind_some, hget]
    rfl
  · rw [hs.texts, ha]
    exact readCell_wipe hget (hs.shares.live a hmem)

/-- A record of a stack is printed as the entry it stands for. -/
theorem StandsFor.dumpError_eq (hs : StandsFor h t goneErrors goneTexts chainOf s l) {k : κ} {r : ErrorRecord}
    (hr : r ∈ (chainOf k).payloads) {lines : CString} (hdumped : (r.entry t).dumped = some lines) :
    s.memory.dumpError r = .ok lines := by
  rcases Option.bind_eq_some_iff.mp hdumped with ⟨message, hmessage, hdumped⟩
  rcases Option.bind_eq_some_iff.mp hdumped with ⟨details, hdetails, hdumped⟩
  rcases Option.bind_eq_some_iff.mp hmessage with ⟨a, ha, -⟩
  rcases Option.bind_eq_some_iff.mp hdetails with ⟨b, hb, -⟩
  rcases hs.readText hr (Or.inl rfl) ha with ⟨text, htext, hread⟩
  rcases hs.readText hr (Or.inr rfl) hb with ⟨text', htext', hread'⟩
  obtain rfl : message = text.val := Option.some.inj (hmessage.symm.trans htext)
  obtain rfl : details = text'.val := Option.some.inj (hdetails.symm.trans htext')
  unfold ErrorMemory.dumpError
  rw [hread, bind_ok, hread', bind_ok]
  exact congrArg Except.ok (Option.some.inj hdumped)

/-- A record of a stack is read as the entry it stands for. -/
theorem StandsFor.entry_eq (hs : StandsFor h t goneErrors goneTexts chainOf s l) {k : κ} {r : ErrorRecord}
    (hr : r ∈ (chainOf k).payloads) : s.memory.entry r = .ok (r.entry t) := by
  have hread : ∀ {p : Option Nat}, p = r.message ∨ p = r.details →
      (p.mapM fun a => Node.val <$> readCell s.memory.texts (some a)) = .ok (p.bind fun a => (t[a]?).map Node.val) := by
    intro p hp
    cases p with
    | none => rfl
    | some a =>
      rcases hs.readText hr hp rfl with ⟨text, htext, hread⟩
      rw [htext]
      show (Option.some <$> (Node.val <$> readCell s.memory.texts (some a))) = _
      rw [hread]
      rfl
  unfold ErrorMemory.entry
  rw [hread (Or.inl rfl), bind_ok, hread (Or.inr rfl), bind_ok]
  rfl

/-- What is read of each node is read of the stack. -/
theorem mapM_ok_of_mapM_some {α β γ ε : Type} {read : α → Except ε γ} {f : β → Option γ} {g : α → β} {xs : List α}
    {ys : List γ} (hread : ∀ x ∈ xs, ∀ y, f (g x) = some y → read x = .ok y) (hys : (xs.map g).mapM f = some ys) :
    xs.mapM read = .ok ys := by
  induction xs generalizing ys with
  | nil =>
    cases hys
    rfl
  | cons x xs ih =>
    rw [List.map_cons, List.mapM_cons] at hys
    rcases Option.bind_eq_some_iff.mp hys with ⟨y, hy, hys⟩
    rcases Option.bind_eq_some_iff.mp hys with ⟨ys', hys', hpure⟩
    cases hpure
    rw [List.mapM_cons, hread x List.mem_cons_self y hy, ih (fun x hx => hread x (List.mem_cons_of_mem _ hx)) hys']
    rfl

/-- A walk over a stack visits the entries of its list, in order. -/
theorem StandsFor.visit_eq (hs : StandsFor h t goneErrors goneTexts chainOf s l) {k : κ} {errors : List ErrorEntry}
    (hk : l.list k = some errors) {β : Type} {visit : ErrorRecord → Except Fault β} {f : ErrorEntry → Option β}
    (hvisit : ∀ r ∈ (chainOf k).payloads, ∀ b, f (r.entry t) = some b → visit r = .ok b) {bs : List β}
    (hbs : errors.mapM f = some bs) :
    visitCells s.memory.errors visit s.memory.turns (s.errorStack k) = .ok (some bs) := by
  rcases hs.list hk with ⟨hhead, hentries⟩
  rw [← hentries] at hbs
  rw [hs.errors, hhead]
  exact (hs.lists.path k).visitCells_eq (fun a ha => hs.lists.shares.live a ha) (mapM_ok_of_mapM_some hvisit hbs)
    (hs.length_lt_turns k)

/-- The errors of a stack are read from its variable. -/
theorem StandsFor.entries_eq (hs : StandsFor h t goneErrors goneTexts chainOf s l) {k : κ} {errors : List ErrorEntry}
    (hk : l.list k = some errors) : s.memory.entries (s.errorStack k) = .ok (some errors) := by
  refine hs.visit_eq hk (f := some) ?_ ?_
  · intro r hr b hb
    cases hb
    exact hs.entry_eq hr
  · have hpure := List.mapM_pure (m := Option) (l := errors) (f := id)
    rw [List.map_id] at hpure
    exact hpure

/-- A stack is printed as its list. -/
theorem StandsFor.dump_eq (hs : StandsFor h t goneErrors goneTexts chainOf s l) {k : κ} {errors : List ErrorEntry}
    (hk : l.list k = some errors) {lines : List CString} (hne : errors ≠ [])
    (hlines : errors.mapM ErrorEntry.dumped = some lines) :
    s.memory.dumpErrorStack (s.errorStack k) = .ok (some lines.flatten) := by
  rcases hs.exists_head hk hne with ⟨a, -, hhead⟩
  have hvisit := hs.visit_eq hk (fun r hr b hb => hs.dumpError_eq hr hb) hlines
  rw [hhead] at hvisit ⊢
  simp only [ErrorMemory.dumpErrorStack, hvisit, bind_ok]
  rfl

/-- What is printed behind what was printed. -/
theorem StandsFor.print (hs : StandsFor h t goneErrors goneTexts chainOf s l) (lines : CString) :
    Represents { s with printed := s.printed ++ lines } { l with printed := l.printed ++ lines } :=
  ⟨h, t, goneErrors, goneTexts, chainOf, hs.errors, hs.texts, hs.lists, hs.shares, hs.listAt,
    congrArg (· ++ lines) hs.printed⟩

/-- The last node of the second stack is linked to the first stack. -/
theorem StandsFor.append_eq (hs : StandsFor h t goneErrors goneTexts chainOf s l) {j : κ}
    {second : List ErrorEntry} (hj : l.list j = some second) (hne : second ≠ []) (errorStack : Option Nat) :
    ∃ last m, (chainOf j).nodes.getLast? = some last ∧ h[last]? = some m ∧
      s.memory.appendErrorStack errorStack (s.errorStack j) =
        .ok (some (⟨wipe goneErrors (cells (h.set last { m with next := errorStack })), s.memory.texts⟩,
          s.errorStack j)) := by
  rcases hs.exists_head hj hne with ⟨a, hnode, ha⟩
  have hhead := (hs.list hj).1
  have hpath := hs.lists.path j
  rcases List.getLast?_isSome.mpr (List.ne_nil_of_mem hnode) with hsome
  rcases Option.isSome_iff_exists.mp hsome with ⟨last, hlast⟩
  rcases hpath.at_last hlast with ⟨m, hm, -, -⟩
  have hlive : ∀ a ∈ (chainOf j).nodes, a ∉ goneErrors := fun a ha => hs.lists.shares.live a ha
  have hwalk := hpath.lastCell_eq hlive (hhead.symm.trans ha) hlast (Nat.le_of_lt (hs.length_lt_turns j))
  have hstore := storeCell_wipe hm (hlive last (List.mem_of_getLast? hlast)) fun n => { n with next := errorStack }
  refine ⟨last, m, hlast, hm, ?_⟩
  rw [ha]
  simp only [ErrorMemory.appendErrorStack, hs.errors, hwalk, hstore, bind_ok]
  rfl

/-- Nothing is left exactly if no stack stands for errors. -/
theorem StandsFor.reclaimed_iff (hs : StandsFor h t goneErrors goneTexts chainOf s l) :
    s.memory.Reclaimed ↔ ∀ k errors, l.list k = some errors → errors = [] := by
  unfold ErrorMemory.Reclaimed
  rw [hs.errors, hs.texts, hs.lists.reclaimed_iff, reclaimed_wipe_iff, hs.shares.all_gone_iff]
  constructor
  · rintro ⟨hnodes, -⟩ k errors hk
    rcases hs.list hk with ⟨-, hentries⟩
    have hlength := (hs.lists.path k).length_eq
    rw [hnodes k] at hlength
    rw [List.length_eq_zero_iff.mp hlength.symm] at hentries
    exact hentries.symm
  · intro hempty
    have hpayloads : ∀ k, (chainOf k).payloads = [] := by
      intro k
      have hlist := hs.listAt k
      cases hk : l.list k with
      | none =>
        rw [hk] at hlist
        exact hlist
      | some errors =>
        rw [hk, hempty k errors hk] at hlist
        exact List.map_eq_nil_iff.mp hlist.2
    constructor
    · intro k
      have hlength := (hs.lists.path k).length_eq
      rw [hpayloads k] at hlength
      exact List.length_eq_zero_iff.mp hlength
    · intro k
      rw [hpayloads k]
      rfl

variable [DecidableEq κ]

/-- With one stack changed the others own what they did. -/
theorem payloads_update (k : κ) (c : Chain ErrorRecord) :
    (fun i => ownedTexts (Function.update chainOf k c i).payloads) =
      Function.update (fun i => ownedTexts (chainOf i).payloads) k (ownedTexts c.payloads) := by
  funext i
  exact Function.apply_update (fun _ (c : Chain ErrorRecord) => ownedTexts c.payloads) chainOf k c i

/-- With one stack changed the others stand for what they did. -/
theorem listAt_update {p : κ → Option Nat} {list : κ → Option (List ErrorEntry)} {k : κ} {p' : Option Nat}
    {c : Chain ErrorRecord} {errors : Option (List ErrorEntry)}
    (hv : ∀ i, ListAt t (p i) (chainOf i) (list i)) (hk : ListAt t p' c errors) (i : κ) :
    ListAt t (Function.update p k p' i) (Function.update chainOf k c i) (Function.update list k errors i) := by
  by_cases hi : i = k
  · subst hi
    simp only [Function.update_self]
    exact hk
  · simp only [Function.update_of_ne hi]
    exact hv i

/-- An error that is added is the first of its list. -/
theorem StandsFor.add (hs : StandsFor h t goneErrors goneTexts chainOf s l) {k : κ} {error : ErrorEntry}
    {errors : List ErrorEntry} (hk : l.list k = some errors) :
    ∃ s', ErrorCall.run s (.add k error) = .ok (some s') ∧
      Represents s' { l with list := Function.update l.list k (some (error :: errors)) } := by
  rcases hs.list hk with ⟨hhead, hentries⟩
  have hadd := addError_wipe hs.lists.shares.gone_lt hs.shares.gone_lt (chainOf k).head error
  rw [← hs.errors, ← hs.texts, ← hhead] at hadd
  rw [hhead] at hadd
  refine ⟨⟨⟨wipe goneErrors (cells (h ++ [⟨recordAt t error, (chainOf k).head⟩])),
      wipe goneTexts (cells (t ++ textCopy error.message ++ textCopy error.details))⟩,
      Function.update s.errorStack k (some h.length), s.printed⟩, ?_,
    h ++ [⟨recordAt t error, (chainOf k).head⟩], t ++ textCopy error.message ++ textCopy error.details, goneErrors,
    goneTexts, Function.update chainOf k ((chainOf k).push h.length (recordAt t error)), rfl, rfl,
    hs.lists.push k (recordAt t error), ?_, ?_, hs.printed⟩
  · show (s.memory.addError (s.errorStack k) error >>= _) = _
    rw [hhead, hadd, bind_ok]
    rfl
  · -- the copies of the texts belong to the stack
    have hshares := shares_textCopy (shares_textCopy hs.shares k error.message) k error.details
    rw [payloads_update]
    refine hshares.perm ?_
    intro i
    by_cases hi : i = k
    · subst hi
      simp only [Function.update_self, Chain.push, ownedTexts_cons, recordAt, List.append_assoc]
      exact List.perm_append_comm_assoc _ _ _
    · simp only [Function.update_of_ne hi]
      exact List.Perm.refl _
  · apply listAt_update
    · intro i
      rw [List.append_assoc]
      exact (hs.listAt i).append hs.shares.lt _
    · refine ⟨rfl, ?_⟩
      have hrest := (hs.listAt k).append hs.shares.lt (textCopy error.message ++ textCopy error.details)
      rw [hk, ← List.append_assoc] at hrest
      show (recordAt t error).entry _ :: (chainOf k).payloads.map _ = _
      rw [recordAt_entry, hrest.2]

/-- The nodes of the second stack go over to the first. Its variable is left as it was. -/
theorem StandsFor.append (hs : StandsFor h t goneErrors goneTexts chainOf s l) {k j : κ} (hkj : k ≠ j)
    {errors second : List ErrorEntry} (hk : l.list k = some errors) (hj : l.list j = some second) (hne : second ≠ []) :
    ∃ s' h', ErrorCall.run s (.append k j) = .ok (some s') ∧ s'.errorStack j = s.errorStack j ∧
      StandsFor h' t goneErrors goneTexts
        (Function.update (Function.update chainOf k ((chainOf j).join (chainOf k))) j Chain.empty) s'
        { l with list := Function.update (Function.update l.list k (some (second ++ errors))) j none } := by
  rcases hs.append_eq hj hne (s.errorStack k) with ⟨last, m, hlast, hm, happend⟩
  rcases hs.list hk with ⟨hheadk, hentriesk⟩
  rcases hs.list hj with ⟨hheadj, hentriesj⟩
  refine ⟨⟨⟨wipe goneErrors (cells (h.set last { m with next := s.errorStack k })), s.memory.texts⟩,
      Function.update s.errorStack k (s.errorStack j), s.printed⟩, h.set last { m with next := s.errorStack k }, ?_,
    Function.update_of_ne (Ne.symm hkj) _ _, rfl, hs.texts, ?_, ?_, ?_, hs.printed⟩
  · show (s.memory.appendErrorStack (s.errorStack k) (s.errorStack j) >>= _) = _
    rw [happend, bind_ok]
    rfl
  · rw [hheadk]
    exact hs.lists.join hkj hlast hm
  · rw [payloads_update, payloads_update]
    show Shares t.length goneTexts (Function.update (Function.update _ k (ownedTexts (_ ++ _))) j [])
    rw [ownedTexts_append]
    exact hs.shares.move hkj
  · -- the variable of the second stack is left as it was
    have hsame : Function.update (Function.update s.errorStack k (s.errorStack j)) j (s.errorStack j) =
        Function.update s.errorStack k (s.errorStack j) := by
      rw [Function.update_comm hkj, Function.update_eq_self]
    have hjoined : ListAt t (s.errorStack j) ((chainOf j).join (chainOf k)) (some (second ++ errors)) := by
      refine ⟨hheadj, ?_⟩
      show ((chainOf j).payloads ++ (chainOf k).payloads).map _ = _
      rw [List.map_append, hentriesj, hentriesk]
    have hover : ListAt t (s.errorStack j) Chain.empty none := rfl
    show ∀ i, ListAt t (Function.update s.errorStack k (s.errorStack j) i) _ _
    rw [← hsame]
    exact listAt_update (listAt_update hs.listAt hjoined) hover

/-- A stack is given back. -/
theorem StandsFor.free (hs : StandsFor h t goneErrors goneTexts chainOf s l) {k : κ} {errors : List ErrorEntry}
    (hk : l.list k = some errors) :
    ∃ s', ErrorCall.run s (.free k) = .ok (some s') ∧ s'.errorStack = Function.update s.errorStack k none ∧
      StandsFor h t (goneErrors ++ (chainOf k).nodes) (goneTexts ++ ownedTexts (chainOf k).payloads)
        (Function.update chainOf k Chain.empty) s' { l with list := Function.update l.list k (some []) } := by
  rcases hs.list hk with ⟨hhead, -⟩
  have hloop := (hs.lists.path k).freeLoop_eq (hs.lists.shares.nodup k) (fun a ha => hs.lists.shares.live a ha)
    (hs.length_lt_turns k) (hs.gives k)
  rw [← hs.errors, ← hs.texts, ← hhead] at hloop
  refine ⟨⟨⟨wipe (goneErrors ++ (chainOf k).nodes) (cells h),
      wipe (goneTexts ++ ownedTexts (chainOf k).payloads) (cells t)⟩,
      Function.update s.errorStack k none, s.printed⟩, ?_, rfl, rfl, rfl, hs.lists.release k, ?_, ?_, hs.printed⟩
  · show ((freeLoop _ _ _ _ _ >>= _) >>= _) = _
    rw [hloop, bind_ok]
    rfl
  · rw [payloads_update]
    exact hs.shares.drop k
  · exact listAt_update hs.listAt ⟨rfl, rfl⟩

/-- NULL is put into a variable that stands for no errors. -/
theorem StandsFor.init (hs : StandsFor h t goneErrors goneTexts chainOf s l) {k : κ}
    (hk : (l.list k).getD [] = []) :
    Represents { s with errorStack := Function.update s.errorStack k none }
      { l with list := Function.update l.list k (some []) } := by
  have hpayloads : (chainOf k).payloads = [] := by
    have hv := hs.listAt k
    cases hlist : l.list k with
    | none =>
      rw [hlist] at hv
      exact hv
    | some errors =>
      rw [hlist] at hv hk
      obtain rfl : errors = [] := hk
      exact List.map_eq_nil_iff.mp hv.2
  have hhead : (chainOf k).head = none := by
    have hpath := hs.lists.path k
    rw [hpayloads] at hpath
    exact hpath.head_nil
  refine ⟨h, t, goneErrors, goneTexts, chainOf, hs.errors, hs.texts, hs.lists, hs.shares, ?_, hs.printed⟩
  have hnull : ListAt t none (chainOf k) (some []) := by
    refine ⟨hhead.symm, ?_⟩
    rw [hpayloads]
    rfl
  have hlists := listAt_update (k := k) hs.listAt hnull
  rw [Function.update_eq_self] at hlists
  exact hlists

end Steps

/-! ## Whole runs -/

section Runs

variable {κ : Type} [DecidableEq κ] {s : ErrorState κ} {l l' : ErrorLists κ}

/-- A call that keeps to the rules does what it is for. -/
theorem Represents.step (hs : Represents s l) {call : ErrorCall κ} (hcall : call.intended l = some l') :
    ∃ s', call.run s = .ok (some s') ∧ Represents s' l' := by
  rcases hs with ⟨h, t, goneErrors, goneTexts, chainOf, hs⟩
  cases call with
  | init k =>
    simp only [ErrorCall.intended] at hcall
    split at hcall
    · next hk =>
      cases hcall
      exact ⟨_, rfl, hs.init hk⟩
    · cases hcall
  | add k error =>
    rcases Option.bind_eq_some_iff.mp hcall with ⟨errors, hk, hcall⟩
    cases hcall
    exact hs.add hk
  | append k j =>
    rcases Option.bind_eq_some_iff.mp hcall with ⟨errors, hk, hcall⟩
    rcases Option.bind_eq_some_iff.mp hcall with ⟨second, hj, hcall⟩
    split at hcall
    · next hnil =>
      cases hcall
      subst hnil
      refine ⟨s, ?_, h, t, goneErrors, goneTexts, chainOf, hs⟩
      simp only [ErrorCall.run, hs.empty hj, ErrorMemory.appendErrorStack, bind_ok, Function.update_eq_self]
      rfl
    · next hne =>
      split at hcall
      · cases hcall
      · next hkj =>
        cases hcall
        rcases hs.append hkj hk hj hne with ⟨s', h', hrun, -, hs'⟩
        exact ⟨s', hrun, _, _, _, _, _, hs'⟩
  | dump k =>
    rcases Option.bind_eq_some_iff.mp hcall with ⟨errors, hk, hcall⟩
    split at hcall
    · next hnil =>
      cases hcall
      subst hnil
      refine ⟨_, ?_, hs.print _⟩
      simp only [ErrorCall.run, hs.empty hk, ErrorMemory.dumpErrorStack, bind_ok]
      rfl
    · next hne =>
      rcases Option.bind_eq_some_iff.mp hcall with ⟨lines, hlines, hcall⟩
      cases hcall
      refine ⟨_, ?_, hs.print lines.flatten⟩
      simp only [ErrorCall.run, hs.dump_eq hk hne hlines, bind_ok]
      rfl
  | free k =>
    rcases Option.bind_eq_some_iff.mp hcall with ⟨errors, hk, hcall⟩
    cases hcall
    rcases hs.free hk with ⟨s', hrun, -, hs'⟩
    exact ⟨s', hrun, _, _, _, _, _, hs'⟩

/-- A call that returns is followed by the rest. -/
theorem runErrorCalls_ok {call : ErrorCall κ} {s' : ErrorState κ} (h : call.run s = .ok (some s'))
    (calls : List (ErrorCall κ)) : runErrorCalls (call :: calls) s = runErrorCalls calls s' := by
  rw [runErrorCalls, h, bind_ok]

/-- A call that faults is the end. -/
theorem runErrorCalls_error {call : ErrorCall κ} {e : Fault} (h : call.run s = .error e) (calls : List (ErrorCall κ)) :
    runErrorCalls (call :: calls) s = .error e := by
  rw [runErrorCalls, h, bind_error]

/-- So do all of them. -/
theorem Represents.run (hs : Represents s l) {calls : List (ErrorCall κ)} (hcalls : intendedLists calls l = some l') :
    ∃ s', runErrorCalls calls s = .ok (some s') ∧ Represents s' l' := by
  induction calls generalizing s l with
  | nil =>
    cases hcalls
    exact ⟨s, rfl, hs⟩
  | cons call calls ih =>
    unfold intendedLists at hcalls
    rw [List.foldlM_cons] at hcalls
    rcases Option.bind_eq_some_iff.mp hcalls with ⟨l₁, hcall, hrest⟩
    rcases hs.step hcall with ⟨s₁, hrun, hs₁⟩
    rcases ih hs₁ hrest with ⟨s', hruns, hs'⟩
    refine ⟨s', ?_, hs'⟩
    rw [runErrorCalls_ok hrun]
    exact hruns

/-! ## A stack that was appended is not given back -/

/-- Calls that return are followed by more calls. -/
theorem runErrorCalls_append {calls calls' : List (ErrorCall κ)} {s' : ErrorState κ}
    (h : runErrorCalls calls s = .ok (some s')) : runErrorCalls (calls ++ calls') s = runErrorCalls calls' s' := by
  induction calls generalizing s with
  | nil =>
    cases h
    rfl
  | cons call calls ih =>
    unfold runErrorCalls at h
    rcases exists_some_of_bind h (by rintro ⟨⟩) with ⟨s₁, hrun, hruns⟩
    rw [List.cons_append, runErrorCalls_ok hrun]
    exact ih hruns

/-- A stack whose nodes were given back is not given back again. -/
theorem free_fault {h : Heap ErrorRecord} {gone : List Nat} (hs : s.memory.errors = wipe gone (cells h)) {a : Nat}
    (ha : a ∈ gone) (hlt : a < h.length) {k : κ} (hk : s.errorStack k = some a) :
    ErrorCall.run s (.free k) = .error .outOfBounds := by
  have hloop := freeLoop_gone (freeOwned ErrorRecord.owned) ha hlt s.memory.errors.length s.memory.texts
  rw [← hs, ← hk] at hloop
  show ((freeLoop _ _ _ _ _ >>= _) >>= _) = _
  unfold ErrorMemory.turns
  rw [hloop]
  rfl

/-- A stack that was appended to itself is a ring. -/
theorem free_ring_fault {h : Heap ErrorRecord} {t : Heap CString} {goneErrors goneTexts : List Nat}
    {chainOf : κ → Chain ErrorRecord} (hs : StandsFor h t goneErrors goneTexts chainOf s l) {k : κ}
    {errors : List ErrorEntry} (hk : l.list k = some errors) (hne : errors ≠ []) :
    runErrorCalls [.append k k, .free k, .free k] s = .error .outOfBounds := by
  rcases hs.exists_head hk hne with ⟨a, hnode, ha⟩
  rcases hs.append_eq hk hne (s.errorStack k) with ⟨last, m, hlast, hm, happend⟩
  have hlt := hs.lists.shares.lt a hnode
  have hle := hs.length_lt_turns k
  -- the loop comes back to the first node
  have hloop := (hs.lists.path k).freeLoop_linked (hs.lists.shares.nodup k) (fun a ha => hs.lists.shares.live a ha)
    hlast hm (hs.gives k) (s.errorStack k) (h.length - (chainOf k).nodes.length + 1)
  have hagain := freeLoop_gone (freeOwned ErrorRecord.owned) (List.mem_append_right goneErrors hnode)
    (h := h.set last { m with next := s.errorStack k }) (by rw [List.length_set]; exact hlt)
    (h.length - (chainOf k).nodes.length) (wipe (goneTexts ++ ownedTexts (chainOf k).payloads) (cells t))
  obtain ⟨s₁, hrun, herrors, htexts, hk₁⟩ : ∃ s₁, ErrorCall.run s (.append k k) = .ok (some s₁) ∧
      s₁.memory.errors = wipe goneErrors (cells (h.set last { m with next := s.errorStack k })) ∧
      s₁.memory.texts = wipe goneTexts (cells t) ∧ s₁.errorStack k = s.errorStack k := by
    refine ⟨⟨⟨_, s.memory.texts⟩, Function.update s.errorStack k (s.errorStack k), s.printed⟩, ?_, rfl, hs.texts,
      Function.update_self _ _ _⟩
    show (s.memory.appendErrorStack (s.errorStack k) (s.errorStack k) >>= _) = _
    rw [happend, bind_ok]
    rfl
  have hfree : ErrorCall.run s₁ (.free k) = .error .outOfBounds := by
    have hturns : s₁.memory.turns = (chainOf k).nodes.length + (h.length - (chainOf k).nodes.length + 1) := by
      unfold ErrorMemory.turns at hle ⊢
      rw [hs.errors, length_wipe_cells] at hle
      rw [herrors, length_wipe_cells, List.length_set]
      omega
    have hhead := (hs.list hk).1
    rw [← ha] at hagain
    rw [← hhead, hagain] at hloop
    show ((freeLoop _ _ _ _ _ >>= _) >>= _) = _
    rw [hturns, herrors, htexts, hk₁, hloop]
    rfl
  rw [runErrorCalls_ok hrun, runErrorCalls_error hfree]

/-- Two stacks of which one was appended to the other are not both given back. -/
theorem freedTwice_fault {h : Heap ErrorRecord} {t : Heap CString} {goneErrors goneTexts : List Nat}
    {chainOf : κ → Chain ErrorRecord} (hs : StandsFor h t goneErrors goneTexts chainOf s l) {k j : κ} (hkj : k ≠ j)
    {errors second : List ErrorEntry} (hk : l.list k = some errors) (hj : l.list j = some second) (hne : second ≠ []) :
    runErrorCalls [.append k j, .free k, .free j] s = .error .outOfBounds := by
  rcases hs.exists_head hj hne with ⟨a, hnode, ha⟩
  rcases hs.append hkj hk hj hne with ⟨s₁, h₁, happend, hj₁, hs₁⟩
  have hk₁ : Function.update (Function.update l.list k (some (second ++ errors))) j none k =
      some (second ++ errors) := by
    rw [Function.update_of_ne hkj, Function.update_self]
  have hjoined :
      a ∈ (Function.update (Function.update chainOf k ((chainOf j).join (chainOf k))) j Chain.empty k).nodes := by
    rw [Function.update_of_ne hkj, Function.update_self]
    exact List.mem_append_left _ hnode
  have hlt := hs₁.lists.shares.lt a hjoined
  rcases hs₁.free hk₁ with ⟨s₂, hfree, hvariables, hs₂⟩
  have hj₂ : s₂.errorStack j = some a := by
    rw [hvariables, Function.update_of_ne (Ne.symm hkj), hj₁, ha]
  have hfault := free_fault hs₂.errors (List.mem_append_right goneErrors hjoined) hlt hj₂
  rw [runErrorCalls_ok happend, runErrorCalls_ok hfree, runErrorCalls_error hfault]

/-- Any calls that keep to the rules, on any number of stacks, do what they are for: they never
fault and print what they should, the variable of a stack leads to its errors, the newest first, and
something is left in memory exactly as long as a stack has errors. A stack that is given back
although it was appended is given back twice. -/
theorem errorStacks_kept {calls : List (ErrorCall κ)} (hcalls : intendedLists calls (ErrorLists.start κ) = some l) :
    ∃ s, runErrorCalls calls (ErrorState.start κ) = .ok (some s) ∧ s.printed = l.printed ∧
      (∀ k errors, l.list k = some errors → s.memory.entries (s.errorStack k) = .ok (some errors)) ∧
      (s.memory.Reclaimed ↔ ∀ k errors, l.list k = some errors → errors = []) ∧
      ∀ k j errors second, l.list k = some errors → l.list j = some second → second ≠ [] →
        runErrorCalls (calls ++ [.append k j, .free k, .free j]) (ErrorState.start κ) = .error .outOfBounds := by
  rcases (represents_start κ).run hcalls with ⟨s, hrun, h, t, goneErrors, goneTexts, chainOf, hs⟩
  refine ⟨s, hrun, hs.printed, fun k errors hk => hs.entries_eq hk, hs.reclaimed_iff, ?_⟩
  intro k j errors second hk hj hne
  rw [runErrorCalls_append hrun]
  by_cases hkj : k = j
  · subst hkj
    exact free_ring_fault hs hj hne
  · exact freedTwice_fault hs hkj hk hj hne

end Runs

/-- Two channels that were not opened, each with a stack of its own, reported together. -/
def reportedTogether : List (ErrorCall Bool) :=
  [.init true, .init false, .add true ⟨0, 0, 1, some (text "pcap_open_live failed"), some (text "eth0")⟩,
    .add false ⟨0, 0, 1, some (text "pcap_open_live failed"), some (text "eth1")⟩, .append true false, .dump true,
    .free true, .init false]

/-- Two errors are added to two stacks, one is appended to the other, and both are printed and
given back. -/
theorem errorStacks_kept_reported :
    ∃ s, runErrorCalls reportedTogether (ErrorState.start Bool) = .ok (some s) ∧
      s.printed = [errorText 0 0 1 (text "pcap_open_live failed") (text "eth1"),
        errorText 0 0 1 (text "pcap_open_live failed") (text "eth0")].flatten ∧ s.memory.Reclaimed := by
  have hcalls : intendedLists reportedTogether (ErrorLists.start Bool) =
      some ⟨_, [errorText 0 0 1 (text "pcap_open_live failed") (text "eth1"),
        errorText 0 0 1 (text "pcap_open_live failed") (text "eth0")].flatten⟩ := rfl
  rcases errorStacks_kept hcalls with ⟨s, hrun, hprinted, -, hleft, -⟩
  refine ⟨s, hrun, hprinted, hleft.mpr ?_⟩
  intro k errors hk
  cases k with
  | false => exact (Option.some.inj hk).symm
  | true => exact (Option.some.inj hk).symm

end Hpav
