import Mathlib.Tactic.Common
import Hpav.Interfaces
import Hpav.Lib.CallTrace

/-!
# The channel of a command

`execute_on_channel` opens a channel, calls a function with it and closes it again. Two of its
variables are not initialized: the stack of errors, which is handed on as soon as something
fails, and the channel, which stays unset when there is no interface at all, as `open_channel`
returns 0 then. `executeOnChannel_meets_iff` says when neither matters.
-/

namespace Hpav

open CMem CallTrace

/-! ## Stacks of errors -/

/-- What a variable of pointer type holds that was not initialized. -/
inductive Garbage where
  | null
  | wild
  deriving DecidableEq, Repr

/-- What is used of `struct hpav_error`. -/
structure HpavError where
  errorCode : Int
  message : CString

/-- A stack of errors: what was put on it, and what it held at first. -/
structure ErrorStack where
  errors : List HpavError
  base : Garbage

/-- The stack is a list that began empty. -/
def ErrorStack.Proper (s : ErrorStack) : Prop :=
  s.base = .null

/-- A channel: the variable as it was declared, NULL, or what `hpav_open_channel` returned. -/
inductive Chan where
  | uninitialized
  | null
  | opened (iface : Interface)

/-- The calls that are looked at. -/
inductive ChannelCall where
  | addError (errorStack : ErrorStack) (error : HpavError)
  | dumpErrorStack (errorStack : ErrorStack)
  | freeErrorStack (errorStack : ErrorStack)
  | openChannel (iface : Interface) (result : Chan)
  | fct (channel : Chan)
  | closeChannel (channel : Chan)

/-- The stack that is handed over in a call. -/
def ChannelCall.errorStack : ChannelCall → Option ErrorStack
  | .addError errorStack _ => some errorStack
  | .dumpErrorStack errorStack => some errorStack
  | .freeErrorStack errorStack => some errorStack
  | _ => none

/-- `hpav_add_error`: the pointer is copied, and not followed. -/
def hpavAddError (errorStack : ErrorStack) (error : HpavError) : Calls ChannelCall Fault ErrorStack := do
  call (.addError errorStack error)
  pure { errorStack with errors := error :: errorStack.errors }

/-- A walk over the stack ends at NULL, or nowhere. -/
def ErrorStack.walk (errorStack : ErrorStack) : Calls ChannelCall Fault Unit :=
  match errorStack.base with
  | .null => pure ()
  | .wild => leave .uninitialized

/-- `hpav_dump_error_stack` -/
def hpavDumpErrorStack (errorStack : ErrorStack) : Calls ChannelCall Fault Unit := do
  call (.dumpErrorStack errorStack)
  errorStack.walk

/-- `hpav_free_error_stack` -/
def hpavFreeErrorStack (errorStack : ErrorStack) : Calls ChannelCall Fault ErrorStack := do
  call (.freeErrorStack errorStack)
  errorStack.walk
  pure ⟨[], .null⟩

/-! ## Opening and calling -/

/-- How pcap answers when an interface is opened. -/
inductive OpenLive where
  | opened
  | openLiveFailed
  | setnonblockFailed
  deriving DecidableEq, Repr

/-- What a call of `execute_on_channel` meets: the interfaces, or an error of
`pcap_findalldevs`, how pcap opens them, and what the memory of `error_stack` holds. -/
structure Discovery where
  interfaces : Option (List Interface)
  openLive : Interface → OpenLive
  garbage : Garbage

/-- `hpav_get_interfaces`, as far as it reports an error. -/
def getInterfacesReport (d : Discovery) (errorStack : ErrorStack) :
    Calls ChannelCall Fault (Int × List Interface × ErrorStack) :=
  match d.interfaces with
  | some interfaces => pure (hpavOk, interfaces, errorStack)
  | none => do
    let errorStack ← hpavAddError errorStack ⟨hpavErrorPcapError, text "pcap_findalldevs failed"⟩
    pure (hpavErrorPcapError, [], errorStack)

/-- `hpav_open_channel` -/
def hpavOpenChannel (d : Discovery) (iface : Interface) (errorStack : ErrorStack) :
    Calls ChannelCall Fault (Chan × ErrorStack) :=
  match d.openLive iface with
  | .opened => pure (.opened iface, errorStack)
  | .setnonblockFailed => do
    let errorStack ← hpavAddError errorStack ⟨hpavErrorPcapError, text "pcap_setnonblock failed"⟩
    pure (.null, errorStack)
  | .openLiveFailed => do
    let errorStack ← hpavAddError errorStack ⟨hpavErrorPcapError, text "pcap_open_live failed"⟩
    pure (.null, errorStack)

/-- `open_channel`: its value, and `*channel`. -/
def openChannelCalls (d : Discovery) (ifNameOrIndex : CString) (channel : Chan) : Calls ChannelCall Fault (Int × Chan) := do
  -- `error_stack` is declared and not initialized
  let (result, interfaces, errorStack) ← getInterfacesReport d ⟨[], d.garbage⟩
  if result ≠ hpavOk then do
    hpavDumpErrorStack errorStack
    let _ ← hpavFreeErrorStack errorStack
    pure (-1, channel)
  else if interfaces.isEmpty then pure (0, channel)
  else
    match (indexOrName Interface.name interfaces ifNameOrIndex).iface with
    | none => pure (exitUsage, channel)
    | some iface => do
      let (opened, errorStack) ← hpavOpenChannel d iface errorStack
      call (.openChannel iface opened)
      match opened with
      | .opened _ => pure (0, opened)
      | _ => do
        hpavDumpErrorStack errorStack
        let _ ← hpavFreeErrorStack errorStack
        pure (exitFailure, opened)

/-- A function that uses a channel gets nowhere without one. -/
def useChannel {α : Type} (channel : Chan) (f : Interface → Except Fault α) : Calls ChannelCall Fault α :=
  match channel with
  | .opened iface => ⟨[], f iface⟩
  | .null => leave .nullDeref
  | .uninitialized => leave .uninitialized

/-- `close_channel` -/
def closeChannel (channel : Chan) : Calls ChannelCall Fault Unit := do
  call (.closeChannel channel)
  useChannel channel fun _ => .ok ()

/-- `execute_on_channel`, with the function that is called, if any. -/
def executeOnChannelCalls (d : Discovery) (ifNameOrIndex : CString) (fct : Option (Interface → Except Fault Int)) :
    Calls ChannelCall Fault Int := do
  -- `channel` is declared and not initialized
  let (rv, channel) ← openChannelCalls d ifNameOrIndex .uninitialized
  if rv ≠ 0 then pure rv
  else
    match fct with
    | none => do
      closeChannel channel
      pure rv
    | some f => do
      call (.fct channel)
      let rv ← useChannel channel f
      closeChannel channel
      pure rv

/-! ## What the calls should be -/

/-- The function is called with a channel that was opened, the value is not zero otherwise, and
every stack of errors began empty. -/
structure ExecuteMeets (d : Discovery) (ifNameOrIndex : CString) (fct : Option (Interface → Except Fault Int)) : Prop where
  function : ∀ channel, .fct channel ∈ (executeOnChannelCalls d ifNameOrIndex fct).log →
    ∃ iface, channel = .opened iface ∧ .openChannel iface channel ∈ (executeOnChannelCalls d ifNameOrIndex fct).log
  value : (∀ iface, .openChannel iface (.opened iface) ∉ (executeOnChannelCalls d ifNameOrIndex fct).log) →
    ∃ rv, (executeOnChannelCalls d ifNameOrIndex fct).outcome = .ok rv ∧ rv ≠ 0
  errorStacks : ∀ c ∈ (executeOnChannelCalls d ifNameOrIndex fct).log, ∀ errorStack, c.errorStack = some errorStack →
    errorStack.Proper

/-- Nothing depends on a variable that was not initialized. -/
def Discovery.Settled (d : Discovery) (ifNameOrIndex : CString) : Prop :=
  match d.interfaces with
  | none => d.garbage = .null
  | some interfaces =>
    interfaces ≠ [] ∧ ∀ iface, (indexOrName Interface.name interfaces ifNameOrIndex).iface = some iface →
      d.openLive iface = .opened ∨ d.garbage = .null

/-! ## The runs -/

section

variable {d : Discovery} {ifNameOrIndex : CString} {fct : Option (Interface → Except Fault Int)}

/-- The errors with which the stack is dumped. -/
def reported (message : CString) : List HpavError :=
  [⟨hpavErrorPcapError, message⟩]

/-- A stack that holds an error is dumped and freed. -/
def reportLog (garbage : Garbage) (message : CString) : List ChannelCall :=
  .dumpErrorStack ⟨reported message, garbage⟩ ::
    match garbage with
    | .null => [.freeErrorStack ⟨reported message, garbage⟩]
    | .wild => []

/-- The end of a run that dumped such a stack. -/
def reportEnd (garbage : Garbage) (rv : Int) : Except Fault Int :=
  match garbage with
  | .null => .ok rv
  | .wild => .error .uninitialized

/-- `pcap_findalldevs` fails. -/
theorem run_discoveryError (h : d.interfaces = none) : executeOnChannelCalls d ifNameOrIndex fct =
    ⟨.addError ⟨[], d.garbage⟩ ⟨hpavErrorPcapError, text "pcap_findalldevs failed"⟩ ::
        reportLog d.garbage (text "pcap_findalldevs failed"), reportEnd d.garbage (-1)⟩ := by
  unfold executeOnChannelCalls openChannelCalls getInterfacesReport
  rw [h]
  cases hgarbage : d.garbage with
  | null => rfl
  | wild => rfl

/-- There is no interface: what is used as a channel is none. -/
theorem run_noInterface (h : d.interfaces = some []) : executeOnChannelCalls d ifNameOrIndex fct =
    ⟨[match fct with | none => .closeChannel .uninitialized | some _ => .fct .uninitialized], .error .uninitialized⟩ := by
  unfold executeOnChannelCalls openChannelCalls getInterfacesReport
  rw [h]
  cases fct with
  | none => rfl
  | some f => rfl

section

variable {interfaces : List Interface} (h : d.interfaces = some interfaces) (hne : interfaces ≠ [])

include h hne

theorem run_notFound (hnone : (indexOrName Interface.name interfaces ifNameOrIndex).iface = none) :
    executeOnChannelCalls d ifNameOrIndex fct = ⟨[], .ok exitUsage⟩ := by
  have hopen : openChannelCalls d ifNameOrIndex .uninitialized = pure (exitUsage, .uninitialized) := by
    unfold openChannelCalls getInterfacesReport
    simp only [h, pure_bind, ne_eq, not_true_eq_false, if_false, List.isEmpty_iff, hne, hnone]
  unfold executeOnChannelCalls
  rw [hopen]
  rfl

/-- The interface cannot be opened. -/
theorem run_openFailed {iface : Interface} (hiface : (indexOrName Interface.name interfaces ifNameOrIndex).iface = some iface)
    (hfailed : d.openLive iface ≠ .opened) :
    ∃ message, executeOnChannelCalls d ifNameOrIndex fct =
      ⟨.addError ⟨[], d.garbage⟩ ⟨hpavErrorPcapError, message⟩ :: .openChannel iface .null :: reportLog d.garbage message,
        reportEnd d.garbage exitFailure⟩ := by
  have hopen : ∀ message, hpavOpenChannel d iface ⟨[], d.garbage⟩ =
      ⟨[.addError ⟨[], d.garbage⟩ ⟨hpavErrorPcapError, message⟩], .ok (.null, ⟨reported message, d.garbage⟩)⟩ →
      executeOnChannelCalls d ifNameOrIndex fct =
        ⟨.addError ⟨[], d.garbage⟩ ⟨hpavErrorPcapError, message⟩ :: .openChannel iface .null :: reportLog d.garbage message,
          reportEnd d.garbage exitFailure⟩ := by
    intro message hchannel
    unfold executeOnChannelCalls openChannelCalls getInterfacesReport
    simp only [h, pure_bind, ne_eq, not_true_eq_false, if_false, List.isEmpty_iff, hne, hiface, hchannel]
    cases d.garbage with
    | null => rfl
    | wild => rfl
  cases hlive : d.openLive iface with
  | opened => exact absurd hlive hfailed
  | setnonblockFailed =>
    refine ⟨_, hopen (text "pcap_setnonblock failed") ?_⟩
    unfold hpavOpenChannel
    rw [hlive]
    rfl
  | openLiveFailed =>
    refine ⟨_, hopen (text "pcap_open_live failed") ?_⟩
    unfold hpavOpenChannel
    rw [hlive]
    rfl

/-- The interface is opened: the function and `close_channel` have its channel. -/
theorem run_opened {iface : Interface} (hiface : (indexOrName Interface.name interfaces ifNameOrIndex).iface = some iface)
    (hopened : d.openLive iface = .opened) :
    ∃ log, (executeOnChannelCalls d ifNameOrIndex fct).log = .openChannel iface (.opened iface) :: log ∧
      ∀ c ∈ log, c = .fct (.opened iface) ∨ c = .closeChannel (.opened iface) := by
  have hopen : openChannelCalls d ifNameOrIndex .uninitialized =
      ⟨[.openChannel iface (.opened iface)], .ok (0, .opened iface)⟩ := by
    unfold openChannelCalls getInterfacesReport hpavOpenChannel
    simp only [h, pure_bind, ne_eq, not_true_eq_false, if_false, List.isEmpty_iff, hne, hiface, hopened]
    rfl
  unfold executeOnChannelCalls
  rw [hopen, bind_of_ok rfl]
  refine ⟨_, rfl, ?_⟩
  cases fct with
  | none =>
    intro c hc
    exact Or.inr (List.mem_singleton.mp hc)
  | some f =>
    intro c hc
    rcases List.mem_cons.mp hc with rfl | hc
    · exact Or.inl rfl
    · cases hf : f iface with
      | error e =>
        have hlog : c ∈ (⟨[], f iface⟩ >>= fun rv => closeChannel (.opened iface) >>= fun _ => pure rv :
            Calls ChannelCall Fault Int).log := hc
        rw [bind_of_error hf] at hlog
        cases hlog
      | ok rv =>
        have hlog : c ∈ (⟨[], f iface⟩ >>= fun rv => closeChannel (.opened iface) >>= fun _ => pure rv :
            Calls ChannelCall Fault Int).log := hc
        rw [bind_of_ok hf] at hlog
        exact Or.inr (List.mem_singleton.mp hlog)

end

/-- With a stack that began empty everything that is reported is in order. -/
theorem reportLog_proper {message : CString} {c : ChannelCall} (hc : c ∈ reportLog .null message) :
    (∀ errorStack, c.errorStack = some errorStack → errorStack.Proper) ∧ (∀ channel, c ≠ .fct channel) ∧
      ∀ iface channel, c ≠ .openChannel iface channel := by
  rcases List.mem_cons.mp hc with rfl | hc
  · refine ⟨?_, fun channel => by simp, fun iface channel => by simp⟩
    intro errorStack hstack
    rw [← Option.some.inj hstack]
    rfl
  · obtain rfl := List.mem_singleton.mp hc
    refine ⟨?_, fun channel => by simp, fun iface channel => by simp⟩
    intro errorStack hstack
    rw [← Option.some.inj hstack]
    rfl

/-- A run that ends with such a report. -/
theorem meets_of_report {log : List ChannelCall} {message : CString} {rv : Int} (hrv : rv ≠ 0)
    (hrun : executeOnChannelCalls d ifNameOrIndex fct = ⟨log ++ reportLog .null message, .ok rv⟩)
    (hlog : ∀ c ∈ log, (∀ errorStack, c.errorStack = some errorStack → errorStack.Proper) ∧ ∀ channel, c ≠ .fct channel) :
    ExecuteMeets d ifNameOrIndex fct := by
  constructor
  · intro channel hc
    rw [hrun] at hc
    rcases List.mem_append.mp hc with hc | hc
    · exact absurd rfl ((hlog _ hc).2 channel)
    · exact absurd rfl ((reportLog_proper hc).2.1 channel)
  · intro _
    rw [hrun]
    exact ⟨rv, rfl, hrv⟩
  · intro c hc
    rw [hrun] at hc
    rcases List.mem_append.mp hc with hc | hc
    · exact (hlog c hc).1
    · exact (reportLog_proper hc).1

theorem addError_proper (error : HpavError) (errorStack : ErrorStack)
    (hstack : (ChannelCall.addError ⟨[], .null⟩ error).errorStack = some errorStack) : errorStack.Proper := by
  rw [← Option.some.inj hstack]
  rfl

theorem ExecuteMeets.settled (h : ExecuteMeets d ifNameOrIndex fct) : d.Settled ifNameOrIndex := by
  have hbase : ∀ error, ChannelCall.addError ⟨[], d.garbage⟩ error ∈ (executeOnChannelCalls d ifNameOrIndex fct).log →
      d.garbage = .null := by
    intro error hc
    exact h.errorStacks _ hc _ rfl
  unfold Discovery.Settled
  cases hinterfaces : d.interfaces with
  | none =>
    refine hbase ⟨hpavErrorPcapError, text "pcap_findalldevs failed"⟩ ?_
    rw [run_discoveryError hinterfaces]
    exact List.mem_cons_self
  | some interfaces =>
    by_cases hne : interfaces = []
    · -- the value, if there is one, is not what is returned
      subst hne
      have hvalue := h.value
      rw [run_noInterface hinterfaces] at hvalue
      obtain ⟨rv, hrv, -⟩ := hvalue (by
        intro iface hc
        have hc := List.mem_singleton.mp hc
        cases fct with
        | none => cases hc
        | some f => cases hc)
      cases hrv
    · refine ⟨hne, ?_⟩
      intro iface hiface
      by_contra hnot
      obtain ⟨hfailed, hwild⟩ := not_or.mp hnot
      obtain ⟨message, hrun⟩ := @run_openFailed _ _ fct _ hinterfaces hne _ hiface hfailed
      refine hwild (hbase ⟨hpavErrorPcapError, message⟩ ?_)
      rw [hrun]
      exact List.mem_cons_self

/-- A run that ends before anything is called. -/
theorem meets_of_nothing {rv : Int} (hrv : rv ≠ 0) (hrun : executeOnChannelCalls d ifNameOrIndex fct = ⟨[], .ok rv⟩) :
    ExecuteMeets d ifNameOrIndex fct := by
  constructor
  · intro channel hc
    rw [hrun] at hc
    cases hc
  · intro _
    rw [hrun]
    exact ⟨rv, rfl, hrv⟩
  · intro c hc
    rw [hrun] at hc
    cases hc

/-- A run with a channel. -/
theorem meets_of_opened {iface : Interface} {log : List ChannelCall}
    (hlog : (executeOnChannelCalls d ifNameOrIndex fct).log = .openChannel iface (.opened iface) :: log)
    (hcalls : ∀ c ∈ log, c = .fct (.opened iface) ∨ c = .closeChannel (.opened iface)) : ExecuteMeets d ifNameOrIndex fct := by
  have hopen : ChannelCall.openChannel iface (.opened iface) ∈ (executeOnChannelCalls d ifNameOrIndex fct).log := by
    rw [hlog]
    exact List.mem_cons_self
  constructor
  · intro channel hc
    rw [hlog] at hc
    rcases List.mem_cons.mp hc with hc | hc
    · cases hc
    · rcases hcalls _ hc with hc | hc
      · injection hc with hc
        subst hc
        exact ⟨iface, rfl, hopen⟩
      · cases hc
  · intro hnot
    exact absurd hopen (hnot iface)
  · -- none of these calls has a stack of errors
    intro c hc errorStack hstack
    rw [hlog] at hc
    rcases List.mem_cons.mp hc with rfl | hc
    · cases hstack
    · rcases hcalls _ hc with rfl | rfl
      · cases hstack
      · cases hstack

theorem Discovery.Settled.meets (h : d.Settled ifNameOrIndex) : ExecuteMeets d ifNameOrIndex fct := by
  unfold Discovery.Settled at h
  cases hinterfaces : d.interfaces with
  | none =>
    rw [hinterfaces] at h
    have hgarbage : d.garbage = .null := h
    have hrun := @run_discoveryError _ ifNameOrIndex fct hinterfaces
    rw [hgarbage] at hrun
    have hrv : (-1 : Int) ≠ 0 := by decide
    refine @meets_of_report _ _ _ [.addError ⟨[], .null⟩ ⟨hpavErrorPcapError, text "pcap_findalldevs failed"⟩] _ _ hrv
      hrun ?_
    intro c hc
    obtain rfl := List.mem_singleton.mp hc
    exact ⟨addError_proper _, fun channel => by simp⟩
  | some interfaces =>
    rw [hinterfaces] at h
    obtain ⟨hne, hopens⟩ := h
    cases hiface : (indexOrName Interface.name interfaces ifNameOrIndex).iface with
    | none =>
      have hrv : (exitUsage : Int) ≠ 0 := by decide
      exact meets_of_nothing hrv (run_notFound hinterfaces hne hiface)
    | some iface =>
      by_cases hopened : d.openLive iface = .opened
      · obtain ⟨log, hlog, hcalls⟩ := @run_opened _ _ fct _ hinterfaces hne _ hiface hopened
        exact meets_of_opened hlog hcalls
      · have hgarbage := (hopens iface hiface).resolve_left hopened
        obtain ⟨message, hrun⟩ := @run_openFailed _ _ fct _ hinterfaces hne _ hiface hopened
        rw [hgarbage] at hrun
        have hrv : (exitFailure : Int) ≠ 0 := by decide
        refine @meets_of_report _ _ _ [.addError ⟨[], .null⟩ ⟨hpavErrorPcapError, message⟩, .openChannel iface .null] _ _
          hrv hrun ?_
        intro c hc
        rcases List.mem_cons.mp hc with rfl | hc
        · exact ⟨addError_proper _, fun channel => by simp⟩
        · obtain rfl := List.mem_singleton.mp hc
          refine ⟨?_, fun channel => by simp⟩
          intro errorStack hstack
          cases hstack

end

/-- Neither of the variables matters exactly if there is an interface and, where something
fails, the memory of `error_stack` happens to be zero. -/
theorem executeOnChannel_meets_iff (d : Discovery) (ifNameOrIndex : CString)
    (fct : Option (Interface → Except Fault Int)) :
    ExecuteMeets d ifNameOrIndex fct ↔ d.Settled ifNameOrIndex :=
  ⟨ExecuteMeets.settled, Discovery.Settled.meets⟩

/-- Without any interface the function is called all the same. -/
theorem noInterface_not_meets : ¬ ∀ (d : Discovery) (ifNameOrIndex : CString)
    (fct : Option (Interface → Except Fault Int)), ExecuteMeets d ifNameOrIndex fct := by
  intro h
  have hsettled := (h ⟨some [], fun _ => .opened, .null⟩ (text "0") none).settled
  exact absurd rfl hsettled.1

/-! ## The command line -/

/-- The surroundings of a command as an outcome of the discovery. -/
def Surroundings.discovery (around : Surroundings) : Discovery where
  interfaces := around.interfaces
  openLive iface := if around.opens iface then .opened else .openLiveFailed
  garbage := if around.errorStackNull then .null else .wild

section

variable {around : Surroundings} {ifNameOrIndex : CString} {fct : Option (Interface → Except Fault Int)}

/-- What the command line makes of the calls: a channel, a value, or nothing where they depend on
what the memory holds. -/
def Mirrors (around : Surroundings) (ifNameOrIndex : CString) (fct : Option (Interface → Except Fault Int)) :
    Except Fault Opening → Prop
  | .error _ => ¬ around.discovery.Settled ifNameOrIndex
  | .ok (.failed rv _) => (executeOnChannelCalls around.discovery ifNameOrIndex fct).outcome = .ok rv
  | .ok (.channel setting) => ∃ iface, setting = { around.setting with macAddr := iface.macAddr } ∧
      .openChannel iface (.opened iface) ∈ (executeOnChannelCalls around.discovery ifNameOrIndex fct).log

/-- A run that ends with the dump of its stack of errors. -/
theorem mirrors_dumpErrorStack {rv : Int} {met : Met}
    (hend : (executeOnChannelCalls around.discovery ifNameOrIndex fct).outcome = reportEnd around.discovery.garbage rv)
    (hwild : around.discovery.garbage = .wild → ¬ around.discovery.Settled ifNameOrIndex) :
    Mirrors around ifNameOrIndex fct (dumpErrorStack around (.failed rv met)) := by
  have hgarbage : around.discovery.garbage = if around.errorStackNull then .null else .wild := rfl
  unfold dumpErrorStack
  cases hnull : around.errorStackNull with
  | true =>
    rw [hnull] at hgarbage
    rw [hgarbage] at hend
    exact hend
  | false =>
    rw [hnull] at hgarbage
    exact hwild hgarbage

/-- What the command line takes the opening of a channel to be is what its calls come to. -/
theorem openChannel_outcome
    (hlength : ∀ interfaces, around.interfaces = some interfaces → interfaces.length ≤ 2 ^ 32) :
    Mirrors around ifNameOrIndex fct (openChannel around ifNameOrIndex) := by
  cases hinterfaces : around.interfaces with
  | none =>
    have hnone : around.discovery.interfaces = none := hinterfaces
    unfold openChannel
    rw [hinterfaces]
    apply mirrors_dumpErrorStack
    · rw [run_discoveryError hnone]
    · intro hwild hsettled
      unfold Discovery.Settled at hsettled
      rw [hnone] at hsettled
      cases hwild.symm.trans hsettled
  | some interfaces =>
    have hsome : around.discovery.interfaces = some interfaces := hinterfaces
    cases interfaces with
    | nil =>
      unfold openChannel
      rw [hinterfaces]
      show ¬ around.discovery.Settled ifNameOrIndex
      unfold Discovery.Settled
      rw [hsome]
      exact fun h => h.1 rfl
    | cons first rest =>
      have hne : first :: rest ≠ [] := List.cons_ne_nil first rest
      have hchoice := getInterfaceByIndexOrName_eq (hlength _ hinterfaces) ifNameOrIndex
      unfold openChannel
      simp only [hinterfaces, hchoice]
      cases hiface : (indexOrName Interface.name (first :: rest) ifNameOrIndex).iface with
      | none => exact congrArg Calls.outcome (@run_notFound _ _ fct _ hsome hne hiface)
      | some iface =>
        have hlive : around.discovery.openLive iface = if around.opens iface then .opened else .openLiveFailed := rfl
        cases hopens : around.opens iface with
        | true =>
          rw [hopens] at hlive
          obtain ⟨log, hlog, -⟩ := @run_opened _ _ fct _ hsome hne _ hiface hlive
          simp only [hopens, if_true]
          refine ⟨iface, rfl, ?_⟩
          rw [hlog]
          exact List.mem_cons_self
        | false =>
          rw [hopens] at hlive
          have hfailed : around.discovery.openLive iface ≠ .opened := by
            rw [hlive]
            decide
          obtain ⟨message, hrun⟩ := @run_openFailed _ _ fct _ hsome hne _ hiface hfailed
          simp only [hopens, Bool.false_eq_true, if_false]
          apply mirrors_dumpErrorStack
          · rw [hrun]
          · intro hwild hsettled
            unfold Discovery.Settled at hsettled
            rw [hsome] at hsettled
            rcases hsettled.2 iface hiface with hopened | hzero
            · exact hfailed hopened
            · cases hwild.symm.trans hzero

end

end Hpav
