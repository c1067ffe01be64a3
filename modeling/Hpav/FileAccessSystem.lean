import Mathlib.Tactic.Common
import Hpav.Lib.Transition
import Hpav.FileAccess
import Hpav.FileAccessChannel

/-!
# The tool and a station on a network

`test_mme_mtk_vs_file_access_req` for one station, as a transition system: the tool sends
the request it prepared, waits, and takes up what was captured by the end of the exchange;
the station serves requests and answers them. Requests and answers are kept for ever: a
message that is lost is never taken up, a late one is taken up in a later exchange, a
duplicated one several times.
-/

namespace Hpav

open CMem Transition

/-- A station: what a request makes of its state, and how it may answer. -/
structure Station (β : Type) where
  serve : β → FileAccessReq → β
  Answers : β → FileAccessReq → FileAccessCnf → Prop

/-- Where the program stands. -/
inductive Control where
  /-- in front of the exchange -/
  | sending (s : Sender)
  /-- inside `hpav_mtk_vs_file_access_sndrcv` -/
  | waiting (s : Sender)
  | returned (rv : Int)

def Turn.control : Turn → Control
  | .again s => .sending s
  | .leave rv => .returned rv

/-- The program, the network and the station. `delivered` is the history of the requests
the station served, the latest first. -/
structure Transfer (β : Type) where
  fs : LocalFs
  control : Control
  requests : List FileAccessReq
  delivered : List FileAccessReq
  answers : List EthFrame
  station : β

inductive Event where
  | send
  | deliver (request : FileAccessReq)
  | receive (outcome : Outcome)

/-- A frame that brings the confirmation to the host, whatever `malloc` hands out. -/
def AnswerFrame (host : Mac) (f : EthFrame) (c : FileAccessCnf) : Prop :=
  rxAccepted host f = true ∧ ∀ uninit, Carries uninit f c

section System

variable {β : Type}

/-- The steps of the system. Frames that `rx_callback` does not take may be captured at any
time; those it takes are answers of the station. -/
inductive Transfer.Step (host : Mac) (cmd : FileAccessCommand) (sta : Station β) :
    Transfer β → Event → Transfer β → Prop
  | send {t : Transfer β} {s s' : Sender} :
      t.control = .sending s → prepareRequest cmd s = .ok s' →
      Step host cmd sta t .send
        { t with control := .waiting s', requests := s'.mmeSent :: t.requests }
  | deliver {t : Transfer β} {request : FileAccessReq} {c : FileAccessCnf} {f : EthFrame} :
      request ∈ t.requests → sta.Answers t.station request c → AnswerFrame host f c →
      Step host cmd sta t (.deliver request)
        { t with
          delivered := request :: t.delivered
          station := sta.serve t.station request
          answers := f :: t.answers }
  | receive {t : Transfer β} {s : Sender} (run : ChannelRun) (uninit : Nat → UInt8)
      {outcome : Outcome} {uninitMac : List UInt8} {fs : LocalFs} {turn : Turn} :
      t.control = .waiting s →
      (∀ f ∈ run.captured, rxAccepted host f = true → f ∈ t.answers) →
      fileAccessSndrcv uninit host (cmd.op = opScanSta) run = .ok outcome →
      receiveResponse uninitMac cmd t.fs s outcome = .ok (fs, turn) →
      Step host cmd sta t (.receive outcome) { t with fs, control := turn.control }

/-- The program starts with the local files `fs` and the station in the state `b`. -/
def Transfer.start (cmd : FileAccessCommand) (mac : Mac) (fs : LocalFs) (b : β) : Transfer β where
  fs := fs
  control := match startStation cmd fs mac with
    | .inl s => .sending s
    | .inr rv => .returned rv
  requests := []
  delivered := []
  answers := []
  station := b

/-- The program run for the station `mac`. -/
def transferMachine (host mac : Mac) (cmd : FileAccessCommand) (sta : Station β) (fs : LocalFs)
    (b : β) : Machine (Transfer β) Event where
  Init t := t = Transfer.start cmd mac fs b
  Next := Transfer.Step host cmd sta

variable {host mac : Mac} {cmd : FileAccessCommand} {sta : Station β} {fs : LocalFs} {b : β}

/-! ## Where confirmations come from -/

/-- Every message on the network has its origin: what was served was sent, what was
answered was served. -/
structure Transfer.Traced (host : Mac) (sta : Station β) (t : Transfer β) : Prop where
  delivered : ∀ r ∈ t.delivered, r ∈ t.requests
  answers : ∀ f ∈ t.answers, ∃ r ∈ t.delivered, ∃ b c, AnswerFrame host f c ∧ sta.Answers b r c

theorem Transfer.traced_start (host : Mac) (cmd : FileAccessCommand) (sta : Station β) (mac : Mac)
    (fs : LocalFs) (b : β) : (Transfer.start cmd mac fs b).Traced host sta :=
  ⟨fun _ hr => absurd hr List.not_mem_nil, fun _ hf => absurd hf List.not_mem_nil⟩

theorem Transfer.Traced.step {t t' : Transfer β} {e : Event} (h : t.Traced host sta)
    (hstep : Transfer.Step host cmd sta t e t') : t'.Traced host sta := by
  cases hstep with
  | send _ _ =>
    exact ⟨fun r hr => List.mem_cons_of_mem _ (h.delivered r hr), h.answers⟩
  | deliver hrequest hanswers hframe =>
    constructor
    · intro r hr
      rcases List.mem_cons.mp hr with rfl | hr
      · exact hrequest
      · exact h.delivered r hr
    · intro f hf
      rcases List.mem_cons.mp hf with rfl | hf
      · exact ⟨_, List.mem_cons_self, _, _, hframe, hanswers⟩
      · rcases h.answers f hf with ⟨r, hr, hrest⟩
        exact ⟨r, List.mem_cons_of_mem _ hr, hrest⟩
  | receive _ _ _ _ _ _ => exact ⟨h.delivered, h.answers⟩

/-- What is read in an exchange are answers to requests the station served. -/
theorem Transfer.Traced.response {t : Transfer β} {run : ChannelRun} {uninit : Nat → UInt8}
    {scan : Bool} {response : List FileAccessCnf} (h : t.Traced host sta)
    (hcaptured : ∀ f ∈ run.captured, rxAccepted host f = true → f ∈ t.answers)
    (hrun : fileAccessSndrcv uninit host scan run = .ok (.received response)) :
    ∀ c ∈ response, ∃ r ∈ t.delivered, ∃ b f, AnswerFrame host f c ∧ sta.Answers b r c := by
  have hunfragmented : ∀ f ∈ run.captured, rxAccepted host f = true → f.fmiNfFn = 0 := by
    intro f hf hacc
    rcases h.answers f (hcaptured f hf hacc) with ⟨_, _, _, c, hframe, _⟩
    exact (hframe.2 uninit).1
  intro c hc
  rcases fileAccessSndrcv_sound hrun hunfragmented c hc with ⟨f, hf, hacc, hcarries⟩
  rcases h.answers f (hcaptured f hf hacc) with ⟨r, hr, b, c', hframe, hanswers⟩
  obtain rfl : c = c' := hcarries.unique (hframe.2 uninit)
  exact ⟨r, hr, b, f, hframe, hanswers⟩

theorem Transfer.reachable_traced {t : Transfer β}
    (h : (transferMachine host mac cmd sta fs b).Reachable t) : t.Traced host sta := by
  refine h.invariant ?_ (fun t e t' ht hstep => ht.step hstep)
  rintro t rfl
  exact Transfer.traced_start host cmd sta mac fs b

end System

end Hpav
