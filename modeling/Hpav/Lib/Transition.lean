import Mathlib.Order.SuccPred.Basic
import Mathlib.Tactic.Common

/-!
# Transition systems

States, labelled steps, the states a run can reach. The rules: an invariant holds of every
reachable state; so does what a refinement mapping pulls back from a more abstract system.
As an instance, `Acknowledged`: a sender that goes on behind whatever is acknowledged, over
a network that keeps every message for any later time.
-/

namespace Transition

universe u v

/-- The states a system starts in, and its steps under their labels. -/
structure Machine (σ : Type u) (ε : Type v) where
  Init : σ → Prop
  Next : σ → ε → σ → Prop

variable {σ : Type u} {ε : Type v}

namespace Machine

/-- The states that some run leads to. -/
inductive Reachable (m : Machine σ ε) : σ → Prop
  | init {s : σ} : m.Init s → Reachable m s
  | step {s s' : σ} {e : ε} : Reachable m s → m.Next s e s' → Reachable m s'

/-- The runs whose steps all meet a condition on the state in front of them and the label. -/
def restrict (m : Machine σ ε) (Good : σ → ε → Prop) : Machine σ ε where
  Init := m.Init
  Next s e s' := m.Next s e s' ∧ Good s e

end Machine

variable {m : Machine σ ε} {s : σ}

/-- Invariant induction. -/
theorem Machine.Reachable.invariant {Inv : σ → Prop} (h : m.Reachable s)
    (hinit : ∀ s, m.Init s → Inv s)
    (hstep : ∀ s e s', Inv s → m.Next s e s' → Inv s') : Inv s := by
  induction h with
  | init hs => exact hinit _ hs
  | step _ hnext ih => exact hstep _ _ _ ih hnext

/-- A refinement mapping, where an invariant of the concrete system may be used: each step
is a step of the abstract system or leaves the mapped state as it is. -/
structure Refinement {τ : Type u} {ε' : Type v} (m : Machine σ ε) (a : Machine τ ε') where
  map : σ → τ
  Inv : σ → Prop
  inv_init : ∀ s, m.Init s → Inv s
  inv_step : ∀ s e s', Inv s → m.Next s e s' → Inv s'
  init : ∀ s, m.Init s → a.Init (map s)
  step : ∀ s e s', Inv s → m.Next s e s' → (∃ e', a.Next (map s) e' (map s')) ∨ map s' = map s

theorem Refinement.reachable {τ : Type u} {ε' : Type v} {a : Machine τ ε'} (r : Refinement m a)
    (h : m.Reachable s) : r.Inv s ∧ a.Reachable (r.map s) := by
  induction h with
  | init hs => exact ⟨r.inv_init _ hs, .init (r.init _ hs)⟩
  | step _ hnext ih =>
    refine ⟨r.inv_step _ _ _ ih.1 hnext, ?_⟩
    rcases r.step _ _ _ ih.1 hnext with ⟨_, habs⟩ | hstutter
    · exact .step ih.2 habs
    · rw [hstutter]
      exact ih.2

/-! ## Going on behind what is acknowledged -/

namespace Acknowledged

variable {ι : Type u} [LinearOrder ι] [SuccOrder ι]

/-- The position of the sender, what it asked for so far, what the receiver stored and what
it acknowledged. Nothing that was ever asked or acknowledged is taken away: it may arrive at
any time, any number of times, or never. -/
structure State (ι : Type u) where
  position : ι
  asked : Set ι
  stored : Set ι
  acked : Set ι

inductive Label (ι : Type u) where
  | ask
  | store (k : ι)
  | resume (k : ι)
  | fallBack (k : ι)

/-- The sender asks for its position; the receiver stores what was asked and acknowledges
it; the sender takes up the position behind anything acknowledged, or falls back. -/
inductive Step : State ι → Label ι → State ι → Prop
  | ask {s : State ι} : Step s .ask { s with asked := insert s.position s.asked }
  | store {s : State ι} {k : ι} : k ∈ s.asked →
      Step s (.store k) { s with stored := insert k s.stored, acked := insert k s.acked }
  | resume {s : State ι} {k : ι} : k ∈ s.acked →
      Step s (.resume k) { s with position := Order.succ k }
  | fallBack {s : State ι} {k : ι} : k ≤ s.position →
      Step s (.fallBack k) { s with position := k }

/-- The sender starts at a position that nothing lies in front of. -/
def machine (ι : Type u) [LinearOrder ι] [SuccOrder ι] : Machine (State ι) (Label ι) where
  Init s := IsMin s.position ∧ s.asked = ∅ ∧ s.stored = ∅ ∧ s.acked = ∅
  Next := Step

/-- All that lies in front of the position, of a question or of an acknowledgement is stored. -/
structure Prefix (s : State ι) : Prop where
  position : Set.Iio s.position ⊆ s.stored
  asked : ∀ k ∈ s.asked, Set.Iio k ⊆ s.stored
  acked : ∀ k ∈ s.acked, Set.Iic k ⊆ s.stored

theorem Prefix.step {s s' : State ι} {e : Label ι} (h : Prefix s) (hstep : Step s e s') :
    Prefix s' := by
  cases hstep with
  | ask =>
    refine ⟨h.position, ?_, h.acked⟩
    rintro k (rfl | hk)
    · exact h.position
    · exact h.asked k hk
  | @store k hasked =>
    have hmono : s.stored ⊆ insert k s.stored := Set.subset_insert k s.stored
    refine ⟨h.position.trans hmono, fun j hj => (h.asked j hj).trans hmono, ?_⟩
    rintro j (rfl | hj)
    · -- what lies in front of the question is there, the question itself joins it
      intro i hi
      rcases lt_or_eq_of_le (Set.mem_Iic.mp hi) with hlt | rfl
      · exact hmono (h.asked j hasked hlt)
      · exact Set.mem_insert i s.stored
    · exact (h.acked j hj).trans hmono
  | resume hacked =>
    refine ⟨?_, h.asked, h.acked⟩
    intro i hi
    exact h.acked _ hacked (Order.le_of_lt_succ hi)
  | fallBack hle =>
    exact ⟨(Set.Iio_subset_Iio hle).trans h.position, h.asked, h.acked⟩

theorem reachable_prefix {s : State ι} (h : (machine ι).Reachable s) : Prefix s := by
  refine h.invariant ?_ (fun s e s' hs hstep => hs.step hstep)
  rintro s ⟨hmin, hasked, _, hacked⟩
  refine ⟨fun i hi => absurd hi hmin.not_lt, ?_, ?_⟩
  · intro k hk
    rw [hasked] at hk
    exact absurd hk (Set.notMem_empty k)
  · intro k hk
    rw [hacked] at hk
    exact absurd hk (Set.notMem_empty k)

end Acknowledged

end Transition
