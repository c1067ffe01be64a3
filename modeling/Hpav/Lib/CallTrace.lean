import Mathlib.Tactic.Common

/-!
# Programs that make calls

A program of which it matters what it hands to the functions it calls. The calls are recorded
one after the other, also those behind which there is no way on: the run ends early, for
instance with a fault, and the call that led to it is the last one.
-/

namespace CallTrace

/-- The calls of a run, and how it ends. -/
structure Calls (κ ε α : Type) where
  log : List κ
  outcome : Except ε α

variable {κ ε α β : Type}

/-- A run goes on with the value of another one, if there is one. -/
def Calls.andThen (t : Calls κ ε α) (f : α → Calls κ ε β) : Calls κ ε β :=
  match t.outcome with
  | .error e => ⟨t.log, .error e⟩
  | .ok a => ⟨t.log ++ (f a).log, (f a).outcome⟩

instance : Monad (Calls κ ε) where
  pure a := ⟨[], .ok a⟩
  bind := Calls.andThen

/-- A call. -/
def call (c : κ) : Calls κ ε Unit :=
  ⟨[c], .ok ()⟩

/-- There is nothing to go on with. -/
def leave (e : ε) : Calls κ ε α :=
  ⟨[], .error e⟩

/-- A step that makes no call. -/
def ofExcept (x : Except ε α) : Calls κ ε α :=
  ⟨[], x⟩

/-- Returning calls nothing. -/
@[simp] theorem log_pure (a : α) : (pure a : Calls κ ε α).log = [] := rfl

/-- Returning ends with its value. -/
@[simp] theorem outcome_pure (a : α) : (pure a : Calls κ ε α).outcome = .ok a := rfl

/-- A call is logged once. -/
@[simp] theorem log_call (c : κ) : (call c : Calls κ ε Unit).log = [c] := rfl

/-- A call goes on. -/
@[simp] theorem outcome_call (c : κ) : (call c : Calls κ ε Unit).outcome = .ok () := rfl

/-- The log of what goes on is in front of the log of what follows. -/
theorem bind_of_ok {t : Calls κ ε α} {a : α} (h : t.outcome = .ok a) (f : α → Calls κ ε β) :
    t >>= f = ⟨t.log ++ (f a).log, (f a).outcome⟩ := by
  show t.andThen f = _
  unfold Calls.andThen
  rw [h]

/-- Nothing is called after an end. -/
theorem bind_of_error {t : Calls κ ε α} {e : ε} (h : t.outcome = .error e) (f : α → Calls κ ε β) :
    t >>= f = ⟨t.log, .error e⟩ := by
  show t.andThen f = _
  unfold Calls.andThen
  rw [h]

/-- The calls under other names. -/
def Calls.relabel {ι : Type} (g : κ → ι) (t : Calls κ ε α) : Calls ι ε α :=
  ⟨t.log.map g, t.outcome⟩

/-- A call in front adds to the log and nothing else. -/
@[simp] theorem call_bind (c : κ) (f : Unit → Calls κ ε β) :
    (call c >>= f) = ⟨c :: (f ()).log, (f ()).outcome⟩ := rfl

/-- Nothing is added by returning first. -/
@[simp] theorem pure_bind (a : α) (f : α → Calls κ ε β) : (pure a >>= f : Calls κ ε β) = f a := rfl

/-- What follows an end is not run. -/
@[simp] theorem leave_bind (e : ε) (f : α → Calls κ ε β) : ((leave e : Calls κ ε α) >>= f) = leave e := rfl

/-- A value without calls is handed on. -/
@[simp] theorem ofExcept_ok_bind (a : α) (f : α → Calls κ ε β) : ((ofExcept (.ok a) : Calls κ ε α) >>= f) = f a := rfl

/-- An error without calls is an end. -/
@[simp] theorem ofExcept_error_bind (e : ε) (f : α → Calls κ ε β) :
    ((ofExcept (.error e) : Calls κ ε α) >>= f) = leave e := rfl

/-- A finished run is followed by the next one. -/
@[simp] theorem mk_ok_bind (log : List κ) (a : α) (f : α → Calls κ ε β) :
    ((⟨log, .ok a⟩ : Calls κ ε α) >>= f) = ⟨log ++ (f a).log, (f a).outcome⟩ := rfl

/-- A run that has ended is not followed by another. -/
@[simp] theorem mk_error_bind (log : List κ) (e : ε) (f : α → Calls κ ε β) :
    ((⟨log, .error e⟩ : Calls κ ε α) >>= f) = ⟨log, .error e⟩ := rfl

/-- What was called in front of a step stays called. -/
theorem mem_log_bind {t : Calls κ ε α} {c : κ} (h : c ∈ t.log) (f : α → Calls κ ε β) : c ∈ (t >>= f).log := by
  cases ht : t.outcome with
  | error e =>
    rw [bind_of_error ht]
    exact h
  | ok a =>
    rw [bind_of_ok ht]
    exact List.mem_append_left _ h

/-- The outcomes are bound as if nothing were logged. -/
theorem outcome_bind (t : Calls κ ε α) (f : α → Calls κ ε β) :
    (t >>= f).outcome = t.outcome >>= fun a => (f a).outcome := by
  cases h : t.outcome with
  | error e => rw [bind_of_error h]; rfl
  | ok a => rw [bind_of_ok h]; rfl

/-- The value of a run that goes on. -/
theorem outcome_bind_of_ok {t : Calls κ ε α} {a : α} (h : t.outcome = .ok a) (f : α → Calls κ ε β) :
    (t >>= f).outcome = (f a).outcome := by
  rw [bind_of_ok h]

/-- An end is the outcome of the whole run. -/
theorem outcome_bind_of_error {t : Calls κ ε α} {e : ε} (h : t.outcome = .error e) (f : α → Calls κ ε β) :
    (t >>= f).outcome = .error e := by
  rw [bind_of_error h]

/-! ## What all calls of a run have in common -/

/-- Every call of the run is one of these. -/
def Calls.All (P : κ → Prop) (t : Calls κ ε α) : Prop :=
  ∀ c ∈ t.log, P c

section

variable {P : κ → Prop}

/-- A run without calls has nothing to show. -/
theorem all_pure (a : α) : (pure a : Calls κ ε α).All P := nofun

/-- An end has nothing to show. -/
theorem all_leave (e : ε) : (leave e : Calls κ ε α).All P := nofun

/-- A value or an error without calls has nothing to show. -/
theorem all_ofExcept (x : Except ε α) : (ofExcept x : Calls κ ε α).All P := nofun

/-- One call is shown by itself. -/
theorem all_call {c : κ} (h : P c) : (call c : Calls κ ε Unit).All P := by
  intro d hd
  exact List.mem_singleton.mp hd ▸ h

/-- The calls of two runs after one another are those of the one and of the other. -/
theorem all_bind {t : Calls κ ε α} {f : α → Calls κ ε β} (ht : t.All P)
    (hf : ∀ a, t.outcome = .ok a → (f a).All P) : (t >>= f).All P := by
  intro c hc
  -- behind an end there are no more calls
  cases h : t.outcome with
  | error e =>
    rw [bind_of_error h] at hc
    exact ht c hc
  | ok a =>
    rw [bind_of_ok h] at hc
    rcases List.mem_append.mp hc with hc | hc
    · exact ht c hc
    · exact hf a h c hc

/-- A run whose calls are renamed keeps what the names keep. -/
theorem all_relabel {ι : Type} {g : κ → ι} {Q : ι → Prop} {t : Calls κ ε α} (h : t.All P) (hg : ∀ c, P c → Q (g c)) :
    (t.relabel g).All Q := by
  intro c hc
  obtain ⟨d, hd, rfl⟩ := List.mem_map.mp hc
  exact hg d (h d hd)

/-- Every call of the run is one of these, and its value, if there is one, is like that. -/
structure Calls.Ensures (P : κ → Prop) (post : α → Prop) (t : Calls κ ε α) : Prop where
  calls : t.All P
  value : ∀ a, t.outcome = .ok a → post a

variable {post : α → Prop}

/-- A value without calls has to meet the postcondition. -/
theorem ensures_pure {a : α} (h : post a) : (pure a : Calls κ ε α).Ensures P post := by
  refine ⟨all_pure a, ?_⟩
  intro b hb
  rwa [← Except.ok.inj hb]

/-- Where nothing is asked of the value. -/
theorem Calls.All.ensures {t : Calls κ ε α} (h : t.All P) : t.Ensures P fun _ => True :=
  ⟨h, fun _ _ => trivial⟩

/-- The rule of composition: what the first run ensures is what the second may assume. -/
theorem ensures_bind {t : Calls κ ε α} {f : α → Calls κ ε β} {last : β → Prop} (ht : t.Ensures P post)
    (hf : ∀ a, post a → (f a).Ensures P last) : (t >>= f).Ensures P last := by
  refine ⟨all_bind ht.calls fun a ha => (hf a (ht.value a ha)).calls, ?_⟩
  intro b hb
  -- a value of both is one of the second, and the first one has come to its own
  cases h : t.outcome with
  | error e =>
    rw [outcome_bind_of_error h] at hb
    cases hb
  | ok a =>
    rw [outcome_bind_of_ok h] at hb
    exact (hf a (ht.value a h)).value b hb

end

end CallTrace
