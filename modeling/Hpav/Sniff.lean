import Mathlib.Data.List.Basic
import Mathlib.Data.List.Perm.Subperm
import Mathlib.Data.List.Sort
import Mathlib.Tactic.Common
import Hpav.Channel

/-!
# Sniffing

`hpav_sniff` (`hpav_mme.c`) with a callback of the caller that never asks to stop. Meant is
that the callback gets every captured packet for the host once. The loop hands over what
`rx_frames` points at whenever a batch had a packet, so it goes by the batches whether that
is so (`OnePerBatch`).
-/

namespace Hpav

open CMem

variable {σ : Type}

/-! ## The loop -/

/-- The state of the loop, with the pointers passed to the callback so far. -/
structure SniffState (σ : Type) where
  capture : Capture
  userData : σ
  passed : List (Option Nat)

/-- The frame a pointer points at. -/
def frameAt (c : Capture) (pointer : Option Nat) : Option EthFrame :=
  pointer.bind fun a => c.heap[a]?.map (·.val)

/-- A call of the callback. -/
def SniffState.call (callback : σ → Option EthFrame → σ × Int) (s : SniffState σ) (pointer : Option Nat) :
    SniffState σ × Int :=
  let (userData, rv) := callback s.userData (frameAt s.capture pointer)
  ({ s with userData, passed := s.passed ++ [pointer] }, rv)

/-- The state before the first event. -/
def SniffState.start (host : Mac) (userData : σ) : SniffState σ where
  capture := ⟨[], CallbackData.start host ⟨List.replicate 6 0, rfl⟩ 0 0⟩
  userData
  passed := []

section Run

variable (host : Mac) (collect : σ → Option EthFrame → σ)

end Run

end Hpav
