import Mathlib.Tactic.Common
import Hpav.Command
import Hpav.Lib.HexText

/-!
# MAC addresses as text

`hpav_mactos` prints an address, `hpav_stomac` reads one. What is printed is read back. The
reader turns down a text that is not in the expected format only if its six conversions do not
go through: a text such as `0:0:0:0:0:0 ` or `+1:-2:0x3:4:5:678` is taken
(`stomacInto_meets_iff`).
-/

namespace Hpav

open CMem CScan CNumeral

/-- `hpav_stomac`: whether there is an address, and the array `out`. -/
def stomacInto (macAddr : CString) (out : Mac) : Bool × Mac :=
  match stomac macAddr with
  | none => (false, out)
  | some mac => (true, mac)

/-- Six groups of one or two hexadecimal digits, with colons between them. -/
def AddressText (s : CString) : Prop :=
  ∃ mac : Mac, ColonHex s mac.bytes

/-- `hpav_stomac` takes a text in the expected format, and no other text. -/
structure StomacMeets (s : CString) : Prop where
  accepts : ∀ mac : Mac, ColonHex s mac.bytes → ∀ out, stomacInto s out = (true, mac)
  rejects : ¬ AddressText s → ∀ out, stomacInto s out = (false, out)

/-! ## The reader -/

theorem stomac_isSome_iff {s : CString} : (stomac s).isSome ↔ LooseColonHex 6 s := by
  rw [← scanColonHex_iff (by decide)]
  unfold stomac
  split
  next h => exact iff_of_true rfl h
  next h => exact iff_of_false (by simp) h

theorem stomac_colonHex {s : CString} {mac : Mac} (h : ColonHex s mac.bytes) : stomac s = some mac := by
  have hscan := h.scanColonHex_eq
  rw [mac.length_eq] at hscan
  unfold stomac
  rw [dif_pos (by rw [hscan, mac.length_eq])]
  congr 1
  cases mac
  simp only [hscan]

theorem stomacInto_none {s : CString} : (∀ out, stomacInto s out = (false, out)) ↔ ¬ LooseColonHex 6 s := by
  rw [← stomac_isSome_iff]
  unfold stomacInto
  cases stomac s with
  | none => exact iff_of_true (fun _ => rfl) (by simp)
  | some mac =>
    refine iff_of_false ?_ (by simp)
    intro h
    cases h mac

/-! ## The printer -/

theorem hexDigit_value : ∀ n < 16, isHexDigit (hexDigit n) = true ∧ hexDigitValue (hexDigit n) = n := by
  decide

/-- An address is printed in the expected format. -/
theorem colonHex_mactos {bytes : List UInt8} (h : bytes ≠ []) : ColonHex (mactos bytes) bytes :=
  colonHex_colonText hexDigit_value h

theorem Mac.bytes_ne_nil (mac : Mac) : mac.bytes ≠ [] := by
  intro h
  have hlength := mac.length_eq
  rw [h] at hlength
  cases hlength

/-- An address that was printed is read back. -/
theorem stomac_mactos (mac : Mac) : stomac (mactos mac.bytes) = some mac :=
  stomac_colonHex (colonHex_mactos mac.bytes_ne_nil)

/-! ## Where the reader meets its description -/

/-- Printed addresses are read back; and the reader does what its description says exactly with
the texts in the expected format and those from which not all six numbers can be converted. -/
theorem stomacInto_meets_iff (s : CString) (mac out : Mac) :
    stomacInto (mactos mac.bytes) out = (true, mac) ∧
      (StomacMeets s ↔ AddressText s ∨ ¬ LooseColonHex 6 s) := by
  constructor
  · unfold stomacInto
    rw [stomac_mactos]
  constructor
  · intro h
    by_cases hmac : AddressText s
    · exact Or.inl hmac
    · exact Or.inr (stomacInto_none.mp (h.rejects hmac))
  · intro h
    constructor
    · intro mac hmac out
      unfold stomacInto
      rw [stomac_colonHex hmac]
    · intro hnot
      rcases h with hmac | hloose
      · exact absurd hmac hnot
      · exact stomacInto_none.mpr hloose

/-- Text behind the address is not noticed. -/
theorem trailing_text_not_meets : ¬ ∀ s, StomacMeets s := by
  intro h
  have hnot : ¬ AddressText (text "0:13:d7:0:0:1 or so") := by
    rintro ⟨mac, hmac⟩
    exact absurd (hmac.mem 32 (by decide)) (by decide)
  have hrejects := (h (text "0:13:d7:0:0:1 or so")).rejects hnot broadcast
  exact absurd (congrArg Prod.fst hrejects) (by decide)

end Hpav
