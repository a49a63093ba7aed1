import Mathlib.Order.Basic
import Mathlib.Tactic

/-! # Timestamps -/

namespace MuduoCpp11.Base

structure Timestamp where
  microsecondsSinceEpoch : ℤ := 0
  deriving DecidableEq, Repr

namespace Timestamp

def kMicroSecondsPerSecond : ℤ := 1000 * 1000

def invalid : Timestamp := {}

def valid (t : Timestamp) : Bool := t.microsecondsSinceEpoch > 0

theorem microsecondsSinceEpoch_injective : Function.Injective microsecondsSinceEpoch := by
  rintro ⟨a⟩ ⟨b⟩ h
  exact congrArg _ h

instance : LinearOrder Timestamp :=
  LinearOrder.lift' microsecondsSinceEpoch microsecondsSinceEpoch_injective

theorem le_iff {t u : Timestamp} : t ≤ u ↔ t.microsecondsSinceEpoch ≤ u.microsecondsSinceEpoch :=
  Iff.rfl

theorem valid_iff {t : Timestamp} : t.valid ↔ 0 < t.microsecondsSinceEpoch := by
  simp [valid]

end Timestamp

end MuduoCpp11.Base
