import Mathlib.Algebra.Order.Ring.Int
import Mathlib.Order.Lattice

/-!
# Identifiers, units and the UTC clock

The small value types every record is built from (`ids.rs`, `units.rs`): tickers, the two side
enumerations, UTC instants, and the three fixed-width integer units.  Quantities keep the width of
the source's own newtypes, so a value outside its range cannot be written down.
-/

namespace Snapevent

/-- A market ticker. -/
structure Ticker where
  str : String
  deriving DecidableEq, Repr

/-- The outcome book a quantity sits on. -/
inductive Side
  | yes
  | no
  deriving DecidableEq, Repr

/-- The book side a taker hit. -/
inductive BookSide
  | bid
  | ask
  deriving DecidableEq, Repr

/-- A price in micro-dollars. -/
structure MicroDollars where
  micro : UInt32
  deriving DecidableEq, Repr

/-- A resting quantity in centi-contracts. -/
structure RestingQty where
  centi : UInt64
  deriving DecidableEq, Repr

/-- A signed change of a resting quantity, in centi-contracts. -/
structure QtyDelta where
  centi : Int64
  deriving DecidableEq, Repr

/-! ## Instants -/

/-- Nanoseconds of the earliest UTC instant of the calendar library. -/
def minUtcNanos : ℤ := -8334601228800 * 10 ^ 9

/-- Nanoseconds of the latest UTC instant of the calendar library. -/
def maxUtcNanos : ℤ := 8210266876799 * 10 ^ 9 + 999999999

/-- A UTC instant: nanoseconds since the Unix epoch, inside the calendar's range. -/
structure Timestamp where
  nanos : ℤ
  inRange : minUtcNanos ≤ nanos ∧ nanos ≤ maxUtcNanos := by decide
  deriving DecidableEq, Repr

namespace Timestamp

/-- Whole microseconds since the epoch, rounded down. -/
def timestampMicros (t : Timestamp) : ℤ := t.nanos / 1000

/-- The instant at `us` microseconds, when the calendar reaches that far. -/
def fromTimestampMicros (us : ℤ) : Option Timestamp :=
  if h : minUtcNanos ≤ us * 1000 ∧ us * 1000 ≤ maxUtcNanos then some ⟨us * 1000, h⟩ else none

@[ext] theorem ext {s t : Timestamp} (h : s.nanos = t.nanos) : s = t := by
  cases s; cases t; cases h; rfl

theorem timestampMicros_mono {s t : Timestamp} (h : s.nanos ≤ t.nanos) :
    s.timestampMicros ≤ t.timestampMicros :=
  Int.ediv_le_ediv (by decide) h

/-- Every microsecond reading of an instant is again an instant. -/
theorem fromTimestampMicros_timestampMicros (t : Timestamp) :
    ∃ s, fromTimestampMicros t.timestampMicros = some s ∧
      s.timestampMicros = t.timestampMicros := by
  have hr := t.inRange
  have h : minUtcNanos ≤ t.timestampMicros * 1000 ∧ t.timestampMicros * 1000 ≤ maxUtcNanos := by
    simp only [timestampMicros, minUtcNanos, maxUtcNanos] at hr ⊢
    omega
  refine ⟨⟨_, h⟩, dif_pos h, ?_⟩
  simp [timestampMicros]

end Timestamp

/-- The start of the epoch. -/
def epoch : Timestamp := ⟨0, by decide⟩

/-! ## Words -/

theorem toInt_toInt64 {a : UInt64} (h : a.toNat < 2 ^ 63) : a.toInt64.toInt = a.toNat := by
  have hbits : a.toInt64.toInt = a.toBitVec.toInt := rfl
  rw [hbits, BitVec.toInt_eq_toNat_of_lt (by simpa using by omega)]
  simp

end Snapevent
