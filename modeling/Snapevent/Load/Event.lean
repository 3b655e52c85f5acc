import Snapevent.Core.Records

/-!
# Replay events and load errors

What a consumer of a processed ticker directory pulls (`event.rs`), and every way a load can fail
(`error.rs`).
-/

namespace Snapevent

/-- One resting level of a grouped snapshot. -/
structure Level where
  price : MicroDollars
  qty : RestingQty
  deriving DecidableEq, Repr

/-- Where a trade print came from. -/
inductive TradeSource
  | ws
  | restBackfill
  deriving DecidableEq, Repr

/-- One event of the merged stream.  `ts` is the effective market timestamp in microseconds;
`synthetic` marks the opener of a range replay. -/
inductive ReplayEvent
  | snapshot (ts eventIdx : ℤ) (yes no : List Level) (synthetic : Bool)
  | delta (ts eventIdx : ℤ) (side : Side) (price : MicroDollars) (delta : QtyDelta)
  | trade (ts : ℤ) (price : MicroDollars) (count : RestingQty) (takerSide : Side)
      (takerBookSide : Option BookSide) (tradeId : Option String) (source : TradeSource)
  | gap (ts : ℤ) (reason detail : String)
  deriving DecidableEq, Repr

namespace ReplayEvent

/-- The event's effective market timestamp. -/
def ts : ReplayEvent → ℤ
  | snapshot ts .. | delta ts .. | trade ts .. | gap ts .. => ts

/-- The event is a capture hole. -/
def isGap : ReplayEvent → Bool
  | gap .. => true
  | _ => false

/-- The event is a full snapshot, real or synthetic. -/
def isSnapshot : ReplayEvent → Bool
  | snapshot .. => true
  | _ => false

/-- The event is the opener of a range replay. -/
def isSynthetic : ReplayEvent → Bool
  | snapshot _ _ _ _ synthetic => synthetic
  | _ => false

end ReplayEvent

/-- A failure opening or streaming a processed ticker directory. -/
inductive LoadError
  | io (path source : String)
  | manifest (path detail : String)
  | unsupportedSchema (found supported : ℕ)
  | incomplete (reasons : List String)
  | missingTable (name path : String)
  | malformedRow (table : String) (row : ℕ) (detail : String)
  | parquet (table detail : String)
  | invalidRange (t0 t1 : ℤ)
  | orderViolation (detail : String)
  deriving DecidableEq, Repr

end Snapevent
