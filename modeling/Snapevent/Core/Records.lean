import Snapevent.Core.Ids

/-!
# Records and the stored envelope

The decoded market-data records (`records.rs`) and the versioned, receive-stamped envelope that
wraps exactly one of them on every stored line (`envelope.rs`).
-/

namespace Snapevent

/-- The on-disk channels of a ticker. -/
inductive Channel
  | orderbook
  | trade
  deriving DecidableEq, Repr

/-- The directory name of a channel. -/
def Channel.str : Channel → String
  | orderbook => "orderbook"
  | trade => "trade"

/-- One resting level of a book side. -/
structure PriceLevel where
  price : MicroDollars
  quantity : RestingQty
  deriving DecidableEq, Repr

/-- A full order-book snapshot of one market. -/
structure OrderbookSnapshot where
  ticker : Ticker
  ts : Timestamp
  yes : List PriceLevel
  no : List PriceLevel
  deriving DecidableEq, Repr

/-- An incremental change of one price level. -/
structure OrderbookDelta where
  ticker : Ticker
  ts : Timestamp
  side : Side
  price : MicroDollars
  delta : QtyDelta
  deriving DecidableEq, Repr

/-- An executed trade on the public tape. -/
structure Trade where
  ticker : Ticker
  ts : Timestamp
  price : MicroDollars
  count : RestingQty
  takerSide : Side
  takerBookSide : Option BookSide
  tradeId : Option String
  deriving DecidableEq, Repr

/-- Why a gap marker was emitted. -/
inductive GapReason
  | seqJump
  | reconnect
  | resubscribe
  | verifyMismatch
  deriving DecidableEq, Repr

/-- An inline marker for a hole in a stream. -/
structure GapMarker where
  reason : GapReason
  ticker : Ticker
  channel : String
  lastSeq : Option UInt64
  observedSeq : Option UInt64
  detail : String
  deriving DecidableEq, Repr

/-- A JSON number as the decoder sees it: an integer that fits 64 bits, or anything else. -/
inductive Number
  | posInt (n : UInt64)
  | negInt (n : Int64)
  | float (repr : String)
  deriving DecidableEq, Repr

/-- A JSON value. -/
inductive Value
  | null
  | bool (b : Bool)
  | number (n : Number)
  | string (s : String)
  | array (xs : List Value)
  | object (fields : List (String × Value))
  deriving Repr

/-- A message that could not be decoded, kept verbatim. -/
structure RawFallback where
  rawType : Option String
  ticker : Option Ticker
  error : String
  payload : Value
  deriving Repr

/-- The payload of an envelope. -/
inductive RecordKind
  | snapshot (s : OrderbookSnapshot)
  | delta (d : OrderbookDelta)
  | trade (t : Trade)
  | gap (g : GapMarker)
  | raw (r : RawFallback)
  | verify (s : OrderbookSnapshot)
  deriving Repr

/-- The envelope schema version this build writes. -/
def ENVELOPE_VERSION : UInt16 := 2

/-- One stored line. -/
structure Envelope where
  v : UInt16
  recvTs : Timestamp
  seq : Option UInt64
  sid : Option Int64
  kind : RecordKind
  deriving Repr

namespace Envelope

/-- Wrap a record at the current schema version. -/
def new (recvTs : Timestamp) (seq : Option UInt64) (sid : Option Int64) (kind : RecordKind) :
    Envelope :=
  { v := ENVELOPE_VERSION, recvTs, seq, sid, kind }

/-- Whether this build may interpret the line: older and equal versions are accepted. -/
def validate (env : Envelope) : Except String Unit :=
  if ENVELOPE_VERSION < env.v then
    .error ("unsupported envelope schema version " ++ toString env.v.toNat ++
      " (this build supports up to " ++ toString ENVELOPE_VERSION.toNat ++ ")")
  else .ok ()

theorem validate_new (recvTs : Timestamp) (seq : Option UInt64) (sid : Option Int64)
    (kind : RecordKind) : (new recvTs seq sid kind).validate = .ok () := rfl

/-- The receive time in microseconds: the clock every table is keyed by. -/
def recvUs (env : Envelope) : ℤ := env.recvTs.timestampMicros

end Envelope

end Snapevent
