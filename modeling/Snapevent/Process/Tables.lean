import Snapevent.Core.Book

/-!
# Output tables

The columnar tables a processed ticker is written to (`tables.rs`), as lists of rows, with one
append operation per record kind.  The floating-point convenience columns are left out: they are
derived from the integer columns and nothing reads them back.
-/

namespace Snapevent

/-- An optional sequence number in its signed 64-bit column. -/
def seqI64 (seq : Option UInt64) : Option ℤ := seq.map fun s => s.toInt64.toInt

/-- A resting quantity in its signed 64-bit column; a larger one is an error. -/
def qtyCentiI64 (q : UInt64) : Except String Int64 :=
  if q.toNat < 2 ^ 63 then .ok q.toInt64
  else .error ("resting quantity " ++ toString q.toNat ++ " centi-contracts exceeds i64 range")

theorem toInt64_nonneg {a : UInt64} (h : a.toNat < 2 ^ 63) : 0 ≤ a.toInt64 := by
  rw [Int64.le_iff_toInt_le, toInt_toInt64 h]
  simp

theorem qtyCentiI64_of_lt {q : UInt64} (h : q.toNat < 2 ^ 63) : qtyCentiI64 q = .ok q.toInt64 :=
  if_pos h

theorem qtyCentiI64_ok {q : UInt64} {n : Int64} (h : qtyCentiI64 q = .ok n) : n = q.toInt64 := by
  rw [qtyCentiI64] at h
  split_ifs at h
  cases h
  rfl

theorem seqI64_some {s : UInt64} (h : s.toNat < 2 ^ 63) : seqI64 (some s) = some (s.toNat : ℤ) := by
  rw [seqI64, Option.map_some, toInt_toInt64 h]

/-- The text of a book side. -/
def sideStr : Side → String
  | .yes => "yes"
  | .no => "no"

/-- The text of a taker's book side. -/
def bookSideStr : BookSide → String
  | .bid => "bid"
  | .ask => "ask"

/-- The text of a gap reason. -/
def gapReasonStr : GapReason → String
  | .seqJump => "seq_jump"
  | .reconnect => "reconnect"
  | .resubscribe => "resubscribe"
  | .verifyMismatch => "verify_mismatch"

/-! ## `book_events` -/

/-- One row of the lossless book mutation log: a snapshot level, an empty-snapshot marker or a
delta. -/
structure BookEventsRow where
  eventIdx : ℤ
  recvTsUs : ℤ
  eventTsUs : ℤ
  seq : Option ℤ
  sid : Option ℤ
  isSnapshot : Bool
  side : Option String
  priceMicro : Option ℤ
  qtyCenti : Option Int64
  deriving DecidableEq, Repr

/-- The book mutation log under construction. -/
abbrev BookEventsTable := List BookEventsRow

namespace BookEventsTable

/-- The row columns shared by every row of one record. -/
def row (eventIdx : ℤ) (env : Envelope) (evt : Timestamp) (isSnapshot : Bool)
    (side : Option String) (price : Option ℤ) (qty : Option Int64) : BookEventsRow :=
  { eventIdx, recvTsUs := env.recvUs, eventTsUs := evt.timestampMicros, seq := seqI64 env.seq
    sid := env.sid.map (·.toInt), isSnapshot, side, priceMicro := price, qtyCenti := qty }

/-- The rows of one side of a snapshot. -/
def levelRows (eventIdx : ℤ) (env : Envelope) (evt : Timestamp) (side : Side)
    (levels : List PriceLevel) : Except String (List BookEventsRow) :=
  levels.mapM fun lvl => do
    let q ← qtyCentiI64 lvl.quantity.centi
    return row eventIdx env evt true (some (sideStr side)) (some (lvl.price.micro.toNat : ℤ)) (some q)

/-- Append one snapshot: a row per level, or one marker when it is fully empty. -/
def pushSnapshot (t : BookEventsTable) (eventIdx : ℤ) (env : Envelope) (snap : OrderbookSnapshot) :
    Except String BookEventsTable := do
  if snap.yes.isEmpty && snap.no.isEmpty then
    return t ++ [row eventIdx env snap.ts true none none none]
  let yes ← levelRows eventIdx env snap.ts .yes snap.yes
  let no ← levelRows eventIdx env snap.ts .no snap.no
  return t ++ yes ++ no

/-- Append one delta. -/
def pushDelta (t : BookEventsTable) (eventIdx : ℤ) (env : Envelope) (d : OrderbookDelta) :
    BookEventsTable :=
  t ++ [row eventIdx env d.ts false (some (sideStr d.side)) (some (d.price.micro.toNat : ℤ))
    (some d.delta.centi)]

end BookEventsTable

/-! ## `book_top` -/

/-- One row of the derived top-of-book series. -/
structure BookTopRow where
  eventIdx : ℤ
  recvTsUs : ℤ
  eventTsUs : ℤ
  seq : Option ℤ
  event : String
  top : Top
  midMicro : Option UInt32
  spreadMicro : Option ℤ
  deriving DecidableEq, Repr

/-- The top-of-book series under construction. -/
abbrev BookTopTable := List BookTopRow

/-- Append the top of book after one orderbook message. -/
def BookTopTable.push (t : BookTopTable) (eventIdx : ℤ) (env : Envelope) (evtUs : ℤ)
    (event : String) (top : Top) : BookTopTable :=
  t ++ [{ eventIdx, recvTsUs := env.recvUs, eventTsUs := evtUs, seq := seqI64 env.seq, event, top
          midMicro := top.midMicro, spreadMicro := top.spreadMicro }]

/-! ## `trades` -/

/-- One row of the trade tape. -/
structure TradesRow where
  recvTsUs : ℤ
  eventTsUs : ℤ
  seq : Option ℤ
  priceMicro : ℤ
  countCenti : Int64
  takerSide : String
  takerBookSide : Option String
  tradeId : Option String
  deriving DecidableEq, Repr

/-- The trade tape under construction. -/
abbrev TradesTable := List TradesRow

/-- The row of one trade of `count` centi-contracts. -/
def TradesTable.row (env : Envelope) (trade : Trade) (count : Int64) : TradesRow :=
  { recvTsUs := env.recvUs, eventTsUs := trade.ts.timestampMicros
    seq := seqI64 env.seq, priceMicro := trade.price.micro.toNat, countCenti := count
    takerSide := sideStr trade.takerSide
    takerBookSide := trade.takerBookSide.map bookSideStr, tradeId := trade.tradeId }

/-- Append one trade. -/
def TradesTable.push (t : TradesTable) (env : Envelope) (trade : Trade) :
    Except String TradesTable := do
  return t ++ [TradesTable.row env trade (← qtyCentiI64 trade.count.centi)]

/-! ## `gaps` -/

/-- One row of the gap markers. -/
structure GapsRow where
  recvTsUs : ℤ
  seq : Option ℤ
  reason : String
  channel : String
  lastSeq : Option ℤ
  observedSeq : Option ℤ
  detail : String
  deriving DecidableEq, Repr

/-- The gap markers under construction. -/
abbrev GapsTable := List GapsRow

/-- The row of one gap marker. -/
def GapsTable.row (env : Envelope) (gap : GapMarker) : GapsRow :=
  { recvTsUs := env.recvUs, seq := seqI64 env.seq, reason := gapReasonStr gap.reason
    channel := gap.channel, lastSeq := seqI64 gap.lastSeq, observedSeq := seqI64 gap.observedSeq
    detail := gap.detail }

/-- Append one gap marker. -/
def GapsTable.push (t : GapsTable) (env : Envelope) (gap : GapMarker) : GapsTable :=
  t ++ [GapsTable.row env gap]

/-! ## `raw` -/

/-- One row of the undecodable messages.  The payload is kept as the JSON value whose text the
column holds. -/
structure RawRow where
  recvTsUs : ℤ
  seq : Option ℤ
  channel : String
  rawType : Option String
  ticker : Option String
  error : String
  payload : Value
  deriving Repr

/-- The undecodable messages under construction. -/
abbrev RawTable := List RawRow

/-- The row of one raw fallback of `channel`. -/
def RawTable.row (env : Envelope) (channel : String) (raw : RawFallback) : RawRow :=
  { recvTsUs := env.recvUs, seq := seqI64 env.seq, channel, rawType := raw.rawType
    ticker := raw.ticker.map (·.str), error := raw.error, payload := raw.payload }

/-- Append one raw fallback of `channel`. -/
def RawTable.push (t : RawTable) (env : Envelope) (channel : String) (raw : RawFallback) :
    RawTable :=
  t ++ [RawTable.row env channel raw]

end Snapevent
