import Snapevent.Core.Units
import Snapevent.Load.Event
import Snapevent.Process.Tables

/-!
# Typed table rows

The loader's row structs and the per-row decoders (`reader.rs`).  A stored column value outside the
row's type is a malformed row at its position, never a skip.  The stored file is taken to return
the rows that were written, so a decoder starts from a written row and its position.
-/

namespace Snapevent

/-- One `book_events` row: a snapshot level, a boundary marker or a delta. -/
structure BookEventRow where
  eventIdx : ℤ
  recvTsUs : ℤ
  seq : Option ℤ
  isSnapshot : Bool
  side : Option Side
  priceMicro : Option UInt32
  qtyCenti : Option Int64
  deriving DecidableEq, Repr

/-- One `trades` row; no `seq` means the trade was backfilled. -/
structure TradeRow where
  recvTsUs : ℤ
  eventTsUs : ℤ
  seq : Option ℤ
  priceMicro : UInt32
  countCenti : UInt64
  takerSide : Side
  takerBookSide : Option BookSide
  tradeId : Option String
  deriving DecidableEq, Repr

/-- One `gaps` row. -/
structure GapRow where
  recvTsUs : ℤ
  seq : Option ℤ
  reason : String
  detail : String
  deriving DecidableEq, Repr

/-! ## Per-column access -/

/-- A malformed row of `table`. -/
def malformed (table : String) (row : ℕ) (detail : String) : LoadError :=
  .malformedRow table row detail

/-- A stored price in its unsigned 32-bit type. -/
def toPrice (v : ℤ) (t : String) (row : ℕ) : Except LoadError UInt32 :=
  if 0 ≤ v ∧ v < 2 ^ 32 then .ok (UInt32.ofNat v.toNat)
  else .error (malformed t row ("price_micro " ++ toString v ++ " out of u32 range"))

/-- A stored side. -/
def toSide (s : String) (t : String) (row : ℕ) : Except LoadError Side :=
  if s = "yes" then .ok .yes
  else if s = "no" then .ok .no
  else .error (malformed t row ("invalid side " ++ debugText s))

/-- A stored book side. -/
def toBookSide (s : String) (t : String) (row : ℕ) : Except LoadError BookSide :=
  if s = "bid" then .ok .bid
  else if s = "ask" then .ok .ask
  else .error (malformed t row ("invalid taker_book_side " ++ debugText s))

/-- Decode an optional column. -/
def decodeOpt {α β : Type} (f : α → Except LoadError β) : Option α → Except LoadError (Option β)
  | none => .ok none
  | some v => some <$> f v

/-! ## Per-table decoders -/

/-- Decode one `book_events` row. -/
def decodeBookRow (row : ℕ) (r : BookEventsRow) : Except LoadError BookEventRow := do
  let side ← decodeOpt (toSide · "book_events" row) r.side
  let price ← decodeOpt (toPrice · "book_events" row) r.priceMicro
  return { eventIdx := r.eventIdx, recvTsUs := r.recvTsUs, seq := r.seq
           isSnapshot := r.isSnapshot, side, priceMicro := price, qtyCenti := r.qtyCenti }

/-- Decode one `trades` row. -/
def decodeTradeRow (row : ℕ) (r : TradesRow) : Except LoadError TradeRow := do
  let takerBookSide ← decodeOpt (toBookSide · "trades" row) r.takerBookSide
  let price ← toPrice r.priceMicro "trades" row
  let count ← if 0 ≤ r.countCenti then .ok r.countCenti.toUInt64
    else .error (malformed "trades" row ("negative count_centi " ++ toString r.countCenti.toInt))
  let takerSide ← toSide r.takerSide "trades" row
  return { recvTsUs := r.recvTsUs, eventTsUs := r.eventTsUs, seq := r.seq, priceMicro := price
           countCenti := count, takerSide, takerBookSide, tradeId := r.tradeId }

/-- Decode one `gaps` row. -/
def decodeGapRow (r : GapsRow) : GapRow :=
  { recvTsUs := r.recvTsUs, seq := r.seq, reason := r.reason, detail := r.detail }

/-- The rows of a `book_events` file in order, each at its position. -/
def bookEvents (t : BookEventsTable) : List (Except LoadError BookEventRow) :=
  t.mapIdx decodeBookRow

/-- The rows of a `trades` file in order, each at its position. -/
def trades (t : TradesTable) : List (Except LoadError TradeRow) :=
  t.mapIdx decodeTradeRow

/-- The rows of a `gaps` file in order; every column of a written gap row has its type. -/
def gaps (t : GapsTable) : List (Except LoadError GapRow) :=
  t.map fun r => .ok (decodeGapRow r)

/-! ## A written row is read back -/

@[simp] theorem toSide_sideStr (s : Side) (t : String) (row : ℕ) :
    toSide (sideStr s) t row = .ok s := by
  cases s <;> rfl

@[simp] theorem toBookSide_bookSideStr (b : BookSide) (t : String) (row : ℕ) :
    toBookSide (bookSideStr b) t row = .ok b := by
  cases b <;> rfl

@[simp] theorem toPrice_micro (p : UInt32) (t : String) (row : ℕ) :
    toPrice (p.toNat : ℤ) t row = .ok p := by
  have h : (0 : ℤ) ≤ p.toNat ∧ (p.toNat : ℤ) < 2 ^ 32 :=
    ⟨Int.natCast_nonneg _, by exact_mod_cast UInt32.toNat_lt p⟩
  rw [toPrice, if_pos h, Int.toNat_natCast, UInt32.ofNat_toNat]

end Snapevent
