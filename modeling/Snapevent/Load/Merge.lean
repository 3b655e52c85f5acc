import Mathlib.Data.List.MinMax
import Mathlib.Data.List.Sort
import Mathlib.Data.Prod.Lex
import Mathlib.Data.String.Basic
import Snapevent.Load.Reader

/-!
# The merged stream

The deterministic merge of a ticker's gap, book and trade rows (`merge.rs`): the total order
`MergeKey`, the collapse of duplicate trade prints, and the streaming iterator `EventIter` with its
three lanes, its snapshot grouping and its monotonicity tripwire.

`EventIter.pull` is the source's `next`; besides the item it returns the lane the item came from
and the key it was taken under, which the statements about the stream refer to.
-/

namespace Snapevent

/-! ## The total order -/

/-- The sort key of a merged row, compared field by field. -/
structure MergeKey where
  effectiveTs : ℤ
  seqClass : ℕ
  seqValue : ℤ
  tablePriority : ℕ
  eventIdx : ℤ
  fileRow : ℕ
  deriving DecidableEq, Repr

namespace MergeKey

/-- The key as a lexicographic tuple. -/
def tuple (k : MergeKey) : ℤ ×ₗ ℕ ×ₗ ℤ ×ₗ ℕ ×ₗ ℤ ×ₗ ℕ :=
  toLex (k.effectiveTs, toLex (k.seqClass, toLex (k.seqValue, toLex (k.tablePriority,
    toLex (k.eventIdx, k.fileRow)))))

theorem tuple_injective : Function.Injective tuple := by
  rintro ⟨⟩ ⟨⟩ h
  simp only [tuple, EmbeddingLike.apply_eq_iff_eq, Prod.mk.injEq] at h
  simp [h]

instance : LinearOrder MergeKey := LinearOrder.lift' tuple tuple_injective

theorem lt_iff (k l : MergeKey) :
    k < l ↔ k.effectiveTs < l.effectiveTs ∨ k.effectiveTs = l.effectiveTs ∧
      (k.seqClass < l.seqClass ∨ k.seqClass = l.seqClass ∧
      (k.seqValue < l.seqValue ∨ k.seqValue = l.seqValue ∧
      (k.tablePriority < l.tablePriority ∨ k.tablePriority = l.tablePriority ∧
      (k.eventIdx < l.eventIdx ∨ k.eventIdx = l.eventIdx ∧ k.fileRow < l.fileRow)))) := by
  show k.tuple < l.tuple ↔ _
  simp only [tuple, Prod.Lex.toLex_lt_toLex]

theorem effectiveTs_le {k l : MergeKey} (h : k ≤ l) : k.effectiveTs ≤ l.effectiveTs := by
  rcases h.lt_or_eq with h | rfl
  · rcases (lt_iff k l).1 h with h | ⟨h, -⟩
    · exact h.le
    · exact h.le
  · exact le_rfl

end MergeKey

def PRI_GAP : ℕ := 0
def PRI_BOOK : ℕ := 1
def PRI_TRADE : ℕ := 2

/-- The largest signed 64-bit integer. -/
def i64Max : ℤ := 2 ^ 63 - 1

/-- Class and value of a sequence number: an absent one sorts after every present one. -/
def seqPart : Option ℤ → ℕ × ℤ
  | some s => (0, s)
  | none => (1, i64Max)

/-- A trade's effective timestamp and provenance. -/
def tradeEffective (row : TradeRow) : ℤ × TradeSource :=
  match row.seq with
  | some _ => (row.recvTsUs, .ws)
  | none => (row.eventTsUs, .restBackfill)

def bookKey (row : BookEventRow) (fileRow : ℕ) : MergeKey :=
  ⟨row.recvTsUs, (seqPart row.seq).1, (seqPart row.seq).2, PRI_BOOK, row.eventIdx, fileRow⟩

def tradeKey (row : TradeRow) (fileRow : ℕ) : MergeKey :=
  ⟨(tradeEffective row).1, (seqPart row.seq).1, (seqPart row.seq).2, PRI_TRADE, 0, fileRow⟩

def gapKey (row : GapRow) (fileRow : ℕ) : MergeKey :=
  ⟨row.recvTsUs, (seqPart row.seq).1, (seqPart row.seq).2, PRI_GAP, 0, fileRow⟩

/-! ## Trade dedup -/

/-- A trade row with its original file row. -/
abbrev FiledTrade := ℕ × TradeRow

/-- The merge key of a filed trade. -/
def FiledTrade.key (t : FiledTrade) : MergeKey := tradeKey t.2 t.1

/-- Sort filed trades by key, keeping the order of equal keys. -/
def sortTrades (rows : List FiledTrade) : List FiledTrade :=
  rows.insertionSort fun a b => a.key ≤ b.key

/-- The distinct ids of the rows, in ascending order: the keys of the ordered map the rows are
grouped in. -/
def tradeIds (rows : List FiledTrade) : List String :=
  (rows.filterMap (·.2.tradeId)).dedup.insertionSort (· ≤ ·)

/-- The copies of one trade in input order. -/
def copiesOf (id : String) (rows : List FiledTrade) : List FiledTrade :=
  rows.filter fun t => t.2.tradeId = some id

/-- The first websocket copy in key order, else the first copy. -/
def positionDonor (copies : List FiledTrade) : Option FiledTrade :=
  (copies.find? (·.2.seq.isSome)).or copies.head?

/-- The first REST copy in key order, else the position donor. -/
def fieldDonor (copies : List FiledTrade) : Option FiledTrade :=
  (copies.find? (·.2.seq.isNone)).or (positionDonor copies)

/-- The row standing for all copies of trade `id`: position from one donor, fields from the other,
the taker's book side falling back to the position donor's. -/
def mergeCopies (id : String) (pos fields : FiledTrade) : FiledTrade :=
  (pos.1,
    { recvTsUs := pos.2.recvTsUs
      seq := pos.2.seq
      eventTsUs := fields.2.eventTsUs
      priceMicro := fields.2.priceMicro
      countCenti := fields.2.countCenti
      takerSide := fields.2.takerSide
      takerBookSide := fields.2.takerBookSide.or pos.2.takerBookSide
      tradeId := some id })

/-- Collapse the copies of one trade, given in input order, to at most one row. -/
def collapse (id : String) (copies : List FiledTrade) : Option FiledTrade :=
  match copies with
  | [single] => some single
  | copies =>
    let sorted := sortTrades copies
    match positionDonor sorted, fieldDonor sorted with
    | some pos, some fields => some (mergeCopies id pos fields)
    | _, _ => none

/-- Collapse duplicate prints of one economic trade; rows without an id are kept as they are. -/
def dedupTrades (rows : List FiledTrade) : List FiledTrade :=
  rows.filter (·.2.tradeId.isNone) ++
    (tradeIds rows).filterMap fun id => collapse id (copiesOf id rows)

/-- Each row filed under its position. -/
def filed (rows : List TradeRow) : List FiledTrade := rows.mapIdx fun i row => (i, row)

/-- The rows of the trade lane, in lane order: duplicates collapsed, sorted by key. -/
def tradeLaneRows (rows : List TradeRow) : List FiledTrade := sortTrades (dedupTrades (filed rows))

/-! ## Lanes -/

/-- One lane of the merge: the next ready event, or the error to surface. -/
structure Lane where
  head : Option (MergeKey × ReplayEvent)
  err : Option LoadError

/-- A lane with nothing ready. -/
def Lane.empty : Lane := { head := none, err := none }

/-- The lane has something ready and is not refilled. -/
def Lane.ready (lane : Lane) : Bool := lane.head.isSome || lane.err.isSome

/-- The number of things a lane has ready. -/
def Lane.size (lane : Lane) : ℕ := lane.head.toList.length + lane.err.toList.length

/-- The three lanes. -/
inductive LaneId
  | gap
  | book
  | trade
  deriving DecidableEq, Repr

/-- A row source: what is left to read. -/
abbrev RowSource (α : Type) := List (Except LoadError α)

/-- The streaming merge over the three row sources. -/
structure EventIter where
  gaps : RowSource GapRow
  book : RowSource BookEventRow
  trades : List FiledTrade
  gapLane : Lane
  bookLane : Lane
  tradeLane : Lane
  gapRow : ℕ
  bookRow : ℕ
  lastKey : Option MergeKey

/-- The replay event of a gap row. -/
def gapEvent (row : GapRow) : ReplayEvent := .gap row.recvTsUs row.reason row.detail

/-- The replay event of a trade row. -/
def tradeEvent (row : TradeRow) : ReplayEvent :=
  .trade (tradeEffective row).1 ⟨row.priceMicro⟩ ⟨row.countCenti⟩ row.takerSide row.takerBookSide
    row.tradeId (tradeEffective row).2

/-- The replay event of a delta row; an absent side, price or quantity is a malformed row. -/
def deltaEvent (row : BookEventRow) (fileRow : ℕ) : Except LoadError ReplayEvent :=
  match row.side, row.priceMicro, row.qtyCenti with
  | some side, some price, some qty =>
    .ok (.delta row.recvTsUs row.eventIdx side ⟨price⟩ ⟨qty⟩)
  | _, _, _ => .error (malformed "book_events" fileRow "delta row missing side/price/qty")

/-- The levels of both sides of a snapshot under assembly. -/
abbrev Sides := List Level × List Level

/-- Add one snapshot row; a boundary marker adds nothing, a negative quantity is a malformed
row. -/
def pushLevel (acc : Sides) (row : BookEventRow) (fileRow : ℕ) : Except LoadError Sides :=
  match row.side, row.priceMicro, row.qtyCenti with
  | some side, some price, some qty =>
    if 0 ≤ qty then
      let level : Level := ⟨⟨price⟩, ⟨qty.toUInt64⟩⟩
      match side with
      | .yes => .ok (acc.1 ++ [level], acc.2)
      | .no => .ok (acc.1, acc.2 ++ [level])
    else .error (malformed "book_events" fileRow
      ("negative snapshot qty " ++ toString qty.toInt))
  | _, _, _ => .ok acc

/-- The row joins the snapshot group of `eventIdx`. -/
def BookEventRow.joins (row : BookEventRow) (eventIdx : ℤ) : Bool :=
  row.isSnapshot && row.eventIdx == eventIdx

/-- What assembling a snapshot group left behind: its levels or the error that ended it, the rows
not read, and the row counter. -/
structure Assembly where
  result : Except LoadError Sides
  rest : RowSource BookEventRow
  bookRow : ℕ

/-- Consume every consecutive row of the group of `eventIdx`.  An undecodable row is consumed and
ends the group with its error. -/
def assemble (eventIdx : ℤ) (acc : Sides) (bookRow : ℕ) : RowSource BookEventRow → Assembly
  | [] => ⟨.ok acc, [], bookRow⟩
  | .error e :: rest => ⟨.error e, rest, bookRow⟩
  | .ok row :: rest =>
    if row.joins eventIdx then
      match pushLevel acc row bookRow with
      | .error e => ⟨.error e, rest, bookRow + 1⟩
      | .ok acc => assemble eventIdx acc (bookRow + 1) rest
    else ⟨.ok acc, .ok row :: rest, bookRow⟩

namespace EventIter

/-- A fresh iterator over gap and book sources and the decoded trade rows. -/
def ofRows (gaps : RowSource GapRow) (book : RowSource BookEventRow) (trades : List TradeRow) :
    EventIter :=
  { gaps, book, trades := tradeLaneRows trades, gapLane := .empty, bookLane := .empty
    tradeLane := .empty, gapRow := 0, bookRow := 0, lastKey := none }

/-- Assemble from row sources.  The trades are drained, deduplicated and sorted here, and a
malformed trade row fails the construction. -/
def fromSources (gaps : RowSource GapRow) (book : RowSource BookEventRow)
    (trades : RowSource TradeRow) : Except LoadError EventIter := do
  let rows ← trades.mapM id
  return ofRows gaps book rows

/-- The lane named `l`. -/
def lane (it : EventIter) : LaneId → Lane
  | .gap => it.gapLane
  | .book => it.bookLane
  | .trade => it.tradeLane

/-- Replace the lane named `l`. -/
def setLane (it : EventIter) (l : LaneId) (lane : Lane) : EventIter :=
  match l with
  | .gap => { it with gapLane := lane }
  | .book => { it with bookLane := lane }
  | .trade => { it with tradeLane := lane }

/-- Pull one gap row when the gap lane is empty. -/
def fillGapLane (it : EventIter) : EventIter :=
  if it.gapLane.ready then it else
  match it.gaps with
  | [] => it
  | .error e :: rest => { it with gaps := rest, gapLane := { it.gapLane with err := some e } }
  | .ok row :: rest =>
    { it with
      gaps := rest, gapRow := it.gapRow + 1
      gapLane := { it.gapLane with head := some (gapKey row it.gapRow, gapEvent row) } }

/-- Take one trade when the trade lane is empty. -/
def fillTradeLane (it : EventIter) : EventIter :=
  if it.tradeLane.ready then it else
  match it.trades with
  | [] => it
  | (fileRow, row) :: rest =>
    { it with
      trades := rest
      tradeLane := { it.tradeLane with head := some (tradeKey row fileRow, tradeEvent row) } }

/-- Pull one book event when the book lane is empty: a delta row, or a whole grouped snapshot. -/
def fillBookLane (it : EventIter) : EventIter :=
  if it.bookLane.ready then it else
  match it.book with
  | [] => it
  | .error e :: rest => { it with book := rest, bookLane := { it.bookLane with err := some e } }
  | .ok first :: rest =>
    let key := bookKey first it.bookRow
    if !first.isSnapshot then
      let lane := match deltaEvent first it.bookRow with
        | .ok ev => { it.bookLane with head := some (key, ev) }
        | .error e => { it.bookLane with err := some e }
      { it with book := rest, bookRow := it.bookRow + 1, bookLane := lane }
    else
      match pushLevel ([], []) first it.bookRow with
      | .error e =>
        { it with book := rest, bookRow := it.bookRow + 1
                  bookLane := { it.bookLane with err := some e } }
      | .ok acc =>
        let group := assemble first.eventIdx acc (it.bookRow + 1) rest
        let lane := match group.result with
          | .ok (yes, no) =>
            { it.bookLane with
              head := some (key, .snapshot first.recvTsUs first.eventIdx yes no false) }
          | .error e => { it.bookLane with err := some e }
        { it with book := group.rest, bookRow := group.bookRow, bookLane := lane }

/-- Refill every empty lane. -/
def fill (it : EventIter) : EventIter := it.fillGapLane.fillBookLane.fillTradeLane

/-- The fixed lane order. -/
def lanes : List LaneId := [.gap, .book, .trade]

/-- The error of a key that fell below the last emitted one. -/
def orderViolation (key prev : MergeKey) : LoadError :=
  .orderViolation ("effective ts regressed: " ++ toString key.effectiveTs ++ " after " ++
    toString prev.effectiveTs ++ " (file order != time order)")

/-- The first lane error in lane order. -/
def laneError (it : EventIter) : Option (LaneId × LoadError) :=
  lanes.findSome? fun l => (it.lane l).err.map (l, ·)

/-- The lane head of least key. -/
def best (it : EventIter) : Option (LaneId × MergeKey × ReplayEvent) :=
  (lanes.filterMap fun l => (it.lane l).head.map (l, ·)).argmin fun x => x.2.1

/-- The key is below the last emitted one. -/
def regressed (lastKey : Option MergeKey) (key : MergeKey) : Option MergeKey :=
  lastKey.filter fun prev => key < prev

/-- One item handed to the consumer, with the lane it came from and, unless it is a lane error, the
key it was taken under. -/
structure Pulled where
  lane : LaneId
  key : Option MergeKey
  item : Except LoadError ReplayEvent

/-- The next item, and the iterator after it. -/
def pull (it : EventIter) : Option (Pulled × EventIter) :=
  let it := it.fill
  match it.laneError with
  | some (l, e) =>
    some (⟨l, none, .error e⟩, it.setLane l { it.lane l with err := none })
  | none =>
    match it.best with
    | none => none
    | some (l, key, ev) =>
      let it := it.setLane l { it.lane l with head := none }
      match regressed it.lastKey key with
      | some prev => some (⟨l, some key, .error (orderViolation key prev)⟩, it)
      | none => some (⟨l, some key, .ok ev⟩, { it with lastKey := some key })

/-- The next item. -/
def next (it : EventIter) : Option (Except LoadError ReplayEvent × EventIter) :=
  it.pull.map fun p => (p.1.item, p.2)

/-! ## Iterating to the end -/

/-- Rows and ready items still to be handed out: each pull uses at least one. -/
def size (it : EventIter) : ℕ :=
  it.gaps.length + it.book.length + it.trades.length +
    it.gapLane.size + it.bookLane.size + it.tradeLane.size

/-- The items of at most `n` pulls. -/
def pulls : ℕ → EventIter → List Pulled
  | 0, _ => []
  | n + 1, it =>
    match it.pull with
    | none => []
    | some (p, it) => p :: pulls n it

/-- Every item up to the end of the stream. -/
def stream (it : EventIter) : List Pulled := it.pulls it.size

/-- What a consumer that keeps calling `next` receives. -/
def items (it : EventIter) : List (Except LoadError ReplayEvent) := it.stream.map (·.item)

end EventIter

end Snapevent
