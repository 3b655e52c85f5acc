import Snapevent.Core.Book
import Snapevent.Load.Merge

/-!
# Replay and range replay

Book state and pending gaps over a replayed stream, the synthetic opener, and the range iterator
that pre-rolls to `t0` and streams `[t0, t1)` (`replay.rs`, `lib.rs`).
-/

namespace Snapevent

/-! ## The replayer -/

/-- Replayed book state and the gaps since the last snapshot. -/
structure BookReplayer where
  book : Book
  pendingGaps : List ReplayEvent

/-- The book levels of snapshot event levels. -/
def toLevels (ls : List Level) : List PriceLevel := ls.map fun l => ⟨l.price, l.qty⟩

/-- The strictly positive levels of one side of a book, as event levels. -/
def positiveLevels (m : Levels) : List Level :=
  (m.toList.filter fun l => 0 < l.2).map fun l => ⟨⟨l.1⟩, ⟨l.2.toUInt64⟩⟩

namespace BookReplayer

def default : BookReplayer := { book := .default, pendingGaps := [] }

/-- Feed one event.  Trades do not touch the book. -/
def apply (r : BookReplayer) (ev : ReplayEvent) : BookReplayer :=
  match ev with
  | .snapshot _ _ yes no _ =>
    { book := r.book.applySnapshotLevels (toLevels yes) (toLevels no), pendingGaps := [] }
  | .delta _ _ side price delta =>
    { r with book := r.book.applyChange side price.micro delta.centi }
  | .gap .. => { r with pendingGaps := r.pendingGaps ++ [ev] }
  | .trade .. => r

/-- Feed events in order. -/
def run (r : BookReplayer) (evs : List ReplayEvent) : BookReplayer := evs.foldl apply r

/-- The book's levels as a synthetic snapshot at `t0`. -/
def syntheticSnapshot (r : BookReplayer) (t0 : ℤ) : ReplayEvent :=
  .snapshot t0 (-1) (positiveLevels r.book.yes) (positiveLevels r.book.no) true

@[simp] theorem run_nil (r : BookReplayer) : r.run [] = r := rfl

@[simp] theorem run_cons (r : BookReplayer) (ev : ReplayEvent) (evs : List ReplayEvent) :
    r.run (ev :: evs) = (r.apply ev).run evs := rfl

theorem run_append (r : BookReplayer) (evs evs' : List ReplayEvent) :
    r.run (evs ++ evs') = (r.run evs).run evs' :=
  List.foldl_append

end BookReplayer

/-! ## Range replay -/

/-- Leading gaps and opener, then the held event and the rest of the stream, up to `t1`. -/
structure RangeIter where
  lead : List ReplayEvent
  held : Option ReplayEvent
  rest : EventIter
  t1 : ℤ

/-- What the pre-roll leaves: the replayer, the first event at or after `t0`, the iterator. -/
abbrev PreRolled := BookReplayer × Option ReplayEvent × EventIter

/-- Replay at most `n` events before `t0`; an error fails the pre-roll. -/
def preRoll (t0 : ℤ) : ℕ → BookReplayer → EventIter → Except LoadError PreRolled
  | 0, r, it => .ok (r, none, it)
  | n + 1, r, it =>
    match it.next with
    | none => .ok (r, none, it)
    | some (.error e, _) => .error e
    | some (.ok ev, it) =>
      if t0 ≤ ev.ts then .ok (r, some ev, it) else preRoll t0 n (r.apply ev) it

namespace RangeIter

/-- Pre-roll `events` to `t0` and build the opener. -/
def build (events : EventIter) (t0 t1 : ℤ) : Except LoadError RangeIter := do
  let (replayer, held, rest) ← preRoll t0 (events.size + 1) .default events
  return { lead := replayer.pendingGaps ++ [replayer.syntheticSnapshot t0], held, rest, t1 }

/-- The next item. -/
def next (it : RangeIter) : Option (Except LoadError ReplayEvent × RangeIter) :=
  match it.lead with
  | ev :: lead => some (.ok ev, { it with lead })
  | [] =>
    let next : Option (Except LoadError ReplayEvent × RangeIter) := match it.held with
      | some ev => some (.ok ev, { it with held := none })
      | none => it.rest.next.map fun p => (p.1, { it with rest := p.2 })
    match next with
    | none => none
    | some (.error e, it) => some (.error e, it)
    | some (.ok ev, it) => if ev.ts < it.t1 then some (.ok ev, it) else none

/-- The items of at most `n` calls of `next`, up to the end. -/
def take : ℕ → RangeIter → List (Except LoadError ReplayEvent)
  | 0, _ => []
  | n + 1, it =>
    match it.next with
    | none => []
    | some (item, it) => item :: take n it

/-- Every item up to the end. -/
def items (it : RangeIter) : List (Except LoadError ReplayEvent) :=
  it.take (it.lead.length + it.held.toList.length + it.rest.size)

end RangeIter

/-! ## The loader -/

/-- An opened ticker directory: its three row sources, why it is incomplete if it is, and whether
the caller acknowledged that. -/
structure Loader where
  gaps : RowSource GapRow
  book : RowSource BookEventRow
  trades : RowSource TradeRow
  incomplete : Option (List String)
  acknowledged : Bool

namespace Loader

/-- Accept an incomplete directory. -/
def allowIncomplete (l : Loader) : Loader := { l with acknowledged := true }

/-- An incomplete directory that was not acknowledged is refused. -/
def gate (l : Loader) : Except LoadError Unit :=
  match l.incomplete, l.acknowledged with
  | some reasons, false => .error (.incomplete reasons)
  | _, _ => .ok ()

/-- The full merged stream. -/
def events (l : Loader) : Except LoadError EventIter := do
  l.gate
  EventIter.fromSources l.gaps l.book l.trades

/-- Range replay over `[t0, t1)`. -/
def between (l : Loader) (t0 t1 : ℤ) : Except LoadError RangeIter := do
  if t1 ≤ t0 then throw (.invalidRange t0 t1)
  l.gate
  let it ← EventIter.fromSources l.gaps l.book l.trades
  RangeIter.build it t0 t1

end Loader

end Snapevent
