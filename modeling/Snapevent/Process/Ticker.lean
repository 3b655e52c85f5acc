import Mathlib.Data.Prod.Lex
import Snapevent.Process.Tables
import Snapevent.Process.Verify

/-!
# Processing one ticker

Reads the capture files of one ticker and builds its tables and manifest figures (`reader.rs`,
`process.rs`).  A stored line comes with what the JSON decoder makes of its text; the texts of the
manifest notes and the wall-clock fields are left out.
-/

namespace Snapevent

/-! ## Reading a capture file -/

/-- One stored line: a failed read, or a text and what the JSON decoder returns for it. -/
inductive Line
  | io (error : String)
  | text (raw : String) (parsed : Except String Envelope)

/-- A line that could not be decoded into a valid envelope. -/
structure ReadError where
  lineNo : ℕ
  error : String
  raw : String
  deriving DecidableEq, Repr

/-- The Unicode white-space characters. -/
def isWhiteSpace (c : Char) : Bool :=
  let n := c.toNat
  (9 ≤ n && n ≤ 13) || n == 32 || n == 0x85 || n == 0xA0 || n == 0x1680 ||
    (0x2000 ≤ n && n ≤ 0x200A) || n == 0x2028 || n == 0x2029 || n == 0x202F || n == 0x205F ||
    n == 0x3000

/-- The record of one line, or why there is none; a blank line yields nothing. -/
def readLine (lineNo : ℕ) : Line → Option (Except ReadError Envelope)
  | .io e => some (.error ⟨lineNo, "io error: " ++ e, ""⟩)
  | .text raw parsed =>
    if raw.toList.all isWhiteSpace then none
    else match parsed with
      | .error e => some (.error ⟨lineNo, "json parse: " ++ e, raw⟩)
      | .ok env =>
        match env.validate with
        | .ok () => some (.ok env)
        | .error e => some (.error ⟨lineNo, "schema: " ++ e, raw⟩)

/-- Decode each non-blank line. -/
def readEnvelopes (lines : List Line) : List (Except ReadError Envelope) :=
  (lines.zipIdx 1).filterMap fun l => readLine l.2 l.1

/-- A `.jsonl` file of one channel directory. -/
structure CaptureFile where
  path : String
  lines : List Line

/-- A source file as the manifest lists it. -/
structure SourceFile where
  channel : String
  path : String
  records : ℕ
  deriving DecidableEq, Repr

/-! ## The main loop -/

/-- A running extent. -/
abbrev Extent := Option ℤ × Option ℤ

/-- Fold `v` into a running extent. -/
def extend (e : Extent) (v : ℤ) : Extent :=
  (some (e.1.elim v (min · v)), some (e.2.elim v (max · v)))

/-- Everything the record loop carries. -/
structure TickerState where
  bookEvents : BookEventsTable
  bookTop : BookTopTable
  trades : TradesTable
  raw : RawTable
  gapRows : List (Envelope × GapMarker)
  book : Book
  engine : VerifyEngine
  eventIdx : ℤ
  readErrors : List ReadError
  recvExtent : Extent
  sourceFiles : List SourceFile
  twoSidedSnapshots : ℕ
  bookExtent : Extent
  tradeExtent : Extent
  snapTsUs : List ℤ

namespace TickerState

def init : TickerState :=
  { bookEvents := [], bookTop := [], trades := [], raw := [], gapRows := [], book := .default
    engine := .new, eventIdx := 0, readErrors := [], recvExtent := (none, none), sourceFiles := []
    twoSidedSnapshots := 0, bookExtent := (none, none), tradeExtent := (none, none)
    snapTsUs := [] }

/-- What follows the application of one orderbook record to the book: the verify engine, the
two-sided tally and the top-of-book row. -/
def afterBook (st : TickerState) (env : Envelope) (evt : Timestamp) (event : String)
    (isSnapshot : Bool) : TickerState :=
  let top := st.book.top
  { st with
    eventIdx := st.eventIdx + 1
    bookExtent := extend st.bookExtent env.recvUs
    engine := st.engine.onBookEvent env.recvUs st.book isSnapshot
    twoSidedSnapshots :=
      if top.yesBidMicro.isSome && top.yesAskMicro.isSome then st.twoSidedSnapshots + 1
      else st.twoSidedSnapshots
    bookTop := st.bookTop.push st.eventIdx env evt.timestampMicros event top }

/-- Process one decoded envelope read from a file of `channel`. -/
def onEnvelope (st : TickerState) (channel : Channel) (env : Envelope) :
    Except String TickerState :=
  let st := { st with recvExtent := extend st.recvExtent env.recvUs }
  match env.kind with
  | .snapshot s => do
    let bookEvents ← st.bookEvents.pushSnapshot st.eventIdx env s
    let st := { st with
      bookEvents, snapTsUs := st.snapTsUs ++ [env.recvUs], book := st.book.applySnapshot s }
    return st.afterBook env s.ts "snapshot" true
  | .delta d =>
    let st := { st with
      bookEvents := st.bookEvents.pushDelta st.eventIdx env d, book := st.book.applyDelta d }
    return st.afterBook env d.ts "delta" false
  | .trade t => do
    let trades ← st.trades.push env t
    return { st with trades, tradeExtent := extend st.tradeExtent t.ts.timestampMicros }
  | .gap g =>
    return { st with
      gapRows := st.gapRows ++ [(env, g)]
      engine := if channel = .orderbook then st.engine.onGap else st.engine }
  | .raw r => return { st with raw := st.raw.push env channel.str r }
  | .verify v => return { st with engine := st.engine.onVerify env.recvUs v.yes v.no st.book }

/-- Process one line of a file of `channel`. -/
def onItem (channel : Channel) (st : TickerState) :
    Except ReadError Envelope → Except String TickerState
  | .error e => return { st with readErrors := st.readErrors ++ [e] }
  | .ok env => st.onEnvelope channel env

/-- Process one file of `channel`. -/
def onFile (channel : Channel) (st : TickerState) (file : CaptureFile) :
    Except String TickerState := do
  let items := readEnvelopes file.lines
  let st ← items.foldlM (onItem channel) st
  return { st with
    sourceFiles := st.sourceFiles ++ [⟨channel.str, file.path, items.length⟩] }

/-- Process the orderbook files and then the trade files. -/
def onFiles (orderbookFiles tradeFiles : List CaptureFile) : Except String TickerState := do
  let st ← orderbookFiles.foldlM (onFile .orderbook) init
  tradeFiles.foldlM (onFile .trade) st

end TickerState

/-! ## Closing a ticker -/

/-- The gap marker synthesized for a verify mismatch. -/
def mismatchMarker (ticker : String) (row : VerifyOutcomeRow) : GapMarker :=
  { reason := .verifyMismatch, ticker := ⟨ticker⟩, channel := "orderbook", lastSeq := none
    observedSeq := none, detail := row.detail }

/-- The synthesized gap row of one verify row: only a mismatch has one, and only when its time can
be stamped. -/
def mismatchGapRow (ticker : String) (row : VerifyOutcomeRow) : Option (Envelope × GapMarker) :=
  if row.outcome = .mismatch then
    (Timestamp.fromTimestampMicros row.recvTsUs).map fun dt =>
      let marker := mismatchMarker ticker row
      (Envelope.new dt none none (.gap marker), marker)
  else none

/-- The gap rows in the order they are written: stream gaps and synthesized ones, stably sorted by
receive time. -/
def sortGapRows (rows : List (Envelope × GapMarker)) : List (Envelope × GapMarker) :=
  rows.insertionSort fun a b => a.1.recvUs ≤ b.1.recvUs

/-- The gaps table of sorted gap rows. -/
def gapsTable (rows : List (Envelope × GapMarker)) : GapsTable :=
  rows.foldl (fun t r => t.push r.1 r.2) []

/-- The hole window a gap at `start` opens inside the book extent `[ss, se]`. -/
def holeWindow (snaps : List ℤ) (ss se start : ℤ) : Option (ℤ × ℤ) :=
  let close := match snaps[(snaps.takeWhile (· < start)).length]? with
    | some t => some t
    | none => if start ≤ se then some se else none
  close.bind fun e => if max start ss < min e se then some (max start ss, min e se) else none

/-- The total length of sorted windows, overlaps merged. -/
def unionLength (cur : Option (ℤ × ℤ)) (total : ℤ) : List (ℤ × ℤ) → ℤ
  | [] => match cur with
    | some (cs, ce) => total + (ce - cs)
    | none => total
  | (s, e) :: windows =>
    match cur with
    | some (cs, ce) =>
      if s ≤ ce then unionLength (some (cs, max ce e)) total windows
      else unionLength (some (s, e)) (total + (ce - cs)) windows
    | none => unionLength (some (s, e)) total windows

/-- Observed span and hole time of one ticker, in microseconds. -/
def coverage (gapRows : List (Envelope × GapMarker)) (snapTsUs : List ℤ) (book trade : Extent) :
    Option ℤ × Option ℤ :=
  let snaps := (snapTsUs.insertionSort (· ≤ ·)).dedup
  let span := if book.1.isSome then book else trade
  let spanUs := match span.1, span.2 with
    | some a, some b => some (b - a)
    | _, _ => none
  match book.1, book.2 with
  | some ss, some se =>
    let windows := (gapRows.filterMap fun r => holeWindow snaps ss se r.1.recvUs).insertionSort
      fun a b => toLex a ≤ toLex b
    (spanUs, some (unionLength none 0 windows))
  | _, _ => (spanUs, none)

/-- Per-table output row counts. -/
structure Counts where
  bookEvents : ℕ
  bookTop : ℕ
  trades : ℕ
  gaps : ℕ
  raw : ℕ
  verify : ℕ
  deriving DecidableEq, Repr

/-- What processing produced for one market, for the summary. -/
structure TickerOutcome where
  ticker : String
  counts : Counts
  readErrors : ℕ
  complete : Bool
  deriving DecidableEq, Repr

/-- The output of one ticker: its tables, the preserved read errors and the manifest figures. -/
structure TickerOutput where
  bookEvents : BookEventsTable
  bookTop : BookTopTable
  trades : TradesTable
  gaps : GapsTable
  raw : RawTable
  verify : List VerifyOutcomeRow
  readErrors : List ReadError
  sourceFiles : List SourceFile
  recvExtent : Extent
  twoSidedSnapshots : ℕ
  verifyChecks : ℕ
  verifyMismatches : ℕ
  verifySkipped : ℕ
  underflows : ℕ
  spanUs : Option ℤ
  holeUs : Option ℤ
  outcome : TickerOutcome

/-- Close the loop state: resolve the verify checks, write the gaps and count the rows. -/
def TickerState.finish (st : TickerState) (ticker : String) : TickerOutput :=
  let verifyRows := st.engine.finish
  let gapRows := sortGapRows (st.gapRows ++ verifyRows.filterMap (mismatchGapRow ticker))
  let gaps := gapsTable gapRows
  let cov := coverage gapRows st.snapTsUs st.bookExtent st.tradeExtent
  let counts : Counts :=
    { bookEvents := st.bookEvents.length, bookTop := st.bookTop.length
      trades := st.trades.length, gaps := gaps.length, raw := st.raw.length
      verify := verifyRows.length }
  { bookEvents := st.bookEvents, bookTop := st.bookTop, trades := st.trades, gaps
    raw := st.raw, verify := verifyRows, readErrors := st.readErrors
    sourceFiles := st.sourceFiles, recvExtent := st.recvExtent
    twoSidedSnapshots := st.twoSidedSnapshots, verifyChecks := verifyRows.length
    verifyMismatches := (verifyRows.filter (·.outcome = .mismatch)).length
    verifySkipped :=
      (verifyRows.filter fun r => r.outcome = .skippedGap || r.outcome = .truncated).length
    underflows := st.book.underflows, spanUs := cov.1, holeUs := cov.2
    outcome :=
      { ticker, counts, readErrors := st.readErrors.length
        complete := st.readErrors.isEmpty && counts.raw == 0 } }

/-- Process one ticker end to end; a directory without capture files yields nothing. -/
def processTicker (ticker : String) (orderbookFiles tradeFiles : List CaptureFile) :
    Except String (Option TickerOutput) :=
  if orderbookFiles.isEmpty && tradeFiles.isEmpty then .ok none
  else do
    let st ← TickerState.onFiles orderbookFiles tradeFiles
    return some (st.finish ticker)

end Snapevent
