import Mathlib.Data.List.Induction
import Snapevent.Kalshi.Session
import Snapevent.Store.StreamSet

/-!
# The capture writer

Where the writer task persists each record (`capture.rs`): the classification of session events with
its tally, and the conversion of REST book observations (`rest.rs`).
-/

namespace Snapevent

/-- Channel of raw records whose channel could not be determined. -/
def RAW_CHANNEL : String := "_raw"

/-- Ticker of raw records whose market could not be determined. -/
def UNROUTED_TICKER : String := "_unrouted"

/-- Quarantine ticker for a ticker that is not a safe path segment. -/
def UNSAFE_TICKER : String := "_unsafe"

/-- The ticker if it is a safe path segment, else the quarantine ticker. -/
def safeTicker (ticker : String) : String :=
  if isSafeSegment ticker then ticker else UNSAFE_TICKER

/-- Running tally of a capture. -/
structure CaptureReport where
  perStream : String × String → ℕ
  raw : ℕ
  gaps : ℕ
  verify : ℕ
  control : ℕ
  serverErrors : ℕ

namespace CaptureReport

/-- The tally before any record. -/
def default : CaptureReport :=
  { perStream := fun _ => 0, raw := 0, gaps := 0, verify := 0, control := 0, serverErrors := 0 }

def countWrite (r : CaptureReport) (ticker channel : String) : CaptureReport :=
  { r with perStream :=
      Function.update r.perStream (ticker, channel) (r.perStream (ticker, channel) + 1) }

end CaptureReport

/-- What to persist for one event. -/
structure WriteAction where
  ticker : String
  channel : String
  envelope : Envelope
  isRaw : Bool

/-- The record is a gap marker. -/
def RecordKind.isGap : RecordKind → Bool
  | .gap _ => true
  | _ => false

/-- Classify a session event: the tally and the write to perform, if any. -/
def classify (event : CaptureEvent) (report : CaptureReport) :
    CaptureReport × Option WriteAction :=
  let frame := event.frame
  match frame.outcome with
  | .data channel ticker record =>
    let report := if record.isGap then { report with gaps := report.gaps + 1 } else report
    let ticker := safeTicker ticker.str
    (report.countWrite ticker channel.str,
      some ⟨ticker, channel.str, .new event.recvTs frame.seq frame.sid record, false⟩)
  | .raw channel ticker fallback =>
    let report := { report with raw := report.raw + 1 }
    let channel := (channel.map Channel.str).getD RAW_CHANNEL
    let ticker := safeTicker ((ticker.map Ticker.str).getD UNROUTED_TICKER)
    (report.countWrite ticker channel,
      some ⟨ticker, channel, .new event.recvTs frame.seq frame.sid (.raw fallback), true⟩)
  | .control _ => ({ report with control := report.control + 1 }, none)
  | .serverError _ => ({ report with serverErrors := report.serverErrors + 1 }, none)

/-- One book of a REST response. -/
inductive RestOrderbookOutcome
  | book (ticker : String) (yes no : List PriceLevel)
  | undecodable (ticker : Option String) (error : String) (payload : Value)

/-- The stream ticker and the envelope of a REST observation. -/
def verifyEnvelope (outcome : RestOrderbookOutcome) (now : Timestamp) : String × Envelope :=
  match outcome with
  | .book ticker yes no =>
    let ticker := safeTicker ticker
    (ticker, .new now none none (.verify { ticker := ⟨ticker⟩, ts := now, yes, no }))
  | .undecodable ticker error payload =>
    (safeTicker (ticker.getD UNROUTED_TICKER),
      .new now none none (.raw { rawType := some "rest_orderbook", ticker := ticker.map Ticker.mk
                                 error, payload }))

/-! ## The writer task -/

/-- What the writer task takes from its two queues. -/
inductive Incoming
  | event (ev : CaptureEvent)
  | verify (outcome : RestOrderbookOutcome) (now : Timestamp)

/-- The writer's tally and the files it has written. -/
structure Writer where
  report : CaptureReport
  tree : Tree

/-- Persist one incoming record in the file of `day`; `line` is how its envelope is stored. -/
def Writer.take (w : Writer) (incoming : Incoming) (day : String) (line : Line) :
    Except StoreError Writer :=
  match incoming with
  | .event ev =>
    match classify ev w.report with
    | (report, none) => .ok { w with report }
    | (report, some action) => do
      return { report, tree := ← w.tree.append action.ticker action.channel day line }
  | .verify outcome now => do
    let ticker := (verifyEnvelope outcome now).1
    let report := { w.report with verify := w.report.verify + 1 }
    return { report := report.countWrite ticker Channel.orderbook.str
             tree := ← w.tree.append ticker Channel.orderbook.str day line }

/-- The stream and the envelope an incoming record is persisted as, if it is. -/
def Incoming.target : Incoming → Option (String × String × Envelope)
  | .event ev => (classify ev .default).2.map fun a => (a.ticker, a.channel, a.envelope)
  | .verify outcome now =>
    let (ticker, env) := verifyEnvelope outcome now
    some (ticker, Channel.orderbook.str, env)

/-- The event that is taken from the WebSocket queue. -/
def Incoming.event? : Incoming → Option CaptureEvent
  | .event ev => some ev
  | .verify .. => none

/-- A stored line of `env`: what was written, or something unreadable in its place. -/
inductive Line.Stores (env : Envelope) : Line → Prop
  | written {raw : String} : raw.toList.all isWhiteSpace = false → Stores env (.text raw (.ok env))
  | damaged {raw error : String} : raw.toList.all isWhiteSpace = false →
      Stores env (.text raw (.error error))
  | failed {error : String} : Stores env (.io error)

/-- An incoming record with the day it is filed under and the line it is stored as. -/
structure Persisted where
  incoming : Incoming
  day : String
  line : Line
  stored : ∀ t ∈ incoming.target, line.Stores t.2.2

/-- The writer's loop over everything its queues hand it. -/
def writerTask (records : List Persisted) : Except StoreError Writer :=
  records.foldlM (fun w p => w.take p.incoming p.day p.line) { report := .default, tree := [] }

/-! ### The files that are written -/

theorem isSafeSegment_safeTicker (ticker : String) : isSafeSegment (safeTicker ticker) = true := by
  rw [safeTicker]
  split_ifs with h
  · exact h
  · decide

/-- The files after a record was persisted. -/
def Persisted.store (tree : Tree) (p : Persisted) : Tree :=
  match p.incoming.target with
  | some (ticker, channel, _) => tree.appendLine ticker channel (p.day ++ ".jsonl") p.line
  | none => tree

theorem Tree.append_ok {tree : Tree} {ticker channel : String} (ht : isSafeSegment ticker = true)
    (hc : isSafeSegment channel = true) (day : String) (line : Line) :
    tree.append ticker channel day line =
      .ok (tree.appendLine ticker channel (day ++ ".jsonl") line) := by
  rw [Tree.append, ht, hc]
  rfl

theorem Channel.isSafeSegment_str (c : Channel) : isSafeSegment c.str = true := by
  rcases c with _ | _ <;> decide

/-- Every stream the writer names is a safe path, so no record is refused. -/
theorem Writer.take_ok (w : Writer) (p : Persisted) :
    ∃ report, w.take p.incoming p.day p.line = .ok ⟨report, p.store w.tree⟩ := by
  rw [Persisted.store]
  rcases p.incoming with
    ⟨recvTs, sid, seq, ⟨channel, ticker, record⟩ | m | d | ⟨channel, ticker, r⟩⟩ | ⟨outcome, now⟩
  · rw [take, classify, Incoming.target, classify]
    dsimp only [Option.map_some]
    rw [Tree.append_ok (isSafeSegment_safeTicker _) (Channel.isSafeSegment_str _)]
    exact ⟨_, rfl⟩
  · exact ⟨_, rfl⟩
  · exact ⟨_, rfl⟩
  · have hc : isSafeSegment ((channel.map Channel.str).getD RAW_CHANNEL) = true := by
      cases channel with
      | none => decide
      | some c => exact Channel.isSafeSegment_str c
    rw [take, classify, Incoming.target, classify]
    dsimp only [Option.map_some]
    rw [Tree.append_ok (isSafeSegment_safeTicker _) hc]
    exact ⟨_, rfl⟩
  · have ht : isSafeSegment (verifyEnvelope outcome now).1 = true := by
      rcases outcome with ⟨ticker, yes, no⟩ | ⟨ticker, error, payload⟩ <;>
        exact isSafeSegment_safeTicker _
    rw [take, Incoming.target, Tree.append_ok ht (by decide)]
    exact ⟨_, rfl⟩

theorem Writer.foldlM_take_ok (records : List Persisted) (w : Writer) :
    ∃ report, records.foldlM (fun w p => w.take p.incoming p.day p.line) w =
      Except.ok (ε := StoreError) ⟨report, records.foldl Persisted.store w.tree⟩ := by
  induction records generalizing w with
  | nil => exact ⟨w.report, rfl⟩
  | cons p records ih =>
    obtain ⟨report, htake⟩ := w.take_ok p
    rw [List.foldlM_cons, htake]
    exact ih _

theorem writerTask_ok (records : List Persisted) :
    ∃ report, writerTask records = .ok ⟨report, records.foldl Persisted.store []⟩ :=
  Writer.foldlM_take_ok records _

/-- The record is filed in the file with this key. -/
def Persisted.filedIn (key : String × String × String) (p : Persisted) : Bool :=
  p.incoming.target.any fun t => (t.1, t.2.1, p.day ++ ".jsonl") = key

theorem nodup_store (records : List Persisted) :
    ((records.foldl Persisted.store []).map Tree.key).Nodup := by
  induction records using List.reverseRecOn with
  | nil => exact List.nodup_nil
  | append_singleton records p ih =>
    rw [List.foldl_append, List.foldl_cons, List.foldl_nil, Persisted.store]
    cases p.incoming.target with
    | none => exact ih
    | some t => exact Tree.nodup_appendLine ih

theorem linesOf_store (records : List Persisted) (k : String × String × String) :
    (records.foldl Persisted.store []).linesOf k =
      (records.filter (·.filedIn k)).map (·.line) := by
  induction records using List.reverseRecOn with
  | nil => rfl
  | append_singleton records p ih =>
    rw [List.foldl_append, List.foldl_cons, List.foldl_nil, Persisted.store, List.filter_append,
      List.map_append, ← ih, List.filter_singleton]
    cases ht : p.incoming.target with
    | none => simp [Persisted.filedIn, ht]
    | some t =>
      dsimp only
      rw [Tree.linesOf_appendLine]
      simp only [Persisted.filedIn, ht, Option.any_some]
      split_ifs with hk <;> simp [hk]

/-- A written file holds the lines of the records filed in it, in the order they were taken. -/
theorem lines_of_writerTask {records : List Persisted} {w : Writer}
    (hw : writerTask records = .ok w) {f : StreamFile} (hf : f ∈ w.tree) :
    f.lines = (records.filter (·.filedIn (Tree.key f))).map (·.line) := by
  obtain ⟨report, hok⟩ := writerTask_ok records
  rw [hok] at hw
  cases hw
  rw [← linesOf_store, Tree.linesOf_of_mem (nodup_store records) hf]

end Snapevent
