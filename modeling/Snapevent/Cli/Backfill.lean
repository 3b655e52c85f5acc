import Mathlib.Logic.Function.Basic
import Snapevent.Cli.Checkpoint
import Snapevent.Kalshi.Protocol
import Snapevent.Store.StreamSet
import Snapevent.Store.TornDirectory

/-!
# The trade backfill

The REST backfill of trades (`backfill.rs`, `rest.rs`): the conversion of a fetched trade into
an envelope, and the run over a list of tickers that pages through each trade tape, appends what it
has not seen to the day files of the ticker, and records the ticker in the checkpoint.  The machine
goes on byte by byte where it can be stopped: a process may die at any point, and a line that it was
writing is then in its file up to any byte.
-/

namespace Snapevent

/-! ## Fetched trades -/

/-- A trade as it is fetched. -/
structure RestTrade where
  tradeId : String
  ticker : String
  countFp : String
  yesPriceDollars : String
  noPriceDollars : String
  takerOutcomeSide : String
  takerBookSide : Option String
  createdTime : String
  deriving DecidableEq, Repr

/-- A page of a trade tape and the cursor of the next one. -/
structure TradesPage where
  trades : List RestTrade
  cursor : Option String
  deriving DecidableEq, Repr

/-- The cursor of a page that is not the last one. -/
def TradesPage.further (page : TradesPage) : Option String := page.cursor.filter (!·.isEmpty)

namespace RestTrade

def takerSide (rt : RestTrade) : Except String Side :=
  if rt.takerOutcomeSide = "yes" then .ok .yes
  else if rt.takerOutcomeSide = "no" then .ok .no
  else .error ("invalid taker_outcome_side " ++ debugText rt.takerOutcomeSide)

def bookSide (rt : RestTrade) : Except String (Option BookSide) :=
  match rt.takerBookSide with
  | none => .ok none
  | some s =>
    if s = "bid" then .ok (some .bid)
    else if s = "ask" then .ok (some .ask)
    else .error ("invalid taker_book_side " ++ debugText s)

def executedAt (serde : Serde) (rt : RestTrade) : Except String Timestamp :=
  okOr ("created_time " ++ debugText rt.createdTime ++ ": " ++ serde.timeError rt.createdTime)
    (serde.readTime rt.createdTime)

/-- Convert to a stored trade; any malformed field is an error. -/
def toCore (serde : Serde) (rt : RestTrade) : Except String Trade := do
  let price ← fieldError "yes_price_dollars" rt.yesPriceDollars
    (MicroDollars.parse rt.yesPriceDollars)
  let count ← fieldError "count_fp" rt.countFp (RestingQty.parse rt.countFp)
  let takerSide ← rt.takerSide
  let takerBookSide ← rt.bookSide
  let ts ← rt.executedAt serde
  return { ticker := ⟨rt.ticker⟩, ts, price, count, takerSide, takerBookSide
           tradeId := some rt.tradeId }

/-- The trade as a value. -/
def toValue (rt : RestTrade) : Value :=
  .object [("count_fp", .string rt.countFp), ("created_time", .string rt.createdTime),
    ("no_price_dollars", .string rt.noPriceDollars),
    ("taker_book_side", match rt.takerBookSide with | some s => .string s | none => .null),
    ("taker_outcome_side", .string rt.takerOutcomeSide), ("ticker", .string rt.ticker),
    ("trade_id", .string rt.tradeId), ("yes_price_dollars", .string rt.yesPriceDollars)]

end RestTrade

/-- The envelope of a fetched trade: a trade, or a fallback that keeps a malformed one as it is. -/
def tradeToEnvelope (serde : Serde) (rt : RestTrade) (recvTs : Timestamp) : Envelope :=
  match rt.toCore serde with
  | .ok trade => .new recvTs none none (.trade trade)
  | .error error => .new recvTs none none
      (.raw { rawType := some "trade", ticker := some ⟨rt.ticker⟩, error, payload := rt.toValue })

/-! ## The run -/

/-- What the loop over the pages of one ticker carries. -/
structure Pass where
  seen : List String
  cursor : Option String
  pages : ℕ
  writer : JsonlWriter

def Pass.new : Pass := ⟨[], none, 0, .new⟩

/-- Where a run is: between two tickers, before a request, in a page with trades left, or at the
checkpoint line of a ticker. -/
inductive BackfillPhase
  | idle
  | fetching (ticker : String) (pass : Pass)
  | writing (ticker : String) (pass : Pass) (trades : List RestTrade) (cursor : Option String)
  | recording (ticker : String)

/-- A running process. -/
structure BackfillRun where
  done : List String
  maxTradePages : ℕ
  perTicker : String → UInt64
  todo : List String
  phase : BackfillPhase

/-- What a run has done for the ticker it is at: the pages it got and the trades it appended. -/
structure Visit where
  pages : List TradesPage
  written : List RestTrade

/-- The files of the output directory, the running process, and, as history, what the run has done
for its ticker and the tickers whose whole line has been written. -/
structure Backfill where
  checkpoint : List UInt8
  trades : String → Directory
  run : Option BackfillRun
  visit : Visit
  recorded : List (String × Visit)

namespace Backfill

/-- An empty output directory. -/
def empty : Backfill := ⟨[], fun _ => [], none, ⟨[], []⟩, []⟩

/-- What happens in a step; `tear` and `tearRecord` write the first `n` bytes of a line and die. -/
inductive Action
  | start (tickers : List String) (resume : Bool) (maxTradePages : ℕ)
  | skip
  | begin
  | stopAtCap
  | receive (page : TradesPage)
  | duplicate
  | append (today : Date) (recvTs : Timestamp)
  | tear (today : Date) (recvTs : Timestamp) (n : ℕ)
  | nextPage
  | endOfTape
  | record
  | tearRecord (n : ℕ)
  | die
  | finish

/-- The line of the ticker at hand. -/
def recordLine (r : BackfillRun) (ticker : String) : List UInt8 :=
  checkpointLine ticker (r.perTicker ticker)

/-- The tickers that a new run passes over. -/
def doneBefore (lib : JsonLib) (s : Backfill) (resume : Bool) : List String :=
  if resume then loadCheckpoint lib s.checkpoint else []

/-- One step. -/
inductive Step (serde : Serde) (s : Backfill) : Action → Backfill → Prop
  | start (tickers : List String) (resume : Bool) (maxTradePages : ℕ) (hrun : s.run = none) :
    Step serde s (.start tickers resume maxTradePages)
      { s with run := some ⟨s.doneBefore serde.toJsonLib resume, maxTradePages, fun _ => 0, tickers,
        .idle⟩ }
  | skip {r ticker rest} (hrun : s.run = some r) (hphase : r.phase = .idle)
      (htodo : r.todo = ticker :: rest) (hdone : ticker ∈ r.done) :
    Step serde s .skip { s with run := some { r with todo := rest } }
  | begin {r ticker rest} (hrun : s.run = some r) (hphase : r.phase = .idle)
      (htodo : r.todo = ticker :: rest) (hdone : ticker ∉ r.done) :
    Step serde s .begin { s with
      run := some { r with todo := rest, phase := .fetching ticker .new }, visit := ⟨[], []⟩ }
  | stopAtCap {r ticker pass} (hrun : s.run = some r) (hphase : r.phase = .fetching ticker pass)
      (hcap : r.maxTradePages ≤ pass.pages) :
    Step serde s .stopAtCap { s with run := some { r with phase := .recording ticker } }
  | receive {r ticker pass} (page : TradesPage) (hrun : s.run = some r)
      (hphase : r.phase = .fetching ticker pass) (hcap : pass.pages < r.maxTradePages) :
    Step serde s (.receive page) { s with
      run := some { r with
        phase := .writing ticker { pass with pages := pass.pages + 1 } page.trades page.cursor }
      visit := { s.visit with pages := s.visit.pages ++ [page] } }
  | duplicate {r ticker pass rt rest cursor} (hrun : s.run = some r)
      (hphase : r.phase = .writing ticker pass (rt :: rest) cursor) (hseen : rt.tradeId ∈ pass.seen) :
    Step serde s .duplicate { s with
      run := some { r with phase := .writing ticker pass rest cursor } }
  | append {r ticker pass rt rest cursor} (today : Date) (recvTs : Timestamp) (hrun : s.run = some r)
      (hphase : r.phase = .writing ticker pass (rt :: rest) cursor) (hseen : rt.tradeId ∉ pass.seen)
      (hsafe : isSafeSegment ticker = true) {writer dir}
      (happend : pass.writer.append today (serde.lineBytes (tradeToEnvelope serde rt recvTs))
        (s.trades ticker) = (writer, dir)) :
    Step serde s (.append today recvTs) { s with
      trades := Function.update s.trades ticker dir
      run := some { r with
        perTicker := Function.update r.perTicker ticker (r.perTicker ticker + 1)
        phase := .writing ticker { pass with seen := rt.tradeId :: pass.seen, writer } rest cursor }
      visit := { s.visit with written := s.visit.written ++ [rt] } }
  | tear {r ticker pass rt rest cursor} (today : Date) (recvTs : Timestamp) (n : ℕ)
      (hrun : s.run = some r) (hphase : r.phase = .writing ticker pass (rt :: rest) cursor)
      (hseen : rt.tradeId ∉ pass.seen) (hsafe : isSafeSegment ticker = true) {writer dir}
      (htear : pass.writer.writeBytes today
        ((serde.lineBytes (tradeToEnvelope serde rt recvTs) ++ [10]).take n) (s.trades ticker) =
          (writer, dir)) :
    Step serde s (.tear today recvTs n) { s with
      trades := Function.update s.trades ticker dir
      run := none }
  | nextPage {r ticker pass cursor c} (hrun : s.run = some r)
      (hphase : r.phase = .writing ticker pass [] cursor)
      (hcursor : cursor.filter (!·.isEmpty) = some c) :
    Step serde s .nextPage { s with
      run := some { r with phase := .fetching ticker { pass with cursor := some c } } }
  | endOfTape {r ticker pass cursor} (hrun : s.run = some r)
      (hphase : r.phase = .writing ticker pass [] cursor)
      (hcursor : cursor.filter (!·.isEmpty) = none) :
    Step serde s .endOfTape { s with run := some { r with phase := .recording ticker } }
  | record {r ticker} (hrun : s.run = some r) (hphase : r.phase = .recording ticker) :
    Step serde s .record { s with
      checkpoint := s.checkpoint ++ (recordLine r ticker ++ [10])
      run := some { r with phase := .idle }
      recorded := s.recorded ++ [(ticker, s.visit)] }
  | tearRecord {r ticker} (n : ℕ) (hrun : s.run = some r) (hphase : r.phase = .recording ticker) :
    Step serde s (.tearRecord n) { s with
      checkpoint := s.checkpoint ++ (recordLine r ticker ++ [10]).take n
      run := none
      recorded := if (recordLine r ticker).length ≤ n then s.recorded ++ [(ticker, s.visit)]
        else s.recorded }
  | die {r} (hrun : s.run = some r) : Step serde s .die { s with run := none }
  | finish {r} (hrun : s.run = some r) (hphase : r.phase = .idle) (htodo : r.todo = []) :
    Step serde s .finish { s with run := none }

/-- What is reached from an empty directory by steps of which each is allowed where it is made. -/
inductive Reachable (serde : Serde) (allowed : Backfill → Action → Prop) : Backfill → Prop
  | empty : Reachable serde allowed .empty
  | step {s s' a} (h : Reachable serde allowed s) (ha : allowed s a) (hs : Step serde s a s') :
    Reachable serde allowed s'

end Backfill

end Snapevent
