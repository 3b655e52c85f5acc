import Mathlib.Data.Prod.Lex
import Mathlib.Data.Rat.Defs
import Snapevent.Cli.Universe
import Snapevent.Lib.Machine
import Snapevent.Lib.MaxBy
import Snapevent.Lib.SortedMap

/-!
# The hourly supervisor

The loop that arms one capture for each hour (`hourly.rs`).  At a boundary it looks for the hour
that opens there, waits until its ladder is listed, selects the strikes, spawns the capture and
sleeps past the boundary.  Times are nanoseconds; the clock may be set while the loop runs, so each
answer and each sleep comes with what the clock says after it.  The selection of the strikes stays a
parameter, of the ladder and the price anchor, which is what an adjacent hour says and may be
missing.
-/

namespace Snapevent

/-! ## The hour that opens -/

section Opening

variable (parseRfc3339 : String → Option Timestamp)

/-- The market lives for about an hour. -/
def isHourly (m : Market) : Bool :=
  match m.openTime.bind parseRfc3339, m.closeTime.bind parseRfc3339 with
  | some o, some c =>
    let mins := (c.nanos - o.nanos).tdiv MINUTE
    50 ≤ mins && mins ≤ 70
  | _, _ => false

/-- The market is an hourly one that opens at the boundary. -/
def opensAt (boundary : ℤ) (m : Market) : Bool :=
  isHourly parseRfc3339 m && (m.openTime.bind parseRfc3339).any (·.nanos = boundary)

/-- File a market under its event, if it opens at the boundary. -/
def addOpening (boundary : ℤ) (byEvent : List (String × List Market)) (m : Market) :
    List (String × List Market) :=
  if opensAt parseRfc3339 boundary m then
    match m.eventTicker with
    | some ev => SortedMap.upsert ev (fun ms => ms.getD [] ++ [m]) byEvent
    | none => byEvent
  else byEvent

/-- The markets that open at the boundary, by event. -/
def openingByEvent (boundary : ℤ) (markets : List Market) : List (String × List Market) :=
  markets.foldl (addOpening parseRfc3339 boundary) []

/-- The size of a ladder, then its event. -/
def ladderKey (e : String × List Market) : ℕ ×ₗ String := toLex (e.2.length, e.1)

/-- The hour that opens at the boundary: the largest ladder, of equal ones that of the greatest
event. -/
def marketOpeningAt (boundary : ℤ) (markets : List Market) : Option (String × List Market) :=
  MaxBy.maxBy ladderKey (openingByEvent parseRfc3339 boundary markets)

end Opening

/-! ## The loop -/

def HOUR : ℤ := 3600 * 10 ^ 9

def SECOND : ℤ := 10 ^ 9

/-- The first full hour after an instant. -/
def nextBoundary (now : ℤ) : ℤ :=
  let floor := now / HOUR * HOUR
  if now < floor then floor else floor + HOUR

/-- The settings, in nanoseconds. -/
structure HourCfg where
  preArm : ℤ
  listingGrace : ℤ
  openSettle : ℤ
  pollSecs : ℤ
  deriving DecidableEq, Repr

/-- An hour whose capture was spawned, with the ladder its strikes were selected from. -/
structure ArmedHour where
  boundary : ℤ
  event : String
  ladder : List Market
  tickers : List String
  deriving DecidableEq, Repr

/-- Where the loop is.  In `settling` and `resting` stand the ladder so far and how many markets the
poll before had. -/
inductive HourlyPhase
  | head
  | preArming (boundary : ℤ)
  | discovering (boundary : ℤ)
  | retrying (boundary : ℤ)
  | settling (boundary : ℤ) (event : String) (last : List Market) (prevCount : ℕ)
  | resting (boundary : ℤ) (event : String) (last : List Market) (prevCount : ℕ)
  | selecting (boundary : ℤ) (event : String) (last : List Market)
  | waiting (boundary : ℤ)
  | stopped
  deriving DecidableEq, Repr

/-- The supervisor: the clock as it was last read, whether a shutdown was asked for, where the loop
is, the spawned hours, and, as history, the boundary of each turn. -/
structure Hourly where
  now : ℤ
  shutdown : Bool
  phase : HourlyPhase
  armed : List ArmedHour
  boundaries : List ℤ

namespace Hourly

/-- How long the loop sleeps before the boundary. -/
def untilPreArm (cfg : HourCfg) (boundary now : ℤ) : ℤ := max 0 (boundary - cfg.preArm - now)

/-- How long the loop sleeps past the boundary. -/
def pastBoundary (boundary now : ℤ) : ℤ := max (15 * SECOND) (boundary + 15 * SECOND - now)

/-- The pause between two polls of a ladder. -/
def LADDER_POLL : ℤ := 10 * SECOND

/-- When the ladder is taken as it is. -/
def capAt (cfg : HourCfg) (boundary : ℤ) : ℤ := boundary + (cfg.openSettle + 60 * SECOND)

/-- A ladder that is no longer waited for. -/
def ladderReady (cfg : HourCfg) (boundary now : ℤ) (count prevCount : ℕ) : Bool :=
  (boundary + cfg.openSettle ≤ now && 0 < count && count == prevCount) || capAt cfg boundary ≤ now

/-- What happens in a step.  An answer of the venue is the listed markets, or none for a failed
request; `t` is what the clock says afterwards. -/
inductive Action
  | turn
  | preArm (t : ℤ)
  | discover (answer : Option (List Market)) (t : ℤ)
  | retry (t : ℤ)
  | poll (answer : Option (List Market)) (t : ℤ)
  | rest (t : ℤ)
  | select (anchor : Option ℚ) (t : ℤ)
  | wait (t : ℤ)
  | shutdown
  | interrupt
  deriving DecidableEq, Repr

/-- One step.  A shutdown ends the waits: in the middle of the ladder polls what is there is still
selected from. -/
inductive Step (cfg : HourCfg) (parseRfc3339 : String → Option Timestamp)
    (selectBand : List Market → Option ℚ → List String) (s : Hourly) : Action → Hourly → Prop
  | turn (hphase : s.phase = .head) (hrun : s.shutdown = false) :
    Step cfg parseRfc3339 selectBand s .turn { s with
      phase := .preArming (nextBoundary s.now), boundaries := s.boundaries ++ [nextBoundary s.now] }
  | preArm {b} (t : ℤ) (hphase : s.phase = .preArming b) :
    Step cfg parseRfc3339 selectBand s (.preArm t) { s with phase := .discovering b, now := t }
  | discovered {b ev ms} (markets : List Market) (t : ℤ) (hphase : s.phase = .discovering b)
      (hopening : marketOpeningAt parseRfc3339 b markets = some (ev, ms)) :
    Step cfg parseRfc3339 selectBand s (.discover (some markets) t)
      { s with phase := .settling b ev [] 0, now := t }
  | undiscovered {b} (answer : Option (List Market)) (t : ℤ) (hphase : s.phase = .discovering b)
      (hopening : ∀ markets ∈ answer, marketOpeningAt parseRfc3339 b markets = none) :
    Step cfg parseRfc3339 selectBand s (.discover answer t) { s with
      phase := if b + cfg.listingGrace ≤ t then .waiting b else .retrying b, now := t }
  | retry {b} (t : ℤ) (hphase : s.phase = .retrying b) :
    Step cfg parseRfc3339 selectBand s (.retry t) { s with phase := .discovering b, now := t }
  | poll {b ev last prev} (answer : Option (List Market)) (t : ℤ)
      (hphase : s.phase = .settling b ev last prev) :
    Step cfg parseRfc3339 selectBand s (.poll answer t)
      (let last := ((answer.bind (marketOpeningAt parseRfc3339 b)).map (·.2)).getD last
      { s with
        phase := if ladderReady cfg b t last.length prev then .selecting b ev last
          else .resting b ev last last.length
        now := t })
  | rest {b ev last prev} (t : ℤ) (hphase : s.phase = .resting b ev last prev) :
    Step cfg parseRfc3339 selectBand s (.rest t)
      { s with phase := .settling b ev last prev, now := t }
  | select {b ev last} (anchor : Option ℚ) (t : ℤ) (hphase : s.phase = .selecting b ev last) :
    Step cfg parseRfc3339 selectBand s (.select anchor t) { s with
      phase := .waiting b, now := t
      armed := if (selectBand last anchor).isEmpty then s.armed
        else s.armed ++ [⟨b, ev, last, selectBand last anchor⟩] }
  | wait {b} (t : ℤ) (hphase : s.phase = .waiting b) :
    Step cfg parseRfc3339 selectBand s (.wait t) { s with phase := .head, now := t }
  | shutdown : Step cfg parseRfc3339 selectBand s .shutdown { s with shutdown := true }
  | interruptPolls {b ev last prev} (hdown : s.shutdown = true)
      (hphase : s.phase = .settling b ev last prev ∨ s.phase = .resting b ev last prev) :
    Step cfg parseRfc3339 selectBand s .interrupt { s with phase := .selecting b ev last }
  | interrupt (hdown : s.shutdown = true)
      (hphase : s.phase = .head ∨ (∃ b, s.phase = .preArming b ∨ s.phase = .discovering b ∨
        s.phase = .retrying b ∨ s.phase = .waiting b)) :
    Step cfg parseRfc3339 selectBand s .interrupt { s with phase := .stopped }

/-- The supervisor from a reading of the clock on. -/
def machine (cfg : HourCfg) (parseRfc3339 : String → Option Timestamp)
    (selectBand : List Market → Option ℚ → List String) (start : ℤ) : Machine Hourly Action :=
  ⟨⟨start, false, .head, [], []⟩, Step cfg parseRfc3339 selectBand⟩

end Hourly

end Snapevent
