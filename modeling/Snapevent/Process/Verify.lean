import Mathlib.Data.List.Dedup
import Mathlib.Data.List.Sort
import Snapevent.Core.Book

/-!
# The verify engine

Compares each REST observation of a book with the replayed states of a two-sided time window
(`verify.rs`).  The engine only sees the timestamps and books its caller hands it.
-/

namespace Snapevent

/-- The two-sided tolerance window in microseconds. -/
def VERIFY_WINDOW_US : ℤ := 5000000

/-- Canonical book state: ascending price and quantity, for both sides. -/
abbrev State := List (UInt32 × Int64) × List (UInt32 × Int64)

/-- A verify observation's verdict. -/
inductive VerifyOutcome
  | matched
  | mismatch
  | skippedGap
  | truncated
  deriving DecidableEq, Repr

/-- One resolved verify observation. -/
structure VerifyOutcomeRow where
  recvTsUs : ℤ
  outcome : VerifyOutcome
  matchLagUs : Option ℤ
  yesLevelsJson : String
  noLevelsJson : String
  detail : String
  deriving DecidableEq, Repr

/-! ## Canonical states and their texts -/

def canonicalizeBook (book : Book) : State := (book.yes.toList, book.no.toList)

/-- One side of a REST observation, in price order, the last of equal prices winning. -/
def canonicalizeRestSide (levels : List PriceLevel) : List (UInt32 × Int64) :=
  (levels.foldl (fun (map : Levels) level =>
    map.insert level.price.micro level.quantity.centi.toInt64) ∅).toList

def canonicalizeRest (yes no : List PriceLevel) : State :=
  (canonicalizeRestSide yes, canonicalizeRestSide no)

/-- The levels as a JSON array of pairs. -/
def levelsJson (levels : List (UInt32 × Int64)) : String :=
  "[" ++ String.intercalate "," (levels.map fun l =>
    "[" ++ toString l.1.toNat ++ "," ++ toString l.2.toInt ++ "]") ++ "]"

/-- A number padded with zeros to at least `width` digits. -/
def padZeros (width n : ℕ) : String :=
  String.ofList (List.replicate (width - (toString n).length) '0') ++ toString n

/-- A price as dollars with six decimals. -/
def fmtPriceMicro (p : UInt32) : String :=
  toString (p.toNat / 1000000) ++ "." ++ padZeros 6 (p.toNat % 1000000)

/-- A quantity as contracts with two decimals. -/
def fmtQtyCenti (q : Int64) : String :=
  (if q.toInt < 0 then "-" else "") ++ toString (q.toInt.natAbs / 100) ++ "." ++
    padZeros 2 (q.toInt.natAbs % 100)

def fmtSideValue : Option Int64 → String
  | some q => fmtQtyCenti q
  | none => "absent"

/-- The prices at which two sides differ, ascending, each with both quantities. -/
def sideDiff (ours rest : List (UInt32 × Int64)) : List (UInt32 × Option Int64 × Option Int64) :=
  let oursMap : Levels := .ofList ours
  let restMap : Levels := .ofList rest
  let prices := ((ours ++ rest).map (·.1)).dedup.insertionSort (· ≤ ·)
  (prices.map fun p => (p, oursMap[p]?, restMap[p]?)).filter fun d => d.2.1 ≠ d.2.2

def sideDetail (label : String) (ours rest : List (UInt32 × Int64)) : String :=
  match sideDiff ours rest with
  | [] => label ++ ": 0 level(s) differ"
  | (p, ourQty, restQty) :: diffs =>
    label ++ ": " ++ toString (diffs.length + 1) ++ " level(s) differ (first at " ++
      fmtPriceMicro p ++ ": ours " ++ fmtSideValue ourQty ++ " vs rest " ++
      fmtSideValue restQty ++ ")"

def mismatchDetail (ours rest : State) : String :=
  sideDetail "yes" ours.1 rest.1 ++ "; " ++ sideDetail "no" ours.2 rest.2

/-! ## The engine -/

/-- A verify observation that is not resolved yet. -/
structure PendingCheck where
  verifyTs : ℤ
  deadline : ℤ
  restState : State
  bookStateAtVerify : State
  yesLevelsJson : String
  noLevelsJson : String

namespace PendingCheck

/-- The row of a resolved check. -/
def resolve (p : PendingCheck) (outcome : VerifyOutcome) (lag : Option ℤ) (detail : String) :
    VerifyOutcomeRow :=
  { recvTsUs := p.verifyTs, outcome, matchLagUs := lag, yesLevelsJson := p.yesLevelsJson
    noLevelsJson := p.noLevelsJson, detail }

def resolveMatched (p : PendingCheck) (lagUs : ℤ) : VerifyOutcomeRow :=
  p.resolve .matched (some lagUs) ""

def resolveMismatch (p : PendingCheck) : VerifyOutcomeRow :=
  p.resolve .mismatch none (mismatchDetail p.bookStateAtVerify p.restState)

def resolveSkippedGap (p : PendingCheck) : VerifyOutcomeRow :=
  p.resolve .skippedGap none
    "book turned suspect (unresolved gap) during the verify window; verdict withheld"

def resolveTruncated (p : PendingCheck) : VerifyOutcomeRow :=
  p.resolve .truncated none "stream ended inside the verify window; verdict withheld"

end PendingCheck

/-- The diff engine: recent book states in time order, the check awaiting a verdict, whether a gap
is unresolved, and the rows so far. -/
structure VerifyEngine where
  window : List (ℤ × State)
  pending : Option PendingCheck
  gapPending : Bool
  rows : List VerifyOutcomeRow

namespace VerifyEngine

def new : VerifyEngine := { window := [], pending := none, gapPending := false, rows := [] }

/-- Drop the states that were no longer in force at `cutoff`. -/
def prune (cutoff : ℤ) : List (ℤ × State) → List (ℤ × State)
  | first :: second :: rest =>
    if second.1 ≤ cutoff then prune cutoff (second :: rest) else first :: second :: rest
  | window => window

/-- Feed a book event that the caller has applied to `book`. -/
def onBookEvent (en : VerifyEngine) (recvTsUs : ℤ) (book : Book) (isSnapshot : Bool) :
    VerifyEngine :=
  let state := canonicalizeBook book
  let en := match en.pending with
    | none => en
    | some p =>
      if p.deadline < recvTsUs then
        { en with pending := none, rows := en.rows ++ [p.resolveMismatch] }
      else if state = p.restState then
        { en with pending := none, rows := en.rows ++ [p.resolveMatched (recvTsUs - p.verifyTs)] }
      else en
  { en with
    window := prune (recvTsUs - VERIFY_WINDOW_US) (en.window ++ [(recvTsUs, state)])
    gapPending := if isSnapshot then false else en.gapPending }

/-- Feed an inline gap marker. -/
def onGap (en : VerifyEngine) : VerifyEngine :=
  { en with
    gapPending := true, pending := none
    rows := en.rows ++ en.pending.toList.map (·.resolveSkippedGap) }

/-- The first state, newest first, that equals `rest`; the scan ends after the newest state older
than `threshold`. -/
def backwardMatch (rest : State) (threshold : ℤ) : List (ℤ × State) → Option ℤ
  | [] => none
  | (ts, state) :: older =>
    if state = rest then some ts
    else if ts < threshold then none
    else backwardMatch rest threshold older

/-- Feed a REST verify observation. -/
def onVerify (en : VerifyEngine) (recvTsUs : ℤ) (restYes restNo : List PriceLevel) (book : Book) :
    VerifyEngine :=
  let earlier := en.pending.toList.map fun p =>
    if en.gapPending then p.resolveSkippedGap else p.resolveMismatch
  let en := { en with pending := none, rows := en.rows ++ earlier }
  let restState := canonicalizeRest restYes restNo
  let currentState := canonicalizeBook book
  let check : PendingCheck :=
    { verifyTs := recvTsUs, deadline := recvTsUs + VERIFY_WINDOW_US, restState
      bookStateAtVerify := currentState, yesLevelsJson := levelsJson restState.1
      noLevelsJson := levelsJson restState.2 }
  if en.gapPending then
    { en with rows := en.rows ++ [check.resolve .skippedGap none
      "book state is suspect since the last unresolved gap"] }
  else if currentState = restState then
    { en with rows := en.rows ++ [check.resolveMatched 0] }
  else
    let threshold := recvTsUs - VERIFY_WINDOW_US
    match backwardMatch restState threshold en.window.reverse with
    | some ts => { en with rows := en.rows ++ [check.resolveMatched (max ts threshold - recvTsUs)] }
    | none => { en with pending := some check }

/-- All rows, a check still pending being truncated. -/
def finish (en : VerifyEngine) : List VerifyOutcomeRow :=
  en.rows ++ en.pending.toList.map (·.resolveTruncated)

end VerifyEngine

/-! ## Every observation gets a row -/

/-- What was observed: its time and the texts of its levels. -/
abbrev Observation := ℤ × String × String

/-- The observation a row is about. -/
def VerifyOutcomeRow.observation (row : VerifyOutcomeRow) : Observation :=
  (row.recvTsUs, row.yesLevelsJson, row.noLevelsJson)

/-- The observation a check is about. -/
def PendingCheck.observation (p : PendingCheck) : Observation :=
  (p.verifyTs, p.yesLevelsJson, p.noLevelsJson)

section Resolve

variable (p : PendingCheck)

@[simp] theorem PendingCheck.observation_resolve (outcome : VerifyOutcome) (lag : Option ℤ)
    (detail : String) : (p.resolve outcome lag detail).observation = p.observation := rfl

@[simp] theorem PendingCheck.observation_resolveMatched (lag : ℤ) :
    (p.resolveMatched lag).observation = p.observation := rfl

@[simp] theorem PendingCheck.observation_resolveMismatch :
    p.resolveMismatch.observation = p.observation := rfl

@[simp] theorem PendingCheck.observation_resolveSkippedGap :
    p.resolveSkippedGap.observation = p.observation := rfl

@[simp] theorem PendingCheck.observation_resolveTruncated :
    p.resolveTruncated.observation = p.observation := rfl

end Resolve

/-- The observation of a REST book. -/
def restObservation (recvTsUs : ℤ) (yes no : List PriceLevel) : Observation :=
  (recvTsUs, levelsJson (canonicalizeRest yes no).1, levelsJson (canonicalizeRest yes no).2)

namespace VerifyEngine

/-- The observations the engine has rows for, and the one it is still holding. -/
def observations (en : VerifyEngine) : List Observation :=
  en.rows.map (·.observation) ++ en.pending.toList.map (·.observation)

theorem onBookEvent_observations (en : VerifyEngine) (recvTsUs : ℤ) (book : Book)
    (isSnapshot : Bool) :
    (en.onBookEvent recvTsUs book isSnapshot).observations = en.observations := by
  rcases en with ⟨window, _ | p, gapPending, rows⟩
  · rfl
  · simp only [onBookEvent]
    split_ifs <;> simp [observations]

theorem onGap_observations (en : VerifyEngine) : en.onGap.observations = en.observations := by
  rcases en with ⟨window, _ | p, gapPending, rows⟩ <;>
    simp [onGap, observations]

theorem onVerify_observations (en : VerifyEngine) (recvTsUs : ℤ) (yes no : List PriceLevel)
    (book : Book) : (en.onVerify recvTsUs yes no book).observations =
      en.observations ++ [restObservation recvTsUs yes no] := by
  have hobs : en.observations = (en.rows ++ en.pending.toList.map fun p =>
      if en.gapPending then p.resolveSkippedGap else p.resolveMismatch).map (·.observation) := by
    rw [observations, List.map_append, List.map_map]
    congr 1
    refine List.map_congr_left fun p _ => ?_
    simp only [Function.comp]
    split_ifs <;> rfl
  rw [hobs]
  simp only [onVerify]
  split_ifs
  · simp only [observations, List.map_append, Option.toList_none, List.map_nil, List.append_nil]
    rfl
  · simp only [observations, List.map_append, Option.toList_none, List.map_nil, List.append_nil]
    rfl
  · split
    · simp only [observations, List.map_append, Option.toList_none, List.map_nil, List.append_nil]
      rfl
    · rfl

theorem finish_observations (en : VerifyEngine) :
    en.finish.map (·.observation) = en.observations := by
  rcases en with ⟨window, _ | p, gapPending, rows⟩ <;>
    simp [finish, observations]

end VerifyEngine

end Snapevent
