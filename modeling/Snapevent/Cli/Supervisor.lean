import Mathlib.Data.List.Basic
import Snapevent.Core.Ids

/-!
# The capture-supervisor spine

What the capture commands share (`supervisor.rs`): the unit of capture, the settlement verdict of
one poll, and the fields of a listed market they read (`rest.rs`).
-/

namespace Snapevent

/-- A listed market. -/
structure Market where
  ticker : String
  status : Option String
  eventTicker : Option String
  openTime : Option String
  closeTime : Option String
  volumeFp : Option String
  deriving DecidableEq, Repr

/-- The terminal statuses. -/
def TERMINAL : List String := ["closed", "settled", "finalized", "determined"]

/-- The status is a terminal one; an unknown or absent status is not. -/
def isTerminal (status : Option String) : Bool :=
  match status with
  | some s => s ∈ TERMINAL
  | none => false

/-- Every target is terminal in the latest list; a target that is absent from it is not. -/
def allSettled (target : List String) (latest : List Market) : Bool :=
  target.all fun t =>
    match latest.find? fun m => m.ticker = t with
    | some m => isTerminal m.status
    | none => false

/-- One unit of capture: a resolved set of markets with the session it is filed under and the event
its settlement poll asks for. -/
structure CaptureUnit where
  session : String
  tickers : List String
  event : String
  remotePrefix : Option String
  deriving DecidableEq, Repr

/-- The verdict of one settlement poll. -/
inductive PollOutcome
  | settled
  | notSettled
  | failed
  deriving DecidableEq, Repr

/-- Decide from one poll whether the unit is done; the page that was fetched comes with the cursor
of the next one. -/
def pollOnce (fetched : Except String (List Market × Option String)) (target : List String) :
    PollOutcome :=
  match fetched with
  | .error _ => .failed
  | .ok (_, some _) => .notSettled
  | .ok (markets, none) =>
    if markets.isEmpty then .notSettled
    else if allSettled target markets then .settled
    else .notSettled

/-- The part of a text before the last `d`. -/
def beforeLast (d : Char) (s : String) : Option String :=
  if d ∈ s.toList then some (String.ofList ((s.toList.reverse.dropWhile (· ≠ d)).tail.reverse))
  else none

theorem beforeLast_append {d : Char} (before : String) {rest : String} (h : d ∉ rest.toList) :
    beforeLast d (before ++ String.singleton d ++ rest) = some before := by
  have hlist : (before ++ String.singleton d ++ rest).toList = before.toList ++ d :: rest.toList := by
    simp
  have hdrop : (rest.toList.reverse ++ d :: before.toList.reverse).dropWhile (· ≠ d) =
      d :: before.toList.reverse := by
    rw [List.dropWhile_append_of_pos]
    · simp
    · intro c hc
      have hne : c ≠ d := by
        rintro rfl
        exact h (List.mem_reverse.1 hc)
      simpa using hne
  rw [beforeLast, hlist, if_pos (by simp)]
  simp only [List.reverse_append, List.reverse_cons, List.append_assoc, List.singleton_append]
  rw [hdrop, List.tail_cons, List.reverse_reverse, String.ofList_toList]

end Snapevent
