import Snapevent.Cli.EventTime

/-!
# Spans of time

The calendar library's signed spans and their arithmetic with instants.  A span is held in
nanoseconds; it is bounded by the milliseconds of a signed 64-bit integer.  A result that is out of
range is a panic, and is `none` here.
-/

namespace Snapevent

/-- The most milliseconds a span has. -/
def maxDeltaMillis : ℤ := 2 ^ 63 - 1

/-- A span of whole seconds. -/
def deltaSeconds (secs : ℤ) : Option ℤ :=
  if -maxDeltaMillis ≤ secs * 1000 ∧ secs * 1000 ≤ maxDeltaMillis then some (secs * 10 ^ 9)
  else none

/-- `Duration::minutes`. -/
def deltaMinutes (minutes : ℤ) : Option ℤ := deltaSeconds (minutes * 60)

/-- `Duration::hours`. -/
def deltaHours (hours : ℤ) : Option ℤ := deltaSeconds (hours * 3600)

/-- `Duration::days`. -/
def deltaDays (days : ℤ) : Option ℤ := deltaSeconds (days * 86400)

namespace Timestamp

/-- An instant and a span after it. -/
def plus (t : Timestamp) (delta : ℤ) : Option Timestamp := ofNanos (t.nanos + delta)

/-- An instant and a span before it. -/
def minus (t : Timestamp) (delta : ℤ) : Option Timestamp := ofNanos (t.nanos - delta)

/-- The whole seconds since the epoch, rounded down. -/
def timestamp (t : Timestamp) : ℤ := t.nanos / 10 ^ 9

end Timestamp

/-! ## Spans from instants -/

theorem deltaSeconds_eq_some {secs delta : ℤ} (h : deltaSeconds secs = some delta) :
    delta = secs * 10 ^ 9 := by
  unfold deltaSeconds at h
  split_ifs at h
  cases h
  rfl

/-- The span between two instants of the calendar is within its bounds. -/
theorem deltaSeconds_of_inRange {n secs : ℤ} (hn : minUtcNanos ≤ n ∧ n ≤ maxUtcNanos)
    (h : minUtcNanos ≤ n + secs * 10 ^ 9 ∧ n + secs * 10 ^ 9 ≤ maxUtcNanos) :
    deltaSeconds secs = some (secs * 10 ^ 9) := by
  unfold minUtcNanos maxUtcNanos at hn h
  have hbound : -maxDeltaMillis ≤ secs * 1000 ∧ secs * 1000 ≤ maxDeltaMillis := by
    unfold maxDeltaMillis
    omega
  rw [deltaSeconds, if_pos hbound]

namespace Timestamp

variable {t : Timestamp} {secs : ℤ}

theorem exists_plus : (∃ s, (do t.plus (← deltaSeconds secs)) = some s) ↔
    minUtcNanos ≤ t.nanos + secs * 10 ^ 9 ∧ t.nanos + secs * 10 ^ 9 ≤ maxUtcNanos := by
  constructor
  · rintro ⟨s, hs⟩
    obtain ⟨delta, hdelta, hs⟩ := Option.bind_eq_some_iff.1 hs
    rw [← deltaSeconds_eq_some hdelta]
    exact exists_ofNanos.1 ⟨s, hs⟩
  · intro h
    rw [deltaSeconds_of_inRange t.inRange h]
    exact exists_ofNanos.2 h

theorem exists_minus (h : 0 ≤ secs) : (∃ s, (do t.minus (← deltaSeconds secs)) = some s) ↔
    minUtcNanos ≤ t.nanos - secs * 10 ^ 9 := by
  constructor
  · rintro ⟨s, hs⟩
    obtain ⟨delta, hdelta, hs⟩ := Option.bind_eq_some_iff.1 hs
    rw [← deltaSeconds_eq_some hdelta]
    exact (exists_ofNanos.1 ⟨s, hs⟩).1
  · intro hmin
    have hmax := t.inRange.2
    have hrange : minUtcNanos ≤ t.nanos - secs * 10 ^ 9 ∧
        t.nanos - secs * 10 ^ 9 ≤ maxUtcNanos := ⟨hmin, by omega⟩
    have hdelta : deltaSeconds secs = some (secs * 10 ^ 9) :=
      deltaSeconds_of_inRange hrange (by rw [Int.sub_add_cancel]; exact t.inRange)
    rw [hdelta]
    exact exists_ofNanos.2 hrange

end Timestamp

end Snapevent
