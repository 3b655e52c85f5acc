import Snapevent.Core.Calendar

/-!
# Event start times

The start a match-style event ticker encodes (`event_time.rs`): a segment `YYMONDDHHMM` in US
Eastern time.
-/

namespace Snapevent

def MONTHS : List String :=
  ["JAN", "FEB", "MAR", "APR", "MAY", "JUN", "JUL", "AUG", "SEP", "OCT", "NOV", "DEC"]

/-- `str::parse` of an unsigned number: digits, after a plus sign if there is one. -/
def parseUnsigned (cs : List Char) : Option ℕ :=
  let digits := match cs with
    | '+' :: ds => ds
    | ds => ds
  if !digits.isEmpty && digits.all (·.isDigit) then some (Nat.ofDigitChars 10 digits 0) else none

/-- `str::parse` of a signed number. -/
def parseSigned (cs : List Char) : Option ℤ :=
  match cs with
  | '-' :: ds =>
    if !ds.isEmpty && ds.all (·.isDigit) then some (-(Nat.ofDigitChars 10 ds 0 : ℤ)) else none
  | ds => (parseUnsigned ds).map Int.ofNat

/-- The `n`-th given weekday of a month. -/
def nthWeekday (year : ℤ) (month weekday n : ℕ) : Option Date := do
  let first ← Date.fromYmd year month 1
  let offset := (7 + weekday - first.daysFromMonday) % 7
  Date.fromYmd year month (1 + offset + (n - 1) * 7)

/-- Hours to add to US Eastern time: daylight saving lasts from the second Sunday of March to the
first Sunday of November. -/
def usEasternOffsetHours (d : Date) : ℤ :=
  match nthWeekday d.year 3 6 2, nthWeekday d.year 11 6 1 with
  | some dstStart, some dstEnd => if dstStart ≤ d ∧ d < dstEnd then 4 else 5
  | _, _ => 5

/-- The instant `nanos` after the epoch, when the calendar reaches that far. -/
def Timestamp.ofNanos (nanos : ℤ) : Option Timestamp :=
  if h : minUtcNanos ≤ nanos ∧ nanos ≤ maxUtcNanos then some ⟨nanos, h⟩ else none

theorem Timestamp.ofNanos_eq_some {n : ℤ} {t : Timestamp} :
    Timestamp.ofNanos n = some t ↔ t.nanos = n := by
  unfold Timestamp.ofNanos
  constructor
  · intro h
    split_ifs at h with hrange
    cases h
    rfl
  · rintro rfl
    exact dif_pos t.inRange

theorem Timestamp.exists_ofNanos {n : ℤ} :
    (∃ t, Timestamp.ofNanos n = some t) ↔ minUtcNanos ≤ n ∧ n ≤ maxUtcNanos := by
  constructor
  · rintro ⟨t, ht⟩
    rw [← Timestamp.ofNanos_eq_some.1 ht]
    exact t.inRange
  · intro h
    exact ⟨⟨n, h⟩, dif_pos h⟩

/-- The length of a text in bytes. -/
def byteLen (cs : List Char) : ℕ := (cs.map (·.utf8Size)).sum

/-- What stands after the first `n` bytes, if a character ends there. -/
def dropBytes (n : ℕ) : List Char → Option (List Char)
  | [] => if n = 0 then some [] else none
  | c :: cs =>
    if n = 0 then some (c :: cs)
    else if c.utf8Size ≤ n then dropBytes (n - c.utf8Size) cs else none

/-- The first `n` bytes, if a character ends there. -/
def takeBytes (n : ℕ) : List Char → Option (List Char)
  | [] => if n = 0 then some [] else none
  | c :: cs =>
    if n = 0 then some []
    else if c.utf8Size ≤ n then (c :: ·) <$> takeBytes (n - c.utf8Size) cs else none

/-- `str::get` of a byte range. -/
def getBytes (start stop : ℕ) (cs : List Char) : Option (List Char) :=
  (dropBytes start cs).bind (takeBytes (stop - start))

/-- One segment of an event ticker, by its bytes; a digit after the minutes is one byte. -/
def parseSegment (seg : List Char) : Option Timestamp := do
  if byteLen seg < 11 ∨ (dropBytes 11 seg).isNone then none
  else
    let yy ← (getBytes 0 2 seg).bind parseSigned
    let monStr ← getBytes 2 5 seg
    let mon ← MONTHS.findIdx? (·.toList = monStr)
    let dd ← (getBytes 5 7 seg).bind parseUnsigned
    let hh ← (getBytes 7 9 seg).bind parseUnsigned
    let mm ← (getBytes 9 11 seg).bind parseUnsigned
    if (dropBytes 11 seg).any fun rest => rest.head?.any (·.isDigit) then none
    else if 23 < hh ∨ 59 < mm then none
    else
      let date ← Date.fromYmd (2000 + yy) (mon + 1) dd
      Timestamp.ofNanos
        ((date.days * 86400 + (hh + usEasternOffsetHours date) * 3600 + mm * 60) * 10 ^ 9)

/-- The segments after the leading one. -/
def segmentsOf (eventTicker : String) : List (List Char) := (eventTicker.toList.splitOn '-').tail

/-- The start encoded in an event ticker, read from its bytes. -/
def parseEventStart (eventTicker : String) : Option Timestamp :=
  (segmentsOf eventTicker).findSome? parseSegment

example : (parseEventStart "KXWT20MATCH-26JUN121330SRIENG").map (·.nanos) =
    some (1781285400 * 10 ^ 9) := by decide

example : parseEventStart "KXBTCD-26JUL3117" = none := by decide

end Snapevent
