import Snapevent.Core.Ids
import Snapevent.Lib.Padded

/-!
# Calendar dates

UTC dates of the proleptic Gregorian calendar: which exist, their order, their distance from the
Unix epoch, and the text of a date.
-/

namespace Snapevent

/-- The year has a 29th of February. -/
def isLeap (year : ℤ) : Bool := year % 4 = 0 ∧ (year % 100 ≠ 0 ∨ year % 400 = 0)

/-- The number of days of a month. -/
def daysInMonth (year : ℤ) (month : ℕ) : ℕ :=
  match month with
  | 2 => if isLeap year then 29 else 28
  | 4 | 6 | 9 | 11 => 30
  | _ => 31

/-- A date. -/
structure Date where
  year : ℤ
  month : ℕ
  day : ℕ
  valid : (1 ≤ month ∧ month ≤ 12) ∧ 1 ≤ day ∧ day ≤ daysInMonth year month
  deriving DecidableEq, Repr

namespace Date

/-- The date of a year, a month and a day, if there is one. -/
def fromYmd (year : ℤ) (month day : ℕ) : Option Date :=
  if h : (1 ≤ month ∧ month ≤ 12) ∧ 1 ≤ day ∧ day ≤ daysInMonth year month then
    some ⟨year, month, day, h⟩
  else none

/-- The days of the year before the first of a month. -/
def daysBeforeMonth (year : ℤ) (month : ℕ) : ℕ :=
  ((List.range (month - 1)).map fun m => daysInMonth year (m + 1)).sum

/-- Days since 1970-01-01. -/
def days (d : Date) : ℤ :=
  let y := d.year - 1
  365 * y + y / 4 - y / 100 + y / 400 + daysBeforeMonth d.year d.month + d.day - 719163

/-- Days since the last Monday: 1970-01-01 was a Thursday. -/
def daysFromMonday (d : Date) : ℕ := ((d.days + 3) % 7).toNat

/-- Years, then months, then days. -/
def lt (a b : Date) : Prop :=
  a.year < b.year ∨ (a.year = b.year ∧ (a.month < b.month ∨ (a.month = b.month ∧ a.day < b.day)))

instance : LT Date := ⟨lt⟩

instance : DecidableLT Date := fun a b => inferInstanceAs (Decidable
  (a.year < b.year ∨ (a.year = b.year ∧ (a.month < b.month ∨ (a.month = b.month ∧ a.day < b.day)))))

instance : LE Date := ⟨fun a b => ¬ b < a⟩

instance : DecidableLE Date := fun a b => inferInstanceAs (Decidable (¬ b < a))

theorem lt_iff {a b : Date} : a < b ↔ a.year < b.year ∨
    (a.year = b.year ∧ (a.month < b.month ∨ (a.month = b.month ∧ a.day < b.day))) := Iff.rfl

theorem le_iff {a b : Date} : a ≤ b ↔ ¬ b < a := Iff.rfl

theorem lt_or_eq_of_le {a b : Date} (h : a ≤ b) : a < b ∨ a = b := by
  obtain ⟨y, m, d, hv⟩ := a
  obtain ⟨y', m', d', hv'⟩ := b
  rw [le_iff, lt_iff] at h
  rw [lt_iff, Date.mk.injEq]
  dsimp only at h ⊢
  omega

theorem lt_trans {a b c : Date} (h : a < b) (h' : b < c) : a < c := by
  rw [lt_iff] at *
  omega

/-! ## The text of a date -/

open Padded

/-- The digits of a year; a year that has not four of them has a sign. -/
def yearText (year : ℤ) : List Char :=
  if 0 ≤ year ∧ year ≤ 9999 then padded 4 year.toNat
  else (if year < 0 then '-' else '+') :: padded 4 year.natAbs

/-- Year, month and day. -/
def text (d : Date) : String :=
  String.ofList (yearText d.year ++ '-' :: (padded 2 d.month ++ '-' :: padded 2 d.day))

/-- The year has four digits. -/
def FourDigit (d : Date) : Prop := 0 ≤ d.year ∧ d.year ≤ 9999

instance (d : Date) : Decidable d.FourDigit := inferInstanceAs (Decidable (_ ∧ _))

theorem month_le (d : Date) : d.month ≤ 12 := d.valid.1.2

theorem day_le (d : Date) : d.day ≤ 31 := by
  have hle : daysInMonth d.year d.month ≤ 31 := by
    unfold daysInMonth
    split
    · split_ifs <;> decide
    all_goals decide
  exact Nat.le_trans d.valid.2.2 hle

theorem text_append_lt {a b : Date} (ha : a.FourDigit) (hb : b.FourDigit) (h : a < b)
    (x y : List Char) : a.text.toList ++ x < b.text.toList ++ y := by
  obtain ⟨ha0, ha9⟩ := ha
  obtain ⟨hb0, hb9⟩ := hb
  have hmonth : b.month < 10 ^ 2 := Nat.lt_of_le_of_lt b.month_le (by decide)
  have hmonth' : a.month < 10 ^ 2 := Nat.lt_of_le_of_lt a.month_le (by decide)
  have hday : b.day < 10 ^ 2 := Nat.lt_of_le_of_lt b.day_le (by decide)
  have hday' : a.day < 10 ^ 2 := Nat.lt_of_le_of_lt a.day_le (by decide)
  rw [text, text, String.toList_ofList, String.toList_ofList, yearText, yearText,
    if_pos ⟨ha0, ha9⟩, if_pos ⟨hb0, hb9⟩, List.append_assoc, List.append_assoc]
  rcases lt_iff.1 h with hlt | ⟨heq, hlt | ⟨heq', hlt⟩⟩
  · apply append_lt_append (padded_lt (by decide) (by omega) (by omega))
    rw [length_padded (by decide) (by omega), length_padded (by decide) (by omega)]
  · rw [heq]
    apply List.append_left_lt
    rw [List.cons_append, List.cons_append, List.cons_lt_cons_self, List.append_assoc,
      List.append_assoc]
    apply append_lt_append (padded_lt (by decide) hlt hmonth)
    rw [length_padded (by decide) hmonth', length_padded (by decide) hmonth]
  · rw [heq, heq']
    apply List.append_left_lt
    rw [List.cons_append, List.cons_append, List.cons_lt_cons_self, List.append_assoc,
      List.append_assoc]
    apply List.append_left_lt
    rw [List.cons_append, List.cons_append, List.cons_lt_cons_self]
    apply append_lt_append (padded_lt (by decide) hlt hday)
    rw [length_padded (by decide) hday', length_padded (by decide) hday]

end Date

end Snapevent
