import Snapevent.Core.Calendar

/-!
# Weekdays

Which weekday a date falls on, and the first, second and later ones of a month: each lies in its own
run of seven days, and every such run has exactly one.
-/

namespace Snapevent

namespace Date

/-- The date is the `n`-th of its weekday in its month. -/
def IsNth (n weekday : ℕ) (d : Date) : Prop :=
  d.daysFromMonday = weekday ∧ 7 * (n - 1) < d.day ∧ d.day ≤ 7 * n

theorem fromYmd_eq_some_iff {year : ℤ} {month day : ℕ} {d : Date} :
    fromYmd year month day = some d ↔ d.year = year ∧ d.month = month ∧ d.day = day := by
  unfold fromYmd
  constructor
  · intro h
    split_ifs at h
    cases h
    exact ⟨rfl, rfl, rfl⟩
  · rintro ⟨rfl, rfl, rfl⟩
    rw [dif_pos d.valid]

theorem days_sub_day {a b : Date} (hy : a.year = b.year) (hm : a.month = b.month) :
    a.days - a.day = b.days - b.day := by
  unfold days
  rw [hy, hm]
  dsimp only
  omega

theorem daysFromMonday_eq_iff {a b : Date} (hy : a.year = b.year) (hm : a.month = b.month) :
    a.daysFromMonday = b.daysFromMonday ↔ (a.day : ℤ) % 7 = (b.day : ℤ) % 7 := by
  have hdays := days_sub_day hy hm
  unfold daysFromMonday
  omega

theorem IsNth.unique {a b : Date} (hy : a.year = b.year) (hm : a.month = b.month) {n weekday : ℕ}
    (ha : IsNth n weekday a) (hb : IsNth n weekday b) : a = b := by
  have hmod := (daysFromMonday_eq_iff hy hm).1 (ha.1.trans hb.1.symm)
  have hday : a.day = b.day := by
    obtain ⟨-, ha0, ha1⟩ := ha
    obtain ⟨-, hb0, hb1⟩ := hb
    omega
  obtain ⟨y, m, d, hv⟩ := a
  obtain ⟨y', m', d', hv'⟩ := b
  dsimp only at hy hm hday
  subst hy hm hday
  rfl

end Date

end Snapevent
