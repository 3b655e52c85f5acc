import Mathlib.Algebra.Order.Group.MinMax
import Mathlib.Algebra.Order.Monoid.Unbundled.MinMax
import Mathlib.Data.List.Induction

/-!
# Jobs served one by one

Jobs that are released at their times and served one after the other, in a fixed order, each within
a turn.  A job is done a turn after it was released or after the jobs before it were done; so it is
late by whole turns only, counted from the release of a job before it or from the start.
-/

namespace Serial

variable {α : Type*} [AddCommMonoid α] [LinearOrder α]

/-- When the jobs with these releases are done at the latest. -/
def doneBy (turn start : α) (releases : List α) : α :=
  releases.foldl (fun t r => max t r + turn) start

variable {turn start r t : α} {releases : List α}

@[simp] theorem doneBy_nil : doneBy turn start [] = start := rfl

theorem doneBy_concat : doneBy turn start (releases ++ [r]) =
    max (doneBy turn start releases) r + turn := by
  rw [doneBy, List.foldl_append]
  rfl

theorem doneBy_le_concat [IsOrderedAddMonoid α] (hturn : 0 ≤ turn) (r : α) :
    doneBy turn start releases ≤ doneBy turn start (releases ++ [r]) := by
  rw [doneBy_concat]
  exact (le_max_left _ _).trans (le_add_of_nonneg_right hturn)

/-- The jobs are done whole turns after the start, or after the release of one of them from which on
one was served after the other. -/
theorem doneBy_eq (turn start : α) (releases : List α) :
    doneBy turn start releases = start + releases.length • turn ∨
      ∃ j r, releases[j]? = some r ∧
        doneBy turn start releases = r + (releases.length - j) • turn := by
  induction releases using List.reverseRecOn with
  | nil => exact Or.inl (by simp)
  | append_singleton releases r ih =>
    rw [doneBy_concat, List.length_append, List.length_singleton]
    rcases max_choice (doneBy turn start releases) r with hmax | hmax
    · rw [hmax]
      refine ih.imp (fun h => ?_) fun ⟨j, r', hj, h⟩ => ⟨j, r', ?_, ?_⟩
      · rw [h, succ_nsmul, add_assoc]
      · rw [List.getElem?_append_left (List.getElem?_eq_some_iff.1 hj).1, hj]
      · have hlt := (List.getElem?_eq_some_iff.1 hj).1
        rw [h, Nat.sub_add_comm hlt.le, succ_nsmul, add_assoc]
    · rw [hmax]
      refine Or.inr ⟨releases.length, r, by simp, ?_⟩
      rw [Nat.add_sub_cancel_left, one_nsmul]

/-- A job begins whole turns after the start, or after the release of a job up to it. -/
theorem begun_le (h : t ≤ max (doneBy turn start releases) r) :
    t ≤ start + releases.length • turn ∨
      ∃ j r', (releases ++ [r])[j]? = some r' ∧ t ≤ r' + (releases.length - j) • turn := by
  rcases le_max_iff.1 h with hdone | hr
  · rcases doneBy_eq turn start releases with heq | ⟨j, r', hj, heq⟩
    · exact Or.inl (heq ▸ hdone)
    · refine Or.inr ⟨j, r', ?_, heq ▸ hdone⟩
      rw [List.getElem?_append_left (List.getElem?_eq_some_iff.1 hj).1, hj]
  · exact Or.inr ⟨releases.length, r, by simp, by simpa using hr⟩

end Serial
