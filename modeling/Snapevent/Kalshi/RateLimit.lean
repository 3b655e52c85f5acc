import Mathlib.Data.Rat.Floor
import Mathlib.Tactic.FieldSimp
import Mathlib.Tactic.Linarith
import Mathlib.Tactic.Ring

/-!
# The rate limiter

The token bucket of the backfill (`ratelimit.rs`), with the clock passed in.  A reservation takes
its cost at once, so the balance may go below zero, and waits until the deficit has been refilled.
Seconds and tokens are exact rationals.  The debt of a bucket, what has been refilled by the clock
less the balance, grows by at least the cost of each reservation, and no request is issued before
the clock has refilled the debt.
-/

namespace Snapevent

/-- A token bucket. -/
structure RateLimiter where
  capacity : ℚ
  tokens : ℚ
  refillPerSec : ℚ
  lastNow : ℚ

/-- A reservation: the clock reading and the tokens it costs. -/
structure Reservation where
  now : ℚ
  cost : ℚ

/-- A request as it goes out. -/
structure IssuedRequest where
  time : ℚ
  cost : ℚ

namespace RateLimiter

/-- A full bucket. -/
def new (capacity refillPerSec : ℚ) : RateLimiter :=
  { capacity, tokens := capacity, refillPerSec, lastNow := 0 }

/-- Refill for the time since the last reservation and take `cost` tokens; the second part is the
time to wait. -/
def reserve (l : RateLimiter) (now cost : ℚ) : RateLimiter × ℚ :=
  let elapsed := max (now - l.lastNow) 0
  let tokens := min (l.tokens + elapsed * l.refillPerSec) l.capacity - cost
  ({ l with tokens, lastNow := now }, if 0 ≤ tokens then 0 else -tokens / l.refillPerSec)

/-- The requests of some reservations, each issued when its wait is over. -/
def issue (l : RateLimiter) : List Reservation → List IssuedRequest
  | [] => []
  | r :: rs => ⟨r.now + (l.reserve r.now r.cost).2, r.cost⟩ ::
      (l.reserve r.now r.cost).1.issue rs

/-- The tokens that were refilled on the clock and are not in the bucket. -/
def debt (l : RateLimiter) : ℚ := l.refillPerSec * l.lastNow - l.tokens

/-! ## One reservation -/

section Step

variable {l : RateLimiter} (hrate : 0 < l.refillPerSec) {now : ℚ} (cost : ℚ)

theorem debt_reserve (hnow : l.lastNow ≤ now) :
    l.debt + cost ≤ (l.reserve now cost).1.debt := by
  have hmin := min_le_left (l.tokens + (now - l.lastNow) * l.refillPerSec) l.capacity
  rw [debt, debt, reserve]
  dsimp only
  rw [max_eq_left (by linarith)]
  linarith

theorem clock_le_debt_reserve (now : ℚ) :
    l.refillPerSec * now - l.capacity + cost ≤ (l.reserve now cost).1.debt := by
  have hmin := min_le_right (l.tokens + max (now - l.lastNow) 0 * l.refillPerSec) l.capacity
  rw [debt, reserve]
  dsimp only
  linarith

include hrate

/-- A request goes out as soon as the clock has been read and has refilled the debt. -/
theorem refill_issue_time (now : ℚ) : l.refillPerSec * (now + (l.reserve now cost).2) =
    max (l.refillPerSec * now) (l.reserve now cost).1.debt := by
  rw [debt, reserve]
  dsimp only
  generalize min (l.tokens + _) l.capacity = tokens
  split_ifs with htokens
  · rw [add_zero, max_eq_left (by linarith)]
  · rw [max_eq_right (by linarith), mul_add, mul_div_cancel₀ _ hrate.ne']
    ring

end Step

/-! ## A run of reservations -/

section Run

variable {l : RateLimiter} (hrate : 0 < l.refillPerSec) {calls : List Reservation}
  (hclock : (l.lastNow :: calls.map Reservation.now).Pairwise (· ≤ ·))
  (hcost : ∀ r ∈ calls, 0 ≤ r.cost)

include hrate hclock hcost

theorem not_before_of_mem_issue {q : IssuedRequest} (hq : q ∈ l.issue calls) :
    l.lastNow ≤ q.time ∧ l.debt ≤ l.refillPerSec * q.time := by
  induction calls generalizing l with
  | nil => simp [issue] at hq
  | cons r rs ih =>
    rw [List.map_cons, List.pairwise_cons] at hclock
    have hnow : l.lastNow ≤ r.now := hclock.1 _ List.mem_cons_self
    have hdebt := debt_reserve r.cost hnow
    have hpos := hcost r List.mem_cons_self
    rw [issue, List.mem_cons] at hq
    rcases hq with rfl | hq
    · have htime := refill_issue_time hrate r.cost r.now
      have hread := le_max_left (l.refillPerSec * r.now) (l.reserve r.now r.cost).1.debt
      have howed := le_max_right (l.refillPerSec * r.now) (l.reserve r.now r.cost).1.debt
      rw [← htime] at hread howed
      exact ⟨hnow.trans (le_of_mul_le_mul_left hread hrate), by linarith⟩
    · obtain ⟨hlast, howed⟩ := ih (l := (l.reserve r.now r.cost).1) hrate hclock.2
        (fun x hx => hcost x (List.mem_cons_of_mem _ hx)) hq
      exact ⟨hnow.trans hlast, le_trans (by linarith) howed⟩

theorem pairwise_issue : ((l.issue calls).map IssuedRequest.time).Pairwise (· ≤ ·) := by
  induction calls generalizing l with
  | nil => exact List.Pairwise.nil
  | cons r rs ih =>
    rw [List.map_cons, List.pairwise_cons] at hclock
    have hrest := fun x (hx : x ∈ rs) => hcost x (List.mem_cons_of_mem _ hx)
    rw [issue, List.map_cons, List.pairwise_cons]
    refine ⟨fun t ht => ?_, ih (l := (l.reserve r.now r.cost).1) hrate hclock.2 hrest⟩
    obtain ⟨q, hq, rfl⟩ := List.mem_map.mp ht
    obtain ⟨hlast, howed⟩ := not_before_of_mem_issue
      (l := (l.reserve r.now r.cost).1) hrate hclock.2 hrest hq
    refine le_of_mul_le_mul_left ?_ hrate
    rw [refill_issue_time hrate]
    exact max_le (mul_le_mul_of_nonneg_left hlast hrate.le) howed

/-- What goes out up to a time that has refilled the debt is refilled by that time as well. -/
theorem debt_add_cost_le {b : ℚ} (hb : l.debt ≤ l.refillPerSec * b) :
    l.debt + (((l.issue calls).filter fun q => q.time ≤ b).map IssuedRequest.cost).sum ≤
      l.refillPerSec * b := by
  induction calls generalizing l with
  | nil => simpa [issue] using hb
  | cons r rs ih =>
    rw [List.map_cons, List.pairwise_cons] at hclock
    have hrest := fun x (hx : x ∈ rs) => hcost x (List.mem_cons_of_mem _ hx)
    have hdebt := debt_reserve r.cost (hclock.1 _ List.mem_cons_self)
    have hpos := hcost r List.mem_cons_self
    have htime := refill_issue_time hrate r.cost r.now
    have howed := le_max_right (l.refillPerSec * r.now) (l.reserve r.now r.cost).1.debt
    rw [← htime] at howed
    rw [issue]
    by_cases hafter : (l.reserve r.now r.cost).1.debt ≤ l.refillPerSec * b
    · have hrun := ih (l := (l.reserve r.now r.cost).1) hrate hclock.2 hrest hafter
      change _ ≤ l.refillPerSec * b at hrun
      by_cases hq : r.now + (l.reserve r.now r.cost).2 ≤ b
      · rw [List.filter_cons_of_pos (by simpa using hq), List.map_cons, List.sum_cons]
        linarith
      · rw [List.filter_cons_of_neg (by simpa using hq)]
        linarith
    · -- Neither this request nor a later one is out by then.
      have hlate : l.refillPerSec * b < l.refillPerSec * (r.now + (l.reserve r.now r.cost).2) := by
        linarith
      have hnone : ((l.reserve r.now r.cost).1.issue rs).filter (fun q => q.time ≤ b) = [] := by
        refine List.filter_eq_nil_iff.mpr fun q hq hqb => hafter ?_
        have hq := not_before_of_mem_issue (l := (l.reserve r.now r.cost).1) hrate hclock.2 hrest hq
        exact hq.2.trans (mul_le_mul_of_nonneg_left (of_decide_eq_true hqb) hrate.le)
      rw [List.filter_cons_of_neg (by simpa using lt_of_mul_lt_mul_left hlate hrate.le), hnone]
      simpa using hb

/-- The cost of what goes out in a closed interval. -/
theorem cost_between_le (hcap : ∀ r ∈ calls, r.cost ≤ l.capacity) (hfull : 0 ≤ l.capacity)
    {a b : ℚ} (hab : a ≤ b) :
    (((l.issue calls).filter fun q => a ≤ q.time ∧ q.time ≤ b).map IssuedRequest.cost).sum ≤
      l.capacity + l.refillPerSec * (b - a) := by
  induction calls generalizing l with
  | nil =>
    have hspan := mul_nonneg hrate.le (sub_nonneg.mpr hab)
    simp only [issue, List.filter_nil, List.map_nil, List.sum_nil]
    linarith
  | cons r rs ih =>
    have hsorted := pairwise_issue hrate hclock hcost
    rw [List.map_cons, List.pairwise_cons] at hclock
    rw [issue, List.map_cons, List.pairwise_cons] at hsorted
    have hrest := fun x (hx : x ∈ rs) => hcost x (List.mem_cons_of_mem _ hx)
    have hone := hcap r List.mem_cons_self
    have htime := refill_issue_time hrate r.cost r.now
    have howed := le_max_right (l.refillPerSec * r.now) (l.reserve r.now r.cost).1.debt
    rw [← htime] at howed
    set t := r.now + (l.reserve r.now r.cost).2
    have hskip := ih (l := (l.reserve r.now r.cost).1) hrate hclock.2 hrest
      (fun x hx => hcap x (List.mem_cons_of_mem _ hx)) hfull
    rw [issue]
    by_cases hq : a ≤ t ∧ t ≤ b
    · -- From here on `a` no longer matters, and the debt bounds the rest of the interval.
      have hfrom : ((l.reserve r.now r.cost).1.issue rs).filter
          (fun q => a ≤ q.time ∧ q.time ≤ b) =
          ((l.reserve r.now r.cost).1.issue rs).filter fun q => q.time ≤ b := by
        refine List.filter_congr fun q hmem => ?_
        have hlater := hsorted.1 _ (List.mem_map_of_mem hmem)
        simp only [hq.1.trans hlater, true_and]
      have hab' := mul_le_mul_of_nonneg_left hq.1 hrate.le
      have hb' := mul_le_mul_of_nonneg_left hq.2 hrate.le
      have hrun := debt_add_cost_le (l := (l.reserve r.now r.cost).1) hrate hclock.2 hrest
        (b := b) (howed.trans hb')
      change _ ≤ l.refillPerSec * b at hrun
      rw [List.filter_cons_of_pos (by simpa using hq), List.map_cons, List.sum_cons, hfrom, mul_sub]
      rcases max_choice (l.refillPerSec * r.now) (l.reserve r.now r.cost).1.debt with hmax | hmax
      · have hfill := clock_le_debt_reserve (l := l) r.cost r.now
        rw [hmax] at htime
        linarith
      · rw [hmax] at htime
        linarith
    · rw [List.filter_cons_of_neg (by simpa using hq)]
      exact hskip

end Run

/-! ## The budget -/

/-- From a full bucket the requests go out in the order of their reservations, and in no closed
interval do they cost more than the capacity and what the interval refills. -/
theorem rate_limiter_budget (capacity rate : ℚ) (hcapacity : 0 < capacity) (hrate : 0 < rate)
    (calls : List Reservation) (hclock : (calls.map Reservation.now).Pairwise (· ≤ ·))
    (hstart : ∀ r ∈ calls, 0 ≤ r.now) (hcost : ∀ r ∈ calls, 0 ≤ r.cost ∧ r.cost ≤ capacity) :
    (((new capacity rate).issue calls).map IssuedRequest.time).Pairwise (· ≤ ·) ∧
    ∀ a T : ℚ, 0 ≤ T →
      ((((new capacity rate).issue calls).filter fun q => a ≤ q.time ∧ q.time ≤ a + T).map
        IssuedRequest.cost).sum ≤ capacity + rate * T := by
  have hfrom : ((new capacity rate).lastNow :: calls.map Reservation.now).Pairwise (· ≤ ·) :=
    List.pairwise_cons.mpr ⟨List.forall_mem_map.mpr hstart, hclock⟩
  refine ⟨pairwise_issue hrate hfrom fun r hr => (hcost r hr).1, fun a T hT => ?_⟩
  have hbudget := cost_between_le (l := new capacity rate) hrate hfrom
    (fun r hr => (hcost r hr).1) (fun r hr => (hcost r hr).2) hcapacity.le
    (le_add_of_nonneg_right hT : a ≤ a + T)
  rwa [add_sub_cancel_left] at hbudget

/-- Three requests of cost one at one instant, with one token a tenth of a second. -/
theorem rate_limiter_budget_burst :
    (((new 1 10).issue [⟨0, 1⟩, ⟨0, 1⟩, ⟨0, 1⟩]).map IssuedRequest.time).Pairwise (· ≤ ·) ∧
    ∀ a T : ℚ, 0 ≤ T →
      ((((new 1 10).issue [⟨0, 1⟩, ⟨0, 1⟩, ⟨0, 1⟩]).filter fun q =>
        a ≤ q.time ∧ q.time ≤ a + T).map IssuedRequest.cost).sum ≤ 1 + 10 * T :=
  rate_limiter_budget 1 10 (by norm_num) (by norm_num) _ (by decide) (by decide) (by decide)

example : ((new 1 10).issue [⟨0, 1⟩, ⟨0, 1⟩, ⟨0, 1⟩]).map IssuedRequest.time =
    [0, 1 / 10, 2 / 10] := by
  decide +kernel

end RateLimiter

end Snapevent
