import Mathlib.Logic.Function.Basic

/-!
# Machines

A machine has an initial state and makes steps, each an action of the program or of what is around
it.  What an environment promises is a condition on the actions it lets happen in a state; a
property that every allowed step keeps holds in every state that is reached.  Processes that come
and go are a map from their numbers.
-/

universe u v

/-- A machine with states in `σ` and actions in `α`. -/
structure Machine (σ : Type u) (α : Type v) where
  init : σ
  Step : σ → α → σ → Prop

namespace Machine

variable {σ : Type u} {α : Type v} {m : Machine σ α} {allowed allowed' : σ → α → Prop} {s s' : σ}

/-- What is reached by steps of which each is allowed where it is made. -/
inductive Reachable (m : Machine σ α) (allowed : σ → α → Prop) : σ → Prop
  | init : Reachable m allowed m.init
  | step {s a s'} (h : Reachable m allowed s) (hs : m.Step s a s') (ha : allowed s a) :
    Reachable m allowed s'

/-- A condition on the actions that forbids none. -/
def always : σ → α → Prop := fun _ _ => True

theorem Reachable.mono (himp : ∀ s a, allowed s a → allowed' s a) (h : Reachable m allowed s) :
    Reachable m allowed' s := by
  induction h with
  | init => exact .init
  | step _ hs ha ih => exact ih.step hs (himp _ _ ha)

/-- The property holds initially, and every allowed step from a reached state keeps it. -/
structure Invariant (m : Machine σ α) (allowed : σ → α → Prop) (P : σ → Prop) : Prop where
  init : P m.init
  step : ∀ {s a s'}, Reachable m allowed s → P s → allowed s a → m.Step s a s' → P s'

theorem Invariant.holds {P : σ → Prop} (hP : Invariant m allowed P) (h : Reachable m allowed s) :
    P s := by
  induction h with
  | init => exact hP.init
  | step h hs ha ih => exact hP.step h ih ha hs

/-! ## Processes that come and go -/

section Processes

variable {ι : Type u} {β : Type v} [DecidableEq ι] {f : ι → Option β} {i k : ι} {v r : β}

theorem update_some_eq_some : Function.update f i (some v) k = some r ↔
    (k = i ∧ v = r) ∨ (k ≠ i ∧ f k = some r) := by
  by_cases h : k = i
  · subst h
    simp
  · simp [h]

theorem update_none_eq_some : Function.update f i none k = some r ↔ k ≠ i ∧ f k = some r := by
  by_cases h : k = i
  · subst h
    simp
  · simp [h]

end Processes

end Machine
