import Mathlib.Data.List.Flatten
import Mathlib.Data.List.Forall2

/-!
# Folds that may fail

What a successful fold over `Except` has collected: a part of the state that every successful step
extends on the right holds, in the end, what all the steps added.
-/

namespace FoldM

universe u

variable {ε α β : Type*} {σ τ : Type u} {f : σ → α → Except ε σ}

theorem bind_ok {x : Except ε σ} {g : σ → Except ε τ} {b : τ} (h : x >>= g = .ok b) :
    ∃ a, x = .ok a ∧ g a = .ok b := by
  cases x with
  | error e => cases h
  | ok a => exact ⟨a, rfl, h⟩

theorem cons_ok {s s' : σ} {x : α} {xs : List α} (h : (x :: xs).foldlM f s = .ok s') :
    ∃ t, f s x = .ok t ∧ xs.foldlM f t = .ok s' := by
  rw [List.foldlM_cons] at h
  exact bind_ok h

/-- A component that every step appends to collects what the steps append. -/
theorem collect {get : σ → List β} {add : α → List β}
    (hstep : ∀ s x s', f s x = .ok s' → get s' = get s ++ add x) {xs : List α} {s s' : σ}
    (h : xs.foldlM f s = .ok s') : get s' = get s ++ xs.flatMap add := by
  induction xs generalizing s with
  | nil =>
    cases h
    simp
  | cons x xs ih =>
    obtain ⟨t, hx, ht⟩ := cons_ok h
    rw [ih ht, hstep s x t hx, List.flatMap_cons, List.append_assoc]

theorem forall_mem {P : α → Prop} (hstep : ∀ s x s', f s x = .ok s' → P x) {xs : List α} {s s' : σ}
    (h : xs.foldlM f s = .ok s') : ∀ x ∈ xs, P x := by
  induction xs generalizing s with
  | nil => simp
  | cons x xs ih =>
    obtain ⟨t, hx, ht⟩ := cons_ok h
    exact List.forall_mem_cons.2 ⟨hstep s x t hx, ih ht⟩

theorem exists_ok {xs : List α} (h : ∀ x ∈ xs, ∀ s, ∃ s', f s x = .ok s') (s : σ) :
    ∃ s', xs.foldlM f s = .ok s' := by
  induction xs generalizing s with
  | nil => exact ⟨s, rfl⟩
  | cons x xs ih =>
    obtain ⟨hx, hxs⟩ := List.forall_mem_cons.1 h
    obtain ⟨t, ht⟩ := hx s
    rw [List.foldlM_cons, ht]
    exact ih hxs t

/-- What every successful step preserves, as its element joins those already used, holds after a
successful fold. -/
theorem invariant {P : σ → List α → Prop}
    (hstep : ∀ {s used x s'}, P s used → f s x = .ok s' → P s' (used ++ [x])) {xs used : List α}
    {s s' : σ} (hs : P s used) (h : xs.foldlM f s = .ok s') : P s' (used ++ xs) := by
  induction xs generalizing s used with
  | nil =>
    cases h
    simpa using hs
  | cons x xs ih =>
    obtain ⟨t, hx, ht⟩ := cons_ok h
    simpa using ih (hstep hs hx) ht

/-- The state of a computation that ends in one either way. -/
def last : Except σ σ → σ
  | .ok s => s
  | .error s => s

/-- What relates every step to the state it ends in, failed or not, relates a whole fold to its. -/
theorem last_foldlM {R : σ → σ → Prop} (hrefl : ∀ s, R s s)
    (htrans : ∀ {a b c}, R a b → R b c → R a c) {f : σ → α → Except σ σ}
    (hstep : ∀ s x, R s (last (f s x))) (xs : List α) (s : σ) : R s (last (xs.foldlM f s)) := by
  induction xs generalizing s with
  | nil => exact hrefl s
  | cons x xs ih =>
    have hx := hstep s x
    rw [List.foldlM_cons]
    cases hf : f s x with
    | error e =>
      rw [hf] at hx
      exact hx
    | ok t =>
      rw [hf] at hx
      exact htrans hx (ih t)

theorem mapM_ok_iff {f : α → Except ε τ} {r : α → τ → Prop} (hf : ∀ a b, f a = .ok b ↔ r a b)
    {xs : List α} {ys : List τ} : xs.mapM f = .ok ys ↔ List.Forall₂ r xs ys := by
  induction xs generalizing ys with
  | nil =>
    rw [List.mapM_nil, List.forall₂_nil_left_iff]
    constructor
    · intro h
      cases h
      rfl
    · intro h
      rw [h]
      rfl
  | cons x xs ih =>
    rw [List.mapM_cons]
    constructor
    · intro h
      obtain ⟨y, hy, h⟩ := bind_ok h
      obtain ⟨ys', hys, h⟩ := bind_ok h
      cases h
      exact .cons ((hf x y).1 hy) (ih.1 hys)
    · intro h
      cases h with
      | cons hxy hxs =>
        rw [(hf x _).2 hxy, ih.2 hxs]
        rfl

theorem exists_mapM_some {f : α → Option τ} {xs : List α} (h : ∀ x ∈ xs, ∃ y, f x = some y) :
    ∃ ys, xs.mapM f = some ys := by
  induction xs with
  | nil => exact ⟨[], rfl⟩
  | cons x xs ih =>
    obtain ⟨y, hy⟩ := h x List.mem_cons_self
    obtain ⟨ys, hys⟩ := ih fun z hz => h z (List.mem_cons_of_mem x hz)
    refine ⟨y :: ys, ?_⟩
    rw [List.mapM_cons, hy, hys]
    rfl

end FoldM
