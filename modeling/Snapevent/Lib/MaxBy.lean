import Mathlib.Order.Lattice
import Mathlib.Data.List.Nodup

/-!
# The greatest element by a key

The element a scan keeps that goes on to the next one unless the one it has is greater.  When no two
elements have one key it does not depend on the order of the scan.
-/

namespace MaxBy

variable {α κ : Type*} [LinearOrder κ] {key : α → κ} {l l' : List α} {a b : α}

/-- The better of the element so far and the next one. -/
def better (key : α → κ) (best x : α) : α := if key x < key best then best else x

/-- The last of the elements with the greatest key. -/
def maxBy (key : α → κ) : List α → Option α
  | [] => none
  | a :: l => some (l.foldl (better key) a)

theorem le_better_left (key : α → κ) (a b : α) : key a ≤ key (better key a b) := by
  rw [better]
  split_ifs with h
  · exact le_rfl
  · exact not_lt.1 h

theorem le_better_right (key : α → κ) (a b : α) : key b ≤ key (better key a b) := by
  rw [better]
  split_ifs with h
  · exact h.le
  · exact le_rfl

theorem foldl_better_mem (key : α → κ) (a : α) (l : List α) : l.foldl (better key) a ∈ a :: l := by
  induction l generalizing a with
  | nil => exact List.mem_cons_self
  | cons b l ih =>
    rcases List.mem_cons.1 (ih (better key a b)) with h | h
    · rw [List.foldl_cons, h, better]
      split_ifs
      · exact List.mem_cons_self
      · exact List.mem_cons_of_mem _ List.mem_cons_self
    · exact List.mem_cons_of_mem _ (List.mem_cons_of_mem _ h)

theorem le_foldl_better (key : α → κ) (a : α) (l : List α) :
    ∀ b ∈ a :: l, key b ≤ key (l.foldl (better key) a) := by
  induction l generalizing a with
  | nil => simp
  | cons c l ih =>
    intro b hb
    have hc := ih (better key a c) _ List.mem_cons_self
    rcases List.mem_cons.1 hb with rfl | hb
    · exact (le_better_left key b c).trans hc
    · rcases List.mem_cons.1 hb with rfl | hb
      · exact (le_better_right key a b).trans hc
      · exact ih _ b (List.mem_cons_of_mem _ hb)

theorem maxBy_eq_none : maxBy key l = none ↔ l = [] := by
  cases l <;> simp [maxBy]

theorem maxBy_mem (h : maxBy key l = some a) : a ∈ l := by
  cases l with
  | nil => cases h
  | cons b l =>
    cases h
    exact foldl_better_mem key b l

theorem le_maxBy (h : maxBy key l = some a) (hb : b ∈ l) : key b ≤ key a := by
  cases l with
  | nil => cases h
  | cons c l =>
    cases h
    exact le_foldl_better key c l b hb

theorem maxBy_eq_some_iff (hl : (l.map key).Nodup) :
    maxBy key l = some a ↔ a ∈ l ∧ ∀ b ∈ l, key b ≤ key a := by
  refine ⟨fun h => ⟨maxBy_mem h, fun b hb => le_maxBy h hb⟩, fun ⟨ha, hle⟩ => ?_⟩
  cases h : maxBy key l with
  | none =>
    rw [maxBy_eq_none.1 h] at ha
    cases ha
  | some b =>
    have hkey := le_antisymm (le_maxBy h ha) (hle b (maxBy_mem h))
    rw [List.inj_on_of_nodup_map hl ha (maxBy_mem h) hkey]

end MaxBy
