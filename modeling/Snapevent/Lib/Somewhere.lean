import Mathlib.Data.List.Basic

/-!
# Somewhere in a list

A property of an element and of what stands before it, holding of some element of a list; and where
an element of a filtered list stands in the list itself.
-/

/-- `P` holds of some element of the list and of what stands before it. -/
def Somewhere {α : Type*} (P : List α → α → Prop) (l : List α) : Prop :=
  ∃ pre x post, l = pre ++ x :: post ∧ P pre x

namespace Somewhere

variable {α : Type*} {P : List α → α → Prop} {l : List α} {x : α}

theorem nil : ¬ Somewhere P [] := by
  rintro ⟨pre, x, post, h, -⟩
  simp at h

theorem concat : Somewhere P (l ++ [x]) ↔ Somewhere P l ∨ P l x := by
  constructor
  · rintro ⟨pre, y, post, hl, hP⟩
    rcases post.eq_nil_or_concat with rfl | ⟨post, z, rfl⟩
    · obtain ⟨rfl, hx⟩ := List.append_inj' hl rfl
      cases hx
      exact Or.inr hP
    · rw [List.concat_eq_append, ← List.cons_append, ← List.append_assoc] at hl
      obtain ⟨rfl, -⟩ := List.append_inj' hl rfl
      exact Or.inl ⟨pre, y, post, rfl, hP⟩
  · rintro (⟨pre, y, post, rfl, hP⟩ | hP)
    · exact ⟨pre, y, post ++ [x], by simp, hP⟩
    · exact ⟨l, x, [], rfl, hP⟩

end Somewhere

/-- An element of a filtered list comes from one of the list, with the filtered rest on both
sides. -/
theorem List.exists_split_of_filterMap {α β : Type*} {f : α → Option β} {l : List α} {p q : List β}
    {y : β} (h : l.filterMap f = p ++ y :: q) : ∃ pre x post, l = pre ++ x :: post ∧
      pre.filterMap f = p ∧ f x = some y ∧ post.filterMap f = q := by
  obtain ⟨before, rest, rfl, hbefore, hrest⟩ := List.filterMap_eq_append_iff.1 h
  obtain ⟨skipped, x, post, rfl, hskipped, hx, hpost⟩ := List.filterMap_eq_cons_iff.1 hrest
  refine ⟨before ++ skipped, x, post, by simp, ?_, hx, hpost⟩
  rw [List.filterMap_append, hbefore, List.filterMap_eq_nil_iff.2 hskipped, List.append_nil]

/-- Two different elements of a list stand one before the other. -/
theorem List.split_of_ne {α : Type*} {pre post before after : List α} {x y : α} (hne : x ≠ y)
    (h : pre ++ x :: post = before ++ y :: after) :
    (∃ mid, before = pre ++ x :: mid ∧ post = mid ++ y :: after) ∨
      ∃ mid, pre = before ++ y :: mid ∧ after = mid ++ x :: post := by
  rcases List.append_eq_append_iff.1 h with ⟨mid, hbefore, hmid⟩ | ⟨mid, hpre, hmid⟩
  · cases mid with
    | nil => exact absurd (List.cons.inj hmid).1 hne
    | cons z mid =>
      obtain ⟨rfl, hpost⟩ := List.cons.inj hmid
      exact Or.inl ⟨mid, hbefore, hpost⟩
  · cases mid with
    | nil => exact absurd (List.cons.inj hmid).1.symm hne
    | cons z mid =>
      obtain ⟨rfl, hafter⟩ := List.cons.inj hmid
      exact Or.inr ⟨mid, hpre, hafter⟩

theorem List.split_of_getElem? {α : Type*} {l : List α} {n : ℕ} {x : α} (h : l[n]? = some x) :
    ∃ before after, l = before ++ x :: after ∧ before.length = n := by
  obtain ⟨hlt, hget⟩ := List.getElem?_eq_some_iff.1 h
  refine ⟨l.take n, l.drop (n + 1), ?_, List.length_take_of_le (Nat.le_of_lt hlt)⟩
  rw [← hget, List.getElem_cons_drop, List.take_append_drop]

/-- An element of a flattened list stands in one of its parts. -/
theorem List.exists_split_of_flatMap {α β : Type*} {f : α → List β} {l : List α}
    {before after : List β} {y : β} (h : l.flatMap f = before ++ y :: after) :
    ∃ pre a post part rest, l = pre ++ a :: post ∧ f a = part ++ y :: rest ∧
      before = pre.flatMap f ++ part := by
  induction l generalizing before with
  | nil => simp at h
  | cons a l ih =>
    rw [List.flatMap_cons] at h
    rcases List.append_eq_append_iff.1 h with ⟨skipped, rfl, hl⟩ | ⟨found, hfa, hfound⟩
    · obtain ⟨pre, b, post, part, rest, rfl, hb, rfl⟩ := ih hl
      exact ⟨a :: pre, b, post, part, rest, rfl, hb, by simp⟩
    · cases found with
      | nil =>
        obtain ⟨pre, b, post, part, rest, rfl, hb, hpre⟩ := @ih [] hfound.symm
        refine ⟨a :: pre, b, post, part, rest, rfl, hb, ?_⟩
        rw [List.flatMap_cons, List.append_assoc, ← hpre, List.append_nil, hfa, List.append_nil]
      | cons z found =>
        obtain ⟨rfl, -⟩ := List.cons.inj hfound
        exact ⟨[], a, l, before, found, rfl, hfa, rfl⟩

theorem List.prefix_of_not_mem {α : Type*} {l before after : List α} {x : α}
    (h : l <+: before ++ x :: after) (hx : x ∉ l) : l <+: before := by
  obtain ⟨rest, hrest⟩ := h
  rcases List.append_eq_append_iff.1 hrest with ⟨mid, hbefore, -⟩ | ⟨mid, hl, hmid⟩
  · exact ⟨mid, hbefore.symm⟩
  · cases mid with
    | nil => exact ⟨[], by rw [hl, List.append_nil, List.append_nil]⟩
    | cons z mid =>
      obtain ⟨rfl, -⟩ := List.cons.inj hmid
      simp [hl] at hx
