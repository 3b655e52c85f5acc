import Mathlib.Data.List.Induction
import Mathlib.Order.Basic
import Mathlib.Order.Lattice
import Mathlib.Tactic.SplitIfs

/-!
# Sorted association lists

A map as the list of its entries in strictly increasing key order: insertion replaces the entry of
an equal key.
-/

namespace SortedMap

variable {κ α : Type} [LinearOrder κ]

/-- The keys increase strictly. -/
def Sorted (l : List (κ × α)) : Prop := l.Pairwise fun a b => a.1 < b.1

/-- Set the value of a key to what `f` makes of its present one. -/
def upsert (k : κ) (f : Option α → α) : List (κ × α) → List (κ × α)
  | [] => [(k, f none)]
  | (k', v') :: l =>
    if k < k' then (k, f none) :: (k', v') :: l
    else if k = k' then (k, f (some v')) :: l
    else (k', v') :: upsert k f l

/-- Insert an entry, replacing the one with the same key. -/
def insert (k : κ) (v : α) (l : List (κ × α)) : List (κ × α) := upsert k (fun _ => v) l

/-- Insert the entries of a list one after another. -/
def insertAll (entries l : List (κ × α)) : List (κ × α) :=
  entries.foldl (fun l e => insert e.1 e.2 l) l

/-- The map of a list of entries. -/
def ofList (entries : List (κ × α)) : List (κ × α) := insertAll entries []

/-! ## What an insertion changes -/

section Upsert

variable {k : κ} {f : Option α → α} {l : List (κ × α)}

theorem mem_upsert {e : κ × α} (h : e ∈ upsert k f l) :
    e ∈ l ∨ e = (k, f none) ∨ ∃ v, (k, v) ∈ l ∧ e = (k, f (some v)) := by
  induction l with
  | nil => exact Or.inr (Or.inl (List.mem_singleton.1 h))
  | cons a l ih =>
    rw [upsert] at h
    split_ifs at h with hlt heq
    · cases List.mem_cons.1 h with
      | inl he => exact Or.inr (Or.inl he)
      | inr he => exact Or.inl he
    · cases List.mem_cons.1 h with
      | inl he => exact Or.inr (Or.inr ⟨a.2, by simp [heq], he⟩)
      | inr he => exact Or.inl (List.mem_cons_of_mem _ he)
    · cases List.mem_cons.1 h with
      | inl he => exact Or.inl (by simp [he])
      | inr he =>
        cases ih he with
        | inl hl => exact Or.inl (List.mem_cons_of_mem _ hl)
        | inr hnew =>
          refine Or.inr (hnew.imp_right ?_)
          rintro ⟨v, hv, hev⟩
          exact ⟨v, List.mem_cons_of_mem _ hv, hev⟩

theorem key_mem_upsert {e : κ × α} (h : e ∈ upsert k f l) : e.1 = k ∨ ∃ v, (e.1, v) ∈ l := by
  cases mem_upsert h with
  | inl hl => exact Or.inr ⟨e.2, hl⟩
  | inr hnew =>
    left
    cases hnew with
    | inl he => rw [he]
    | inr he =>
      obtain ⟨v, -, he⟩ := he
      rw [he]

theorem sorted_upsert (h : Sorted l) : Sorted (upsert k f l) := by
  induction l with
  | nil => exact List.pairwise_singleton _ _
  | cons a l ih =>
    obtain ⟨ha, hl⟩ := List.pairwise_cons.1 h
    rw [upsert]
    split_ifs with hlt heq
    · refine List.pairwise_cons.2 ⟨?_, h⟩
      intro e he
      cases List.mem_cons.1 he with
      | inl hea => rw [hea]; exact hlt
      | inr he => exact hlt.trans (ha e he)
    · refine List.pairwise_cons.2 ⟨?_, hl⟩
      intro e he
      show k < e.1
      rw [heq]
      exact ha e he
    · refine List.pairwise_cons.2 ⟨?_, ih hl⟩
      intro e he
      show a.1 < e.1
      cases key_mem_upsert he with
      | inl hek =>
        rw [hek]
        exact lt_of_le_of_ne (not_lt.1 hlt) (Ne.symm heq)
      | inr he =>
        obtain ⟨v, hv⟩ := he
        exact ha (e.1, v) hv

/-- An update of a key to a value with more elements adds those elements. -/
theorem flatMap_upsert {β : Type} {g : α → List β} {new : List β} (hnone : g (f none) = new)
    (hsome : ∀ v, g (f (some v)) = g v ++ new) (l : List (κ × α)) :
    ((upsert k f l).flatMap fun e => g e.2).Perm ((l.flatMap fun e => g e.2) ++ new) := by
  induction l with
  | nil =>
    rw [upsert, List.flatMap_singleton, hnone]
    exact .refl _
  | cons a l ih =>
    rw [upsert]
    split_ifs with hlt heq
    · rw [List.flatMap_cons, hnone]
      exact List.perm_append_comm
    · rw [List.flatMap_cons, List.flatMap_cons, hsome, List.append_assoc, List.append_assoc]
      exact List.perm_append_comm.append_left _
    · rw [List.flatMap_cons, List.flatMap_cons, List.append_assoc]
      exact ih.append_left _

/-- What holds of the value of a key after an update that makes it hold for one more reason. -/
theorem exists_mem_upsert {P : α → Prop} {Q : Prop} (hnone : P (f none) ↔ Q)
    (hsome : ∀ v, P (f (some v)) ↔ P v ∨ Q) (l : List (κ × α)) (k' : κ) :
    (∃ v, (k', v) ∈ upsert k f l ∧ P v) ↔ (∃ v, (k', v) ∈ l ∧ P v) ∨ k' = k ∧ Q := by
  induction l with
  | nil => simp [upsert, hnone]
  | cons a l ih =>
    obtain ⟨k₀, v₀⟩ := a
    rw [upsert]
    split_ifs with hlt heq
    · simp only [List.mem_cons, Prod.mk.injEq, or_and_right, exists_or, and_assoc,
        exists_and_left, exists_eq_left, hnone]
      exact or_comm
    · subst heq
      simp only [List.mem_cons, Prod.mk.injEq, or_and_right, exists_or, and_assoc,
        exists_and_left, exists_eq_left, hsome]
      rw [and_or_left, or_right_comm]
    · simp only [List.mem_cons, or_and_right, exists_or, ih, or_assoc]

end Upsert

theorem mem_insert {k : κ} {v : α} {l : List (κ × α)} {e : κ × α} (h : e ∈ insert k v l) :
    e ∈ l ∨ e = (k, v) := by
  refine (mem_upsert h).imp_right ?_
  rintro (he | ⟨w, -, he⟩)
  · exact he
  · exact he

theorem mem_insertAll {entries l : List (κ × α)} {e : κ × α} (h : e ∈ insertAll entries l) :
    e ∈ l ∨ e ∈ entries := by
  induction entries generalizing l with
  | nil => exact Or.inl h
  | cons a entries ih =>
    cases ih h with
    | inl hl =>
      refine (mem_insert hl).imp_right fun he => ?_
      rw [he]
      exact List.mem_cons_self
    | inr hr => exact Or.inr (List.mem_cons_of_mem _ hr)

theorem sorted_insertAll {entries l : List (κ × α)} (h : Sorted l) :
    Sorted (insertAll entries l) := by
  induction entries generalizing l with
  | nil => exact h
  | cons a entries ih => exact ih (sorted_upsert h)

/-- What the entries of a map are after an update. -/
theorem mem_upsert_iff {k k' : κ} {v : α} {f : Option α → α} {l : List (κ × α)} (h : Sorted l) :
    (k', v) ∈ upsert k f l ↔ (k' ≠ k ∧ (k', v) ∈ l) ∨
      (k' = k ∧ ((∃ w, (k, w) ∈ l ∧ v = f (some w)) ∨ (∀ w, (k, w) ∉ l) ∧ v = f none)) := by
  induction l with
  | nil => simp [upsert, eq_comm]
  | cons a l ih =>
    obtain ⟨k₀, v₀⟩ := a
    obtain ⟨hlt₀, hl⟩ := List.pairwise_cons.1 h
    have ih := ih hl
    rw [upsert]
    split_ifs with hlt heq
    · have hnone : ∀ w, (k, w) ∉ (k₀, v₀) :: l := by
        intro w hw
        rcases List.mem_cons.1 hw with hw | hw
        · exact hlt.ne (Prod.mk.inj hw).1
        · exact (hlt.trans (hlt₀ _ hw)).ne rfl
      rw [List.mem_cons, Prod.mk.injEq]
      constructor
      · rintro (⟨rfl, rfl⟩ | hmem)
        · exact Or.inr ⟨rfl, Or.inr ⟨hnone, rfl⟩⟩
        · exact Or.inl ⟨fun heq => hnone v (heq ▸ hmem), hmem⟩
      · rintro (⟨-, hmem⟩ | ⟨rfl, ⟨w, hw, -⟩ | ⟨-, rfl⟩⟩)
        · exact Or.inr hmem
        · exact absurd hw (hnone w)
        · exact Or.inl ⟨rfl, rfl⟩
    · subst heq
      have hnot : ∀ w, (k, w) ∉ l := fun w hw => (hlt₀ _ hw).ne rfl
      simp only [List.mem_cons, Prod.mk.injEq]
      constructor
      · rintro (⟨rfl, rfl⟩ | hmem)
        · exact Or.inr ⟨rfl, Or.inl ⟨v₀, Or.inl ⟨trivial, rfl⟩, rfl⟩⟩
        · exact Or.inl ⟨fun heq => hnot v (heq ▸ hmem), Or.inr hmem⟩
      · rintro (⟨hne, ⟨rfl, -⟩ | hmem⟩ | ⟨rfl, ⟨w, ⟨-, rfl⟩ | hw, rfl⟩ | ⟨hnone, -⟩⟩)
        · exact absurd rfl hne
        · exact Or.inr hmem
        · exact Or.inl ⟨rfl, rfl⟩
        · exact absurd hw (hnot w)
        · exact absurd (Or.inl ⟨trivial, rfl⟩) (hnone v₀)
    · rw [List.mem_cons, ih]
      simp only [List.mem_cons, Prod.mk.injEq, heq, false_and, false_or]
      by_cases hk : k' = k₀ ∧ v = v₀
      · obtain ⟨rfl, rfl⟩ := hk
        simp [Ne.symm heq]
      · simp [hk]

theorem Sorted.nodup_keys {l : List (κ × α)} (h : Sorted l) : (l.map (·.1)).Nodup := by
  rw [List.Nodup, List.pairwise_map]
  exact h.imp fun hlt => hlt.ne

theorem insert_of_forall_lt {k : κ} {v : α} {l : List (κ × α)} (h : ∀ e ∈ l, e.1 < k) :
    insert k v l = l ++ [(k, v)] := by
  induction l with
  | nil => rfl
  | cons e l ih =>
    have hlt : e.1 < k := h e List.mem_cons_self
    have hrest : upsert k (fun _ => v) l = l ++ [(k, v)] :=
      ih fun e he => h e (List.mem_cons_of_mem _ he)
    rw [insert, upsert, if_neg (not_lt.2 hlt.le), if_neg hlt.ne', hrest, List.cons_append]

theorem ofList_of_sorted {l : List (κ × α)} (h : Sorted l) : ofList l = l := by
  induction l using List.reverseRecOn with
  | nil => rfl
  | append_singleton l e ih =>
    rw [Sorted, List.pairwise_append] at h
    rw [ofList, insertAll, List.foldl_append, List.foldl_cons, List.foldl_nil]
    show insert e.1 e.2 (ofList l) = _
    rw [ih h.1, insert_of_forall_lt fun a ha => h.2.2 a ha e (by simp)]

end SortedMap
