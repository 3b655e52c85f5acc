import Mathlib.Data.List.MinMax
import Mathlib.Data.List.Pairwise
import Mathlib.Data.List.Sort

/-!
# Sorting by a key

A stable sort of a list by a key, the least element with a property, and the uniqueness of a sorted
list whose keys are distinct.
-/

namespace KeySort

variable {α κ : Type*} [LinearOrder κ] (key : α → κ)

/-- The stable sort by `key`. -/
def sortOn (l : List α) : List α := l.insertionSort fun a b => key a ≤ key b

instance total_le : Std.Total fun a b : α => key a ≤ key b := ⟨fun a b => le_total (key a) (key b)⟩

instance symm_ne : Std.Symm fun a b : α => key a ≠ key b := ⟨fun _ _ => Ne.symm⟩

instance isTrans_le : IsTrans α fun a b : α => key a ≤ key b := ⟨fun _ _ _ => le_trans⟩

theorem sortOn_sorted (l : List α) : (sortOn key l).Pairwise fun a b => key a ≤ key b :=
  List.pairwise_insertionSort _ l

theorem sortOn_perm (l : List α) : (sortOn key l).Perm l := List.perm_insertionSort _ l

@[simp] theorem mem_sortOn {l : List α} {a : α} : a ∈ sortOn key l ↔ a ∈ l :=
  (sortOn_perm key l).mem_iff

theorem filter_sortOn (l : List α) (k : κ) :
    (sortOn key l).filter (key · = k) = l.filter (key · = k) := by
  have hsorted : (l.filter (key · = k)).Pairwise fun a b => key a ≤ key b := by
    refine List.pairwise_of_forall_mem_list fun a ha b hb => ?_
    rw [of_decide_eq_true (List.mem_filter.1 ha).2, of_decide_eq_true (List.mem_filter.1 hb).2]
  have hsub : (l.filter (key · = k)).Sublist (sortOn key l) :=
    List.sublist_insertionSort hsorted List.filter_sublist
  have hfilter := hsub.filter (key · = k)
  rw [List.filter_filter] at hfilter
  simp only [Bool.and_self] at hfilter
  exact (hfilter.eq_of_length_le ((sortOn_perm key l).filter _).length_eq.le).symm

/-- A relation between elements of one key is a relation inside every class of equal keys. -/
theorem pairwise_sameKey_iff {R : α → α → Prop} (l : List α) :
    (l.Pairwise fun a b => key a = key b → R a b) ↔
      ∀ k, (l.filter (key · = k)).Pairwise R := by
  induction l with
  | nil => simp
  | cons a l ih =>
    rw [List.pairwise_cons, ih]
    constructor
    · rintro ⟨ha, hl⟩ k
      rw [List.filter_cons]
      split_ifs with hk
      · refine List.pairwise_cons.2 ⟨fun b hb => ?_, hl k⟩
        obtain ⟨hb, hbk⟩ := List.mem_filter.1 hb
        exact ha b hb ((of_decide_eq_true hk).trans (of_decide_eq_true hbk).symm)
      · exact hl k
    · intro h
      refine ⟨fun b hb hab => ?_, fun k => ?_⟩
      · have hk := h (key a)
        rw [List.filter_cons, if_pos (decide_eq_true rfl)] at hk
        exact List.rel_of_pairwise_cons hk (List.mem_filter.2 ⟨hb, decide_eq_true hab.symm⟩)
      · have hk := h k
        rw [List.filter_cons] at hk
        split_ifs at hk with hak
        · exact (List.pairwise_cons.1 hk).2
        · exact hk

/-- A stable sort keeps the order of elements of one key, and no more. -/
theorem sortOn_sameKey_iff {R : α → α → Prop} (l : List α) :
    ((sortOn key l).Pairwise fun a b => key a = key b → R a b) ↔
      l.Pairwise fun a b => key a = key b → R a b := by
  simp only [pairwise_sameKey_iff, filter_sortOn]

/-- The element of least key among those of `l` with the property `p`. -/
structure LeastWith (p : α → Bool) (l : List α) (a : α) : Prop where
  mem : a ∈ l
  holds : p a
  le : ∀ b ∈ l, p b → key a ≤ key b

variable {key} {p : α → Bool} {l l' : List α} {a : α}

theorem leastWith_of_find? (h : (sortOn key l).find? p = some a) : LeastWith key p l a := by
  obtain ⟨hp, before, after, hsplit, hbefore⟩ := List.find?_eq_some_iff_append.1 h
  have hsorted := sortOn_sorted key l
  rw [hsplit] at hsorted
  refine ⟨(mem_sortOn key).1 (by simp [hsplit]), hp, fun b hb hpb => ?_⟩
  rw [← mem_sortOn key, hsplit] at hb
  rcases List.mem_append.1 hb with hb | hb
  · simpa [hpb] using hbefore b hb
  · rcases List.mem_cons.1 hb with rfl | hb
    · exact le_rfl
    · exact (List.pairwise_cons.1 (List.pairwise_append.1 hsorted).2.1).1 b hb

variable (key) in
theorem find?_sortOn_isSome (h : ∃ b ∈ l, p b) : ∃ a, (sortOn key l).find? p = some a := by
  obtain ⟨b, hb, hp⟩ := h
  have : ((sortOn key l).find? p).isSome := List.find?_isSome.2 ⟨b, (mem_sortOn key).2 hb, hp⟩
  exact Option.isSome_iff_exists.1 this

/-- Sorted lists of the same elements are equal when no two elements share a key. -/
theorem eq_of_sorted_of_perm (hs : l.Pairwise fun a b => key a ≤ key b)
    (hs' : l'.Pairwise fun a b => key a ≤ key b) (hperm : l.Perm l')
    (hkey : l.Pairwise fun a b => key a ≠ key b) : l = l' := by
  refine hperm.eq_of_pairwise (fun a b ha hb hab hba => ?_) hs hs'
  -- elements of one key are one element
  by_contra hne
  have hb := hperm.mem_iff.2 hb
  exact hkey.forall ha hb hne (le_antisymm hab hba)

/-- The least element that is found comes first among those of its key. -/
theorem exists_split_of_mem_argmin {m : α} (h : m ∈ l.argmin key) :
    ∃ before after, l = before ++ m :: after ∧ (∀ b ∈ before, key m < key b) ∧
      ∀ b ∈ l, key m ≤ key b := by
  induction l generalizing m with
  | nil => exact absurd h (by simp)
  | cons a l ih =>
    rw [List.argmin_cons] at h
    cases hrest : l.argmin key with
    | none =>
      rw [hrest] at h
      cases h
      have hnil : l = [] := List.argmin_eq_none.mp hrest
      exact ⟨[], [], by rw [hnil]; rfl, by simp, by simp [hnil]⟩
    | some c =>
      obtain ⟨before, after, hsplit, hbefore, hle⟩ := ih hrest
      rw [hrest] at h
      dsimp only at h
      split_ifs at h with hlt
      · cases h
        exact ⟨a :: before, after, by rw [hsplit]; rfl, List.forall_mem_cons.mpr ⟨hlt, hbefore⟩,
          List.forall_mem_cons.mpr ⟨hlt.le, hle⟩⟩
      · cases h
        exact ⟨[], l, rfl, by simp, List.forall_mem_cons.mpr
          ⟨le_rfl, fun b hb => (not_lt.mp hlt).trans (hle b hb)⟩⟩

end KeySort
