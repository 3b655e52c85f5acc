import Mathlib.Algebra.BigOperators.Group.List.Basic
import Mathlib.Algebra.Order.BigOperators.Group.List
import Mathlib.Algebra.Order.Ring.Int
import Mathlib.Data.List.Perm.Lattice
import Std.Data.ExtTreeMap.Lemmas

/-!
# Sums over the values of a map

The sum of the values of a finite map, and what setting or removing one key does to it.
-/

namespace MapTotal

variable {κ β : Type} [Ord κ] [Std.TransOrd κ] [Std.LawfulEqOrd κ] {f : β → ℤ}
  {m : Std.ExtTreeMap κ β} {k : κ} {v : β}

/-- The sum of `f` over the values. -/
def total (f : β → ℤ) (m : Std.ExtTreeMap κ β) : ℤ := (m.toList.map fun e => f e.2).sum

theorem nodup_toList (m : Std.ExtTreeMap κ β) : m.toList.Nodup := by
  apply Std.ExtTreeMap.distinct_keys_toList.imp
  rintro a b hne rfl
  exact hne Std.compare_self

theorem toList_perm (h : m[k]? = some v) : m.toList.Perm ((k, v) :: (m.erase k).toList) := by
  have hnotMem : (k, v) ∉ (m.erase k).toList := by
    rw [Std.ExtTreeMap.mem_toList_iff_getElem?_eq_some, Std.ExtTreeMap.getElem?_erase_self]
    exact nofun
  rw [List.perm_ext_iff_of_nodup (nodup_toList m) (List.nodup_cons.2 ⟨hnotMem, nodup_toList _⟩)]
  rintro ⟨k', v'⟩
  rw [List.mem_cons, Prod.mk.injEq, Std.ExtTreeMap.mem_toList_iff_getElem?_eq_some,
    Std.ExtTreeMap.mem_toList_iff_getElem?_eq_some, Std.ExtTreeMap.getElem?_erase]
  by_cases hk : k' = k
  · subst hk
    rw [h, if_pos Std.compare_self]
    simp [eq_comm]
  · rw [if_neg fun heq => hk (Std.compare_eq_iff_eq.1 heq).symm]
    simp [hk]

theorem erase_of_none (h : m[k]? = none) : m.erase k = m := by
  ext1 k'
  rw [Std.ExtTreeMap.getElem?_erase]
  split_ifs with hk
  · rw [← Std.compare_eq_iff_eq.1 hk, h]
  · rfl

theorem erase_insert (m : Std.ExtTreeMap κ β) (k : κ) (v : β) :
    (m.insert k v).erase k = m.erase k := by
  ext1 k'
  rw [Std.ExtTreeMap.getElem?_erase, Std.ExtTreeMap.getElem?_erase, Std.ExtTreeMap.getElem?_insert]
  split_ifs <;> rfl

theorem total_eq (f : β → ℤ) (m : Std.ExtTreeMap κ β) (k : κ) :
    total f m = (m[k]?.map f).getD 0 + total f (m.erase k) := by
  cases hk : m[k]? with
  | none =>
    rw [erase_of_none hk]
    exact (zero_add _).symm
  | some v =>
    rw [total, ((toList_perm hk).map _).sum_eq, List.map_cons, List.sum_cons]
    rfl

theorem total_insert (f : β → ℤ) (m : Std.ExtTreeMap κ β) (k : κ) (v : β) :
    total f (m.insert k v) = f v + total f (m.erase k) := by
  rw [total_eq f (m.insert k v) k, erase_insert, Std.ExtTreeMap.getElem?_insert_self]
  rfl

omit [Std.LawfulEqOrd κ] in
theorem total_empty (f : β → ℤ) : total f (∅ : Std.ExtTreeMap κ β) = 0 := by
  rw [total, Std.ExtTreeMap.toList_eq_nil_iff.2 rfl]
  rfl

theorem total_nonneg (h : ∀ (k : κ) v, m[k]? = some v → 0 ≤ f v) : 0 ≤ total f m := by
  apply List.sum_nonneg
  intro x hx
  obtain ⟨⟨k, v⟩, hmem, rfl⟩ := List.mem_map.1 hx
  exact h k v (Std.ExtTreeMap.mem_toList_iff_getElem?_eq_some.1 hmem)

theorem le_total (h : ∀ (k : κ) v, m[k]? = some v → 0 ≤ f v) (hk : m[k]? = some v) :
    f v ≤ total f m := by
  have hrest : 0 ≤ total f (m.erase k) := by
    apply total_nonneg
    intro k' v' hk'
    rw [Std.ExtTreeMap.getElem?_erase] at hk'
    split_ifs at hk'
    exact h k' v' hk'
  have heq := total_eq f m k
  rw [hk] at heq
  simp only [Option.map_some, Option.getD_some] at heq
  omega

theorem total_congr {γ : Type} {g : γ → ℤ} {m' : Std.ExtTreeMap κ γ}
    (h : ∀ k : κ, m[k]?.map f = m'[k]?.map g) : total f m = total g m' := by
  have hmap {δ : Type} (e : δ → ℤ) (t : Std.ExtTreeMap κ δ) :
      total e t = total id (t.map fun _ => e) := by
    rw [total, total, Std.ExtTreeMap.toList_map, List.map_map]
    rfl
  rw [hmap f m, hmap g m']
  congr 1
  ext1 k
  rw [Std.ExtTreeMap.getElem?_map, Std.ExtTreeMap.getElem?_map]
  exact h k

end MapTotal
