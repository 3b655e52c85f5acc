import Mathlib.Data.List.Destutter
import Mathlib.Data.List.Nodup

/-!
# The first element of each key

Dropping the elements whose key an earlier element has, and dropping only those whose key the
element before them has.  The two agree on the lists in which the elements of a key stand together,
and on no others does the second leave distinct keys.
-/

namespace Firsts

variable {α κ : Type*}

/-! ## Groups -/

/-- Between two elements of one key stand only elements of that key. -/
def Grouped (key : α → κ) (l : List α) : Prop :=
  ∀ a b c, [a, b, c].Sublist l → key a = key c → key b = key a

section Grouped

variable {key : α → κ}

theorem Grouped.sublist {l l' : List α} (h : Grouped key l) (hsub : l'.Sublist l) :
    Grouped key l' := fun a b c habc => h a b c (habc.trans hsub)

theorem Grouped.key_ne {a b : α} {l : List α} (h : Grouped key (a :: b :: l))
    (hkey : key a ≠ key b) : ∀ c ∈ b :: l, key c ≠ key a := by
  intro c hc heq
  cases List.mem_cons.mp hc with
  | inl hcb => exact hkey (hcb ▸ heq.symm)
  | inr hcl =>
    have hsub : [a, b, c].Sublist (a :: b :: l) :=
      ((List.singleton_sublist.mpr hcl).cons_cons b).cons_cons a
    exact hkey (h a b c hsub heq.symm).symm

theorem Grouped.cons_cons {a b : α} {l : List α} (h : Grouped key (a :: l)) (hkey : key a = key b) :
    Grouped key (a :: b :: l) := by
  intro x y z hsub hxz
  cases hsub with
  | cons _ hsub =>
    cases hsub with
    | cons _ hsub => exact h x y z (hsub.cons a) hxz
    | cons_cons _ hsub => exact (h a y z (hsub.cons_cons a) (hkey.trans hxz)).trans hkey
  | cons_cons _ hsub =>
    cases hsub with
    | cons _ hsub => exact h a y z (hsub.cons_cons a) hxz
    | cons_cons _ _ => exact hkey.symm

end Grouped

variable [DecidableEq κ] (key : α → κ)

/-- The first element of each key. -/
def firsts : List α → List α
  | [] => []
  | a :: l => a :: (firsts l).filter fun b => key b ≠ key a

/-- Of neighbours with one key, the first. -/
def runFirsts (l : List α) : List α := l.destutter fun a b => key a ≠ key b

/-! ## All repeats dropped -/

theorem firsts_sublist (l : List α) : (firsts key l).Sublist l := by
  induction l with
  | nil => exact List.Sublist.slnil
  | cons a l ih => exact (List.filter_sublist.trans ih).cons_cons a

theorem nodup_firsts (l : List α) : ((firsts key l).map key).Nodup := by
  induction l with
  | nil => exact List.nodup_nil
  | cons a l ih =>
    rw [firsts, List.map_cons, List.nodup_cons]
    refine ⟨fun hmem => ?_, ih.sublist (List.filter_sublist.map key)⟩
    obtain ⟨b, hb, hkey⟩ := List.mem_map.mp hmem
    exact of_decide_eq_true (List.mem_filter.mp hb).2 hkey

/-! ## Neighbouring repeats dropped -/

variable {key}

theorem mem_keys_destutter' (a : α) (l : List α) {k : κ} :
    k ∈ (l.destutter' (fun a b => key a ≠ key b) a).map key ↔ k ∈ (a :: l).map key := by
  induction l generalizing a with
  | nil => rfl
  | cons b l ih =>
    by_cases hkey : key a = key b
    · rw [List.destutter'_cons_neg _ (not_not.mpr hkey), ih]
      simp only [List.map_cons, List.mem_cons, hkey]
      tauto
    · rw [List.destutter'_cons_pos _ hkey, List.map_cons, List.mem_cons, ih,
        List.map_cons (a := a), List.mem_cons]

theorem destutter'_eq_firsts (a : α) (l : List α) (h : Grouped key (a :: l)) :
    l.destutter' (fun a b => key a ≠ key b) a = firsts key (a :: l) := by
  induction l generalizing a with
  | nil => rfl
  | cons b l ih =>
    by_cases hkey : key a = key b
    · rw [List.destutter'_cons_neg _ (not_not.mpr hkey),
        ih a (h.sublist ((List.sublist_cons_self b l).cons_cons a)), firsts, firsts, firsts,
        List.filter_cons_of_neg (by simp [hkey]), List.filter_filter]
      simp only [hkey, Bool.and_self]
    · have hrest : (firsts key (b :: l)).filter (fun c => key c ≠ key a) = firsts key (b :: l) := by
        refine List.filter_eq_self.mpr fun c hc => decide_eq_true ?_
        exact h.key_ne hkey c ((firsts_sublist key _).subset hc)
      rw [List.destutter'_cons_pos _ hkey, ih b (h.sublist (List.sublist_cons_self a _)),
        firsts.eq_2 key a, hrest]

theorem Grouped.runFirsts_eq {l : List α} (h : Grouped key l) : runFirsts key l = firsts key l := by
  cases l with
  | nil => rfl
  | cons a l => exact destutter'_eq_firsts a l h

theorem grouped_of_nodup_destutter' (a : α) (l : List α)
    (h : ((l.destutter' (fun a b => key a ≠ key b) a).map key).Nodup) : Grouped key (a :: l) := by
  induction l generalizing a with
  | nil =>
    intro x y z hsub
    exact absurd hsub.length_le (by simp)
  | cons b l ih =>
    by_cases hkey : key a = key b
    · rw [List.destutter'_cons_neg _ (not_not.mpr hkey)] at h
      exact (ih a h).cons_cons hkey
    · rw [List.destutter'_cons_pos _ hkey, List.map_cons, List.nodup_cons, mem_keys_destutter'] at h
      intro x y z hsub hxz
      cases hsub with
      | cons _ hsub => exact ih b h.2 x y z hsub hxz
      | cons_cons _ hsub =>
        have hz : z ∈ b :: l := hsub.subset (by simp)
        exact absurd (hxz ▸ List.mem_map_of_mem hz) h.1

theorem nodup_runFirsts_iff {l : List α} : ((runFirsts key l).map key).Nodup ↔ Grouped key l := by
  constructor
  · intro h
    cases l with
    | nil =>
      intro x y z hsub
      exact absurd hsub.length_le (by simp)
    | cons a l => exact grouped_of_nodup_destutter' a l h
  · intro h
    rw [h.runFirsts_eq]
    exact nodup_firsts key l

end Firsts
