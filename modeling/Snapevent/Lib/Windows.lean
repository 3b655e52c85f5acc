import Mathlib.MeasureTheory.Measure.Lebesgue.Basic

/-!
# Windows of integer time

The ticks that some half-open windows cover, the two steps of a sweep over windows in the order of
their starts, windows that stand end to end, and the covered ticks as a length on the real line.
-/

namespace Windows

open MeasureTheory

/-- The ticks that some window of the list covers. -/
noncomputable def cover (ws : List (ℤ × ℤ)) : Finset ℤ :=
  ws.toFinset.biUnion fun w => Finset.Ico w.1 w.2

theorem mem_cover {ws : List (ℤ × ℤ)} {t : ℤ} : t ∈ cover ws ↔ ∃ w ∈ ws, w.1 ≤ t ∧ t < w.2 := by
  simp [cover]

@[simp] theorem cover_nil : cover [] = ∅ := rfl

theorem cover_cons (w : ℤ × ℤ) (ws : List (ℤ × ℤ)) :
    cover (w :: ws) = Finset.Ico w.1 w.2 ∪ cover ws := by
  ext t
  simp [mem_cover]

theorem cover_congr {ws ws' : List (ℤ × ℤ)} (h : ∀ w, w ∈ ws ↔ w ∈ ws') :
    cover ws = cover ws' := by
  ext t
  simp only [mem_cover, h]

/-! ## A sweep -/

theorem cover_merge {cur w : ℤ × ℤ} (hstart : cur.1 ≤ w.1) (hmeet : w.1 ≤ cur.2)
    (ws : List (ℤ × ℤ)) : cover (cur :: w :: ws) = cover ((cur.1, max cur.2 w.2) :: ws) := by
  rw [cover_cons, cover_cons, cover_cons, ← Finset.union_assoc]
  congr 1
  ext t
  simp only [Finset.mem_union, Finset.mem_Ico, lt_max_iff]
  omega

/-- A window that ends before the others start counts on its own. -/
theorem card_cover_cons {cur : ℤ × ℤ} {ws : List (ℤ × ℤ)} (hcur : cur.1 ≤ cur.2)
    (hbefore : ∀ w ∈ ws, cur.2 ≤ w.1) :
    ((cover (cur :: ws)).card : ℤ) = cur.2 - cur.1 + (cover ws).card := by
  have hdisj : Disjoint (Finset.Ico cur.1 cur.2) (cover ws) := by
    rw [Finset.disjoint_left]
    intro t ht hmem
    obtain ⟨w, hw, hle, -⟩ := mem_cover.1 hmem
    have hlt := (Finset.mem_Ico.1 ht).2
    have hge := hbefore w hw
    omega
  rw [cover_cons, Finset.card_union_of_disjoint hdisj, Int.card_Ico, Nat.cast_add,
    Int.toNat_of_nonneg (by omega)]

/-! ## Windows end to end -/

/-- The windows stand end to end from the first time to `hi`, none empty or wider than `step`. -/
inductive Tiles (step hi : ℤ) : ℤ → List (ℤ × ℤ) → Prop
  | done : Tiles step hi hi []
  | next {lo mid : ℤ} {ws : List (ℤ × ℤ)} (hlt : lo < mid) (hwidth : mid - lo ≤ step)
      (rest : Tiles step hi mid ws) : Tiles step hi lo ((lo, mid) :: ws)

/-- The windows split a range: each starts where the one before it ends, none is empty or wider
than `step`, and they cover the range and nothing else. -/
structure Splits (step lo hi : ℤ) (ws : List (ℤ × ℤ)) : Prop where
  contiguous : ws.IsChain fun v w => v.2 = w.1
  ordered : ws.Pairwise fun v w => v.2 ≤ w.1
  nonempty : ∀ w ∈ ws, w.1 < w.2
  width : ∀ w ∈ ws, w.2 - w.1 ≤ step
  covers : ∀ t, (∃ w ∈ ws, w.1 ≤ t ∧ t < w.2) ↔ lo ≤ t ∧ t < hi

namespace Tiles

variable {step lo hi : ℤ} {ws : List (ℤ × ℤ)}

theorem le (h : Tiles step hi lo ws) : lo ≤ hi := by
  induction h with
  | done => exact le_rfl
  | next hlt _ _ ih => omega

theorem le_of_mem (h : Tiles step hi lo ws) : ∀ w ∈ ws, lo ≤ w.1 ∧ w.2 ≤ hi := by
  induction h with
  | done => simp
  | next hlt _ rest ih =>
    refine List.forall_mem_cons.2 ⟨⟨le_rfl, rest.le⟩, fun w hw => ?_⟩
    have hrest := ih w hw
    omega

theorem splits (h : Tiles step hi lo ws) : Splits step lo hi ws := by
  induction h with
  | done =>
    refine ⟨List.isChain_nil, List.Pairwise.nil, by simp, by simp, fun t => ?_⟩
    simp only [List.not_mem_nil, false_and, exists_false, false_iff]
    omega
  | @next lo mid ws hlt hwidth rest ih =>
    refine ⟨?_, List.pairwise_cons.2 ⟨fun w hw => (rest.le_of_mem w hw).1, ih.ordered⟩,
      List.forall_mem_cons.2 ⟨hlt, ih.nonempty⟩, List.forall_mem_cons.2 ⟨hwidth, ih.width⟩,
      fun t => ?_⟩
    · cases rest with
      | done => exact List.isChain_singleton _
      | next _ _ _ => exact List.isChain_cons_cons.2 ⟨rfl, ih.contiguous⟩
    · have hle := rest.le
      have hrest := ih.covers t
      rw [List.exists_mem_cons_iff, hrest]
      constructor
      · rintro (h | h)
        · exact ⟨h.1, h.2.trans_le hle⟩
        · exact ⟨hlt.le.trans h.1, h.2⟩
      · rintro ⟨hlo, hhi⟩
        by_cases ht : t < mid
        · exact Or.inl ⟨hlo, ht⟩
        · exact Or.inr ⟨not_lt.1 ht, hhi⟩

end Tiles

/-! ## On the real line -/

theorem iUnion_Ico_eq (ws : List (ℤ × ℤ)) :
    (⋃ w ∈ ws, Set.Ico (w.1 : ℝ) w.2) = ⋃ t ∈ cover ws, Set.Ico (t : ℝ) (t + 1) := by
  ext x
  simp only [Set.mem_iUnion, Set.mem_Ico, exists_prop, mem_cover]
  constructor
  · rintro ⟨w, hw, hle, hlt⟩
    exact ⟨⌊x⌋, ⟨w, hw, Int.le_floor.2 hle, Int.floor_lt.2 hlt⟩, Int.floor_le x,
      Int.lt_floor_add_one x⟩
  · rintro ⟨t, ⟨w, hw, hle, hlt⟩, hx, hx'⟩
    have hstart : (w.1 : ℝ) ≤ t := by exact_mod_cast hle
    have hend : (t : ℝ) + 1 ≤ w.2 := by exact_mod_cast hlt
    exact ⟨w, hw, hstart.trans hx, hx'.trans_le hend⟩

theorem volume_iUnion_Ico (ws : List (ℤ × ℤ)) :
    volume (⋃ w ∈ ws, Set.Ico (w.1 : ℝ) w.2) = (cover ws).card := by
  have hdisj : (cover ws : Set ℤ).PairwiseDisjoint fun t => Set.Ico (t : ℝ) (t + 1) := by
    intro a _ b _ hab
    rw [Function.onFun, Set.disjoint_left]
    rintro x ⟨ha, ha'⟩ ⟨hb, hb'⟩
    have hlt : (a : ℝ) < b + 1 := ha.trans_lt hb'
    have hgt : (b : ℝ) < a + 1 := hb.trans_lt ha'
    norm_cast at hlt hgt
    exact hab (by omega)
  rw [iUnion_Ico_eq, measure_biUnion_finset hdisj fun _ _ => measurableSet_Ico]
  simp [Real.volume_Ico]

/-! ## The first time at or after another -/

/-- The first of the times at or after `g`. -/
def firstAtOrAfter (times : List ℤ) (g : ℤ) : Option ℤ := (times.filter (g ≤ ·)).min?

theorem firstAtOrAfter_eq_some {times : List ℤ} {g a : ℤ} :
    firstAtOrAfter times g = some a ↔ (a ∈ times ∧ g ≤ a) ∧ ∀ b ∈ times, g ≤ b → a ≤ b := by
  simp [firstAtOrAfter, List.min?_eq_some_iff]

theorem firstAtOrAfter_eq_none {times : List ℤ} {g : ℤ} :
    firstAtOrAfter times g = none ↔ ∀ b ∈ times, b < g := by
  simp [firstAtOrAfter, List.min?_eq_none_iff]

theorem getElem?_bisect {times : List ℤ} (h : times.Pairwise (· ≤ ·)) (g : ℤ) :
    times[(times.takeWhile (· < g)).length]? = firstAtOrAfter times g := by
  induction times with
  | nil => rfl
  | cons t times ih =>
    obtain ⟨hhead, htail⟩ := List.pairwise_cons.1 h
    rw [List.takeWhile_cons]
    by_cases ht : t < g
    · rw [if_pos (decide_eq_true ht), List.length_cons, List.getElem?_cons_succ, ih htail]
      simp [firstAtOrAfter, not_le.2 ht]
    · rw [if_neg (by simpa using ht), List.length_nil, List.getElem?_cons_zero, eq_comm,
        firstAtOrAfter_eq_some]
      refine ⟨⟨List.mem_cons_self, not_lt.1 ht⟩, fun b hb _ => ?_⟩
      cases List.mem_cons.1 hb with
      | inl heq => exact heq.ge
      | inr hmem => exact hhead b hmem

end Windows
