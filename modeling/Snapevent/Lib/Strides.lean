import Mathlib.Algebra.Order.Ring.Int
import Mathlib.Order.Lattice

/-!
# Strides

The boundaries of a range that is walked in steps of one width, the last step cut at its end.  Every
point of the range lies between two neighbouring boundaries, and only there.
-/

/-- The boundary after `i` steps from `lo`, at most `hi`. -/
def stride (lo hi step : ℤ) (i : ℕ) : ℤ := min (lo + i * step) hi

section Stride

variable {lo hi step : ℤ} {i j : ℕ} {t : ℤ}

theorem stride_zero (h : lo ≤ hi) : stride lo hi step 0 = lo := by
  simp [stride, h]

theorem stride_succ (hstep : 0 ≤ step) (i : ℕ) :
    min (stride lo hi step i + step) hi = stride lo hi step (i + 1) := by
  have hmul : lo + (i + 1 : ℕ) * step = lo + i * step + step := by
    rw [Nat.cast_add, Nat.cast_one, add_mul, one_mul, add_assoc]
  rw [stride, stride, hmul]
  omega

theorem stride_add_le (hstep : 0 ≤ step) (hij : i < j) (hj : stride lo hi step j < hi) :
    stride lo hi step i + step ≤ stride lo hi step j := by
  have hmul : ((i : ℤ) + 1) * step ≤ j * step :=
    mul_le_mul_of_nonneg_right (by omega) hstep
  rw [add_mul, one_mul] at hmul
  rw [stride] at hj ⊢
  rw [stride]
  omega

theorem stride_mono (lo hi : ℤ) (hstep : 0 ≤ step) (hij : i ≤ j) :
    stride lo hi step i ≤ stride lo hi step j := by
  have hmul : (i : ℤ) * step ≤ j * step := mul_le_mul_of_nonneg_right (by omega) hstep
  rw [stride, stride]
  omega

theorem exists_stride (hstep : 0 < step) (hlo : lo ≤ t) (hhi : t < hi) :
    ∃ i, stride lo hi step i ≤ t ∧ t < stride lo hi step (i + 1) := by
  refine ⟨((t - lo) / step).toNat, ?_⟩
  have hnat : (((t - lo) / step).toNat : ℤ) = (t - lo) / step :=
    Int.toNat_of_nonneg (Int.ediv_nonneg (by omega) hstep.le)
  have hle : (t - lo) / step * step ≤ t - lo := Int.ediv_mul_le _ (by omega)
  have hlt : t - lo < ((t - lo) / step + 1) * step := Int.lt_ediv_add_one_mul_self _ hstep
  constructor
  · rw [stride, hnat]
    omega
  · rw [stride, Nat.cast_add, Nat.cast_one, hnat]
    omega

/-- Only two neighbouring boundaries have the point between them. -/
theorem stride_unique (hstep : 0 ≤ step) (hi' : stride lo hi step i ≤ t)
    (hi'' : t < stride lo hi step (i + 1)) (hj : stride lo hi step j ≤ t)
    (hj' : t < stride lo hi step (j + 1)) : i = j := by
  rcases Nat.lt_trichotomy i j with hlt | heq | hgt
  · have h := stride_mono lo hi hstep (show i + 1 ≤ j from hlt)
    omega
  · exact heq
  · have h := stride_mono lo hi hstep (show j + 1 ≤ i from hgt)
    omega

end Stride
