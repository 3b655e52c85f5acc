import Mathlib.Data.List.Basic
import Mathlib.Data.Nat.Basic
import Mathlib.Data.String.Basic

/-!
# Decimals of a fixed width

Natural numbers written with leading zeros.  Texts of one width stand in the order of their numbers,
so a text made of several of them is ordered by the first number that differs.
-/

namespace Padded

/-- The decimal of `n` with zeros in front up to `width` digits. -/
def padded (width n : ℕ) : List Char := (Nat.toDigits 10 n).leftpad width '0'

theorem leftpad_concat (width : ℕ) (cs : List Char) (c : Char) :
    (cs ++ [c]).leftpad (width + 1) '0' = cs.leftpad width '0' ++ [c] := by
  simp [List.leftpad]

theorem padded_ne_nil (width n : ℕ) : padded width n ≠ [] := by
  rw [padded, List.leftpad]
  exact List.append_ne_nil_of_right_ne_nil _ Nat.toDigits_ne_nil

theorem isDigit_padded {width n : ℕ} {c : Char} (hc : c ∈ padded width n) : c.isDigit = true := by
  rw [padded, List.leftpad] at hc
  cases List.mem_append.1 hc with
  | inl hzero =>
    rw [List.eq_of_mem_replicate hzero]
    rfl
  | inr hdigit => exact Nat.isDigit_of_mem_toDigits (by decide) (by decide) hdigit

theorem ofDigitChars_padded (width n : ℕ) : Nat.ofDigitChars 10 (padded width n) 0 = n := by
  rw [padded, List.leftpad, Nat.ofDigitChars_append, Nat.ofDigitChars_replicate_zero,
    Nat.mul_zero, Nat.ofDigitChars_ten_toDigits]

theorem padded_succ {width : ℕ} (h : 0 < width) (n : ℕ) :
    padded (width + 1) n = padded width (n / 10) ++ [(n % 10).digitChar] := by
  unfold padded
  by_cases hn : n < 10
  · obtain ⟨w, rfl⟩ : ∃ w, width = w + 1 := ⟨width - 1, by omega⟩
    have hdiv : n / 10 = 0 := Nat.div_eq_of_lt hn
    have hmod : n % 10 = n := Nat.mod_eq_of_lt hn
    rw [Nat.toDigits_of_lt_base hn, hdiv, hmod, Nat.toDigits_zero]
    simp [List.leftpad, ← List.replicate_succ']
  · rw [Nat.toDigits_of_base_le (by decide) (by omega), leftpad_concat]

theorem length_padded {width : ℕ} (h : 0 < width) {n : ℕ} (hn : n < 10 ^ width) :
    (padded width n).length = width := by
  induction width, h using Nat.le_induction generalizing n with
  | base =>
    rw [padded, Nat.toDigits_of_lt_base (by simpa using hn)]
    rfl
  | succ width hw ih =>
    have hdiv : n / 10 < 10 ^ width := by
      apply Nat.div_lt_of_lt_mul
      rw [Nat.mul_comm, ← Nat.pow_succ]
      exact hn
    rw [padded_succ hw, List.length_append, ih hdiv]
    rfl

theorem digitChar_lt {m n : ℕ} (h : m < n) (hn : n < 10) : m.digitChar < n.digitChar := by
  have hall : ∀ n < 10, ∀ m < n, m.digitChar < n.digitChar := by decide
  exact hall n hn m h

theorem append_lt_append {a b : List Char} (h : a < b) (hlength : a.length = b.length)
    (x y : List Char) : a ++ x < b ++ y := by
  induction a generalizing b with
  | nil =>
    rw [List.length_nil, eq_comm, List.length_eq_zero_iff] at hlength
    rw [hlength] at h
    exact absurd h (List.lt_irrefl [])
  | cons c a ih =>
    cases b with
    | nil => exact absurd h (List.not_lt_nil _)
    | cons d b =>
      rw [List.cons_append, List.cons_append, List.cons_lt_cons_iff]
      cases List.cons_lt_cons_iff.1 h with
      | inl h => exact Or.inl h
      | inr h => exact Or.inr ⟨h.1, ih h.2 (by simpa using hlength)⟩

theorem padded_lt {width : ℕ} (h : 0 < width) {m n : ℕ} (hmn : m < n) (hn : n < 10 ^ width) :
    padded width m < padded width n := by
  induction width, h using Nat.le_induction generalizing m n with
  | base =>
    have hn' : n < 10 := by simpa using hn
    rw [padded, padded, Nat.toDigits_of_lt_base (hmn.trans hn'), Nat.toDigits_of_lt_base hn']
    exact List.cons_lt_cons_iff.2 (Or.inl (digitChar_lt hmn hn'))
  | succ width hw ih =>
    have hdiv : n / 10 < 10 ^ width := by
      apply Nat.div_lt_of_lt_mul
      rw [Nat.mul_comm, ← Nat.pow_succ]
      exact hn
    rw [padded_succ hw, padded_succ hw]
    by_cases hlt : m / 10 < n / 10
    · apply append_lt_append (ih hlt hdiv)
      rw [length_padded hw (hlt.trans hdiv), length_padded hw hdiv]
    · have heq : m / 10 = n / 10 := by omega
      rw [heq]
      apply List.append_left_lt
      exact List.cons_lt_cons_iff.2 (Or.inl (digitChar_lt (by omega) (by omega)))

end Padded
