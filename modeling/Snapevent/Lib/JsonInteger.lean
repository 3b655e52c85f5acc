import Mathlib.Data.List.TakeWhile
import Snapevent.Lib.Json

/-!
# Integer literals

The literals of integers, and what a number literal is read as: an integer when it has neither a
fraction nor an exponent.
-/

namespace Json

theorem isDigit_of_mem_toDigits {n : ℕ} : ∀ c ∈ Nat.toDigits 10 n, c.isDigit = true :=
  fun _ hc => Nat.isDigit_of_mem_toDigits (by decide) (by decide) hc

theorem head_toDigits {n : ℕ} (h : 0 < n) : (Nat.toDigits 10 n).head? ≠ some '0' := by
  induction n using Nat.strong_induction_on with
  | _ n ih =>
    by_cases hn : n < 10
    · rw [Nat.toDigits_of_lt_base hn]
      have hdigit : n.digitChar.toNat - 48 = n := Nat.toNat_digitChar_sub_48_of_lt_ten hn
      intro h0
      rw [List.head?_cons, Option.some.injEq] at h0
      rw [h0] at hdigit
      have hzero : '0'.toNat - 48 = 0 := by decide
      omega
    · rw [Nat.toDigits_of_base_le (by omega) (by omega),
        List.head?_append_of_ne_nil _ Nat.toDigits_ne_nil]
      apply ih
      · omega
      · omega

theorem takeWhile_toDigits (n : ℕ) :
    (Nat.toDigits 10 n).takeWhile (·.isDigit) = Nat.toDigits 10 n :=
  List.takeWhile_eq_self_iff.2 isDigit_of_mem_toDigits

theorem dropWhile_toDigits (n : ℕ) : (Nat.toDigits 10 n).dropWhile (·.isDigit) = [] :=
  List.dropWhile_eq_nil_iff.2 isDigit_of_mem_toDigits

theorem isUnsigned_toDigits (n : ℕ) : isUnsigned (Nat.toDigits 10 n) = true := by
  rw [isUnsigned.eq_def]
  split
  · next cs heq =>
    cases n with
    | zero =>
      rw [Nat.toDigits_zero, List.cons.injEq] at heq
      rw [← heq.2]
      rfl
    | succ n =>
      have hhead : (Nat.toDigits 10 (n + 1)).head? ≠ some '0' := head_toDigits (by omega)
      rw [heq] at hhead
      exact absurd rfl hhead
  · rw [takeWhile_toDigits, dropWhile_toDigits, isDigits, Bool.and_eq_true]
    refine ⟨?_, rfl⟩
    simpa using fun c hc => isDigit_of_mem_toDigits c hc

theorem toDigits_ne_sign (n : ℕ) (cs : List Char) : Nat.toDigits 10 n ≠ '-' :: cs := by
  intro h
  have hc : '-'.isDigit = true := isDigit_of_mem_toDigits (n := n) '-' (by simp [h])
  revert hc
  decide

end Json

namespace JsonNumber

open Json

/-- The literal of a natural number. -/
def ofNat (n : ℕ) : JsonNumber where
  chars := Nat.toDigits 10 n
  isNumber := by
    rw [isNumber.eq_def]
    split
    · next heq => exact absurd heq (toDigits_ne_sign n _)
    · exact isUnsigned_toDigits n

/-- The literal of a negated natural number. -/
def ofNeg (n : ℕ) : JsonNumber where
  chars := '-' :: Nat.toDigits 10 n
  isNumber := isUnsigned_toDigits n

/-- The literal of an integer. -/
def ofInt : ℤ → JsonNumber
  | .ofNat n => ofNat n
  | .negSucc n => ofNeg (n + 1)

/-- What a number literal denotes: an integer with its sign, or a decimal fraction. -/
inductive Reading
  | natural (n : ℕ)
  | negated (n : ℕ)
  | decimal
  deriving DecidableEq

/-- The reading of a literal. -/
def read (n : JsonNumber) : Reading :=
  match n.chars with
  | '-' :: ds => if ds.all (·.isDigit) then .negated (Nat.ofDigitChars 10 ds 0) else .decimal
  | ds => if ds.all (·.isDigit) then .natural (Nat.ofDigitChars 10 ds 0) else .decimal

@[simp] theorem read_ofNat (n : ℕ) : (ofNat n).read = .natural n := by
  have hall : (Nat.toDigits 10 n).all (·.isDigit) = true := by
    simpa using fun c hc => isDigit_of_mem_toDigits c hc
  rw [read.eq_def]
  show (match Nat.toDigits 10 n with
    | '-' :: ds => if ds.all (·.isDigit) then Reading.negated (Nat.ofDigitChars 10 ds 0) else .decimal
    | ds => if ds.all (·.isDigit) then .natural (Nat.ofDigitChars 10 ds 0) else .decimal) = _
  split
  · next heq => exact absurd heq (toDigits_ne_sign n _)
  · rw [if_pos hall, Nat.ofDigitChars_ten_toDigits]

@[simp] theorem read_ofNeg (n : ℕ) : (ofNeg n).read = .negated n := by
  have hall : (Nat.toDigits 10 n).all (·.isDigit) = true := by
    simpa using fun c hc => isDigit_of_mem_toDigits c hc
  show (if (Nat.toDigits 10 n).all (·.isDigit) then
    Reading.negated (Nat.ofDigitChars 10 (Nat.toDigits 10 n) 0) else .decimal) = _
  rw [if_pos hall, Nat.ofDigitChars_ten_toDigits]

end JsonNumber
