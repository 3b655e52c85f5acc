import Mathlib.Algebra.Field.Rat
import Mathlib.Tactic.FieldSimp
import Mathlib.Tactic.Ring
import Snapevent.Lib.Padded

/-!
# Decimal texts

The texts of decimal numbers: a sign, digits, and perhaps a point with further digits.  A text
denotes a rational number, and with few enough decimal places a power of ten makes it an integer.
-/

/-- The parts of a decimal text. -/
structure Decimal where
  negative : Bool
  whole : List Char
  frac : List Char
  whole_ne_nil : whole ≠ []
  isDigit_whole : ∀ c ∈ whole, c.isDigit = true
  isDigit_frac : ∀ c ∈ frac, c.isDigit = true

namespace Decimal

variable (d : Decimal)

/-- What stands behind the sign. -/
def body : List Char := d.whole ++ if d.frac = [] then [] else '.' :: d.frac

def text : List Char := (if d.negative then ['-'] else []) ++ d.body

/-- The number without its sign. -/
def magnitude : ℚ :=
  Nat.ofDigitChars 10 d.whole 0 + Nat.ofDigitChars 10 d.frac 0 / 10 ^ d.frac.length

/-- The number the text denotes. -/
def value : ℚ := if d.negative then -d.magnitude else d.magnitude

/-- The magnitude times `10 ^ scale`, when there are no more decimal places. -/
def scaled (scale : ℕ) : ℕ :=
  Nat.ofDigitChars 10 d.whole 0 * 10 ^ scale +
    Nat.ofDigitChars 10 d.frac 0 * 10 ^ (scale - d.frac.length)

variable {d}

theorem magnitude_mul {scale : ℕ} (h : d.frac.length ≤ scale) :
    d.magnitude * 10 ^ scale = d.scaled scale := by
  have hpow : (10 : ℚ) ^ scale = 10 ^ (scale - d.frac.length) * 10 ^ d.frac.length := by
    rw [← pow_add, Nat.sub_add_cancel h]
  have hne : (10 : ℚ) ^ d.frac.length ≠ 0 := pow_ne_zero _ (by norm_num)
  rw [magnitude, scaled, add_mul]
  push_cast
  congr 1
  rw [hpow]
  field_simp

theorem value_mul {scale : ℕ} (h : d.frac.length ≤ scale) :
    d.value * 10 ^ scale = if d.negative then -(d.scaled scale : ℚ) else d.scaled scale := by
  rw [value]
  split_ifs
  · rw [neg_mul, magnitude_mul h]
  · exact magnitude_mul h

theorem isDigit_ne {c e : Char} (hc : c.isDigit = true) (he : e.isDigit = false) : c ≠ e := by
  rintro rfl
  rw [he] at hc
  cases hc

theorem notMem_whole {e : Char} (he : e.isDigit = false) : e ∉ d.whole :=
  fun hmem => isDigit_ne (d.isDigit_whole e hmem) he rfl

theorem notMem_text {e : Char} (he : e.isDigit = false) (hpoint : e ≠ '.') (hsign : e ≠ '-') :
    e ∉ d.text := by
  have hfrac : e ∉ d.frac := fun hmem => isDigit_ne (d.isDigit_frac e hmem) he rfl
  intro hmem
  rw [text, body, List.mem_append, List.mem_append] at hmem
  rcases hmem with hneg | hwhole | hfrac'
  · split_ifs at hneg
    · exact hsign (List.mem_singleton.1 hneg)
    · exact List.not_mem_nil hneg
  · exact notMem_whole he hwhole
  · split_ifs at hfrac'
    · exact List.not_mem_nil hfrac'
    · cases List.mem_cons.1 hfrac' with
      | inl heq => exact hpoint heq
      | inr hmem => exact hfrac hmem

/-! ## Printed decimals -/

section OfParts

variable (negative : Bool) (width whole frac : ℕ)

/-- A decimal printed from its whole part and its decimal places. -/
def ofParts : Decimal :=
  { negative
    whole := Nat.toDigits 10 whole
    frac := Padded.padded width frac
    whole_ne_nil := Nat.toDigits_ne_nil
    isDigit_whole := fun _ => Nat.isDigit_of_mem_toDigits (by decide) (by decide)
    isDigit_frac := fun _ => Padded.isDigit_padded }

theorem text_ofParts : (ofParts negative width whole frac).text =
    (if negative then ['-'] else []) ++
      (Nat.toDigits 10 whole ++ '.' :: Padded.padded width frac) := by
  have hpoint : (ofParts negative width whole frac).frac ≠ [] := Padded.padded_ne_nil width frac
  rw [text, body, if_neg hpoint]
  rfl

variable {width frac}

theorem length_frac_ofParts (hwidth : 0 < width) (hfrac : frac < 10 ^ width) :
    (ofParts negative width whole frac).frac.length = width :=
  Padded.length_padded hwidth hfrac

theorem scaled_ofParts (hwidth : 0 < width) (hfrac : frac < 10 ^ width) :
    (ofParts negative width whole frac).scaled width = whole * 10 ^ width + frac := by
  rw [scaled, length_frac_ofParts negative whole hwidth hfrac, Nat.sub_self, pow_zero, Nat.mul_one]
  congr 1
  · rw [ofParts, Nat.ofDigitChars_ten_toDigits]
  · exact Padded.ofDigitChars_padded width frac

end OfParts

end Decimal
