import Mathlib.Data.Rat.Floor
import Mathlib.Tactic.Linarith

/-!
# Reconnect backoff

The exponential backoff with equal jitter (`backoff.rs`).  Durations are whole milliseconds within
64 bits, delays and jitter exact rationals.  The doubling is a shift that is checked against the
width of a word only, so bits that leave the word are lost before the cap applies.
-/

namespace Snapevent

/-- A schedule: the base and the cap in milliseconds, and the delays handed out since the last
reset. -/
structure Backoff where
  baseMs : UInt64
  maxMs : UInt64
  attempt : UInt32

namespace Backoff

/-- A schedule at its first attempt. -/
def new (baseMs maxMs : UInt64) : Backoff := { baseMs, maxMs, attempt := 0 }

/-- Back to the first attempt. -/
def reset (b : Backoff) : Backoff := { b with attempt := 0 }

/-- A shift that fails when it is as wide as the word. -/
def checkedShl (x : UInt64) (n : UInt32) : Option UInt64 :=
  if n < 64 then some (x <<< n.toUInt64) else none

/-- The capped value before jitter. -/
def capped (b : Backoff) : UInt64 :=
  min ((checkedShl b.baseMs b.attempt).getD 0xFFFFFFFFFFFFFFFF) b.maxMs

/-- Count one attempt; the counter stays at its largest value. -/
def advance (b : Backoff) : Backoff :=
  { b with attempt := if b.attempt = 0xFFFFFFFF then b.attempt else b.attempt + 1 }

/-- The next delay, half of it fixed and half jittered, and the schedule after it. -/
def next (b : Backoff) (jitter : ℚ) : Backoff × ℚ :=
  let half : ℚ := b.capped.toNat / 2
  (b.advance, half + half * max 0 (min jitter 1))

/-- The schedule after a delay for each jitter. -/
def failing (b : Backoff) : List ℚ → Backoff
  | [] => b
  | jitter :: jitters => (b.next jitter).1.failing jitters

/-! ## The cap -/

/-- The cap in exact arithmetic. -/
def exactCap (baseMs maxMs : UInt64) (n : ℕ) : ℕ := min maxMs.toNat (baseMs.toNat * 2 ^ n)

theorem exactCap_le_exactCap (baseMs maxMs : UInt64) {n m : ℕ} (h : n ≤ m) :
    exactCap baseMs maxMs n ≤ exactCap baseMs maxMs m := by
  have hpow : baseMs.toNat * 2 ^ n ≤ baseMs.toNat * 2 ^ m :=
    Nat.mul_le_mul_left _ (Nat.pow_le_pow_right (by decide) h)
  unfold exactCap
  omega

theorem toNat_advance (b : Backoff) :
    b.advance.attempt.toNat = min (b.attempt.toNat + 1) (2 ^ 32 - 1) := by
  have hlt := b.attempt.toNat_lt
  unfold advance
  dsimp only
  split_ifs with hmax
  · rw [hmax]
    decide
  · have hne : b.attempt.toNat ≠ 2 ^ 32 - 1 := fun h => hmax (UInt32.toNat_inj.1 h)
    rw [UInt32.toNat_add]
    have hone : (1 : UInt32).toNat = 1 := rfl
    omega

/-- The number of delays, as far as the counter reaches. -/
theorem failing_spec (b : Backoff) (jitters : List ℚ) :
    (b.failing jitters).baseMs = b.baseMs ∧ (b.failing jitters).maxMs = b.maxMs ∧
      (b.failing jitters).attempt.toNat =
        min (b.attempt.toNat + jitters.length) (2 ^ 32 - 1) := by
  induction jitters generalizing b with
  | nil =>
    have := b.attempt.toNat_lt
    refine ⟨rfl, rfl, ?_⟩
    rw [failing, List.length_nil]
    omega
  | cons jitter jitters ih =>
    obtain ⟨hbase, hmax, hattempt⟩ := ih b.advance
    refine ⟨hbase, hmax, ?_⟩
    rw [failing, next]
    dsimp only
    rw [hattempt, toNat_advance, List.length_cons]
    omega

/-- Within the word the cap doubles modulo `2 ^ 64`, beyond it is the maximum. -/
theorem toNat_capped (b : Backoff) : b.capped.toNat =
    if b.attempt.toNat < 64 then min (b.baseMs.toNat * 2 ^ b.attempt.toNat % 2 ^ 64) b.maxMs.toNat
    else b.maxMs.toNat := by
  have hmin (x y : UInt64) : (min x y).toNat = min x.toNat y.toNat := by
    show (if x ≤ y then x else y).toNat = _
    split_ifs with hle
    · rw [Nat.min_eq_left (UInt64.le_iff_toNat_le.1 hle)]
    · rw [UInt64.le_iff_toNat_le] at hle
      rw [Nat.min_eq_right (by omega)]
  have hlt : b.attempt < 64 ↔ b.attempt.toNat < 64 := UInt32.lt_iff_toNat_lt
  rw [capped, hmin]
  by_cases hn : b.attempt.toNat < 64
  · have hshift : (b.baseMs <<< b.attempt.toUInt64).toNat =
        b.baseMs.toNat * 2 ^ b.attempt.toNat % 2 ^ 64 := by
      rw [UInt64.toNat_shiftLeft, UInt32.toNat_toUInt64, Nat.mod_eq_of_lt hn, Nat.shiftLeft_eq]
    rw [checkedShl, if_pos (hlt.2 hn), if_pos hn, Option.getD_some, hshift]
  · rw [checkedShl, if_neg (mt hlt.1 hn), if_neg hn, Option.getD_none]
    exact Nat.min_eq_right (Nat.le_of_lt_succ b.maxMs.toNat_lt)

/-- The attempts at which the doubled base keeps its exact value under the cap. -/
def KeepsBits (baseMs maxMs : UInt64) (n : ℕ) : Prop :=
  64 ≤ n ∨ baseMs.toNat * 2 ^ n < 2 ^ 64 ∨ maxMs.toNat ≤ baseMs.toNat * 2 ^ n % 2 ^ 64

section Cap

variable {b : Backoff} {n : ℕ} (hattempt : b.attempt.toNat = min n (2 ^ 32 - 1))

include hattempt

theorem capped_le_exactCap (hbase : 0 < b.baseMs.toNat) :
    b.capped.toNat ≤ exactCap b.baseMs b.maxMs n := by
  have hmax := b.maxMs.toNat_lt
  rw [toNat_capped, exactCap]
  split_ifs with hn
  · have hsame : b.attempt.toNat = n := by omega
    have hmod := Nat.mod_le (b.baseMs.toNat * 2 ^ n) (2 ^ 64)
    rw [hsame]
    omega
  · have hpow : 2 ^ 64 ≤ b.baseMs.toNat * 2 ^ n :=
      (Nat.pow_le_pow_right (by decide) (by omega)).trans (Nat.le_mul_of_pos_left _ hbase)
    omega

/-- The machine cap is the exact one as long as no bit that counts is lost. -/
theorem exactCap_le_capped_iff :
    exactCap b.baseMs b.maxMs n ≤ b.capped.toNat ↔ KeepsBits b.baseMs b.maxMs n := by
  have hmax := b.maxMs.toNat_lt
  rw [toNat_capped, exactCap, KeepsBits]
  split_ifs with hn
  · have hsame : b.attempt.toNat = n := by omega
    rw [hsame]
    by_cases hfits : b.baseMs.toNat * 2 ^ n < 2 ^ 64
    · rw [Nat.mod_eq_of_lt hfits]
      omega
    · omega
  · omega

end Cap

/-! ## The delay -/

theorem next_snd_mem (b : Backoff) {jitter : ℚ} (h0 : 0 ≤ jitter) (h1 : jitter ≤ 1) :
    (b.next jitter).2 = b.capped.toNat / 2 * (1 + jitter) := by
  rw [next]
  dsimp only
  rw [min_eq_left h1, max_eq_right h0]
  ring

/-- What a delay after `n` failed attempts should be. -/
structure BoundedDelay (baseMs maxMs : UInt64) (n : ℕ) (delay : ℚ) : Prop where
  lower : (exactCap baseMs maxMs n : ℚ) / 2 ≤ delay
  upper : delay ≤ exactCap baseMs maxMs n
  positive : 0 < delay
  sustained : maxMs.toNat ≤ baseMs.toNat * 2 ^ n → (maxMs.toNat : ℚ) / 2 ≤ delay

theorem exactCap_pos {baseMs maxMs : UInt64} (hbase : 0 < baseMs) (hle : baseMs ≤ maxMs) (n : ℕ) :
    0 < exactCap baseMs maxMs n := by
  rw [UInt64.lt_iff_toNat_lt] at hbase
  rw [UInt64.le_iff_toNat_le] at hle
  have hbase' : 0 < baseMs.toNat := hbase
  have hmul : 0 < baseMs.toNat * 2 ^ n := Nat.mul_pos hbase' (Nat.two_pow_pos n)
  unfold exactCap
  omega

/-- A delay is bounded for every jitter when the machine cap is the exact one. -/
theorem boundedDelay_iff {b : Backoff} {n : ℕ}
    (hattempt : b.attempt.toNat = min n (2 ^ 32 - 1)) (hbase : 0 < b.baseMs)
    (hle : b.baseMs ≤ b.maxMs) :
    (∀ jitter : ℚ, 0 ≤ jitter → jitter ≤ 1 →
      BoundedDelay b.baseMs b.maxMs n (b.next jitter).2) ↔ KeepsBits b.baseMs b.maxMs n := by
  have hbase' : 0 < b.baseMs.toNat := UInt64.lt_iff_toNat_lt.1 hbase
  have hpos : (0 : ℚ) < exactCap b.baseMs b.maxMs n := by
    exact_mod_cast exactCap_pos hbase hle n
  rw [← exactCap_le_capped_iff hattempt]
  constructor
  · -- no jitter leaves half the machine cap
    intro h
    have hlower := (h 0 (le_refl 0) zero_le_one).lower
    rw [next_snd_mem b (le_refl 0) zero_le_one] at hlower
    have hcap : (exactCap b.baseMs b.maxMs n : ℚ) ≤ b.capped.toNat := by linarith
    exact_mod_cast hcap
  · intro hge jitter h0 h1
    have heq : (b.capped.toNat : ℚ) = exactCap b.baseMs b.maxMs n := by
      exact_mod_cast Nat.le_antisymm (capped_le_exactCap hattempt hbase') hge
    have hdelay := next_snd_mem b h0 h1
    rw [heq] at hdelay
    have hlower : (exactCap b.baseMs b.maxMs n : ℚ) / 2 ≤ (b.next jitter).2 := by
      rw [hdelay]
      nlinarith
    refine ⟨hlower, ?_, ?_, ?_⟩
    · rw [hdelay]
      nlinarith
    · linarith
    · intro hmax
      rw [exactCap, Nat.min_eq_left hmax] at hlower
      exact hlower

/-- After any number of failed attempts the next delay is bounded, whatever its jitter, if and only
if the doubled base still fits the word, or the lost bits do not matter under the cap. -/
theorem delay_bounded_iff {baseMs maxMs : UInt64} (hbase : 0 < baseMs) (hle : baseMs ≤ maxMs)
    (failures : List ℚ) :
    (∀ jitter : ℚ, 0 ≤ jitter → jitter ≤ 1 → BoundedDelay baseMs maxMs failures.length
      (((new baseMs maxMs).failing failures).next jitter).2) ↔
      KeepsBits baseMs maxMs failures.length := by
  obtain ⟨hb, hm, hattempt⟩ := failing_spec (new baseMs maxMs) failures
  have hcount : ((new baseMs maxMs).failing failures).attempt.toNat =
      min failures.length (2 ^ 32 - 1) := by
    rw [hattempt]
    show min (0 + failures.length) (2 ^ 32 - 1) = _
    rw [Nat.zero_add]
  have hiff := boundedDelay_iff hcount (hbase.trans_eq hb.symm)
    (hb.trans_le (hle.trans_eq hm.symm))
  rwa [hb, hm] at hiff

theorem delay_bounded_iff_first :
    BoundedDelay 500 30000 0 (((new 500 30000).failing []).next (1 / 2)).2 := by
  have hbits : KeepsBits 500 30000 0 := Or.inr (Or.inl (by decide))
  exact (delay_bounded_iff (by decide) (by decide) []).2 hbits (1 / 2) (by norm_num) (by norm_num)

/-- With the values of the session the delay after 62 failed attempts is zero. -/
theorem zero_delay : (((new 500 30000).failing (List.replicate 62 1)).next 1).2 = 0 ∧
    ¬ BoundedDelay 500 30000 62 (((new 500 30000).failing (List.replicate 62 1)).next 1).2 := by
  obtain ⟨hb, hm, hattempt⟩ := failing_spec (new 500 30000) (List.replicate 62 1)
  have hcap : ((new 500 30000).failing (List.replicate 62 1)).capped.toNat = 0 := by
    rw [toNat_capped, hb, hm, hattempt, List.length_replicate]
    decide
  have hzero : (((new 500 30000).failing (List.replicate 62 1)).next 1).2 = 0 := by
    rw [next_snd_mem _ zero_le_one (le_refl 1), hcap]
    norm_num
  rw [hzero]
  exact ⟨rfl, fun h => lt_irrefl 0 h.positive⟩

end Backoff

end Snapevent
