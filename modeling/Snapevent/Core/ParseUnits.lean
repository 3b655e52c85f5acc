import Snapevent.Core.Units
import Snapevent.Lib.FoldM
import Snapevent.Lib.Decimal

/-!
# What the fixed-point parsers accept

A parser accepts the decimal texts with few enough decimal places whose number, scaled, is in the
range of its unit, and reads that number.
-/

namespace Snapevent

/-! ## Scaling -/

section SplitOnce

variable {e : Char} {cs ds : List Char}

theorem splitOnce_append (h : e ∉ cs) : splitOnce e (cs ++ e :: ds) = some (cs, ds) := by
  have hall : ∀ c ∈ cs, decide (c ≠ e) = true := by
    intro c hc
    rw [decide_eq_true_eq]
    rintro rfl
    exact h hc
  have hstop : ¬ decide (e ≠ e) = true := by simp
  rw [splitOnce, if_pos (by simp), List.takeWhile_append_of_pos hall,
    List.dropWhile_append_of_pos hall,
    List.takeWhile_cons_of_neg (p := fun c => decide (c ≠ e)) hstop,
    List.dropWhile_cons_of_neg (p := fun c => decide (c ≠ e)) hstop, List.append_nil]
  rfl

theorem splitOnce_of_notMem (h : e ∉ cs) : splitOnce e cs = none := if_neg h

theorem eq_of_splitOnce {i f : List Char} (h : splitOnce e cs = some (i, f)) :
    cs = i ++ e :: f := by
  by_cases hmem : e ∈ cs
  · obtain ⟨as, bs, rfl, hnot⟩ := List.eq_append_cons_of_mem hmem
    rw [splitOnce_append hnot] at h
    cases h
    rfl
  · rw [splitOnce_of_notMem hmem] at h
    cases h

end SplitOnce

theorem eq_of_stripSign {cs body : List Char} {negative : Bool}
    (h : stripSign cs = (negative, body)) : cs = (if negative then ['-'] else []) ++ body := by
  unfold stripSign at h
  split at h
  all_goals
    cases h
    rfl

theorem of_guard {α ε : Type} {c : Prop} [Decidable c] {e : ε} {x : Except ε α} {a : α}
    (h : (if c then .error e else x) = .ok a) : ¬ c ∧ x = .ok a := by
  split_ifs at h with hc
  exact ⟨hc, h⟩

theorem checked_of_le {input : String} {n : ℕ} (h : n ≤ I128_MAX) : checked input n = .ok n :=
  if_pos h

theorem checked_of_lt {input : String} {n : ℕ} (h : I128_MAX < n) :
    checked input n = .error (.overflow input) := if_neg (by omega)

variable {input : String} {scale : ℕ}

theorem checked_mul {n k : ℕ} (hk : 1 ≤ k) :
    (checked input n >>= fun v => checked input (v * k)) = checked input (n * k) := by
  by_cases hn : n ≤ I128_MAX
  · rw [checked_of_le hn]
    rfl
  · have hle : n ≤ n * k := Nat.le_mul_of_pos_right n hk
    rw [checked_of_lt (by omega), checked_of_lt (by omega)]
    rfl

/-- The checks of two contributions and of their sum come down to the last one. -/
theorem checked_add {negative : Bool} {whole k frac : ℕ} (hk : 1 ≤ k) :
    (do
      let intValue ← checked input whole
      let fracContribution ← checked input frac
      let scaled ← checked input (intValue * k)
      let magnitude ← checked input (scaled + fracContribution)
      return (negative, magnitude)) =
      (checked input (whole * k + frac)).map fun magnitude => (negative, magnitude) := by
  have hle : whole ≤ whole * k := Nat.le_mul_of_pos_right whole hk
  by_cases hsum : whole * k + frac ≤ I128_MAX
  · rw [checked_of_le (by omega : whole ≤ I128_MAX), checked_of_le (by omega : frac ≤ I128_MAX),
      checked_of_le hsum]
    show (checked input (whole * k) >>= fun scaled => checked input (scaled + frac) >>= _) = _
    rw [checked_of_le (by omega : whole * k ≤ I128_MAX)]
    show (checked input (whole * k + frac) >>= _) = _
    rw [checked_of_le hsum]
    rfl
  · rw [checked_of_lt (by omega : I128_MAX < whole * k + frac)]
    by_cases hwhole : whole ≤ I128_MAX
    · rw [checked_of_le hwhole]
      show (checked input frac >>= fun fracContribution => checked input (whole * k) >>= _) = _
      by_cases hfrac : frac ≤ I128_MAX
      · rw [checked_of_le hfrac]
        show (checked input (whole * k) >>= fun scaled => checked input (scaled + frac) >>= _) = _
        by_cases hscaled : whole * k ≤ I128_MAX
        · rw [checked_of_le hscaled]
          show (checked input (whole * k + frac) >>= _) = _
          rw [checked_of_lt (by omega)]
          rfl
        · rw [checked_of_lt (by omega)]
          rfl
      · rw [checked_of_lt (by omega)]
        rfl
    · rw [checked_of_lt (by omega)]
      rfl

/-- The parts of a body: before and behind the point, and whether there is one. -/
def bodyParts (body : List Char) : List Char × List Char × Bool :=
  match splitOnce '.' body with
  | some (i, f) => (i, f, true)
  | none => (body, [], false)

/-- Once the parts are known, they are checked and combined. -/
theorem parseScaled_parts {negative hadPoint : Bool} {body whole frac : List Char}
    (hempty : input.isEmpty = false) (hsign : stripSign input.toList = (negative, body))
    (hparts : bodyParts body = (whole, frac, hadPoint)) : parseScaled input scale =
      if body.isEmpty then .error (.notNumeric input)
      else if whole.isEmpty || !whole.all (·.isDigit) then .error (.notNumeric input)
      else if hadPoint && frac.isEmpty then .error (.notNumeric input)
      else if !frac.all (·.isDigit) then .error (.notNumeric input)
      else if scale < frac.length then .error (.tooManyDecimals scale input)
      else do
        let intValue ← checked input (Nat.ofDigitChars 10 whole 0)
        let fracContribution ←
          if frac.isEmpty then .ok 0
          else do
            let fracValue ← checked input (Nat.ofDigitChars 10 frac 0)
            checked input (fracValue * 10 ^ (scale - frac.length))
        let scaled ← checked input (intValue * 10 ^ scale)
        let magnitude ← checked input (scaled + fracContribution)
        return (negative, magnitude) := by
  rw [bodyParts] at hparts
  rw [parseScaled, hempty, hsign]
  dsimp only
  cases hsplit : splitOnce '.' body with
  | none =>
    rw [hsplit] at hparts
    cases hparts
    rfl
  | some parts =>
    rw [hsplit] at hparts
    cases hparts
    rfl

theorem bodyParts_body (d : Decimal) : bodyParts d.body = (d.whole, d.frac, !d.frac.isEmpty) := by
  have hpoint : '.' ∉ d.whole := Decimal.notMem_whole (by decide)
  rw [bodyParts, Decimal.body]
  cases hfrac : d.frac with
  | nil =>
    rw [if_pos rfl, List.append_nil, splitOnce_of_notMem hpoint]
    rfl
  | cons c ds =>
    rw [if_neg (List.cons_ne_nil c ds), splitOnce_append hpoint]
    rfl

theorem stripSign_text (d : Decimal) : stripSign d.text = (d.negative, d.body) := by
  rw [Decimal.text]
  cases d.negative with
  | true => rfl
  | false =>
    have hminus : '-' ∉ d.whole := Decimal.notMem_whole (by decide)
    obtain ⟨c, cs, hwhole⟩ := List.exists_cons_of_ne_nil d.whole_ne_nil
    have hc : c ≠ '-' := by
      rintro rfl
      exact hminus (hwhole ▸ List.mem_cons_self)
    rw [Decimal.body, hwhole, if_neg (by decide), List.nil_append, List.cons_append, stripSign]
    intro rest heq
    exact hc (List.cons.inj heq).1

theorem isEmpty_of_text {d : Decimal} (htext : input.toList = d.text) : input.isEmpty = false := by
  rw [Bool.eq_false_iff]
  intro hempty
  rw [String.isEmpty_iff] at hempty
  rw [hempty, Decimal.text, Decimal.body] at htext
  obtain ⟨-, hbody⟩ := List.append_eq_nil_iff.1 htext.symm
  exact d.whole_ne_nil (List.append_eq_nil_iff.1 hbody).1

/-- A decimal text with few enough decimal places is read as its sign and its scaled magnitude,
unless that exceeds 128 bits. -/
theorem parseScaled_of_text {d : Decimal} (htext : input.toList = d.text)
    (hscale : d.frac.length ≤ scale) : parseScaled input scale =
      (checked input (d.scaled scale)).map fun magnitude => (d.negative, magnitude) := by
  have hsign : stripSign input.toList = (d.negative, d.body) := by rw [htext, stripSign_text]
  have hbody : d.body.isEmpty = false := by
    rw [Decimal.body]
    simp [d.whole_ne_nil]
  have hwhole : (d.whole.isEmpty || !d.whole.all (·.isDigit)) = false := by
    simpa [d.whole_ne_nil] using d.isDigit_whole
  have hfrac : (!d.frac.all (·.isDigit)) = false := by simpa using d.isDigit_frac
  have hpos : 1 ≤ 10 ^ scale := Nat.one_le_pow _ _ (by decide)
  have hpos' : 1 ≤ 10 ^ (scale - d.frac.length) := Nat.one_le_pow _ _ (by decide)
  rw [parseScaled_parts (isEmpty_of_text htext) hsign (bodyParts_body d), hbody, hwhole, hfrac,
    Bool.not_and_self, if_neg (by decide), if_neg (by decide), if_neg (by decide),
    if_neg (by decide), if_neg (by omega), Decimal.scaled, ← checked_add hpos]
  cases hempty : d.frac with
  | nil =>
    have hzero : Nat.ofDigitChars 10 [] 0 * 10 ^ (scale - ([] : List Char).length) = 0 := by
      rw [Nat.ofDigitChars_nil, Nat.zero_mul]
    rw [hzero, checked_of_le (Nat.zero_le _)]
    rfl
  | cons c ds =>
    rw [hempty] at hpos'
    rw [← checked_mul hpos']
    simp only [bind_assoc]
    rfl

/-- What is read was a decimal text with few enough decimal places. -/
theorem exists_decimal_of_parseScaled {negative : Bool} {magnitude : ℕ}
    (h : parseScaled input scale = .ok (negative, magnitude)) :
    ∃ d : Decimal, input.toList = d.text ∧ d.frac.length ≤ scale := by
  cases hempty : input.isEmpty with
  | true =>
    rw [parseScaled, hempty] at h
    cases h
  | false =>
    obtain ⟨sign, body, hsign⟩ : ∃ sign body, stripSign input.toList = (sign, body) :=
      ⟨_, _, rfl⟩
    obtain ⟨whole, frac, hadPoint, hparts⟩ : ∃ whole frac hadPoint,
      bodyParts body = (whole, frac, hadPoint) := ⟨_, _, _, rfl⟩
    rw [parseScaled_parts hempty hsign hparts] at h
    obtain ⟨-, h⟩ := of_guard h
    obtain ⟨hwhole, h⟩ := of_guard h
    obtain ⟨hpoint, h⟩ := of_guard h
    obtain ⟨hfrac, h⟩ := of_guard h
    obtain ⟨hlong, -⟩ := of_guard h
    rw [Bool.not_eq_true, Bool.or_eq_false_iff] at hwhole
    refine ⟨⟨sign, whole, frac, by simpa using hwhole.1, by simpa using hwhole.2,
      by simpa using hfrac⟩, ?_, not_lt.1 hlong⟩
    rw [Decimal.text, Decimal.body, eq_of_stripSign hsign]
    congr 1
    rw [bodyParts] at hparts
    cases hsplit : splitOnce '.' body with
    | none =>
      rw [hsplit] at hparts
      cases hparts
      rw [if_pos rfl, List.append_nil]
    | some parts =>
      rw [hsplit] at hparts
      cases hparts
      rw [if_neg (by simpa using hpoint)]
      exact eq_of_splitOnce hsplit

/-! ## The parsers -/

/-- A parser reads the decimal texts with at most `scale` decimal places, negative ones only when it
is `signed`, whose number times `10 ^ scale` is at least `lo` and below `hi`, and what it reads is
that product.  All other texts are errors. -/
structure ReadsExactly {α : Type} (parse : String → Except FixedPointError α) (raw : α → ℤ)
    (signed : Bool) (scale : ℕ) (lo hi : ℤ) : Prop where
  reads : ∀ s v, parse s = .ok v ↔ ∃ d : Decimal, s.toList = d.text ∧ d.frac.length ≤ scale ∧
    (d.negative = true → signed = true) ∧ (raw v : ℚ) = d.value * 10 ^ scale
  accepts : ∀ s, (∃ v, parse s = .ok v) ↔ ∃ d : Decimal, s.toList = d.text ∧
    d.frac.length ≤ scale ∧ (d.negative = true → signed = true) ∧
    (lo : ℚ) ≤ d.value * 10 ^ scale ∧ d.value * 10 ^ scale < hi

/-- A number with its sign. -/
def signedInt (negative : Bool) (magnitude : ℕ) : ℤ := if negative then -magnitude else magnitude

theorem Decimal.value_mul_int {d : Decimal} (h : d.frac.length ≤ scale) :
    d.value * 10 ^ scale = (signedInt d.negative (d.scaled scale) : ℚ) := by
  rw [d.value_mul h, signedInt]
  split_ifs
  · push_cast
    rfl
  · push_cast
    rfl

theorem readsExactly_of_parseScaled {α : Type} {parse : String → Except FixedPointError α}
    {raw : α → ℤ} {signed : Bool} {lo hi : ℤ}
    (hparse : ∀ s v, parse s = .ok v ↔ ∃ negative magnitude,
      parseScaled s scale = .ok (negative, magnitude) ∧ (negative = true → signed = true) ∧
        raw v = signedInt negative magnitude)
    (hrange : ∀ n, (∃ v, raw v = n) ↔ lo ≤ n ∧ n < hi) (hlo : -(2 ^ 127 - 1) ≤ lo)
    (hhi : hi ≤ 2 ^ 127) : ReadsExactly parse raw signed scale lo hi := by
  have hreads : ∀ s v, parse s = .ok v ↔ ∃ d : Decimal, s.toList = d.text ∧
      d.frac.length ≤ scale ∧ (d.negative = true → signed = true) ∧
      (raw v : ℚ) = d.value * 10 ^ scale := by
    intro s v
    rw [hparse]
    constructor
    · rintro ⟨negative, magnitude, hscaled, hsigned, hraw⟩
      obtain ⟨d, htext, hplaces⟩ := exists_decimal_of_parseScaled hscaled
      rw [parseScaled_of_text htext hplaces] at hscaled
      by_cases hle : d.scaled scale ≤ I128_MAX
      · rw [checked_of_le hle] at hscaled
        cases hscaled
        exact ⟨d, htext, hplaces, hsigned, by rw [hraw, Decimal.value_mul_int hplaces]⟩
      · rw [checked_of_lt (not_le.1 hle)] at hscaled
        cases hscaled
    · rintro ⟨d, htext, hplaces, hsigned, hraw⟩
      rw [Decimal.value_mul_int hplaces] at hraw
      have hvalue : raw v = signedInt d.negative (d.scaled scale) := by exact_mod_cast hraw
      have hbounds := (hrange (raw v)).1 ⟨v, rfl⟩
      have hle : d.scaled scale ≤ I128_MAX := by
        rw [hvalue, signedInt] at hbounds
        rw [I128_MAX]
        split_ifs at hbounds <;> omega
      refine ⟨d.negative, d.scaled scale, ?_, hsigned, hvalue⟩
      rw [parseScaled_of_text htext hplaces, checked_of_le hle]
      rfl
  refine ⟨hreads, fun s => ?_⟩
  constructor
  · rintro ⟨v, hv⟩
    obtain ⟨d, htext, hplaces, hsigned, hraw⟩ := (hreads s v).1 hv
    obtain ⟨hle, hlt⟩ := (hrange (raw v)).1 ⟨v, rfl⟩
    refine ⟨d, htext, hplaces, hsigned, ?_, ?_⟩
    · rw [← hraw]
      exact_mod_cast hle
    · rw [← hraw]
      exact_mod_cast hlt
  · rintro ⟨d, htext, hplaces, hsigned, hle, hlt⟩
    rw [Decimal.value_mul_int hplaces] at hle hlt
    obtain ⟨v, hv⟩ := (hrange (signedInt d.negative (d.scaled scale))).2
      ⟨by exact_mod_cast hle, by exact_mod_cast hlt⟩
    exact ⟨v, (hreads s v).2 ⟨d, htext, hplaces, hsigned, by
      rw [hv, Decimal.value_mul_int hplaces]⟩⟩

/-- An unsigned unit refuses every sign and keeps the magnitudes below its bound. -/
theorem readsExactly_unsigned {α : Type} {parse : String → Except FixedPointError α} {raw : α → ℕ}
    (mk : ℕ → α) {bound : ℕ} {hi : ℤ} (hhi : hi = bound)
    (hparse : ∀ s, parse s = parseScaled s scale >>= fun p =>
      if p.1 then .error (.negative s)
      else if p.2 < bound then .ok (mk p.2)
      else .error (.overflow s))
    (hmk : ∀ n < bound, raw (mk n) = n) (hraw : ∀ v, mk (raw v) = v ∧ raw v < bound)
    (hbound : bound ≤ 2 ^ 127) : ReadsExactly parse (fun v => raw v) false scale 0 hi := by
  subst hhi
  apply readsExactly_of_parseScaled
  · intro s v
    rw [hparse]
    constructor
    · intro h
      obtain ⟨⟨negative, magnitude⟩, hscaled, h⟩ := FoldM.bind_ok h
      obtain ⟨hsign, h⟩ := of_guard h
      have hnegative : negative = false := Bool.eq_false_iff.2 hsign
      dsimp only at h
      split_ifs at h with hlt
      cases h
      refine ⟨negative, magnitude, hscaled, fun htrue => absurd htrue hsign, ?_⟩
      rw [hnegative, hmk magnitude hlt]
      rfl
    · rintro ⟨negative, magnitude, hscaled, hsigned, hv⟩
      cases negative with
      | true => cases hsigned rfl
      | false =>
        have hmagnitude : raw v = magnitude := Int.natCast_inj.1 hv
        have hkept : (if raw v < bound then .ok (mk (raw v)) else .error (.overflow s)) =
            (.ok v : Except FixedPointError α) := by rw [if_pos (hraw v).2, (hraw v).1]
        rw [hscaled, ← hmagnitude]
        exact hkept
  · intro n
    constructor
    · rintro ⟨v, rfl⟩
      exact ⟨Int.natCast_nonneg _, by exact_mod_cast (hraw v).2⟩
    · rintro ⟨hpos, hlt⟩
      obtain ⟨m, rfl⟩ := Int.eq_ofNat_of_zero_le hpos
      exact ⟨mk m, by rw [hmk m (by exact_mod_cast hlt)]⟩
  · decide
  · exact_mod_cast hbound

theorem readsExactly_delta :
    ReadsExactly QtyDelta.parse (fun v => v.centi.toInt) true 2 (-2 ^ 63) (2 ^ 63) := by
  apply readsExactly_of_parseScaled
  · intro s v
    constructor
    · intro h
      obtain ⟨⟨negative, magnitude⟩, hscaled, h⟩ := FoldM.bind_ok h
      refine ⟨negative, magnitude, hscaled, fun _ => rfl, ?_⟩
      have hkept : (if -2 ^ 63 ≤ signedInt negative magnitude ∧
          signedInt negative magnitude < 2 ^ 63 then
            .ok ⟨Int64.ofInt (signedInt negative magnitude)⟩
          else .error (.overflow s)) = (.ok v : Except FixedPointError QtyDelta) := h
      split_ifs at hkept with hrange
      cases hkept
      exact Int64.toInt_ofInt_of_le hrange.1 hrange.2
    · rintro ⟨negative, magnitude, hscaled, -, hv⟩
      have hkept : (if -2 ^ 63 ≤ signedInt negative magnitude ∧
          signedInt negative magnitude < 2 ^ 63 then
            .ok ⟨Int64.ofInt (signedInt negative magnitude)⟩
          else .error (.overflow s)) = (.ok v : Except FixedPointError QtyDelta) := by
        rw [← hv, if_pos ⟨Int64.le_toInt v.centi, Int64.toInt_lt v.centi⟩, Int64.ofInt_toInt]
      rw [QtyDelta.parse, show QtyDelta.SCALE = 2 from rfl, hscaled]
      exact hkept
  · intro n
    constructor
    · rintro ⟨v, rfl⟩
      exact ⟨Int64.le_toInt v.centi, Int64.toInt_lt v.centi⟩
    · rintro ⟨hle, hlt⟩
      exact ⟨⟨Int64.ofInt n⟩, Int64.toInt_ofInt_of_le hle hlt⟩
  · decide
  · decide

theorem readsExactly_price :
    ReadsExactly MicroDollars.parse (fun v => v.micro.toNat) false 6 0 (2 ^ 32) := by
  have hparse (s : String) : MicroDollars.parse s = parseScaled s 6 >>= fun p =>
      if p.1 then .error (.negative s)
      else if p.2 < 2 ^ 32 then .ok ⟨UInt32.ofNat p.2⟩
      else .error (.overflow s) := rfl
  apply readsExactly_unsigned (fun n => ⟨UInt32.ofNat n⟩) (by norm_num) hparse
  · intro n hn
    exact UInt32.toNat_ofNat_of_lt hn
  · intro v
    exact ⟨by rw [UInt32.ofNat_toNat], v.micro.toNat_lt⟩
  · decide

theorem readsExactly_quantity :
    ReadsExactly RestingQty.parse (fun v => v.centi.toNat) false 2 0 (2 ^ 64) := by
  have hparse (s : String) : RestingQty.parse s = parseScaled s 2 >>= fun p =>
      if p.1 then .error (.negative s)
      else if p.2 < 2 ^ 64 then .ok ⟨UInt64.ofNat p.2⟩
      else .error (.overflow s) := rfl
  apply readsExactly_unsigned (fun n => ⟨UInt64.ofNat n⟩) (by norm_num) hparse
  · intro n hn
    exact UInt64.toNat_ofNat_of_lt hn
  · intro v
    exact ⟨by rw [UInt64.ofNat_toNat], v.centi.toNat_lt⟩
  · decide

/-- The three parsers accept exactly the numbers of their grammar that their unit can hold, and read
them exactly. -/
theorem decimal_parsers_exact :
    ReadsExactly MicroDollars.parse (fun v => v.micro.toNat) false 6 0 (2 ^ 32) ∧
      ReadsExactly RestingQty.parse (fun v => v.centi.toNat) false 2 0 (2 ^ 64) ∧
      ReadsExactly QtyDelta.parse (fun v => v.centi.toInt) true 2 (-2 ^ 63) (2 ^ 63) :=
  ⟨readsExactly_price, readsExactly_quantity, readsExactly_delta⟩

end Snapevent
