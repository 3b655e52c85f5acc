import Mathlib.Data.Rat.Defs
import Mathlib.Algebra.Order.Group.Unbundled.Abs
import Mathlib.Algebra.Order.Field.Rat
import Snapevent.Lib.Firsts
import Snapevent.Lib.KeySort

/-!
# The strike band

The near-money strikes of one hour (`hourly.rs`), with strikes and prices as exact rationals.  The
candidates are the markets with a strike, in strike order.  Only neighbours of one ticker are
dropped, so the band is well formed when the candidates of a ticker stand together.
-/

namespace Snapevent

open Firsts KeySort

/-- A listed market, as far as the band reads it. -/
structure StrikeMarket where
  ticker : String
  floorStrike : Option ℚ
  yesBidDollars : Option String
  yesAskDollars : Option String
  lastPriceDollars : Option String

/-- A market with a strike. -/
structure Candidate where
  strike : ℚ
  ticker : String
  deriving DecidableEq, Repr

section Band

/-! The decimal parser is the standard library's, and stays a parameter. -/

variable (parseDecimal : String → Option ℚ)

/-- The middle of bid and ask when both are there, else the last price. -/
def yesPriceProxy (m : StrikeMarket) : Option ℚ :=
  match m.yesBidDollars.bind parseDecimal, m.yesAskDollars.bind parseDecimal with
  | some b, some a => some ((b + a) / 2)
  | _, _ => m.lastPriceDollars.bind parseDecimal

/-- How far the price of a market is from one half. -/
def atmDistance (m : StrikeMarket) : Option ℚ :=
  (yesPriceProxy parseDecimal m).map fun p => |p - 1 / 2|

/-- The markets with a strike, in strike order. -/
def sortedCandidates (markets : List StrikeMarket) : List Candidate :=
  sortOn Candidate.strike (markets.filterMap fun m => m.floorStrike.map fun s => ⟨s, m.ticker⟩)

/-- The strikes that are left when neighbours of one ticker are dropped. -/
def strikes (markets : List StrikeMarket) : List Candidate :=
  runFirsts Candidate.ticker (sortedCandidates markets)

/-- The strikes of the markets with a price, each with its distance from the money. -/
def pricedStrikes (markets : List StrikeMarket) : List (ℚ × ℚ) :=
  markets.filterMap fun m =>
    m.floorStrike.bind fun s => (atmDistance parseDecimal m).map fun d => (s, d)

/-- The strike in the middle of the list. -/
def medianStrike (strikes : List Candidate) : Option ℚ :=
  strikes[strikes.length / 2]?.map Candidate.strike

/-- The at-the-money strike: by price, else the anchor, else the median. -/
def atmStrike (markets : List StrikeMarket) (anchor : Option ℚ) : ℚ :=
  ((((pricedStrikes parseDecimal markets).argmin Prod.snd).map Prod.fst).or anchor).getD
    ((medianStrike (strikes markets)).getD 0)

/-- The index of the first strike closest to `atm`. -/
def closestIndex (strikes : List Candidate) (atm : ℚ) : ℕ :=
  ((strikes.zipIdx.argmin fun e => |e.1.strike - atm|).map Prod.snd).getD (strikes.length / 2)

/-- The tickers of the band: all of them for band zero, else `band` strikes on each side of the
closest one.  The addition wraps, the subtraction stops at zero. -/
def selectBand (markets : List StrikeMarket) (band : UInt64) (anchor : Option ℚ) : List String :=
  let strikes := strikes markets
  if strikes.isEmpty then []
  else if band = 0 then strikes.map Candidate.ticker
  else
    let center := closestIndex strikes (atmStrike parseDecimal markets anchor)
    let lo := center - band.toNat
    let hi := min ((center + band.toNat + 1) % 2 ^ 64) strikes.length
    ((strikes.take hi).drop lo).map Candidate.ticker

/-! ## What a band should be -/

/-- The candidates in strike order, each ticker once. -/
def ladder (markets : List StrikeMarket) : List Candidate :=
  firsts Candidate.ticker (sortedCandidates markets)

/-- An at-the-money strike: that of a market whose price is closest to one half, without prices the
anchor, and without an anchor the median of the ladder. -/
inductive AtTheMoney (markets : List StrikeMarket) : Option ℚ → ℚ → Prop
  | price {anchor : Option ℚ} {s d : ℚ} (mem : (s, d) ∈ pricedStrikes parseDecimal markets)
      (least : ∀ e ∈ pricedStrikes parseDecimal markets, d ≤ e.2) : AtTheMoney markets anchor s
  | anchor {s : ℚ} (unpriced : pricedStrikes parseDecimal markets = []) :
      AtTheMoney markets (some s) s
  | median {s : ℚ} (unpriced : pricedStrikes parseDecimal markets = [])
      (median : medianStrike (ladder markets) = some s) : AtTheMoney markets none s

/-- A run of the ladder with a candidate closest to the money and `band` neighbours on each side of
it, as far as the ladder has them. -/
structure Around (ladder before run after : List Candidate) (atm : ℚ → Prop) (band : ℕ) : Prop where
  length_le : run.length ≤ 2 * band + 1
  closest : ladder ≠ [] → ∃ left c right s, run = left ++ c :: right ∧ atm s ∧
    (∀ d ∈ ladder, |c.strike - s| ≤ |d.strike - s|) ∧
    left.length = min band (before ++ left).length ∧
    right.length = min band (right ++ after).length

/-- The tickers of a well-formed band. -/
structure WellFormedBand (markets : List StrikeMarket) (band : UInt64) (anchor : Option ℚ)
    (tickers : List String) : Prop where
  nodup : tickers.Nodup
  run : ∃ before run after, ladder markets = before ++ run ++ after ∧
    tickers = run.map Candidate.ticker ∧ (run.map Candidate.strike).Pairwise (· ≤ ·) ∧
    (band = 0 → run = ladder markets) ∧
    (band ≠ 0 → Around (ladder markets) before run after
      (AtTheMoney parseDecimal markets anchor) band.toNat)

end Band

/-! ## The ladder -/

section Ladder

variable {markets : List StrikeMarket}

/-- The candidates of a ticker stand together in strike order. -/
def TickersTogether (markets : List StrikeMarket) : Prop :=
  Grouped Candidate.ticker (sortedCandidates markets)

theorem strikes_eq_ladder (h : TickersTogether markets) : strikes markets = ladder markets :=
  h.runFirsts_eq

theorem nodup_strikes_iff :
    ((strikes markets).map Candidate.ticker).Nodup ↔ TickersTogether markets :=
  nodup_runFirsts_iff

theorem ladder_sorted {run : List Candidate} (h : run.Sublist (ladder markets)) :
    (run.map Candidate.strike).Pairwise (· ≤ ·) :=
  List.pairwise_map.mpr
    ((sortOn_sorted Candidate.strike _).sublist (h.trans (firsts_sublist Candidate.ticker _)))

theorem length_strikes_le : (strikes markets).length ≤ markets.length := by
  calc (strikes markets).length ≤ (sortedCandidates markets).length :=
        (List.destutter_sublist _ _).length_le
    _ = _ := (sortOn_perm Candidate.strike _).length_eq
    _ ≤ markets.length := List.length_filterMap_le _ _

end Ladder

/-! ## The run that is returned -/

section Run

/-- The first strike closest to the money, with what stands on both sides of it. -/
theorem closestIndex_split {strikes : List Candidate} (h : strikes ≠ []) (atm : ℚ) :
    ∃ before c after, strikes = before ++ c :: after ∧
      closestIndex strikes atm = before.length ∧
      (∀ d ∈ before, |c.strike - atm| < |d.strike - atm|) ∧
      ∀ d ∈ strikes, |c.strike - atm| ≤ |d.strike - atm| := by
  cases hleast : strikes.zipIdx.argmin fun e => |e.1.strike - atm| with
  | none =>
    rw [List.argmin_eq_none, List.zipIdx_eq_nil_iff] at hleast
    exact absurd hleast h
  | some e =>
    obtain ⟨c, i⟩ := e
    obtain ⟨before, after, hsplit, hlt, hle⟩ := exists_split_of_mem_argmin hleast
    have hcandidates : strikes = before.map Prod.fst ++ c :: after.map Prod.fst := by
      rw [← List.zipIdx_map_fst 0 strikes, hsplit, List.map_append]
      rfl
    have hindex : i = before.length := by
      have hget : strikes.zipIdx[before.length]? = some (c, i) := by
        rw [hsplit, List.getElem?_append_right le_rfl, Nat.sub_self]
        rfl
      rw [List.getElem?_zipIdx] at hget
      obtain ⟨_, _, hpair⟩ := Option.map_eq_some_iff.mp hget
      have hsnd := congrArg Prod.snd hpair
      omega
    refine ⟨_, c, _, hcandidates, ?_, List.forall_mem_map.mpr hlt, fun d hd => ?_⟩
    · rw [closestIndex, hleast, List.length_map]
      exact hindex
    · obtain ⟨j, hj⟩ := List.getElem?_of_mem hd
      exact hle (d, j) (List.mem_of_getElem? (i := j) (by rw [List.getElem?_zipIdx, hj]; simp))

/-- There is one first closest strike. -/
theorem length_eq_of_closest {atm : ℚ} {before after before' after' : List Candidate}
    {c c' : Candidate} (h : before ++ c :: after = before' ++ c' :: after')
    (hlt : ∀ d ∈ before, |c.strike - atm| < |d.strike - atm|)
    (hle : ∀ d ∈ before ++ c :: after, |c.strike - atm| ≤ |d.strike - atm|)
    (hlt' : ∀ d ∈ before', |c'.strike - atm| < |d.strike - atm|)
    (hle' : ∀ d ∈ before ++ c :: after, |c'.strike - atm| ≤ |d.strike - atm|) :
    before.length = before'.length := by
  have hc : (before ++ c :: after)[before.length]? = some c := by simp
  have hc' : (before ++ c :: after)[before'.length]? = some c' := by rw [h]; simp
  rcases lt_trichotomy before.length before'.length with hshort | heq | hlong
  · rw [h, List.getElem?_append_left hshort] at hc
    exact absurd (hlt' c (List.mem_of_getElem? hc)) (not_lt.mpr (hle c' (List.mem_of_getElem? hc')))
  · exact heq
  · have hmem := List.mem_of_getElem? hc
    rw [List.getElem?_append_left hlong] at hc'
    exact absurd (hlt c' (List.mem_of_getElem? hc')) (not_lt.mpr (hle' c hmem))

/-- The slice of `band` elements on each side of one. -/
theorem take_drop_around {α : Type*} (before after : List α) (c : α) (band : ℕ) :
    ((before ++ c :: after).take (min (before.length + band + 1) (before ++ c :: after).length)).drop
      (before.length - band) = before.drop (before.length - band) ++ c :: after.take band := by
  rw [List.take_eq_take_min, min_assoc, min_self, ← List.take_eq_take_min, Nat.add_assoc,
    List.take_length_add_append, List.take_succ_cons,
    List.drop_append_of_le_length (Nat.sub_le _ _)]

end Run

section AtmStrike

variable {parseDecimal : String → Option ℚ} {markets : List StrikeMarket}

/-- The at-the-money strike of the code is one, when the ladder is not empty. -/
theorem atTheMoney_atmStrike (h : TickersTogether markets) (hne : ladder markets ≠ [])
    (anchor : Option ℚ) :
    AtTheMoney parseDecimal markets anchor (atmStrike parseDecimal markets anchor) := by
  rw [atmStrike]
  cases hleast : (pricedStrikes parseDecimal markets).argmin Prod.snd with
  | some e =>
    obtain ⟨_, _, -, -, hle⟩ := exists_split_of_mem_argmin hleast
    exact .price (List.argmin_mem hleast) hle
  | none =>
    have hunpriced := List.argmin_eq_none.mp hleast
    cases anchor with
    | some s => exact .anchor hunpriced
    | none =>
      have hmiddle : (ladder markets).length / 2 < (ladder markets).length :=
        Nat.div_lt_self (List.length_pos_iff.mpr hne) (by decide)
      have hmedian : medianStrike (ladder markets) =
          some (ladder markets)[(ladder markets).length / 2].strike := by
        rw [medianStrike, List.getElem?_eq_getElem hmiddle, Option.map_some]
      rw [strikes_eq_ladder h, hmedian]
      exact .median hunpriced hmedian

end AtmStrike

/-! ## When the band is well formed -/

section WellFormed

variable {parseDecimal : String → Option ℚ} {markets : List StrikeMarket}

theorem selectBand_zero (anchor : Option ℚ) :
    selectBand parseDecimal markets 0 anchor = (strikes markets).map Candidate.ticker := by
  rw [selectBand]
  cases strikes markets with
  | nil => rfl
  | cons c cs => rfl

theorem selectBand_nil {band : UInt64} {anchor : Option ℚ} (h : strikes markets = []) :
    selectBand parseDecimal markets band anchor = [] := by
  rw [selectBand, h]
  rfl

/-- The slice of a positive band. -/
theorem selectBand_pos {band : UInt64} {anchor : Option ℚ} (h : strikes markets ≠ [])
    (hband : band ≠ 0) : selectBand parseDecimal markets band anchor =
      (((strikes markets).take (min ((closestIndex (strikes markets)
          (atmStrike parseDecimal markets anchor) + band.toNat + 1) % 2 ^ 64)
        (strikes markets).length)).drop (closestIndex (strikes markets)
          (atmStrike parseDecimal markets anchor) - band.toNat)).map Candidate.ticker := by
  rw [selectBand]
  dsimp only
  rw [if_neg (by simpa using h), if_neg hband]

/-- A band over the whole ladder is well formed exactly when the tickers stand together. -/
theorem wellFormedBand_zero_iff (anchor : Option ℚ) :
    WellFormedBand parseDecimal markets 0 anchor (selectBand parseDecimal markets 0 anchor) ↔
      TickersTogether markets := by
  rw [selectBand_zero]
  constructor
  · intro h
    exact nodup_strikes_iff.mp h.nodup
  · intro h
    refine ⟨nodup_strikes_iff.mpr h, [], ladder markets, [], by simp, ?_,
      ladder_sorted (List.Sublist.refl _), fun _ => rfl, fun h => absurd rfl h⟩
    rw [strikes_eq_ladder h]

/-- The first rung closest to the money is low enough for the band to be added to its position. -/
def BandFits (parseDecimal : String → Option ℚ) (markets : List StrikeMarket) (band : UInt64)
    (anchor : Option ℚ) : Prop :=
  ∀ before c after, ladder markets = before ++ c :: after →
    (∀ d ∈ before, |c.strike - atmStrike parseDecimal markets anchor| <
      |d.strike - atmStrike parseDecimal markets anchor|) →
    (∀ d ∈ ladder markets, |c.strike - atmStrike parseDecimal markets anchor| ≤
      |d.strike - atmStrike parseDecimal markets anchor|) →
    before.length + band.toNat + 1 < 2 ^ 64

variable {band : UInt64} {anchor : Option ℚ}

theorem bandFits_iff (hne : ladder markets ≠ []) :
    BandFits parseDecimal markets band anchor ↔
      closestIndex (ladder markets) (atmStrike parseDecimal markets anchor) + band.toNat + 1 <
        2 ^ 64 := by
  obtain ⟨before, c, after, hsplit, hindex, hlt, hle⟩ :=
    closestIndex_split hne (atmStrike parseDecimal markets anchor)
  rw [hindex]
  constructor
  · intro h
    exact h before c after hsplit hlt hle
  · intro h before' c' after' hsplit' hlt' hle'
    rw [hsplit] at hsplit' hle hle'
    rwa [← length_eq_of_closest hsplit' hlt hle hlt' hle']

/-- The slice around the closest rung is well formed. -/
theorem wellFormedBand_of_fits (h : TickersTogether markets) (hband : band ≠ 0)
    (hfits : BandFits parseDecimal markets band anchor) :
    WellFormedBand parseDecimal markets band anchor
      (selectBand parseDecimal markets band anchor) := by
  have heq := strikes_eq_ladder h
  by_cases hne : ladder markets = []
  · rw [selectBand_nil (heq.trans hne)]
    exact ⟨List.nodup_nil, [], [], [], hne, rfl, List.Pairwise.nil, fun _ => hne.symm,
      fun _ => ⟨Nat.zero_le _, fun h => absurd hne h⟩⟩
  · have hsum := (bandFits_iff hne).mp hfits
    obtain ⟨before, c, after, hsplit, hindex, -, hle⟩ :=
      closestIndex_split hne (atmStrike parseDecimal markets anchor)
    rw [hindex] at hsum
    have hslice : selectBand parseDecimal markets band anchor =
        (before.drop (before.length - band.toNat) ++ c :: after.take band.toNat).map
          Candidate.ticker := by
      rw [selectBand_pos (heq ▸ hne) hband, heq, hindex, Nat.mod_eq_of_lt hsum, hsplit,
        take_drop_around]
    have hrun : ladder markets = before.take (before.length - band.toNat) ++
        (before.drop (before.length - band.toNat) ++ c :: after.take band.toNat) ++
        after.drop band.toNat := by
      rw [List.append_assoc, List.append_assoc, List.cons_append, List.take_append_drop,
        ← List.append_assoc, List.take_append_drop]
      exact hsplit
    have hsub : (before.drop (before.length - band.toNat) ++ c :: after.take band.toNat).Sublist
        (ladder markets) := by
      rw [hrun]
      exact (List.sublist_append_right _ _).trans (List.sublist_append_left _ _)
    refine ⟨?_, _, _, _, hrun, hslice, ladder_sorted hsub, fun h => absurd h hband, fun _ => ?_⟩
    · rw [hslice]
      exact (nodup_firsts Candidate.ticker _).sublist (hsub.map Candidate.ticker)
    · refine ⟨?_, fun _ => ⟨_, c, _, _, rfl, atTheMoney_atmStrike h hne anchor, hle, ?_, ?_⟩⟩
      · rw [List.length_append, List.length_cons, List.length_drop, List.length_take]
        omega
      · rw [List.take_append_drop, List.length_drop]
        omega
      · rw [List.take_append_drop, List.length_take]

/-- When the addition wraps, the slice ends before the closest rung. -/
theorem not_wellFormedBand_of_wrap (h : TickersTogether markets) (hband : band ≠ 0)
    (hlen : markets.length < 2 ^ 63) (hfits : ¬ BandFits parseDecimal markets band anchor) :
    ¬ WellFormedBand parseDecimal markets band anchor
      (selectBand parseDecimal markets band anchor) := by
  have heq := strikes_eq_ladder h
  have hne : ladder markets ≠ [] := by
    rintro hnil
    refine hfits fun before c after hsplit => ?_
    rw [hnil] at hsplit
    exact absurd hsplit.symm (by simp)
  have hsum := (bandFits_iff hne).not.mp hfits
  obtain ⟨before, c, after, hsplit, hindex, -, -⟩ :=
    closestIndex_split hne (atmStrike parseDecimal markets anchor)
  have hlength : (ladder markets).length ≤ markets.length := heq ▸ length_strikes_le
  have hbefore : before.length < (ladder markets).length := by
    rw [hsplit, List.length_append, List.length_cons]
    omega
  have hword := band.toNat_lt
  rw [hindex] at hsum
  rintro ⟨-, before', run, after', hladder, htickers, -, -, haround⟩
  obtain ⟨left, c', right, s, hrun, -, -, hleft, hright⟩ := (haround hband).closest hne
  rw [selectBand_pos (heq ▸ hne) hband, heq, hindex] at htickers
  have hshort := congrArg List.length htickers
  have htotal := congrArg List.length hladder
  rw [hrun] at hshort htotal
  simp only [List.length_map, List.length_drop, List.length_take, List.length_append,
    List.length_cons] at hshort htotal hleft hright
  omega

/-- A market without a price. -/
def unpricedMarket (ticker : String) (strike : ℚ) : StrikeMarket :=
  { ticker, floorStrike := some strike, yesBidDollars := none, yesAskDollars := none
    lastPriceDollars := none }

example : selectBand (fun _ => none) [unpricedMarket "A" 1] (.ofNat (2 ^ 64 - 1)) none = [] := by
  decide +kernel

/-- A band wider than the listing returns every strike. -/
theorem selectBand_wide (hwide : markets.length ≤ band.toNat)
    (hsum : markets.length + band.toNat < 2 ^ 64) :
    selectBand parseDecimal markets band anchor = (strikes markets).map Candidate.ticker := by
  by_cases hnil : strikes markets = []
  · rw [selectBand_nil hnil, hnil]
    rfl
  by_cases hband : band = 0
  · rw [hband, selectBand_zero]
  obtain ⟨before, c, after, hsplit, hindex, -, -⟩ :=
    closestIndex_split hnil (atmStrike parseDecimal markets anchor)
  have hlength : (strikes markets).length ≤ markets.length := length_strikes_le
  have hbefore : before.length < (strikes markets).length := by
    rw [hsplit, List.length_append, List.length_cons]
    omega
  rw [selectBand_pos hnil hband, hindex, Nat.mod_eq_of_lt (by omega), min_eq_right (by omega),
    Nat.sub_eq_zero_of_le (by omega), List.take_length, List.drop_zero]

theorem bandFits_of_add_lt (h : TickersTogether markets)
    (hsum : markets.length + band.toNat < 2 ^ 64) : BandFits parseDecimal markets band anchor := by
  intro before c after hsplit _ _
  have hlength : (ladder markets).length ≤ markets.length :=
    strikes_eq_ladder h ▸ length_strikes_le
  rw [hsplit, List.length_append, List.length_cons] at hlength
  omega

/-- The band over the whole ladder is well formed exactly when the candidates of each ticker stand
together in strike order, and so is a band wider than the listing.  When they do, every other band
is well formed exactly when it can be added to the position of the closest rung. -/
theorem select_band_well_formed (parseDecimal : String → Option ℚ) (markets : List StrikeMarket)
    (hlen : markets.length < 2 ^ 63) :
    (∀ anchor, WellFormedBand parseDecimal markets 0 anchor
      (selectBand parseDecimal markets 0 anchor) ↔ TickersTogether markets) ∧
    (∀ band anchor, markets.length ≤ band.toNat → markets.length + band.toNat < 2 ^ 64 →
      (WellFormedBand parseDecimal markets band anchor
        (selectBand parseDecimal markets band anchor) ↔ TickersTogether markets)) ∧
    ∀ band anchor, band ≠ 0 → TickersTogether markets →
      (WellFormedBand parseDecimal markets band anchor
        (selectBand parseDecimal markets band anchor) ↔
          BandFits parseDecimal markets band anchor) := by
  refine ⟨wellFormedBand_zero_iff, fun band anchor hwide hsum => ⟨fun h => ?_, fun h => ?_⟩,
    fun band anchor hband h => ⟨fun hwell => ?_, wellFormedBand_of_fits h hband⟩⟩
  · have hnodup := h.nodup
    rw [selectBand_wide hwide hsum] at hnodup
    exact nodup_strikes_iff.mp hnodup
  · by_cases hband : band = 0
    · rw [hband]
      exact (wellFormedBand_zero_iff anchor).mpr h
    · exact wellFormedBand_of_fits h hband (bandFits_of_add_lt h hsum)
  · by_contra hfits
    exact not_wellFormedBand_of_wrap h hband hlen hfits hwell

/-- Three listed strikes with distinct tickers. -/
theorem select_band_well_formed_three :
    WellFormedBand (fun _ => none)
      [unpricedMarket "T1" 1, unpricedMarket "T3" 3, unpricedMarket "T2" 2] 0 none
      (selectBand (fun _ => none)
        [unpricedMarket "T1" 1, unpricedMarket "T3" 3, unpricedMarket "T2" 2] 0 none) :=
  ((select_band_well_formed _ _ (by decide)).1 none).mpr (nodup_strikes_iff.mp (by decide +kernel))

/-- A ticker that is listed twice around another one of its strike is selected twice. -/
theorem select_band_repeats_ticker :
    ¬ ∀ (markets : List StrikeMarket) (band : UInt64) (anchor : Option ℚ),
      WellFormedBand (fun _ => none) markets band anchor
        (selectBand (fun _ => none) markets band anchor) := by
  intro h
  have hnodup := (h [unpricedMarket "A" 1, unpricedMarket "B" 1, unpricedMarket "A" 1] 0 none).nodup
  exact absurd hnodup (by decide +kernel)

end WellFormed

end Snapevent
