import Snapevent.Cli.SweepPlan
import Snapevent.Core.ExactBook
import Snapevent.Lib.Windows

/-!
# Windowed discovery

How the backfill lists the markets of a series (`backfill.rs`, `rest.rs`): the range of close times
in windows of bounded width, the listing of each window page by page, each ticker kept once.  The
venue answers one request at a time and is a parameter.
-/

namespace Snapevent

/-! ## The windows -/

/-- The windows from `lo` on; a run out of fuel has no result. -/
def timeChunksFrom (maxTs step : Int64) : ℕ → Int64 → Option (List (Int64 × Int64))
  | 0, _ => none
  | fuel + 1, lo =>
    if lo < maxTs then
      let hi := min (lo + step) maxTs
      (timeChunksFrom maxTs step fuel hi).map ((lo, hi) :: ·)
    else some []

/-- Windows of at most `step` seconds from `minTs` to `maxTs`. -/
def timeChunks (fuel : ℕ) (minTs maxTs step : Int64) : Option (List (Int64 × Int64)) :=
  if step ≤ 0 ∨ maxTs ≤ minTs then some []
  else timeChunksFrom maxTs step fuel minTs

/-- The bounds of a window as integers. -/
def windowBounds (w : Int64 × Int64) : ℤ × ℤ := (w.1.toInt, w.2.toInt)

section TimeChunks

variable {maxTs step : Int64}

theorem toInt_min (a b : Int64) : (min a b).toInt = min a.toInt b.toInt := by
  show (if a ≤ b then a else b).toInt = _
  have hle : a ≤ b ↔ a.toInt ≤ b.toInt := Int64.le_iff_toInt_le
  split_ifs with h
  · rw [min_eq_left (hle.mp h)]
  · rw [min_eq_right (not_le.mp (hle.not.mp h)).le]

/-- As long as the additions do not wrap, the windows stand end to end.  The induction is on what is
left of the range. -/
theorem exists_timeChunksFrom (hstep : 0 < step.toInt) (hmax : maxTs.toInt + step.toInt < 2 ^ 63)
    (n : ℕ) : ∀ lo : Int64, lo.toInt ≤ maxTs.toInt → maxTs.toInt - lo.toInt ≤ n →
      ∃ chunks, (∀ fuel, n < fuel → timeChunksFrom maxTs step fuel lo = some chunks) ∧
        Windows.Tiles step.toInt maxTs.toInt lo.toInt (chunks.map windowBounds) := by
  induction n with
  | zero =>
    intro lo hle hleft
    have hend : ¬ lo < maxTs := by
      rw [Int64.lt_iff_toInt_lt]
      omega
    refine ⟨[], fun fuel hfuel => ?_, ?_⟩
    · obtain ⟨fuel, rfl⟩ : ∃ k, fuel = k + 1 := ⟨fuel - 1, by omega⟩
      rw [timeChunksFrom, if_neg hend]
    · rw [show lo.toInt = maxTs.toInt by omega]
      exact .done
  | succ n ih =>
    intro lo hle hleft
    by_cases hlt : lo < maxTs
    · have hlt' := Int64.lt_iff_toInt_lt.mp hlt
      have hlo := Int64.le_toInt lo
      have hhi : (min (lo + step) maxTs).toInt = min (lo.toInt + step.toInt) maxTs.toInt := by
        rw [toInt_min, toInt_add_of_fits (by omega) (by omega)]
      obtain ⟨chunks, hrun, htiles⟩ := ih (min (lo + step) maxTs) (by omega) (by omega)
      refine ⟨(lo, min (lo + step) maxTs) :: chunks, fun fuel hfuel => ?_, ?_⟩
      · obtain ⟨fuel, rfl⟩ : ∃ k, fuel = k + 1 := ⟨fuel - 1, by omega⟩
        rw [timeChunksFrom, if_pos hlt]
        dsimp only
        rw [hrun fuel (by omega)]
        rfl
      · have hnonempty : lo.toInt < (min (lo + step) maxTs).toInt := by omega
        have hwidth : (min (lo + step) maxTs).toInt - lo.toInt ≤ step.toInt := by omega
        exact .next hnonempty hwidth htiles
    · have hend := Int64.lt_iff_toInt_lt.not.mp hlt
      refine ⟨[], fun fuel hfuel => ?_, ?_⟩
      · obtain ⟨fuel, rfl⟩ : ∃ k, fuel = k + 1 := ⟨fuel - 1, by omega⟩
        rw [timeChunksFrom, if_neg hlt]
      · rw [show lo.toInt = maxTs.toInt by omega]
        exact .done

/-- With enough fuel the windows of a range split it. -/
theorem exists_timeChunks (minTs : Int64) (hstep : 0 < step.toInt)
    (hmax : maxTs.toInt + step.toInt < 2 ^ 63) :
    ∃ chunks, (∃ n, ∀ fuel, n < fuel → timeChunks fuel minTs maxTs step = some chunks) ∧
      Windows.Splits step.toInt minTs.toInt maxTs.toInt (chunks.map windowBounds) := by
  have hpos : ¬ step ≤ 0 := by
    rw [Int64.le_iff_toInt_le]
    exact not_le.mpr hstep
  by_cases hempty : maxTs ≤ minTs
  · have hle := Int64.le_iff_toInt_le.mp hempty
    refine ⟨[], ⟨0, fun fuel _ => by rw [timeChunks, if_pos (Or.inr hempty)]⟩,
      ⟨List.isChain_nil, List.Pairwise.nil, by simp, by simp, fun t => ?_⟩⟩
    simp only [List.map_nil, List.not_mem_nil, false_and, exists_false, false_iff]
    omega
  · have hlt := Int64.le_iff_toInt_le.not.mp hempty
    obtain ⟨chunks, hrun, htiles⟩ := exists_timeChunksFrom hstep hmax
      (maxTs.toInt - minTs.toInt).toNat minTs (by omega) (by omega)
    refine ⟨chunks, ⟨(maxTs.toInt - minTs.toInt).toNat, fun fuel hfuel => ?_⟩, htiles.splits⟩
    rw [timeChunks, if_neg (not_or.mpr ⟨hpos, hempty⟩)]
    exact hrun fuel hfuel

example : timeChunks 4 0 7300 3600 = some [(0, 3600), (3600, 7200), (7200, 7300)] := by decide

end TimeChunks

/-! ## The listings -/

/-- A request for one page of markets. -/
structure MarketsQuery where
  limit : ℕ
  status : Option String
  seriesTicker : Option String
  minCloseTs : Option Int64
  maxCloseTs : Option Int64
  cursor : Option String

/-- The body of an answer. -/
structure MarketsResponse where
  markets : List Market
  cursor : Option String

/-- A failed request, under what it was made for. -/
structure ListingError where
  context : String
  source : String

section Discover

variable (venue : MarketsQuery → Except String MarketsResponse)

/-- One page, and the cursor of the next if there is one. -/
def listMarketsPage (q : MarketsQuery) : Except String (List Market × Option String) :=
  (venue q).map fun body => (body.markets, body.cursor.filter (!·.isEmpty))

/-- The markets found so far, and their tickers. -/
structure Discovered where
  seen : List String
  found : List Market

/-- Keep a market with a new ticker. -/
def Discovered.add (d : Discovered) (m : Market) : Discovered :=
  if m.ticker ∈ d.seen then d else ⟨m.ticker :: d.seen, d.found ++ [m]⟩

variable (series : String) (status : Option String)

/-- The request for a page of a window. -/
def windowQuery (w : Int64 × Int64) (cursor : Option String) : MarketsQuery :=
  { limit := 1000, status, seriesTicker := some series, minCloseTs := some w.1
    maxCloseTs := some w.2, cursor }

/-- The pages of one window from a cursor on. -/
def discoverWindow (w : Int64 × Int64) :
    ℕ → Option String → Discovered → Option (Except ListingError Discovered)
  | 0, _, _ => none
  | fuel + 1, cursor, d =>
    match listMarketsPage venue (windowQuery series status w cursor) with
    | .error e => some (.error
      { context := "listing " ++ series ++ " markets in [" ++ toString w.1.toInt ++ ", " ++
          toString w.2.toInt ++ ")", source := e })
    | .ok (markets, next) =>
      let d := markets.foldl Discovered.add d
      match next with
      | some c => discoverWindow w fuel (some c) d
      | none => some (.ok d)

/-- The windows one after another; the first failure ends the discovery. -/
def discoverWindows (fuel : ℕ) :
    List (Int64 × Int64) → Discovered → Option (Except ListingError Discovered)
  | [], d => some (.ok d)
  | w :: ws, d =>
    match discoverWindow venue series status w fuel none d with
    | none => none
    | some (.error e) => some (.error e)
    | some (.ok d) => discoverWindows fuel ws d

/-- The markets of a series that close in a range. -/
def discoverMarketsWindowed (fuel : ℕ) (minClose maxClose chunkSecs : Int64) :
    Option (Except ListingError (List Market)) := do
  let chunks ← timeChunks fuel minClose maxClose chunkSecs
  let result ← discoverWindows venue series status fuel chunks ⟨[], []⟩
  return result.map Discovered.found

end Discover

/-! ## What a venue lists -/

section Venue

variable (venue : MarketsQuery → Except String MarketsResponse)

/-- The pages the venue has for the requests of a listing, from a cursor to the last one. -/
inductive Pages (query : Option String → MarketsQuery) : Option String → List (List Market) → Prop
  | last {cursor : Option String} {markets : List Market}
      (h : listMarketsPage venue (query cursor) = .ok (markets, none)) : Pages query cursor [markets]
  | more {cursor : Option String} {markets : List Market} {c : String} {pages : List (List Market)}
      (h : listMarketsPage venue (query cursor) = .ok (markets, some c))
      (rest : Pages query (some c) pages) : Pages query cursor (markets :: pages)

variable (parseRfc3339 : String → Option Timestamp)

/-- The market closes in a window of seconds, at its upper bound only if that is `inclusive`. -/
def Market.ClosesIn (inclusive : Bool) (w : ℤ × ℤ) (m : Market) : Prop :=
  ∃ t : Timestamp, m.closeTime.bind parseRfc3339 = some t ∧ w.1 * 10 ^ 9 ≤ t.nanos ∧
    (t.nanos < w.2 * 10 ^ 9 ∨ inclusive = true ∧ t.nanos = w.2 * 10 ^ 9)

/-- What closes in a window closes in every window around it. -/
theorem Market.ClosesIn.mono {parseRfc3339 : String → Option Timestamp} {inclusive : Bool} {v w : ℤ × ℤ}
    {m : Market} (h : m.ClosesIn parseRfc3339 inclusive v) (hlo : w.1 ≤ v.1) (hhi : v.2 ≤ w.2) :
    m.ClosesIn parseRfc3339 inclusive w := by
  obtain ⟨t, ht, hle, hlt⟩ := h
  refine ⟨t, ht, by omega, ?_⟩
  rcases hlt with hlt | ⟨hinclusive, heq⟩
  · exact Or.inl (by omega)
  · by_cases hend : t.nanos < w.2 * 10 ^ 9
    · exact Or.inl hend
    · exact Or.inr ⟨hinclusive, by omega⟩

/-- The venue lists a set of markets: each window of the range has finitely many pages, and on them
are the markets that close in the window. -/
def Lists (series : String) (status : Option String) (inclusive : Bool) (minClose maxClose : Int64)
    (markets : Set Market) : Prop :=
  ∀ w : Int64 × Int64, minClose.toInt ≤ w.1.toInt → w.1.toInt < w.2.toInt →
    w.2.toInt ≤ maxClose.toInt →
    ∃ pages, Pages venue (windowQuery series status w) none pages ∧
      ∀ m, m ∈ pages.flatten ↔ m ∈ markets ∧ m.ClosesIn parseRfc3339 inclusive (windowBounds w)

end Venue

/-! ## What is found -/

theorem foldl_add_found (markets : List Market) (d : Discovered) :
    (markets.foldl Discovered.add d).found = d.found ++ dedupByTicker d.seen markets := by
  induction markets generalizing d with
  | nil => exact (List.append_nil _).symm
  | cons m markets ih =>
    rw [List.foldl_cons, ih, dedupByTicker, Discovered.add]
    split_ifs
    · rfl
    · exact List.append_assoc _ _ _

section Found

variable {venue : MarketsQuery → Except String MarketsResponse} {series : String}
  {status : Option String}

/-- A finite listing is read to its end. -/
theorem discoverWindow_pages {w : Int64 × Int64} {cursor : Option String}
    {pages : List (List Market)} (h : Pages venue (windowQuery series status w) cursor pages)
    (d : Discovered) {fuel : ℕ} (hfuel : pages.length ≤ fuel) :
    discoverWindow venue series status w fuel cursor d =
      some (.ok (pages.flatten.foldl Discovered.add d)) := by
  induction h generalizing d fuel with
  | last h =>
    obtain ⟨fuel, rfl⟩ : ∃ k, fuel = k + 1 := ⟨fuel - 1, by simp at hfuel; omega⟩
    rw [discoverWindow, h, List.flatten_singleton]
  | @more cursor markets c pages h _ ih =>
    rw [List.length_cons] at hfuel
    obtain ⟨fuel, rfl⟩ : ∃ k, fuel = k + 1 := ⟨fuel - 1, by omega⟩
    rw [discoverWindow, h, List.flatten_cons, List.foldl_append]
    exact ih _ (by omega)

/-- The windows are read one after another, with what is on the pages of any of them. -/
theorem discoverWindows_pages {ws : List (Int64 × Int64)} {listed : Int64 × Int64 → Market → Prop}
    (h : ∀ w ∈ ws, ∃ pages, Pages venue (windowQuery series status w) none pages ∧
      ∀ m, m ∈ pages.flatten ↔ listed w m) :
    ∃ (all : List Market) (n : ℕ), (∀ m, m ∈ all ↔ ∃ w ∈ ws, listed w m) ∧ ∀ d fuel, n ≤ fuel →
      discoverWindows venue series status fuel ws d = some (.ok (all.foldl Discovered.add d)) := by
  induction ws with
  | nil => exact ⟨[], 0, by simp, fun d fuel _ => rfl⟩
  | cons w ws ih =>
    obtain ⟨pages, hpages, hlisted⟩ := h w List.mem_cons_self
    obtain ⟨all, n, hall, hrun⟩ := ih fun w hw => h w (List.mem_cons_of_mem _ hw)
    refine ⟨pages.flatten ++ all, max n pages.length, fun m => ?_, fun d fuel hfuel => ?_⟩
    · rw [List.mem_append, hlisted, hall, List.exists_mem_cons_iff]
    · rw [discoverWindows, discoverWindow_pages hpages d (by omega), List.foldl_append]
      exact hrun _ _ (by omega)

end Found

/-- The windows of a range split it, and of a venue that lists each window on finitely many pages
the discovery finds, each ticker once, every market that closes in the range. -/
theorem windowed_discovery_covers_once (minClose maxClose step : Int64) (hstep : 0 < step.toInt)
    (hmax : maxClose.toInt + step.toInt < 2 ^ 63) :
    (∃ chunks, (∃ n, ∀ fuel, n < fuel → timeChunks fuel minClose maxClose step = some chunks) ∧
      Windows.Splits step.toInt minClose.toInt maxClose.toInt (chunks.map windowBounds)) ∧
    ∀ (parseRfc3339 : String → Option Timestamp)
      (venue : MarketsQuery → Except String MarketsResponse) (series : String)
      (status : Option String) (inclusive : Bool) (markets : Set Market),
      Lists venue parseRfc3339 series status inclusive minClose maxClose markets →
      ∃ found, (∃ n, ∀ fuel, n < fuel → discoverMarketsWindowed venue series status fuel minClose
          maxClose step = some (.ok found)) ∧
        (found.map Market.ticker).Nodup ∧
        (∀ m ∈ found, m ∈ markets ∧
          m.ClosesIn parseRfc3339 inclusive (windowBounds (minClose, maxClose))) ∧
        ∀ m ∈ markets, m.ClosesIn parseRfc3339 false (windowBounds (minClose, maxClose)) →
          (∃ m' ∈ found, m'.ticker = m.ticker) ∧
          ((∀ m' ∈ markets, m'.ticker = m.ticker → m' = m) → m ∈ found) := by
  obtain ⟨chunks, ⟨n, hchunks⟩, hsplits⟩ := exists_timeChunks minClose hstep hmax
  refine ⟨⟨chunks, ⟨n, hchunks⟩, hsplits⟩, ?_⟩
  intro parseRfc3339 venue series status inclusive markets hlists
  have hinside : ∀ w ∈ chunks, minClose.toInt ≤ w.1.toInt ∧ w.1.toInt < w.2.toInt ∧
      w.2.toInt ≤ maxClose.toInt := by
    intro w hw
    have hmem : windowBounds w ∈ chunks.map windowBounds := List.mem_map_of_mem hw
    have hlt : w.1.toInt < w.2.toInt := hsplits.nonempty _ hmem
    have hfirst := (hsplits.covers w.1.toInt).mp ⟨_, hmem, le_rfl, hlt⟩
    have hlast := (hsplits.covers (w.2.toInt - 1)).mp
      ⟨_, hmem, Int.le_sub_one_of_lt hlt, Int.sub_one_lt_of_le le_rfl⟩
    omega
  obtain ⟨all, k, hall, hrun⟩ := discoverWindows_pages
    fun w (hw : w ∈ chunks) => hlists w (hinside w hw).1 (hinside w hw).2.1 (hinside w hw).2.2
  have hfirst {m : Market} (hm : m ∈ all) : ∃ m' ∈ dedupByTicker [] all, m'.ticker = m.ticker := by
    have hsome : (all.find? fun m' => m'.ticker = m.ticker).isSome :=
      List.find?_isSome.mpr ⟨m, hm, decide_eq_true rfl⟩
    obtain ⟨m', hm'⟩ := Option.isSome_iff_exists.mp hsome
    have hticker : m'.ticker = m.ticker := by simpa using List.find?_some hm'
    refine ⟨m', mem_dedupByTicker.mpr ⟨List.not_mem_nil, ?_⟩, hticker⟩
    rw [IsFirstListing, hticker]
    exact hm'
  have hlisted {m : Market} (hm : m ∈ dedupByTicker [] all) : m ∈ all :=
    List.mem_of_find?_eq_some (mem_dedupByTicker.mp hm).2
  refine ⟨dedupByTicker [] all, ⟨max n k, fun fuel hfuel => ?_⟩, (dedupByTicker_nodup [] all).1,
    fun m hm => ?_, fun m hm hcloses => ?_⟩
  · rw [discoverMarketsWindowed, hchunks fuel (by omega)]
    show (discoverWindows venue series status fuel chunks ⟨[], []⟩ >>= _) = _
    rw [hrun _ fuel (by omega)]
    show some (Except.ok (all.foldl Discovered.add ⟨[], []⟩).found) = _
    rw [foldl_add_found]
    rfl
  · obtain ⟨w, hw, hmem, t, ht, hle, hlt⟩ := (hall m).mp (hlisted hm)
    exact ⟨hmem, Market.ClosesIn.mono ⟨t, ht, hle, hlt⟩ (hinside w hw).1 (hinside w hw).2.2⟩
  · obtain ⟨t, ht, hle, hlt | ⟨hfalse, -⟩⟩ := hcloses
    swap
    · cases hfalse
    simp only [windowBounds] at hle hlt
    obtain ⟨b, hb, hble, hblt⟩ := (hsplits.covers (t.nanos / 10 ^ 9)).mpr (by omega)
    obtain ⟨w, hw, rfl⟩ := List.mem_map.mp hb
    have hin : m ∈ all := by
      refine (hall m).mpr ⟨w, hw, hm, t, ht, ?_, Or.inl ?_⟩
      all_goals
        simp only [windowBounds] at hble hblt ⊢
        omega
    refine ⟨hfirst hin, fun hunique => ?_⟩
    obtain ⟨m', hm', hticker⟩ := hfirst hin
    obtain ⟨w', hw', hmem', -⟩ := (hall m').mp (hlisted hm')
    exact hunique m' hmem' hticker ▸ hm'

/-- An hourly market, which closes where two windows meet. -/
def hourMarket : Market :=
  { ticker := "KXBTCD-70JAN0101-T100", status := some "finalized"
    eventTicker := some "KXBTCD-70JAN0101", openTime := some "1970-01-01T00:00:00Z"
    closeTime := some "1970-01-01T01:00:00Z", volumeFp := none }

def hourTime (s : String) : Option Timestamp :=
  if s = "1970-01-01T01:00:00Z" then some ⟨3600 * 10 ^ 9, by decide⟩ else none

/-- A venue with that market, which closes each listing with an empty page and counts the upper
bound of a window in. -/
def hourVenue (q : MarketsQuery) : Except String MarketsResponse :=
  match q.cursor, q.minCloseTs, q.maxCloseTs with
  | none, some lo, some hi =>
    if lo.toInt ≤ 3600 ∧ 3600 ≤ hi.toInt then .ok ⟨[hourMarket], some "2"⟩ else .ok ⟨[], some "2"⟩
  | _, _, _ => .ok ⟨[], some ""⟩

theorem hourMarket_closesIn {w : ℤ × ℤ} :
    hourMarket.ClosesIn hourTime true w ↔ w.1 ≤ 3600 ∧ 3600 ≤ w.2 := by
  constructor
  · rintro ⟨t, ht, hle, hlt⟩
    have hnanos : t.nanos = 3600 * 10 ^ 9 := by
      cases ht
      rfl
    omega
  · rintro ⟨hle, hlt⟩
    refine ⟨⟨3600 * 10 ^ 9, by decide⟩, rfl, by dsimp only; omega, ?_⟩
    by_cases hend : w.2 = 3600
    · exact Or.inr ⟨rfl, by dsimp only; omega⟩
    · exact Or.inl (by dsimp only; omega)

theorem lists_hourVenue :
    Lists hourVenue hourTime "KXBTCD" none true 0 7200 (fun m => m = hourMarket) := by
  intro w _ _ _
  by_cases hin : w.1.toInt ≤ 3600 ∧ 3600 ≤ w.2.toInt
  · have hfirst : listMarketsPage hourVenue (windowQuery "KXBTCD" none w none) =
        .ok ([hourMarket], some "2") := by
      show Except.map _ (if w.1.toInt ≤ 3600 ∧ 3600 ≤ w.2.toInt then _ else _) = _
      rw [if_pos hin]
      rfl
    refine ⟨_, .more hfirst (.last rfl), fun m => ?_⟩
    simp only [List.flatten_cons, List.flatten_nil, List.append_nil, List.mem_singleton]
    constructor
    · rintro rfl
      exact ⟨rfl, hourMarket_closesIn.mpr hin⟩
    · exact fun h => h.1
  · have hfirst : listMarketsPage hourVenue (windowQuery "KXBTCD" none w none) =
        .ok ([], some "2") := by
      show Except.map _ (if w.1.toInt ≤ 3600 ∧ 3600 ≤ w.2.toInt then _ else _) = _
      rw [if_neg hin]
      rfl
    refine ⟨_, .more hfirst (.last rfl), fun m => ?_⟩
    simp only [List.flatten_cons, List.flatten_nil, List.append_nil, List.not_mem_nil, false_iff]
    rintro ⟨rfl, hcloses⟩
    exact hin (hourMarket_closesIn.mp hcloses)

/-- The market is listed in both windows and found once. -/
theorem windowed_discovery_covers_once_hour :
    ∃ found, (∃ n, ∀ fuel, n < fuel → discoverMarketsWindowed hourVenue "KXBTCD" none fuel 0 7200
        3600 = some (.ok found)) ∧
      (found.map Market.ticker).Nodup ∧ hourMarket ∈ found := by
  obtain ⟨found, hrun, hnodup, -, hall⟩ :=
    (windowed_discovery_covers_once 0 7200 3600 (by decide) (by decide)).2 hourTime hourVenue
      "KXBTCD" none true _ lists_hourVenue
  have hcloses : hourMarket.ClosesIn hourTime false (windowBounds (0, 7200)) :=
    ⟨⟨3600 * 10 ^ 9, by decide⟩, rfl, by decide, Or.inl (by decide)⟩
  exact ⟨found, hrun, hnodup, (hall hourMarket rfl hcloses).2 fun m' hm' _ => hm'⟩

end Snapevent
