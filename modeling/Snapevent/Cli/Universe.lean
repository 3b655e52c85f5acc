import Mathlib.Data.List.Dedup
import Mathlib.Data.String.Basic
import Snapevent.Cli.EventTime
import Snapevent.Cli.Supervisor
import Snapevent.Lib.SortedMap

/-!
# Planning a sweep

What a sweep of the universe capture makes of the listings (`universe.rs`): the settlement cohorts
of the non-terminal markets, and which of them to arm.
-/

namespace Snapevent

/-! ## Cohorts -/

/-- The markets of one event. -/
structure Cohort where
  series : String
  tickers : List String
  openTime : Option Timestamp
  closeTime : Option Timestamp
  inferredStart : Option Timestamp
  deriving DecidableEq, Repr

/-- A contract's expiry cadence. -/
inductive Cadence
  | hourly
  | daily
  | weekly
  | long
  | other
  deriving DecidableEq, Repr

/-- One minute in nanoseconds. -/
def MINUTE : ℤ := 60 * 10 ^ 9

/-- Classify a contract by its lifetime. -/
def cadence (openTime closeTime : Option Timestamp) : Cadence :=
  match openTime, closeTime with
  | some o, some c =>
    let mins := (c.nanos - o.nanos).tdiv MINUTE
    if 50 ≤ mins ∧ mins ≤ 70 then .hourly
    else if 1380 ≤ mins ∧ mins ≤ 1620 then .daily
    else if 9360 ≤ mins ∧ mins ≤ 10860 then .weekly
    else if 10860 < mins then .long
    else .other
  | _, _ => .other

/-- Drop the markets whose ticker was already seen. -/
def dedupByTicker (seen : List String) : List Market → List Market
  | [] => []
  | m :: markets =>
    if m.ticker ∈ seen then dedupByTicker seen markets
    else m :: dedupByTicker (m.ticker :: seen) markets

/-- The event of a market: the listed one, else what its ticker says. -/
def eventOf (m : Market) : Option String := m.eventTicker <|> beforeLast '-' m.ticker

/-- The smaller of two instants, either of which may be unknown. -/
def earliest : Option Timestamp → Option Timestamp → Option Timestamp
  | some a, some b => some (if a.nanos ≤ b.nanos then a else b)
  | a, b => a <|> b

/-- The greater of two instants, either of which may be unknown. -/
def latest : Option Timestamp → Option Timestamp → Option Timestamp
  | some a, some b => some (if a.nanos ≤ b.nanos then b else a)
  | a, b => a <|> b

section Group

/-! The parser of RFC 3339 texts is the calendar library's, and stays a parameter. -/

variable (parseRfc3339 : String → Option Timestamp)

/-- A cohort with one more market; an event without a cohort gets a new one. -/
def addMarket (series event : String) (m : Market) (cohort : Option Cohort) : Cohort :=
  let entry := cohort.getD
    { series, tickers := [], openTime := none, closeTime := none
      inferredStart := parseEventStart event }
  { entry with
    openTime := earliest entry.openTime (m.openTime.bind parseRfc3339)
    closeTime := latest entry.closeTime (m.closeTime.bind parseRfc3339)
    tickers := entry.tickers ++ [m.ticker] }

/-- Put one market into its cohort; terminal markets and those without an event are left out. -/
def groupMarket (series : String) (groups : List (String × Cohort)) (m : Market) :
    List (String × Cohort) :=
  if isTerminal m.status then groups
  else
    match eventOf m with
    | none => groups
    | some event => SortedMap.upsert event (addMarket parseRfc3339 series event m) groups

/-- The cohorts of a series, keyed by event. -/
def groupByEvent (series : String) (markets : List Market) : List (String × Cohort) :=
  markets.foldl (groupMarket parseRfc3339 series) []

/-- The listings of one series: a status with what its sweep returned. -/
structure SeriesListing where
  series : String
  statuses : List (String × Except String (List Market))

/-- The markets of one status; liquidity is not asked of markets that have not opened. -/
def sweptMarkets (enough : Option String → Bool) :
    String × Except String (List Market) → List Market
  | (status, .ok markets) =>
    if status = "unopened" then markets else markets.filter fun m => enough m.volumeFp
  | (_, .error _) => []

/-- The cohorts of a sweep. -/
def sweepGroups (enough : Option String → Bool) (listings : List SeriesListing) :
    List (String × Cohort) :=
  listings.foldl (fun groups l =>
    let markets := dedupByTicker [] (l.statuses.flatMap (sweptMarkets enough))
    SortedMap.insertAll (groupByEvent parseRfc3339 l.series markets) groups) []

end Group

/-! ## Admission -/

/-- What one sweep decided. -/
structure ArmPlan where
  arm : List (String × Cohort)
  capped : List String
  deferred : List String
  skipped : List String
  noStart : List String
  deriving DecidableEq, Repr

/-- A plan before any event. -/
def ArmPlan.default : ArmPlan :=
  { arm := [], capped := [], deferred := [], skipped := [], noStart := [] }

/-- The parameters of the admission gate; the arm lead is in nanoseconds. -/
structure GateCfg where
  now : Timestamp
  armLead : ℤ
  clashSub : Bool
  hasBound : Bool
  deriving DecidableEq, Repr

/-- What the gate says of a cohort. -/
inductive Gated
  | defer
  | skip
  | admitted (noStart : Bool)
  deriving DecidableEq, Repr

/-- The admission gate: a cohort with an inferred start waits for it, another for what its cadence
demands. -/
def gateCohort (gate : GateCfg) (cohort : Cohort) : Gated :=
  match cohort.inferredStart with
  | some start => if gate.now.nanos < start.nanos - gate.armLead then .defer else .admitted false
  | none =>
    match cadence cohort.openTime cohort.closeTime with
    | .daily | .weekly =>
      if gate.clashSub then
        match cohort.closeTime with
        | some c => if c.nanos - 70 * MINUTE ≤ gate.now.nanos then .admitted false else .defer
        | none => .admitted false
      else .skip
    | .long => .skip
    | cad =>
      match cohort.openTime with
      | some o =>
        if gate.now.nanos < o.nanos - gate.armLead then .defer
        else .admitted (cad = .other && gate.hasBound)
      | none => .admitted (cad = .other && gate.hasBound)

/-- A plan that is being made, with the units it may still arm. -/
structure Planning where
  budget : ℕ
  plan : ArmPlan
  deriving DecidableEq, Repr

/-- Plan one event; `captured` says whether its directory carries a marker. -/
def planEvent (gate : GateCfg) (inFlight : List String) (captured : Bool) (p : Planning)
    (event : String) (cohort : Cohort) : Planning :=
  if event ∈ inFlight then p
  else if captured then p
  else
    match gateCohort gate cohort with
    | .defer => { p with plan := { p.plan with deferred := p.plan.deferred ++ [event] } }
    | .skip => { p with plan := { p.plan with skipped := p.plan.skipped ++ [event] } }
    | .admitted noStart =>
      let plan := if noStart then { p.plan with noStart := p.plan.noStart ++ [event] } else p.plan
      if p.budget = 0 then { p with plan := { plan with capped := plan.capped ++ [event] } }
      else
        { budget := p.budget - 1, plan := { plan with arm := plan.arm ++ [(event, cohort)] } }

/-- A plan before any event: the budget is what the units in flight leave. -/
def Planning.start (maxUnits : ℕ) (inFlight : List String) : Planning :=
  { budget := maxUnits - inFlight.dedup.length, plan := .default }

/-! ## What planning keeps -/

section Dedup

/-- The tickers that are kept are new ones, each once. -/
theorem dedupByTicker_nodup (seen : List String) (markets : List Market) :
    ((dedupByTicker seen markets).map (·.ticker)).Nodup ∧
      ∀ m ∈ dedupByTicker seen markets, m.ticker ∉ seen := by
  induction markets generalizing seen with
  | nil => exact ⟨List.nodup_nil, by simp [dedupByTicker]⟩
  | cons m markets ih =>
    rw [dedupByTicker]
    split_ifs with hseen
    · exact ih seen
    · obtain ⟨hnodup, hnew⟩ := ih (m.ticker :: seen)
      refine ⟨?_, ?_⟩
      · rw [List.map_cons, List.nodup_cons]
        refine ⟨?_, hnodup⟩
        intro hm
        obtain ⟨m', hm', heq⟩ := List.mem_map.1 hm
        apply hnew m' hm'
        rw [heq]
        exact List.mem_cons_self
      · intro m' hm'
        cases List.mem_cons.1 hm' with
        | inl heq =>
          rw [heq]
          exact hseen
        | inr hm' => exact fun hs => hnew m' hm' (List.mem_cons_of_mem _ hs)

end Dedup

section Groups

variable {parseRfc3339 : String → Option Timestamp} {series : String}

theorem groupMarket_sorted {groups : List (String × Cohort)} (h : SortedMap.Sorted groups)
    (m : Market) : SortedMap.Sorted (groupMarket parseRfc3339 series groups m) := by
  unfold groupMarket
  split_ifs
  · exact h
  · split
    · exact h
    · exact SortedMap.sorted_upsert h

/-- The tickers of a cohort are tickers of the markets, in their order. -/
theorem groupByEvent_tickers (markets : List Market) :
    ∀ e ∈ groupByEvent parseRfc3339 series markets,
      e.2.tickers.Sublist (markets.map (·.ticker)) := by
  induction markets using List.reverseRecOn with
  | nil => simp [groupByEvent]
  | append_singleton markets m ih =>
    intro e he
    rw [groupByEvent, List.foldl_append, List.foldl_cons, List.foldl_nil] at he
    rw [List.map_append]
    have hold (e : String × Cohort) (he : e ∈ groupByEvent parseRfc3339 series markets) :
        e.2.tickers.Sublist (markets.map (·.ticker) ++ [m].map (·.ticker)) :=
      (ih e he).trans (List.sublist_append_left _ _)
    unfold groupMarket at he
    split_ifs at he
    · exact hold e he
    · split at he
      · exact hold e he
      · next event _ =>
        cases SortedMap.mem_upsert he with
        | inl he => exact hold e he
        | inr he =>
          rcases he with rfl | ⟨cohort, hcohort, rfl⟩
          · exact List.sublist_append_right _ _
          · exact (ih _ hcohort).append_right _

/-- The cohorts of a sweep are sorted by event, and none lists a ticker twice. -/
theorem sweepGroups_keeps (enough : Option String → Bool) (listings : List SeriesListing) :
    SortedMap.Sorted (sweepGroups parseRfc3339 enough listings) ∧
      ∀ e ∈ sweepGroups parseRfc3339 enough listings, e.2.tickers.Nodup := by
  induction listings using List.reverseRecOn with
  | nil => exact ⟨List.Pairwise.nil, by simp [sweepGroups]⟩
  | append_singleton listings l ih =>
    rw [sweepGroups, List.foldl_append, List.foldl_cons, List.foldl_nil]
    refine ⟨SortedMap.sorted_insertAll ih.1, fun e he => ?_⟩
    cases SortedMap.mem_insertAll he with
    | inl he => exact ih.2 e he
    | inr he => exact (dedupByTicker_nodup [] _).1.sublist (groupByEvent_tickers _ e he)

end Groups

/-- What planning one event does: nothing to the arm list, or the event joins it, not in flight, not
captured and within the budget. -/
theorem planEvent_cases (gate : GateCfg) (inFlight : List String) (captured : Bool) (p : Planning)
    (event : String) (cohort : Cohort) :
    ((planEvent gate inFlight captured p event cohort).plan.arm = p.plan.arm ∧
      (planEvent gate inFlight captured p event cohort).budget = p.budget) ∨
    (event ∉ inFlight ∧ captured = false ∧
      (planEvent gate inFlight captured p event cohort).plan.arm = p.plan.arm ++ [(event, cohort)] ∧
      (planEvent gate inFlight captured p event cohort).budget + 1 = p.budget) := by
  by_cases hin : event ∈ inFlight
  · left
    simp [planEvent, hin]
  · cases captured with
    | true =>
      left
      simp [planEvent]
    | false =>
      cases hgate : gateCohort gate cohort with
      | defer =>
        left
        simp [planEvent, hin, hgate]
      | skip =>
        left
        simp [planEvent, hin, hgate]
      | admitted noStart =>
        by_cases hbudget : p.budget = 0
        · left
          cases noStart <;> simp [planEvent, hin, hgate, hbudget]
        · right
          have hpos : p.budget - 1 + 1 = p.budget := by omega
          cases noStart <;> simp [planEvent, hin, hgate, hbudget, hpos]

end Snapevent
