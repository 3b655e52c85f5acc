import Mathlib.Data.List.Dedup
import Mathlib.Data.List.Infix
import Mathlib.Data.List.Sort
import Mathlib.Data.String.Basic
import Snapevent.Cli.Supervisor

/-!
# Scheduled captures

How an entry of a schedule is resolved to a unit of capture (`scheduled.rs`): by its predicted event
ticker, else by its team codes.  The unit is one event exactly when the entry and the listing leave
no room for another one.
-/

namespace Snapevent

/-- The fields of a schedule entry its resolution reads. -/
structure ScheduleEntry where
  id : String
  eventTicker : Option String
  teams : List String
  remotePrefix : Option String
  deriving DecidableEq, Repr

section Resolution

/-! ## Resolution

The upper-case form of a text is the standard library's, and stays a parameter. -/

variable (toUppercase : String → String)

/-- Sorted, with each ticker once. -/
def sortedTickers (hit : List Market) : List String :=
  ((hit.map (·.ticker)).dedup).insertionSort (· ≤ ·)

/-- The market's event ticker or ticker contains all of the team codes. -/
def matchesTeams (entry : ScheduleEntry) (m : Market) : Bool :=
  let hay := toUppercase (m.eventTicker.getD "" ++ " " ++ m.ticker)
  (entry.teams.map toUppercase).all fun c => c.toList <:+: hay.toList

/-- The markets that carry the predicted event ticker. -/
def predicted (entry : ScheduleEntry) (markets : List Market) : List Market :=
  match entry.eventTicker with
  | some ev => markets.filter fun m => m.eventTicker = some ev
  | none => []

/-- The tickers of a scheduled entry. -/
def matchEventMarkets (entry : ScheduleEntry) (markets : List Market) : List String :=
  let hit := predicted entry markets
  if !hit.isEmpty then sortedTickers hit
  else if entry.teams.isEmpty then []
  else sortedTickers (markets.filter (matchesTeams toUppercase entry))

/-- The session an entry is filed under: its predicted event ticker, else what the first matched
ticker says, else its id. -/
def sessionName (entry : ScheduleEntry) (tickers : List String) : String :=
  match entry.eventTicker with
  | some ev => ev
  | none => (tickers.head?.bind (beforeLast '-')).getD entry.id

/-- The unit of an entry, when the listing has markets for it. -/
def unitOf (entry : ScheduleEntry) (markets : List Market) : Option CaptureUnit :=
  let tickers := matchEventMarkets toUppercase entry markets
  if !tickers.isEmpty then
    let session := sessionName entry tickers
    some { session, tickers, event := session, remotePrefix := entry.remotePrefix }
  else none

/-- What one pass of the resolution loop meets: whether shutdown was requested, what the listing
returned, whether the grace is over, and whether the sleep was interrupted. -/
structure ResolvePoll where
  shutdown : Bool
  listing : Except String (List Market)
  pastDeadline : Bool
  interrupted : Bool

/-- The unit the listing of a pass resolves to; a failed listing is retried. -/
def ResolvePoll.unit (entry : ScheduleEntry) (poll : ResolvePoll) : Option CaptureUnit :=
  match poll.listing with
  | .ok markets => unitOf toUppercase entry markets
  | .error _ => none

/-- Resolve an entry, retrying within the grace. -/
def resolveUnit (entry : ScheduleEntry) : List ResolvePoll → Option CaptureUnit
  | [] => none
  | poll :: polls =>
    if poll.shutdown then none
    else
      match poll.unit toUppercase entry with
      | some unit => some unit
      | none =>
        if poll.pastDeadline then none
        else if poll.interrupted then none
        else resolveUnit entry polls

/-! ## One event -/

/-- The market carries its event ticker, and its ticker is that followed by a side. -/
def Market.Sided (m : Market) : Prop :=
  ∃ event side, m.eventTicker = some event ∧ '-' ∉ side.toList ∧ m.ticker = event ++ "-" ++ side

/-- The unit is one event of the listing: its event and its session are the same, and the markets a
poll for the event sees are exactly the captured ones. -/
def OneEvent (markets : List Market) (unit : CaptureUnit) : Prop :=
  unit.session = unit.event ∧ unit.tickers ≠ [] ∧
    ∀ t, t ∈ unit.tickers ↔ ∃ m ∈ markets, m.eventTicker = some unit.event ∧ m.ticker = t

/-- The markets with the entry's team codes are the markets of one event. -/
def TeamsNameOneEvent (entry : ScheduleEntry) (markets : List Market) : Prop :=
  ∃ event, (∃ m ∈ markets, m.eventTicker = some event) ∧
    ∀ m ∈ markets, matchesTeams toUppercase entry m = true ↔ m.eventTicker = some event

/-- The entry and the listing leave no room for another event: the predicted event is listed, or no
event was predicted and the teams name one event, or there is nothing to resolve. -/
def Unambiguous (entry : ScheduleEntry) (markets : List Market) : Prop :=
  (∃ event, entry.eventTicker = some event ∧ ∃ m ∈ markets, m.eventTicker = some event) ∨
    (entry.eventTicker = none ∧ TeamsNameOneEvent toUppercase entry markets) ∨
    entry.teams = [] ∨ ∀ m ∈ markets, matchesTeams toUppercase entry m = false

variable {toUppercase} {entry : ScheduleEntry} {markets : List Market}

@[simp] theorem mem_sortedTickers {hit : List Market} {t : String} :
    t ∈ sortedTickers hit ↔ ∃ m ∈ hit, m.ticker = t := by
  rw [sortedTickers, List.mem_insertionSort, List.mem_dedup, List.mem_map]

theorem sortedTickers_eq_nil {hit : List Market} : sortedTickers hit = [] ↔ hit = [] := by
  constructor
  · intro h
    cases hit with
    | nil => rfl
    | cons m hit =>
      have hm : m.ticker ∈ sortedTickers (m :: hit) := mem_sortedTickers.2 ⟨m, by simp, rfl⟩
      rw [h] at hm
      cases hm
  · rintro rfl
    rfl

/-- The event of a sided market is what its ticker says. -/
theorem Market.Sided.beforeLast {m : Market} (h : m.Sided) :
    beforeLast '-' m.ticker = m.eventTicker := by
  obtain ⟨event, side, hevent, hside, hticker⟩ := h
  rw [hticker, hevent]
  exact beforeLast_append event hside

/-- Markets with one ticker have one event. -/
theorem Market.Sided.event_eq {m m' : Market} (h : m.Sided) (h' : m'.Sided)
    (ht : m.ticker = m'.ticker) : m.eventTicker = m'.eventTicker := by
  rw [← h.beforeLast, ← h'.beforeLast, ht]

/-- A listed prediction is captured whole. -/
theorem unitOf_predicted {event : String} (hev : entry.eventTicker = some event)
    (hlisted : ∃ m ∈ markets, m.eventTicker = some event) {unit : CaptureUnit}
    (h : unitOf toUppercase entry markets = some unit) : OneEvent markets unit := by
  have hhit : (predicted entry markets).isEmpty = false := by
    obtain ⟨m, hm, hmev⟩ := hlisted
    rw [List.isEmpty_eq_false_iff]
    apply List.ne_nil_of_mem (a := m)
    simp [predicted, hev, hm, hmev]
  have htickers : matchEventMarkets toUppercase entry markets =
      sortedTickers (predicted entry markets) := by
    simp [matchEventMarkets, hhit]
  have hne : sortedTickers (predicted entry markets) ≠ [] :=
    mt sortedTickers_eq_nil.1 (List.isEmpty_eq_false_iff.1 hhit)
  rw [unitOf, htickers] at h
  simp only [List.isEmpty_eq_false_iff.2 hne, Bool.not_false, if_true, sessionName, hev,
    Option.some.injEq] at h
  subst h
  refine ⟨rfl, hne, fun t => ?_⟩
  simp [predicted, hev, and_assoc]

/-- Without a listed prediction the teams decide. -/
theorem matchEventMarkets_teams (h : predicted entry markets = []) (hteams : entry.teams ≠ []) :
    matchEventMarkets toUppercase entry markets =
      sortedTickers (markets.filter (matchesTeams toUppercase entry)) := by
  simp [matchEventMarkets, h, hteams]

/-- The session of an unpredicted entry is the event of a matched market. -/
theorem sessionName_of_sided (hsided : ∀ m ∈ markets, m.Sided) (hev : entry.eventTicker = none)
    {hit : List Market} (hhit : ∀ m ∈ hit, m ∈ markets) (hne : hit ≠ []) :
    ∃ m ∈ hit, m.eventTicker = some (sessionName entry (sortedTickers hit)) := by
  cases htickers : sortedTickers hit with
  | nil => exact absurd (sortedTickers_eq_nil.1 htickers) hne
  | cons t ts =>
    have ht : t ∈ sortedTickers hit := by
      rw [htickers]
      exact List.mem_cons_self
    obtain ⟨m, hm, rfl⟩ := mem_sortedTickers.1 ht
    have hmsided : m.Sided := hsided m (hhit m hm)
    refine ⟨m, hm, ?_⟩
    obtain ⟨event, side, hevent, -⟩ := hmsided
    have hsession : sessionName entry (m.ticker :: ts) = event := by
      rw [sessionName, hev]
      show (beforeLast '-' m.ticker).getD entry.id = event
      rw [(hsided m (hhit m hm)).beforeLast, hevent]
      rfl
    rw [hevent, hsession]

/-- The unit the team codes resolve to. -/
theorem unitOf_teams (h : predicted entry markets = []) (hteams : entry.teams ≠ [])
    (hmatch : ∃ m ∈ markets, matchesTeams toUppercase entry m = true) :
    ∃ unit, unitOf toUppercase entry markets = some unit ∧
      unit.tickers = sortedTickers (markets.filter (matchesTeams toUppercase entry)) ∧
      unit.event = sessionName entry unit.tickers ∧ unit.session = unit.event := by
  obtain ⟨m, hm, hmteams⟩ := hmatch
  have hne : sortedTickers (markets.filter (matchesTeams toUppercase entry)) ≠ [] := by
    apply mt sortedTickers_eq_nil.1
    apply List.ne_nil_of_mem (a := m)
    exact List.mem_filter.2 ⟨hm, hmteams⟩
  let tickers := sortedTickers (markets.filter (matchesTeams toUppercase entry))
  refine ⟨⟨sessionName entry tickers, tickers, sessionName entry tickers, entry.remotePrefix⟩, ?_,
    rfl, rfl, rfl⟩
  rw [unitOf, matchEventMarkets_teams h hteams]
  simp only [List.isEmpty_eq_false_iff.2 hne, Bool.not_false, if_true]
  rfl

/-- A unit by team codes is one event exactly when no event was predicted and the codes name one
event. -/
theorem oneEvent_teams_iff (hsided : ∀ m ∈ markets, m.Sided) (h : predicted entry markets = [])
    {unit : CaptureUnit} (hmatch : ∃ m ∈ markets, matchesTeams toUppercase entry m = true)
    (htickers : unit.tickers = sortedTickers (markets.filter (matchesTeams toUppercase entry)))
    (hevent : unit.event = sessionName entry unit.tickers) (hsession : unit.session = unit.event) :
    OneEvent markets unit ↔
      entry.eventTicker = none ∧ TeamsNameOneEvent toUppercase entry markets := by
  have hne : markets.filter (matchesTeams toUppercase entry) ≠ [] := by
    obtain ⟨m, hm, hmteams⟩ := hmatch
    exact List.ne_nil_of_mem (List.mem_filter.2 ⟨hm, hmteams⟩)
  have hmem (t : String) : t ∈ unit.tickers ↔
      ∃ m ∈ markets, matchesTeams toUppercase entry m = true ∧ m.ticker = t := by
    rw [htickers, mem_sortedTickers]
    simp [and_assoc]
  constructor
  · rintro ⟨-, hnonempty, hexact⟩
    -- some captured ticker is a market of the unit's event, so no other event was predicted
    obtain ⟨t, ht⟩ := List.exists_mem_of_ne_nil _ hnonempty
    obtain ⟨m, hm, hmev, -⟩ := (hexact t).1 ht
    have hnone : entry.eventTicker = none := by
      cases hpred : entry.eventTicker with
      | none => rfl
      | some ev =>
        have hsess : unit.event = ev := by rw [hevent, sessionName, hpred]
        have hin : m ∈ predicted entry markets := by
          simp [predicted, hpred, hm, hmev, hsess]
        rw [h] at hin
        cases hin
    refine ⟨hnone, unit.event, ⟨m, hm, hmev⟩, fun m' hm' => ?_⟩
    constructor
    · intro hteams
      obtain ⟨m'', hm'', hev'', ht''⟩ := (hexact m'.ticker).1 ((hmem _).2 ⟨m', hm', hteams, rfl⟩)
      rw [(hsided m' hm').event_eq (hsided m'' hm'') ht''.symm, hev'']
    · intro hev'
      obtain ⟨m'', hm'', hteams'', ht''⟩ := (hmem _).1 ((hexact m'.ticker).2 ⟨m', hm', hev', rfl⟩)
      have heq : m''.eventTicker = m'.eventTicker :=
        (hsided m'' hm'').event_eq (hsided m' hm') ht''
      rw [← hteams'', matchesTeams, matchesTeams, heq, ht'']
  · rintro ⟨hnone, event, -, hall⟩
    obtain ⟨m, hm, hmev⟩ := sessionName_of_sided hsided hnone
      (fun m hm => (List.mem_filter.1 hm).1) hne
    have hsess : unit.event = event := by
      obtain ⟨hmm, hteams⟩ := List.mem_filter.1 hm
      rw [(hall m hmm).1 hteams, Option.some.injEq] at hmev
      rw [hevent, htickers, hmev]
    refine ⟨hsession, ?_, fun t => ?_⟩
    · rw [htickers]
      exact mt sortedTickers_eq_nil.1 hne
    · rw [hmem, hsess]
      exact exists_congr fun m' => and_congr_right fun hm' => by rw [hall m' hm']

/-- A unit the loop returns was resolved from one of the listings it polled. -/
theorem resolveUnit_from_listing {polls : List ResolvePoll} {unit : CaptureUnit}
    (h : resolveUnit toUppercase entry polls = some unit) :
    ∃ poll ∈ polls, ∃ markets, poll.listing = .ok markets ∧
      unitOf toUppercase entry markets = some unit := by
  induction polls with
  | nil => cases h
  | cons poll polls ih =>
    rw [resolveUnit] at h
    by_cases hshutdown : poll.shutdown = true
    · rw [if_pos hshutdown] at h
      cases h
    · rw [if_neg hshutdown] at h
      cases hunit : poll.unit toUppercase entry with
      | some u =>
        rw [hunit] at h
        cases h
        rw [ResolvePoll.unit] at hunit
        split at hunit
        · next markets hlisting => exact ⟨poll, List.mem_cons_self, markets, hlisting, hunit⟩
        · cases hunit
      | none =>
        rw [hunit] at h
        dsimp only at h
        split_ifs at h
        obtain ⟨p, hp, hrest⟩ := ih h
        exact ⟨p, List.mem_cons_of_mem _ hp, hrest⟩

end Resolution

/-- A resolved unit is one event of the listing it was resolved from, exactly when the entry and
that listing leave no room for another event. -/
theorem resolved_unit_one_event_iff (toUppercase : String → String) (entry : ScheduleEntry) :
    (∀ polls unit, resolveUnit toUppercase entry polls = some unit →
      ∃ poll ∈ polls, ∃ markets, poll.listing = .ok markets ∧
        unitOf toUppercase entry markets = some unit) ∧
    ∀ markets, (∀ m ∈ markets, m.Sided) →
      ((∀ unit, unitOf toUppercase entry markets = some unit → OneEvent markets unit) ↔
        Unambiguous toUppercase entry markets) := by
  refine ⟨fun polls unit h => resolveUnit_from_listing h, fun markets hsided => ?_⟩
  by_cases hpred : predicted entry markets = []
  · by_cases hteams : entry.teams = []
    · have hnone : unitOf toUppercase entry markets = none := by
        simp [unitOf, matchEventMarkets, hpred, hteams]
      simp [Unambiguous, hteams, hnone]
    · by_cases hmatch : ∃ m ∈ markets, matchesTeams toUppercase entry m = true
      · obtain ⟨unit, hunit, htickers, hevent, hsession⟩ := unitOf_teams hpred hteams hmatch
        have hiff := oneEvent_teams_iff hsided hpred hmatch htickers hevent hsession
        have hlisted : ¬ ∃ event, entry.eventTicker = some event ∧
            ∃ m ∈ markets, m.eventTicker = some event := by
          rintro ⟨event, hev, m, hm, hmev⟩
          have hin : m ∈ predicted entry markets := by simp [predicted, hev, hm, hmev]
          rw [hpred] at hin
          cases hin
        have hsome : ¬ ∀ m ∈ markets, matchesTeams toUppercase entry m = false := by
          obtain ⟨m, hm, hmteams⟩ := hmatch
          intro hall
          rw [hall m hm] at hmteams
          cases hmteams
        rw [Unambiguous, ← hiff]
        simp only [hlisted, hteams, hsome, or_false, false_or, hunit, Option.some.injEq,
          forall_eq']
      · have hall : ∀ m ∈ markets, matchesTeams toUppercase entry m = false := by
          intro m hm
          exact Bool.eq_false_iff.2 fun hmteams => hmatch ⟨m, hm, hmteams⟩
        have hfilter : markets.filter (matchesTeams toUppercase entry) = [] := by
          rw [List.filter_eq_nil_iff]
          exact fun m hm => Bool.eq_false_iff.1 (hall m hm)
        have hnone : unitOf toUppercase entry markets = none := by
          rw [unitOf, matchEventMarkets_teams hpred hteams, hfilter]
          rfl
        refine iff_of_true (fun unit hunit => ?_) (Or.inr (Or.inr (Or.inr hall)))
        rw [hnone] at hunit
        cases hunit
  · have hlisted : ∃ event, entry.eventTicker = some event ∧
        ∃ m ∈ markets, m.eventTicker = some event := by
      cases hev : entry.eventTicker with
      | none => simp [predicted, hev] at hpred
      | some event =>
        obtain ⟨m, hm⟩ := List.exists_mem_of_ne_nil _ hpred
        simp only [predicted, hev, List.mem_filter, decide_eq_true_eq] at hm
        exact ⟨event, rfl, m, hm.1, hm.2⟩
    obtain ⟨event, hev, hmarket⟩ := hlisted
    exact iff_of_true (fun unit hunit => unitOf_predicted hev hmarket hunit)
      (Or.inl ⟨event, hev, hmarket⟩)

/-- An entry for two teams without a predicted event. -/
def twoTeams : ScheduleEntry :=
  { id := "m1", eventTicker := none, teams := ["AAA", "BBB"], remotePrefix := none }

/-- One side of an event. -/
def sideOfEvent (event side : String) : Market :=
  { ticker := event ++ "-" ++ side, status := some "active", eventTicker := some event
    openTime := none, closeTime := none, volumeFp := none }

theorem sideOfEvent_sided (event side : String) (h : '-' ∉ side.toList) :
    (sideOfEvent event side).Sided := ⟨event, side, rfl, h, rfl⟩

/-- The two sides of one match are one event. -/
theorem resolved_unit_one_event_sample :
    ∀ unit, unitOf id twoTeams [sideOfEvent "K-18AAABBB" "AAA", sideOfEvent "K-18AAABBB" "BBB"] =
      some unit →
      OneEvent [sideOfEvent "K-18AAABBB" "AAA", sideOfEvent "K-18AAABBB" "BBB"] unit := by
  refine ((resolved_unit_one_event_iff id twoTeams).2 _ ?_).2 ?_
  · simp only [List.forall_mem_cons]
    exact ⟨sideOfEvent_sided _ _ (by decide), sideOfEvent_sided _ _ (by decide), by simp⟩
  · refine Or.inr (Or.inl ⟨rfl, "K-18AAABBB", ⟨_, List.mem_cons_self, rfl⟩, ?_⟩)
    decide

/-- When the teams meet twice within the window, the unit holds both matches. -/
theorem two_matches_resolved_as_one :
    ∃ unit, unitOf id twoTeams [sideOfEvent "K-18AAABBB" "AAA", sideOfEvent "K-20BBBAAA" "AAA"] =
        some unit ∧
      ¬ OneEvent [sideOfEvent "K-18AAABBB" "AAA", sideOfEvent "K-20BBBAAA" "AAA"] unit := by
  refine ⟨⟨"K-18AAABBB", ["K-18AAABBB-AAA", "K-20BBBAAA-AAA"], "K-18AAABBB", none⟩, by decide, ?_⟩
  rintro ⟨-, -, h⟩
  obtain ⟨m, hm, hev, ht⟩ := (h "K-20BBBAAA-AAA").1 (by decide)
  revert m
  decide

end Snapevent
