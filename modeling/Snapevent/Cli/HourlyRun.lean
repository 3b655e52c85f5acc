import Snapevent.Cli.Hourly

/-!
# Hour after hour

The hour that opens at a boundary does not depend on the order in which the events are held.  The
loop turns at later and later boundaries, and arms no hour twice, unless the clock is set back past
a boundary while it sleeps behind it; and when requests and sleeps end in time it turns at every
full hour, and goes on.
-/

namespace Snapevent

/-! ## The hour that opens -/

section Opening

variable (parseRfc3339 : String → Option Timestamp) (boundary : ℤ)

/-- The markets of an event that open at the boundary. -/
def ladderAt (markets : List Market) (ev : String) : List Market :=
  markets.filter fun m => opensAt parseRfc3339 boundary m && decide (m.eventTicker = some ev)

/-- The events hold their markets that open at the boundary, and no event is without one. -/
structure FiledBy (byEvent : List (String × List Market)) (markets : List Market) : Prop where
  sorted : SortedMap.Sorted byEvent
  mem : ∀ ev ms, (ev, ms) ∈ byEvent ↔ ms = ladderAt parseRfc3339 boundary markets ev ∧ ms ≠ []

variable {parseRfc3339 boundary}

theorem ladderAt_concat_of_neg {markets : List Market} {m : Market} {ev : String}
    (h : ¬ (opensAt parseRfc3339 boundary m ∧ m.eventTicker = some ev)) :
    ladderAt parseRfc3339 boundary (markets ++ [m]) ev =
      ladderAt parseRfc3339 boundary markets ev := by
  rw [ladderAt, List.filter_append, List.filter_cons_of_neg (by simpa using h), List.filter_nil,
    List.append_nil]
  rfl

theorem ladderAt_concat_of_pos {markets : List Market} {m : Market} {ev : String}
    (hopens : opensAt parseRfc3339 boundary m) (hev : m.eventTicker = some ev) :
    ladderAt parseRfc3339 boundary (markets ++ [m]) ev =
      ladderAt parseRfc3339 boundary markets ev ++ [m] := by
  rw [ladderAt, List.filter_append, List.filter_cons_of_pos (by simp [hopens, hev]),
    List.filter_nil]
  rfl

theorem FiledBy.add {byEvent : List (String × List Market)} {markets : List Market}
    (h : FiledBy parseRfc3339 boundary byEvent markets) (m : Market) :
    FiledBy parseRfc3339 boundary (addOpening parseRfc3339 boundary byEvent m)
      (markets ++ [m]) := by
  by_cases hopens : opensAt parseRfc3339 boundary m
  · cases hev : m.eventTicker with
    | none =>
      rw [addOpening, if_pos hopens, hev]
      exact ⟨h.sorted, fun ev ms => by
        rw [ladderAt_concat_of_neg (by simp [hev])]
        exact h.mem ev ms⟩
    | some ev₀ =>
      rw [addOpening, if_pos hopens, hev]
      refine ⟨SortedMap.sorted_upsert h.sorted, fun ev ms => ?_⟩
      show (ev, ms) ∈ SortedMap.upsert ev₀ (fun ms => ms.getD [] ++ [m]) byEvent ↔ _
      rw [SortedMap.mem_upsert_iff h.sorted]
      by_cases heq : ev = ev₀
      · subst heq
        rw [ladderAt_concat_of_pos hopens hev]
        have hfile : ((∃ w, (ev, w) ∈ byEvent ∧ ms = w ++ [m]) ∨
            (∀ w, (ev, w) ∉ byEvent) ∧ ms = [] ++ [m]) ↔
              ms = ladderAt parseRfc3339 boundary markets ev ++ [m] := by
          by_cases hnil : ladderAt parseRfc3339 boundary markets ev = [] <;> simp [h.mem, hnil]
        constructor
        · rintro (⟨hne, -⟩ | ⟨-, hms⟩)
          · exact absurd rfl hne
          · have hms := hfile.1 hms
            exact ⟨hms, by simp [hms]⟩
        · rintro ⟨hms, -⟩
          exact Or.inr ⟨rfl, hfile.2 hms⟩
      · have hne : m.eventTicker ≠ some ev := by
          rw [hev]
          exact fun he => heq (Option.some.inj he).symm
        rw [ladderAt_concat_of_neg fun hm => hne hm.2, h.mem]
        simp [heq]
  · rw [addOpening, if_neg hopens]
    refine ⟨h.sorted, fun ev ms => ?_⟩
    rw [ladderAt_concat_of_neg fun hm => hopens hm.1]
    exact h.mem ev ms

theorem filedBy_openingByEvent (markets : List Market) :
    FiledBy parseRfc3339 boundary (openingByEvent parseRfc3339 boundary markets) markets := by
  induction markets using List.reverseRecOn with
  | nil => exact ⟨List.Pairwise.nil, by simp [openingByEvent, ladderAt]⟩
  | append_singleton markets m ih =>
    rw [openingByEvent, List.foldl_append]
    exact ih.add m

/-- Whatever the order in which the events are held, the hour that opens at a boundary is that event
whose ladder is the largest, of equally large ones the one of the greatest event. -/
theorem market_opening_at_iff {markets : List Market} {entries : List (String × List Market)}
    (hentries : entries.Perm (openingByEvent parseRfc3339 boundary markets)) {ev : String}
    {ms : List Market} :
    MaxBy.maxBy ladderKey entries = some (ev, ms) ↔
      ms = ladderAt parseRfc3339 boundary markets ev ∧ ms ≠ [] ∧
      ∀ ev', ladderKey (ev', ladderAt parseRfc3339 boundary markets ev') ≤ ladderKey (ev, ms) := by
  have hfiled : FiledBy parseRfc3339 boundary _ markets := filedBy_openingByEvent markets
  have hnodup : (entries.map ladderKey).Nodup := by
    refine List.Nodup.of_map (fun k => (ofLex k).2) ?_
    rw [List.map_map]
    exact (hentries.map _).nodup_iff.2 hfiled.sorted.nodup_keys
  rw [MaxBy.maxBy_eq_some_iff hnodup, hentries.mem_iff, hfiled.mem, and_assoc]
  refine and_congr_right fun hms => and_congr_right fun hne => ⟨fun h ev' => ?_, fun h e he => ?_⟩
  · by_cases hnil : ladderAt parseRfc3339 boundary markets ev' = []
    · have hlen : 0 < ms.length := List.length_pos_iff.2 hne
      rw [ladderKey, ladderKey, Prod.Lex.toLex_le_toLex, hnil]
      exact Or.inl hlen
    · exact h (ev', _) (hentries.mem_iff.2 ((hfiled.mem _ _).2 ⟨rfl, hnil⟩))
  · have hmem := ((hfiled.mem e.1 e.2).1 (hentries.mem_iff.1 he)).1
    have hle := h e.1
    rwa [← hmem] at hle

end Opening

/-- A full hour. -/
def juneHour : ℤ := 1780927200 * 10 ^ 9

/-- That hour, and the one after it. -/
def juneClock (s : String) : Option Timestamp :=
  if s = "2026-06-08T14:00:00Z" then some ⟨1780927200 * 10 ^ 9, by decide⟩
  else if s = "2026-06-08T15:00:00Z" then some ⟨1780930800 * 10 ^ 9, by decide⟩
  else none

/-- A market of the hour between them. -/
def juneMarket (event ticker : String) : Market :=
  ⟨ticker, some "initialized", some event, some "2026-06-08T14:00:00Z",
    some "2026-06-08T15:00:00Z", none⟩

/-- A stub of one market, and a ladder of two. -/
def juneMarkets : List Market :=
  [juneMarket "STUB" "STUB-1", juneMarket "HOUR" "HOUR-1", juneMarket "HOUR" "HOUR-2"]

theorem market_opening_at_iff_june :
    ladderKey ("STUB", ladderAt juneClock juneHour juneMarkets "STUB") ≤
      ladderKey ("HOUR", [juneMarket "HOUR" "HOUR-1", juneMarket "HOUR" "HOUR-2"]) :=
  ((market_opening_at_iff (List.reverse_perm _)).1 (by decide)).2.2 "STUB"

/-! ## Full hours -/

theorem HOUR_eq : HOUR = 3600000000000 := rfl

theorem nextBoundary_eq (now : ℤ) : nextBoundary now = now / HOUR * HOUR + HOUR :=
  if_neg (by rw [HOUR_eq]; omega)

theorem dvd_nextBoundary (now : ℤ) : HOUR ∣ nextBoundary now := by
  rw [nextBoundary_eq, HOUR_eq]
  omega

theorem lt_nextBoundary (now : ℤ) : now < nextBoundary now := by
  rw [nextBoundary_eq, HOUR_eq]
  omega

theorem add_HOUR_le_nextBoundary {b now : ℤ} (hb : HOUR ∣ b) (hlt : b ≤ now) :
    b + HOUR ≤ nextBoundary now := by
  rw [nextBoundary_eq]
  rw [HOUR_eq] at hb ⊢
  omega

theorem nextBoundary_eq_of_lt {b now : ℤ} (hb : HOUR ∣ b) (hle : b ≤ now) (hlt : now < b + HOUR) :
    nextBoundary now = b + HOUR := by
  refine le_antisymm ?_ (add_HOUR_le_nextBoundary hb hle)
  rw [nextBoundary_eq]
  rw [HOUR_eq] at hb hlt ⊢
  omega

/-- The markets are those of one event that open at the boundary, or none. -/
def OneLadder (parseRfc3339 : String → Option Timestamp) (boundary : ℤ) (ladder : List Market) :
    Prop :=
  ∃ ev, ∀ m ∈ ladder, opensAt parseRfc3339 boundary m ∧ m.eventTicker = some ev

theorem oneLadder_marketOpeningAt {parseRfc3339 : String → Option Timestamp} {boundary : ℤ}
    {markets ms : List Market} {ev : String}
    (h : marketOpeningAt parseRfc3339 boundary markets = some (ev, ms)) :
    OneLadder parseRfc3339 boundary ms := by
  obtain ⟨rfl, -⟩ := (market_opening_at_iff (List.Perm.refl _)).1 h
  exact ⟨ev, fun m hm => by simpa [ladderAt] using (List.mem_filter.1 hm).2⟩

/-- The hour is captured for the strikes of a ladder that opens at its boundary. -/
structure ArmedHour.Sound (parseRfc3339 : String → Option Timestamp)
    (selectBand : List Market → Option ℚ → List String) (hour : ArmedHour) : Prop where
  dvd : HOUR ∣ hour.boundary
  tickers : hour.tickers ≠ []
  selected : ∃ anchor, hour.tickers = selectBand hour.ladder anchor
  ladder : OneLadder parseRfc3339 hour.boundary hour.ladder

namespace Hourly

variable {cfg : HourCfg} {parseRfc3339 : String → Option Timestamp}
  {selectBand : List Market → Option ℚ → List String} {start : ℤ} {s s' : Hourly} {a : Action}

theorem lt_add_pastBoundary (b now : ℤ) : b + 15 * SECOND ≤ now + pastBoundary b now := by
  rw [pastBoundary]
  omega

theorem pastBoundary_le {b now late : ℤ} (hnow : now ≤ late) (hb : b ≤ late) :
    now + pastBoundary b now ≤ late + 15 * SECOND := by
  rw [pastBoundary]
  omega

/-! ## No hour twice -/

/-- The clock is not set back past the boundary while the loop sleeps behind it. -/
def Forward (s : Hourly) : Action → Prop
  | .wait t => ∀ b, s.phase = .waiting b → b ≤ t
  | _ => True

/-- What the loop has at a boundary, by where it is: until the selection the boundary of the turn
is not among those of the armed hours. -/
def TurnedTo (parseRfc3339 : String → Option Timestamp) (s : Hourly) : HourlyPhase → Prop
  | .head => ∀ b ∈ s.boundaries, b ≤ s.now
  | .preArming b | .discovering b | .retrying b =>
    ∃ bs, s.boundaries = bs ++ [b] ∧ (s.armed.map (·.boundary)).Sublist bs
  | .settling b _ last _ | .resting b _ last _ | .selecting b _ last =>
    (∃ bs, s.boundaries = bs ++ [b] ∧ (s.armed.map (·.boundary)).Sublist bs) ∧
      OneLadder parseRfc3339 b last
  | .waiting b => ∃ bs, s.boundaries = bs ++ [b]
  | .stopped => True

variable (parseRfc3339 selectBand) in
/-- The boundaries are full hours in order, each armed hour is that of one of them, and no two are
of the same. -/
structure InOrder (s : Hourly) : Prop where
  dvd : ∀ b ∈ s.boundaries, HOUR ∣ b
  apart : s.boundaries.Pairwise fun b b' => b + HOUR ≤ b'
  armed : (s.armed.map (·.boundary)).Sublist s.boundaries
  sound : ∀ hour ∈ s.armed, hour.Sound parseRfc3339 selectBand
  turned : TurnedTo parseRfc3339 s s.phase

namespace InOrder

/-- A step that leaves the turns and the armed hours alone. -/
theorem go (h : InOrder parseRfc3339 selectBand s) (hboundaries : s'.boundaries = s.boundaries)
    (harmed : s'.armed = s.armed) (hturned : TurnedTo parseRfc3339 s' s'.phase) :
    InOrder parseRfc3339 selectBand s' where
  dvd := by rw [hboundaries]; exact h.dvd
  apart := by rw [hboundaries]; exact h.apart
  armed := by rw [hboundaries, harmed]; exact h.armed
  sound := by rw [harmed]; exact h.sound
  turned := hturned

theorem step (h : InOrder parseRfc3339 selectBand s) (hforward : Forward s a)
    (hs : Step cfg parseRfc3339 selectBand s a s') : InOrder parseRfc3339 selectBand s' := by
  have hturned := h.turned
  cases hs with
  | turn hphase hrun =>
    rw [hphase] at hturned
    have hlt : ∀ b ∈ s.boundaries, b + HOUR ≤ nextBoundary s.now := fun b hb =>
      add_HOUR_le_nextBoundary (h.dvd b hb) (hturned b hb)
    exact
      { dvd := by
          simpa [or_imp, forall_and, dvd_nextBoundary] using h.dvd
        apart := List.pairwise_append.2 ⟨h.apart, List.pairwise_singleton _ _, by simpa using hlt⟩
        armed := h.armed.trans (List.sublist_append_left _ _)
        sound := h.sound
        turned := ⟨_, rfl, h.armed⟩ }
  | preArm t hphase => exact h.go rfl rfl (by rwa [hphase] at hturned)
  | discovered markets t hphase hopening =>
    rw [hphase] at hturned
    exact h.go rfl rfl ⟨hturned, "", by simp⟩
  | @undiscovered b answer t hphase hopening =>
    rw [hphase] at hturned
    refine h.go rfl rfl ?_
    dsimp only
    split_ifs
    · exact hturned.imp fun bs hbs => hbs.1
    · exact hturned
  | retry t hphase => exact h.go rfl rfl (by rwa [hphase] at hturned)
  | @poll b ev last prev answer t hphase =>
    rw [hphase] at hturned
    obtain ⟨hbs, hladder⟩ := hturned
    have hnext : OneLadder parseRfc3339 b
        (((answer.bind (marketOpeningAt parseRfc3339 b)).map (·.2)).getD last) := by
      cases hanswer : answer.bind (marketOpeningAt parseRfc3339 b) with
      | none => exact hladder
      | some e =>
        obtain ⟨markets, -, hopening⟩ := Option.bind_eq_some_iff.1 hanswer
        exact oneLadder_marketOpeningAt hopening
    refine h.go rfl rfl ?_
    dsimp only
    split_ifs <;> exact ⟨hbs, hnext⟩
  | rest t hphase => exact h.go rfl rfl (by rwa [hphase] at hturned)
  | @select b ev last anchor t hphase =>
    rw [hphase] at hturned
    obtain ⟨⟨bs, hbs, hsub⟩, hladder⟩ := hturned
    by_cases hnone : (selectBand last anchor).isEmpty
    · exact h.go rfl (by simp [hnone]) ⟨bs, hbs⟩
    · have hdvd : HOUR ∣ b := h.dvd b (by simp [hbs])
      have harmed : ∀ hour ∈ s.armed ++ [⟨b, ev, last, selectBand last anchor⟩],
          hour.Sound parseRfc3339 selectBand := by
        intro hour hmem
        rcases List.mem_append.1 hmem with hold | heq
        · exact h.sound hour hold
        · rw [List.mem_singleton.1 heq]
          exact ⟨hdvd, by simpa using hnone, ⟨anchor, rfl⟩, hladder⟩
      exact ⟨h.dvd, h.apart, by simpa [hnone, hbs] using hsub, by simpa only [if_neg hnone],
        ⟨bs, hbs⟩⟩
  | @wait b t hphase =>
    rw [hphase] at hturned
    obtain ⟨bs, hbs⟩ := hturned
    have hnow : b ≤ t := hforward b hphase
    refine h.go rfl rfl fun b' hb' => ?_
    have hapart := h.apart
    rw [hbs] at hapart hb'
    rcases List.mem_append.1 hb' with hmem | heq
    · have := (List.pairwise_append.1 hapart).2.2 b' hmem b (List.mem_singleton_self b)
      rw [HOUR_eq] at this
      show b' ≤ t
      omega
    · rwa [List.mem_singleton.1 heq]
  | shutdown => exact h.go rfl rfl hturned
  | interruptPolls hdown hphase =>
    exact h.go rfl rfl (by rcases hphase with hphase | hphase <;> rwa [hphase] at hturned)
  | interrupt hdown hphase => exact h.go rfl rfl trivial

end InOrder

/-! ## No hour passed over -/

/-- The full hours after the start, from the first one on. -/
def turnAt (start : ℤ) (i : ℕ) : ℤ := nextBoundary start + i * HOUR

theorem turnAt_succ (start : ℤ) (i : ℕ) : turnAt start (i + 1) = turnAt start i + HOUR := by
  rw [turnAt, turnAt, Int.natCast_add, Int.add_mul, ← Int.add_assoc]
  rfl

theorem dvd_turnAt (start : ℤ) (i : ℕ) : HOUR ∣ turnAt start i :=
  Int.dvd_add (dvd_nextBoundary start) (Int.dvd_mul_left _ _)

/-- How long a request takes at most, and how late a sleep ends at most. -/
structure Pace where
  request : ℤ
  slack : ℤ

variable (cfg) in
/-- When the answer or the wake-up the loop waits for has come at the latest. -/
def due (pace : Pace) (s : Hourly) : ℤ :=
  match s.phase with
  | .head | .stopped => s.now
  | .preArming b => s.now + untilPreArm cfg b s.now + pace.slack
  | .discovering _ | .settling _ _ _ _ | .selecting _ _ _ => s.now + pace.request
  | .retrying _ => s.now + cfg.pollSecs + pace.slack
  | .resting _ _ _ _ => s.now + LADDER_POLL + pace.slack
  | .waiting b => s.now + pastBoundary b s.now + pace.slack

variable (cfg) in
/-- Answers come and sleeps end in time, and the sleep behind a boundary not before it. -/
def Punctual (pace : Pace) (s : Hourly) : Action → Prop
  | .preArm t | .discover _ t | .retry t | .poll _ t | .rest t | .select _ t => t ≤ due cfg pace s
  | .wait t => (∀ b, s.phase = .waiting b → b ≤ t) ∧ t ≤ due cfg pace s
  | _ => True

variable (cfg) in
/-- How long after a boundary its last discovery begins at most. -/
def discoveryEnd (pace : Pace) : ℤ := cfg.listingGrace + cfg.pollSecs + pace.slack

variable (cfg) in
/-- How long after a boundary the last poll of its ladder begins at most. -/
def settleEnd (pace : Pace) : ℤ :=
  max (discoveryEnd cfg pace + pace.request)
    (cfg.openSettle + 60 * SECOND + LADDER_POLL + pace.slack)

variable (cfg) in
/-- A turn is over before the next full hour. -/
structure Fits (pace : Pace) : Prop where
  request : 0 ≤ pace.request
  slack : 0 ≤ pace.slack
  preArm : 0 ≤ cfg.preArm
  listingGrace : 0 ≤ cfg.listingGrace
  pollSecs : 0 ≤ cfg.pollSecs
  openSettle : 0 ≤ cfg.openSettle
  turn : settleEnd cfg pace + 2 * pace.request + 15 * SECOND + pace.slack < HOUR

variable (cfg) in
/-- What the clock says at most at a boundary, by where the loop is. -/
def InTime (pace : Pace) (start : ℤ) (s : Hourly) : HourlyPhase → Prop
  | .head => nextBoundary s.now = turnAt start s.boundaries.length
  | .preArming b => Latest b b
  | .discovering b => Latest b (b + discoveryEnd cfg pace)
  | .retrying b => Latest b (b + cfg.listingGrace)
  | .settling b _ _ _ => Latest b (b + settleEnd cfg pace)
  | .resting b _ _ _ => Latest b (b + cfg.openSettle + 60 * SECOND)
  | .selecting b _ _ => Latest b (b + settleEnd cfg pace + pace.request)
  | .waiting b => Latest b (b + settleEnd cfg pace + 2 * pace.request)
  | .stopped => True
where
  Latest (b late : ℤ) : Prop :=
    b + HOUR = turnAt start s.boundaries.length ∧ s.now ≤ late

variable (cfg) in
/-- The turns so far were at every full hour, and the clock is in time for the next. -/
structure EveryHour (pace : Pace) (start : ℤ) (s : Hourly) : Prop where
  boundaries : s.boundaries =
    (List.range s.boundaries.length).map (turnAt start)
  inTime : InTime cfg pace start s s.phase

namespace EveryHour

variable {pace : Pace}

/-- A step between two turns. -/
theorem go (h : EveryHour cfg pace start s) (hboundaries : s'.boundaries = s.boundaries)
    (hinTime : InTime cfg pace start s' s'.phase) : EveryHour cfg pace start s' where
  boundaries := by rw [hboundaries]; exact h.boundaries
  inTime := hinTime

theorem step (h : EveryHour cfg pace start s) (hfits : Fits cfg pace)
    (hpunctual : Punctual cfg pace s a) (hs : Step cfg parseRfc3339 selectBand s a s') :
    EveryHour cfg pace start s' := by
  have hinTime := h.inTime
  obtain ⟨hrequest, hslack, hpreArm, hgrace, hpoll, hsettle, hturn⟩ := hfits
  have hdiscovery : discoveryEnd cfg pace + pace.request ≤ settleEnd cfg pace := le_max_left _ _
  have hladder : cfg.openSettle + 60 * SECOND + LADDER_POLL + pace.slack ≤ settleEnd cfg pace :=
    le_max_right _ _
  have hnonneg : 0 ≤ discoveryEnd cfg pace := by
    rw [discoveryEnd]
    omega
  cases hs with
  | turn hphase hrun =>
    rw [hphase] at hinTime
    have hlen : (s.boundaries ++ [nextBoundary s.now]).length = s.boundaries.length + 1 :=
      List.length_append
    refine ⟨?_, ?_, (lt_nextBoundary _).le⟩
    · rw [hlen, List.range_succ, List.map_append, ← h.boundaries, List.map_singleton, ← hinTime]
    · rw [hlen, turnAt_succ, ← hinTime]
  | @preArm b t hphase =>
    rw [hphase] at hinTime
    have ht : t ≤ due cfg pace s := hpunctual
    have hle := hinTime.2
    refine h.go rfl ⟨hinTime.1, ?_⟩
    show t ≤ b + discoveryEnd cfg pace
    simp only [due, hphase, untilPreArm] at ht
    rw [discoveryEnd]
    omega
  | @discovered b ev ms markets t hphase hopening =>
    rw [hphase] at hinTime
    have ht : t ≤ s.now + pace.request := by simpa only [Punctual, due, hphase] using hpunctual
    have hle := hinTime.2
    refine h.go rfl ⟨hinTime.1, ?_⟩
    show t ≤ b + settleEnd cfg pace
    omega
  | @undiscovered b answer t hphase hopening =>
    rw [hphase] at hinTime
    have ht : t ≤ s.now + pace.request := by simpa only [Punctual, due, hphase] using hpunctual
    have hle := hinTime.2
    refine h.go rfl ?_
    dsimp only
    split_ifs with hlate
    · refine ⟨hinTime.1, ?_⟩
      show t ≤ b + settleEnd cfg pace + 2 * pace.request
      omega
    · exact ⟨hinTime.1, (not_le.1 hlate).le⟩
  | @retry b t hphase =>
    rw [hphase] at hinTime
    have ht : t ≤ s.now + cfg.pollSecs + pace.slack := by
      simpa only [Punctual, due, hphase] using hpunctual
    have hle := hinTime.2
    refine h.go rfl ⟨hinTime.1, ?_⟩
    show t ≤ b + discoveryEnd cfg pace
    rw [discoveryEnd]
    omega
  | @poll b ev last prev answer t hphase =>
    rw [hphase] at hinTime
    have ht : t ≤ s.now + pace.request := by simpa only [Punctual, due, hphase] using hpunctual
    have hle := hinTime.2
    refine h.go rfl ?_
    dsimp only
    split_ifs with hready
    · refine ⟨hinTime.1, ?_⟩
      show t ≤ b + settleEnd cfg pace + pace.request
      omega
    · refine ⟨hinTime.1, ?_⟩
      have hcap := (Bool.or_eq_false_iff.1 (Bool.not_eq_true _ ▸ hready)).2
      rw [decide_eq_false_iff_not, capAt] at hcap
      show t ≤ b + cfg.openSettle + 60 * SECOND
      omega
  | @rest b ev last prev t hphase =>
    rw [hphase] at hinTime
    have ht : t ≤ s.now + LADDER_POLL + pace.slack := by
      simpa only [Punctual, due, hphase] using hpunctual
    have hle := hinTime.2
    refine h.go rfl ⟨hinTime.1, ?_⟩
    show t ≤ b + settleEnd cfg pace
    omega
  | @select b ev last anchor t hphase =>
    rw [hphase] at hinTime
    have ht : t ≤ s.now + pace.request := by simpa only [Punctual, due, hphase] using hpunctual
    have hle := hinTime.2
    refine h.go rfl ⟨hinTime.1, ?_⟩
    show t ≤ b + settleEnd cfg pace + 2 * pace.request
    omega
  | @wait b t hphase =>
    rw [hphase] at hinTime
    have hforward : b ≤ t := hpunctual.1 b hphase
    have ht : t ≤ s.now + pastBoundary b s.now + pace.slack := by
      simpa only [due, hphase] using hpunctual.2
    have hlate := pastBoundary_le hinTime.2 (b := b) (by omega)
    have hdvd : HOUR ∣ b := by
      have hnext := dvd_turnAt start s.boundaries.length
      rw [← hinTime.1] at hnext
      rw [HOUR_eq] at hnext ⊢
      omega
    have hnext : nextBoundary t = b + HOUR :=
      nextBoundary_eq_of_lt hdvd (by omega) (by omega)
    exact h.go rfl (hnext.trans hinTime.1)
  | shutdown => exact h.go rfl hinTime
  | @interruptPolls b ev last prev hdown hphase =>
    have hle : InTime.Latest start s b (b + settleEnd cfg pace) := by
      rcases hphase with hphase | hphase <;> rw [hphase] at hinTime
      · exact hinTime
      · refine ⟨hinTime.1, hinTime.2.trans ?_⟩
        rw [LADDER_POLL, SECOND] at hladder
        rw [SECOND]
        omega
    exact h.go rfl ⟨hle.1, hle.2.trans (by omega)⟩
  | interrupt hdown hphase => exact h.go rfl trivial

theorem due_lt (h : EveryHour cfg pace start s) (hfits : Fits cfg pace)
    (hphase : s.phase ≠ .stopped) : due cfg pace s < turnAt start s.boundaries.length := by
  have hinTime := h.inTime
  obtain ⟨hrequest, hslack, hpreArm, hgrace, hpoll, hsettle, hturn⟩ := hfits
  have hdiscovery : discoveryEnd cfg pace + pace.request ≤ settleEnd cfg pace := le_max_left _ _
  have hladder : cfg.openSettle + 60 * SECOND + LADDER_POLL + pace.slack ≤ settleEnd cfg pace :=
    le_max_right _ _
  have hend : discoveryEnd cfg pace = cfg.listingGrace + cfg.pollSecs + pace.slack := rfl
  have hsecond : SECOND = 1000000000 := rfl
  rw [due]
  cases hp : s.phase with
  | stopped => exact absurd hp hphase
  | head =>
    rw [hp] at hinTime
    rw [← (show nextBoundary s.now = _ from hinTime)]
    exact lt_nextBoundary s.now
  | waiting b =>
    rw [hp] at hinTime
    obtain ⟨hnext, hnow⟩ := hinTime
    have hlate := pastBoundary_le hnow (b := b) (by omega)
    dsimp only
    omega
  | _ =>
    rw [hp] at hinTime
    obtain ⟨hnext, hnow⟩ := hinTime
    simp only [untilPreArm]
    omega

theorem mem_boundaries (h : EveryHour cfg pace start s) {i : ℕ}
    (hi : turnAt start i < turnAt start s.boundaries.length) : turnAt start i ∈ s.boundaries := by
  rw [h.boundaries]
  refine List.mem_map_of_mem (List.mem_range.2 ?_)
  rw [turnAt, turnAt, HOUR_eq] at hi
  omega

end EveryHour

/-- Until the loop has stopped there is a step in time. -/
theorem exists_step {pace : Pace} (hslack : 0 ≤ pace.slack) (hphase : s.phase ≠ .stopped) :
    ∃ a s', a ≠ .shutdown ∧ Punctual cfg pace s a ∧
      Step cfg parseRfc3339 selectBand s a s' := by
  cases hp : s.phase with
  | stopped => exact absurd hp hphase
  | head =>
    cases hdown : s.shutdown with
    | false => exact ⟨.turn, _, nofun, trivial, .turn hp hdown⟩
    | true => exact ⟨.interrupt, _, nofun, trivial, .interrupt hdown (Or.inl hp)⟩
  | preArming b => exact ⟨.preArm (due cfg pace s), _, nofun, le_rfl, .preArm _ hp⟩
  | discovering b =>
    exact ⟨.discover none (due cfg pace s), _, nofun, le_rfl, .undiscovered none _ hp nofun⟩
  | retrying b => exact ⟨.retry (due cfg pace s), _, nofun, le_rfl, .retry _ hp⟩
  | settling b ev last prev =>
    exact ⟨.poll none (due cfg pace s), _, nofun, le_rfl, .poll none _ hp⟩
  | resting b ev last prev => exact ⟨.rest (due cfg pace s), _, nofun, le_rfl, .rest _ hp⟩
  | selecting b ev last =>
    exact ⟨.select none (due cfg pace s), _, nofun, le_rfl, .select none _ hp⟩
  | waiting b =>
    refine ⟨.wait (due cfg pace s), _, nofun, ⟨fun b' hb' => ?_, le_rfl⟩, .wait _ hp⟩
    rw [hp] at hb'
    cases hb'
    have hpast := lt_add_pastBoundary b s.now
    simp only [due, hp]
    rw [SECOND] at hpast
    omega

/-! ## Every run -/

/-- The settings by default, in nanoseconds. -/
def defaultCfg : HourCfg := ⟨30 * SECOND, 300 * SECOND, 60 * SECOND, 30 * SECOND⟩

/-- Requests of ten seconds, and sleeps that end up to 100 seconds late. -/
def easyPace : Pace := ⟨10 * SECOND, 100 * SECOND⟩

theorem marketOpeningAt_june : marketOpeningAt juneClock juneHour juneMarkets =
    some ("HOUR", [juneMarket "HOUR" "HOUR-1", juneMarket "HOUR" "HOUR-2"]) := by
  decide

/-- The loop from 40 seconds before an hour on. -/
def juneLoop : Machine Hourly Action :=
  machine defaultCfg juneClock (fun ms _ => ms.map (·.ticker)) (juneHour - 40 * SECOND)

/-- An hour is armed 69 seconds after it opens, and the next turn is at the next hour. -/
theorem exists_armed : ∃ s : Hourly,
    juneLoop.Reachable (fun s a => Forward s a ∧ Punctual defaultCfg easyPace s a) s ∧
    s.boundaries = [juneHour, juneHour + HOUR] ∧
    s.armed.map (fun hour => (hour.event, hour.tickers)) = [("HOUR", ["HOUR-1", "HOUR-2"])] ∧
    s.phase = .preArming (juneHour + HOUR) := by
  let ms := [juneMarket "HOUR" "HOUR-1", juneMarket "HOUR" "HOUR-2"]
  let reached (now : ℤ) (phase : HourlyPhase) (armed : List ArmedHour) (boundaries : List ℤ) :=
    juneLoop.Reachable (fun s a => Forward s a ∧ Punctual defaultCfg easyPace s a)
      ⟨juneHour + now * SECOND, false, phase, armed, boundaries⟩
  have h : reached (-40) .head [] [] := .init
  have h : reached (-40) (.preArming juneHour) [] [juneHour] :=
    h.step (Step.turn rfl rfl) ⟨trivial, trivial⟩
  have h : reached 55 (.discovering juneHour) [] [juneHour] :=
    h.step (Step.preArm _ rfl) ⟨trivial, by show (_ : ℤ) ≤ _; decide⟩
  have h : reached 56 (.settling juneHour "HOUR" [] 0) [] [juneHour] :=
    h.step (Step.discovered juneMarkets _ rfl marketOpeningAt_june)
      ⟨trivial, by show (_ : ℤ) ≤ _; decide⟩
  have h := h.step (Step.poll (some juneMarkets) (juneHour + 57 * SECOND) rfl)
    ⟨trivial, by show (_ : ℤ) ≤ _; decide⟩
  have h : reached 57 (.resting juneHour "HOUR" ms 2) [] [juneHour] := h
  have h : reached 67 (.settling juneHour "HOUR" ms 2) [] [juneHour] :=
    h.step (Step.rest _ rfl) ⟨trivial, by show (_ : ℤ) ≤ _; decide⟩
  have h := h.step (Step.poll none (juneHour + 68 * SECOND) rfl)
    ⟨trivial, by show (_ : ℤ) ≤ _; decide⟩
  have h : reached 68 (.selecting juneHour "HOUR" ms) [] [juneHour] := h
  have h := h.step (Step.select none (juneHour + 69 * SECOND) rfl)
    ⟨trivial, by show (_ : ℤ) ≤ _; decide⟩
  have h : reached 69 (.waiting juneHour) [⟨juneHour, "HOUR", ms, ["HOUR-1", "HOUR-2"]⟩]
    [juneHour] := h
  -- While the loop sleeps the clock is set back by more than a minute, but not past the boundary.
  have h : reached 10 .head [⟨juneHour, "HOUR", ms, ["HOUR-1", "HOUR-2"]⟩] [juneHour] :=
    h.step (Step.wait _ rfl) ⟨by rintro _ ⟨⟩; decide, by rintro _ ⟨⟩; decide, by decide⟩
  exact ⟨_, h.step (Step.turn rfl rfl) ⟨trivial, trivial⟩, by decide, rfl, by decide⟩

/-- While the clock is not set back past a boundary, the loop turns at full hours in order, and arms
at most one capture for each, of the strikes of a ladder that opens there. -/
theorem armed_once (h : (machine cfg parseRfc3339 selectBand start).Reachable Forward s) :
    (∀ b ∈ s.boundaries, HOUR ∣ b) ∧ (s.boundaries.Pairwise fun b b' => b + HOUR ≤ b') ∧
      (s.armed.map (·.boundary)).Sublist s.boundaries ∧
      ∀ hour ∈ s.armed, hour.Sound parseRfc3339 selectBand := by
  have hinv : Machine.Invariant (machine cfg parseRfc3339 selectBand start) Forward
      (InOrder parseRfc3339 selectBand) :=
    { init := ⟨by rintro _ ⟨⟩, List.Pairwise.nil, List.Sublist.refl _, by rintro _ ⟨⟩,
        by rintro _ ⟨⟩⟩
      step := fun _ hP ha hs => hP.step ha hs }
  have horder := hinv.holds h
  exact ⟨horder.dvd, horder.apart, horder.armed, horder.sound⟩

theorem armed_once_june : ∃ s : Hourly, s.boundaries = [juneHour, juneHour + HOUR] ∧
    s.armed.length = 1 ∧ (s.armed.map (·.boundary)).Sublist s.boundaries ∧
    ∀ hour ∈ s.armed, hour.Sound juneClock fun ms _ => ms.map (·.ticker) := by
  obtain ⟨s, h, hboundaries, harmed, -⟩ := exists_armed
  have honce := armed_once (h.mono fun _ _ ha => ha.1)
  exact ⟨s, hboundaries, by simpa using congrArg List.length harmed, honce.2.2⟩

/-- When requests and sleeps end in time and the settings leave a turn less than an hour, the loop
turns at every full hour from its start on: until it has stopped there is always a step in time, and
no full hour has come by then that it has not turned at. -/
theorem every_hour {pace : Pace} (hfits : Fits cfg pace)
    (h : (machine cfg parseRfc3339 selectBand start).Reachable (Punctual cfg pace) s) :
    s.boundaries = (List.range s.boundaries.length).map (turnAt start) ∧
      (s.phase ≠ .stopped →
        (∀ i, turnAt start i ≤ due cfg pace s → turnAt start i ∈ s.boundaries) ∧
        ∃ a s', a ≠ .shutdown ∧ Punctual cfg pace s a ∧
          Step cfg parseRfc3339 selectBand s a s') := by
  have hinv : Machine.Invariant (machine cfg parseRfc3339 selectBand start) (Punctual cfg pace)
      (EveryHour cfg pace start) :=
    { init := ⟨rfl, by simp [InTime, machine, turnAt]⟩
      step := fun _ hP ha hs => hP.step hfits ha hs }
  have hevery := hinv.holds h
  refine ⟨hevery.boundaries, fun hphase => ⟨fun i hi => ?_, exists_step hfits.slack hphase⟩⟩
  exact hevery.mem_boundaries (hi.trans_lt (hevery.due_lt hfits hphase))

theorem every_hour_june : ∃ s : Hourly, s.armed.length = 1 ∧
    s.phase = .preArming (juneHour + HOUR) ∧
    s.boundaries = (List.range s.boundaries.length).map (turnAt (juneHour - 40 * SECOND)) ∧
    ∀ i, turnAt (juneHour - 40 * SECOND) i ≤ due defaultCfg easyPace s →
      turnAt (juneHour - 40 * SECOND) i ∈ s.boundaries := by
  obtain ⟨s, h, -, harmed, hphase⟩ := exists_armed
  have hfits : Fits defaultCfg easyPace := by constructor <;> decide
  obtain ⟨hboundaries, hgoes⟩ := every_hour hfits (h.mono fun _ _ ha => ha.2)
  exact ⟨s, by simpa using congrArg List.length harmed, hphase, hboundaries,
    (hgoes (by rw [hphase]; exact nofun)).1⟩

end Hourly

end Snapevent
