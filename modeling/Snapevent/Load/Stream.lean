import Snapevent.Load.Dedup
import Snapevent.Load.Grouping

/-!
# The merged stream is the sorted union of its lanes

What a consumer that iterates a fresh `EventIter` to the end receives, lane by lane and as a whole.
-/

namespace Snapevent

open KWayMerge

/-- What the three lanes of a fresh iterator hold. -/
def laneItems (gaps : RowSource GapRow) (book : RowSource BookEventRow) (trades : List TradeRow) :
    LaneId → List LaneItem
  | .gap => gapItems 0 gaps
  | .book => bookItems 0 book
  | .trade => tradeItems (tradeLaneRows trades)

/-- The events of the three lanes of well-formed rows. -/
def laneEvents (gaps : List GapRow) (book : List BookEventRow) (trades : List TradeRow) :
    LaneId → List (MergeKey × ReplayEvent)
  | .gap => gaps.mapIdx fun i row => (gapKey row i, gapEvent row)
  | .book => groupedBook 0 book
  | .trade => (tradeLaneRows trades).map fun t => (t.key, tradeEvent t.2)

/-- The table priority of a lane's keys. -/
def LaneId.priority : LaneId → ℕ
  | .gap => PRI_GAP
  | .book => PRI_BOOK
  | .trade => PRI_TRADE

theorem pending_ofRows (gaps : RowSource GapRow) (book : RowSource BookEventRow)
    (trades : List TradeRow) :
    (EventIter.ofRows gaps book trades).pending = laneItems gaps book trades := by
  funext l
  cases l <;> rfl

/-! ## Opening an iterator -/

theorem mapM_id_ok {α : Type} (xs : List α) :
    (xs.map Except.ok).mapM (id : Except LoadError α → Except LoadError α) = .ok xs := by
  induction xs with
  | nil => rfl
  | cons x xs ih => rw [List.map_cons, List.mapM_cons, ih]; rfl

theorem fromSources_ok (gaps : RowSource GapRow) (book : RowSource BookEventRow)
    (trades : List TradeRow) :
    EventIter.fromSources gaps book (trades.map .ok) = .ok (.ofRows gaps book trades) := by
  rw [EventIter.fromSources, mapM_id_ok]
  rfl

/-- An iterator that opens is a fresh one over the decoded trade rows. -/
theorem eq_ofRows {gaps : RowSource GapRow} {book : RowSource BookEventRow}
    {trades : RowSource TradeRow} {it : EventIter}
    (h : EventIter.fromSources gaps book trades = .ok it) :
    ∃ rows, trades.mapM id = .ok rows ∧ it = .ofRows gaps book rows := by
  rw [EventIter.fromSources] at h
  cases hm : trades.mapM id with
  | error e =>
    rw [hm] at h
    cases h
  | ok rows =>
    rw [hm] at h
    cases h
    exact ⟨rows, rfl, rfl⟩

theorem gapItems_ok (n : ℕ) (rows : List GapRow) :
    gapItems n (rows.map .ok) =
      (rows.mapIdx fun i row => (gapKey row (i + n), gapEvent row)).map .ok := by
  induction rows generalizing n with
  | nil => rfl
  | cons r rows ih =>
    rw [List.map_cons, gapItems, ih, List.mapIdx_cons, List.map_cons, Nat.zero_add]
    simp only [Nat.add_assoc, Nat.add_comm 1 n]

/-- Lanes over well-formed rows hold their events and no error. -/
theorem laneItems_of_wellFormed (gaps : List GapRow) {book : List BookEventRow}
    (trades : List TradeRow) (hbook : ∀ r ∈ book, r.wellFormed) (l : LaneId) :
    laneItems (gaps.map .ok) (book.map .ok) trades l =
      (laneEvents gaps book trades l).map .ok := by
  cases l with
  | gap => exact gapItems_ok 0 gaps
  | book => exact bookItems_of_wellFormed hbook 0
  | trade =>
    rw [laneEvents, List.map_map]
    rfl

/-! ## Keys are distinct -/

/-- The events among items. -/
def eventsOf (items : List LaneItem) : List (MergeKey × ReplayEvent) :=
  items.filterMap Except.toOption

@[simp] theorem eventsOf_nil : eventsOf [] = [] := rfl

@[simp] theorem eventsOf_cons_error (e : LoadError) (items : List LaneItem) :
    eventsOf (.error e :: items) = eventsOf items := rfl

@[simp] theorem eventsOf_cons_ok (x : MergeKey × ReplayEvent) (items : List LaneItem) :
    eventsOf (.ok x :: items) = x :: eventsOf items := rfl

theorem eventsOf_ok (events : List (MergeKey × ReplayEvent)) :
    eventsOf (events.map .ok) = events := by
  rw [eventsOf, List.filterMap_map]
  exact List.filterMap_some

theorem mem_eventsOf {items : List LaneItem} {x : MergeKey × ReplayEvent} :
    x ∈ eventsOf items ↔ .ok x ∈ items := by
  induction items with
  | nil => simp
  | cons item items ih => rcases item with e | y <;> simp [ih]

/-- The events are numbered from `lo` on, in order. -/
structure Numbered (lo : ℕ) (events : List (MergeKey × ReplayEvent)) : Prop where
  le : ∀ x ∈ events, lo ≤ x.1.fileRow
  lt : events.Pairwise fun x y => x.1.fileRow < y.1.fileRow

namespace Numbered

variable {lo : ℕ} {events : List (MergeKey × ReplayEvent)}

theorem nil : Numbered lo [] := ⟨by simp, .nil⟩

theorem mono {lo' : ℕ} (h : Numbered lo events) (hle : lo' ≤ lo) : Numbered lo' events :=
  ⟨fun x hx => hle.trans (h.le x hx), h.lt⟩

theorem cons {x : MergeKey × ReplayEvent} (h : Numbered (x.1.fileRow + 1) events) :
    Numbered x.1.fileRow (x :: events) := by
  refine ⟨fun y hy => ?_, List.pairwise_cons.2 ⟨h.le, h.lt⟩⟩
  rcases List.mem_cons.1 hy with rfl | hy
  · exact le_rfl
  · exact Nat.le_of_succ_le (h.le y hy)

end Numbered

/-- The events of the gap lane are numbered in order. -/
theorem gapItems_numbered (n : ℕ) (src : RowSource GapRow) :
    Numbered n (eventsOf (gapItems n src)) := by
  induction src generalizing n with
  | nil => exact .nil
  | cons x src ih =>
    cases x with
    | error e => exact ih n
    | ok r => exact .cons (x := (gapKey r n, gapEvent r)) (ih (n + 1))

/-- The number of the row a group was opened by, or of the next row. -/
def openRow (g : Option OpenGroup) (n : ℕ) : ℕ := (g.map (·.key.fileRow)).getD n

theorem startTurn_numbered (n : ℕ) (r : BookEventRow) (src : RowSource BookEventRow)
    (ih : ∀ g : Option OpenGroup, (∀ g' ∈ g, g'.key.fileRow < n + 1) →
      Numbered (openRow g (n + 1)) (eventsOf ((bookTurns g (n + 1) src).map (·.item)))) :
    Numbered n (eventsOf (((startTurn n r).1 ++ bookTurns (startTurn n r).2 (n + 1) src).map
      (·.item))) := by
  have hnone := ih none (by simp)
  by_cases hs : r.isSnapshot
  · rw [startTurn_snapshot hs]
    cases hp : pushLevel ([], []) r n with
    | error e =>
      rw [OpenGroup.extend_error hp]
      exact hnone.mono (Nat.le_succ n)
    | ok sides =>
      rw [OpenGroup.extend_ok hp]
      exact ih (some ⟨r, bookKey r n, sides, [n]⟩) (by simp [bookKey])
  · rw [startTurn_delta hs]
    cases deltaEvent r n with
    | error e => exact hnone.mono (Nat.le_succ n)
    | ok ev => exact .cons (x := (bookKey r n, ev)) hnone

/-- The events of the book lane are numbered in order. -/
theorem bookTurns_numbered (src : RowSource BookEventRow) (g : Option OpenGroup) (n : ℕ)
    (hg : ∀ g' ∈ g, g'.key.fileRow < n) :
    Numbered (openRow g n) (eventsOf ((bookTurns g n src).map (·.item))) := by
  have hle (g : Option OpenGroup) (n : ℕ) (hg : ∀ g' ∈ g, g'.key.fileRow < n) :
      openRow g n ≤ n := by
    cases g with
    | none => exact le_rfl
    | some g => exact (hg g rfl).le
  induction src generalizing g n with
  | nil =>
    cases g with
    | none => exact .nil
    | some g => exact .cons (x := (g.key, g.event)) .nil
  | cons x src ih =>
    cases x with
    | error e =>
      have hnone := (ih none n (by simp)).mono (hle g n hg)
      cases g with
      | none => exact hnone
      | some g => exact hnone
    | ok r =>
      cases g with
      | none => exact startTurn_numbered n r src fun g hg => ih g (n + 1) hg
      | some g =>
        have hgn := hg g rfl
        rw [bookTurns]
        split_ifs
        · cases hp : pushLevel g.sides r n with
          | error e =>
            rw [OpenGroup.extend_error hp]
            exact (ih none (n + 1) (by simp)).mono ((hle _ n hg).trans (Nat.le_succ n))
          | ok sides =>
            rw [OpenGroup.extend_ok hp]
            exact ih (some { g with sides, rows := g.rows ++ [n] }) (n + 1)
              (by simpa using Nat.lt_succ_of_lt hgn)
        · have hstart := startTurn_numbered n r src fun g hg => ih g (n + 1) hg
          exact .cons (x := (g.key, g.event)) (hstart.mono hgn)

/-- The induction over the turns of a book source: what every group under assembly satisfies and
what then every event of the lane satisfies. -/
theorem bookTurns_event {Q : OpenGroup → Prop} {P : MergeKey × ReplayEvent → Prop}
    (hopen : ∀ r i sides, pushLevel ([], []) r i = .ok sides → Q ⟨r, bookKey r i, sides, [i]⟩)
    (hextend : ∀ (g : OpenGroup) r i sides, Q g → pushLevel g.sides r i = .ok sides →
      Q { g with sides, rows := g.rows ++ [i] })
    (hdelta : ∀ r i ev, deltaEvent r i = .ok ev → P (bookKey r i, ev))
    (hgroup : ∀ g : OpenGroup, Q g → P (g.key, g.event))
    (src : RowSource BookEventRow) (g : Option OpenGroup) (n : ℕ) (hg : ∀ g' ∈ g, Q g') :
    ∀ x ∈ eventsOf ((bookTurns g n src).map (·.item)), P x := by
  have hstart (r : BookEventRow) (n : ℕ) (src : RowSource BookEventRow)
      (ih : ∀ g : Option OpenGroup, (∀ g' ∈ g, Q g') →
        ∀ x ∈ eventsOf ((bookTurns g (n + 1) src).map (·.item)), P x) :
      ∀ x ∈ eventsOf (((startTurn n r).1 ++ bookTurns (startTurn n r).2 (n + 1) src).map
        (·.item)), P x := by
    by_cases hs : r.isSnapshot
    · rw [startTurn_snapshot hs]
      cases hp : pushLevel ([], []) r n with
      | error e =>
        rw [OpenGroup.extend_error hp]
        exact ih none (by simp)
      | ok sides =>
        rw [OpenGroup.extend_ok hp]
        exact ih (some ⟨r, bookKey r n, sides, [n]⟩) (by simpa using hopen r n sides hp)
    · rw [startTurn_delta hs]
      cases hd : deltaEvent r n with
      | error e => exact ih none (by simp)
      | ok ev => exact List.forall_mem_cons.2 ⟨hdelta r n ev hd, ih none (by simp)⟩
  induction src generalizing g n with
  | nil =>
    cases g with
    | none => simp [bookTurns]
    | some g => exact List.forall_mem_cons.2 ⟨hgroup g (hg g rfl), by simp⟩
  | cons x src ih =>
    cases x with
    | error e =>
      rcases g with _ | g <;> exact ih none n (by simp)
    | ok r =>
      cases g with
      | none => exact hstart r n src fun g hg => ih g (n + 1) hg
      | some g =>
        have hq := hg g rfl
        rw [bookTurns]
        split_ifs
        · cases hp : pushLevel g.sides r n with
          | error e =>
            rw [OpenGroup.extend_error hp]
            exact ih none (n + 1) (by simp)
          | ok sides =>
            rw [OpenGroup.extend_ok hp]
            exact ih (some { g with sides, rows := g.rows ++ [n] }) (n + 1)
              (by simpa using hextend g r n sides hq hp)
        · exact List.forall_mem_cons.2
            ⟨hgroup g hq, hstart r n src fun g hg => ih g (n + 1) hg⟩

theorem deltaEvent_ts {r : BookEventRow} {i : ℕ} {ev : ReplayEvent}
    (h : deltaEvent r i = .ok ev) : ev.ts = r.recvTsUs := by
  unfold deltaEvent at h
  split at h
  · cases h
    rfl
  · cases h

section Lanes

variable {gaps : RowSource GapRow} {book : RowSource BookEventRow} {trades : List TradeRow}

/-- A lane's event carries the priority of its table and the effective time of its key. -/
theorem laneItems_key {l : LaneId} {x : MergeKey × ReplayEvent}
    (hx : x ∈ eventsOf (laneItems gaps book trades l)) :
    x.1.tablePriority = l.priority ∧ x.2.ts = x.1.effectiveTs := by
  cases l with
  | gap =>
    have hgap (src : RowSource GapRow) (n : ℕ) : ∀ x ∈ eventsOf (gapItems n src),
        x.1.tablePriority = PRI_GAP ∧ x.2.ts = x.1.effectiveTs := by
      induction src generalizing n with
      | nil => simp [gapItems]
      | cons y src ih =>
        cases y with
        | error e => exact ih n
        | ok r => exact List.forall_mem_cons.2 ⟨⟨rfl, rfl⟩, ih (n + 1)⟩
    exact hgap gaps 0 x hx
  | book =>
    refine bookTurns_event (Q := fun g => ∃ i, g.key = bookKey g.first i)
      (P := fun x => x.1.tablePriority = PRI_BOOK ∧ x.2.ts = x.1.effectiveTs)
      (fun r i _ _ => ⟨i, rfl⟩) (fun g _ _ _ hg _ => hg) (fun r i ev hd => ⟨rfl, deltaEvent_ts hd⟩)
      (fun g hg => ?_) book none 0 (by simp) x hx
    obtain ⟨i, hi⟩ := hg
    dsimp only
    rw [hi]
    exact ⟨rfl, rfl⟩
  | trade =>
    rw [laneItems, tradeItems] at hx
    have hmem := mem_eventsOf.1 hx
    obtain ⟨t, -, ht⟩ := List.mem_map.1 hmem
    cases ht
    exact ⟨rfl, rfl⟩

theorem laneItems_pairwise_ne (l : LaneId) :
    (eventsOf (laneItems gaps book trades l)).Pairwise fun x y => x.1 ≠ y.1 := by
  cases l with
  | gap => exact (gapItems_numbered 0 gaps).lt.imp fun h he => h.ne (congrArg _ he)
  | book =>
    exact (bookTurns_numbered book none 0 (by simp)).lt.imp fun h he => h.ne (congrArg _ he)
  | trade =>
    have htrade : eventsOf (tradeItems (tradeLaneRows trades)) =
        (tradeLaneRows trades).map fun t => (t.key, tradeEvent t.2) := by
      rw [← eventsOf_ok ((tradeLaneRows trades).map fun t => (t.key, tradeEvent t.2)), List.map_map]
      rfl
    rw [laneItems, htrade]
    exact List.pairwise_map.2 ((tradeLaneRows_sorted trades).imp fun h => h.ne)

/-- No two events of the lanes share a key. -/
theorem keys_distinct : (EventIter.lanes.flatMap fun l =>
    eventsOf (laneItems gaps book trades l)).Pairwise fun x y => x.1 ≠ y.1 := by
  refine List.pairwise_flatMap.2 ⟨fun l _ => laneItems_pairwise_ne l, ?_⟩
  have hlanes : EventIter.lanes.Pairwise fun l l' => l.priority ≠ l'.priority := by decide
  refine hlanes.imp fun hne x hx y hy h => hne ?_
  rw [← (laneItems_key hx).1, ← (laneItems_key hy).1, h]

end Lanes

/-! ## What is said of one lane -/

/-- The key `k` of item number `n` is below that of an earlier event of the same lane. -/
def Regresses (items : List LaneItem) (n : ℕ) (k : MergeKey) : Prop :=
  ∃ m k' ev', m < n ∧ items[m]? = some (.ok (k', ev')) ∧ k < k'

/-- The pulls report every item of a lane once and in order: an error as itself, an event that
regresses as an order violation, any other event as itself. -/
structure Reported (items : List LaneItem) (pulls : List EventIter.Pulled) : Prop where
  length_eq : pulls.length = items.length
  failed : ∀ (n : ℕ) (e : LoadError), items[n]? = some (.error e) →
    ∃ p : EventIter.Pulled, pulls[n]? = some p ∧ p.item = .error e
  event : ∀ (n : ℕ) (k : MergeKey) (ev : ReplayEvent), items[n]? = some (.ok (k, ev)) →
    ∃ p : EventIter.Pulled, pulls[n]? = some p ∧ p.key = some k ∧
    (Regresses items n k → ∃ prev, p.item = .error (EventIter.orderViolation k prev)) ∧
    (¬ Regresses items n k → p.item = .ok ev)

theorem regresses_iff {items : List LaneItem} {n : ℕ} {k : MergeKey} :
    Regresses items n k ↔ ∃ k' ev', .ok (k', ev') ∈ items.take n ∧ k < k' := by
  constructor
  · rintro ⟨m, k', ev', hm, hget, hlt⟩
    exact ⟨k', ev', List.mem_of_getElem? (i := m) (by rw [List.getElem?_take_of_lt hm, hget]), hlt⟩
  · rintro ⟨k', ev', hmem, hlt⟩
    obtain ⟨m, hm⟩ := List.mem_iff_getElem?.1 hmem
    rw [List.getElem?_take] at hm
    split_ifs at hm with hmn
    exact ⟨m, k', ev', hmn, hm, hlt⟩

theorem filter_lane_map_toPulled (l : LaneId)
    (out : List (LaneId × Verdict LoadError MergeKey ReplayEvent × WithBot MergeKey)) :
    (out.map EventIter.toPulled).filter (·.lane = l) =
      (out.filter (·.1 = l)).map EventIter.toPulled := by
  rw [List.filter_map]
  congr 1
  refine List.filter_congr fun x _ => ?_
  rcases x with ⟨j, _ | _ | _, last⟩ <;> rfl

/-- A run reports each of its lanes. -/
theorem reported_of_run {L : LaneId → List LaneItem}
    {out : List (LaneId × Verdict LoadError MergeKey ReplayEvent × WithBot MergeKey)}
    (hrun : Run L ⊥ out) (l : LaneId) :
    Reported (L l) ((out.map EventIter.toPulled).filter (·.lane = l)) := by
  have hverdicts := hrun.lane_verdicts l
  rw [verdictsOf] at hverdicts
  rw [filter_lane_map_toPulled]
  have hlen : (out.filter (·.1 = l)).length = (L l).length := by
    rw [← List.length_map (·.2.1), hverdicts, length_laneVerdicts]
  -- the verdict on item `n` and the pull that hands it out
  have hnth {n : ℕ} {item : LaneItem} (hn : (L l)[n]? = some item) : ∃ j v last,
      ((out.filter (·.1 = l)).map EventIter.toPulled)[n]? = some (EventIter.toPulled (j, v, last)) ∧
      (laneVerdicts ⊥ (L l))[n]? = some v := by
    obtain ⟨hlt, -⟩ := List.getElem?_eq_some_iff.1 hn
    have hx := List.getElem?_eq_getElem (hlen ▸ hlt : n < (out.filter (·.1 = l)).length)
    refine ⟨_, _, _, by rw [List.getElem?_map, hx]; rfl, ?_⟩
    rw [← hverdicts, List.getElem?_map, hx]
    rfl
  refine ⟨by rw [List.length_map, hlen], fun n e hn => ?_, fun n k ev hn => ?_⟩
  · obtain ⟨j, v, last, hp, hv⟩ := hnth hn
    have hspec := laneVerdicts_getElem? ⊥ (L l) n hv
    rw [hn] at hspec
    obtain rfl : v = .failed e := hspec
    exact ⟨_, hp, rfl⟩
  · obtain ⟨j, v, last, hp, hv⟩ := hnth hn
    have hspec := laneVerdicts_getElem? ⊥ (L l) n hv
    rw [hn] at hspec
    refine ⟨_, hp, ?_⟩
    rcases hspec with ⟨rfl, hreg⟩ | ⟨rfl, -, hle⟩
    · refine ⟨rfl, fun _ => ⟨_, rfl⟩, fun hnot => absurd ?_ hnot⟩
      exact regresses_iff.2 (hreg.resolve_left not_lt_bot)
    · refine ⟨rfl, fun hreg => absurd hreg ?_, fun _ => rfl⟩
      rw [regresses_iff]
      rintro ⟨k', ev', hmem, hlt⟩
      exact absurd (hle k' ev' hmem) (not_le.2 hlt)

theorem not_regresses_of_sorted {events : List (MergeKey × ReplayEvent)}
    (hs : events.Pairwise fun x y => x.1 ≤ y.1) {n : ℕ} {k : MergeKey} {ev : ReplayEvent}
    (hn : events[n]? = some (k, ev)) : ¬ Regresses (events.map .ok) n k := by
  rintro ⟨m, k', ev', hmn, hm, hlt⟩
  obtain ⟨x, hx, hx'⟩ := Option.map_eq_some_iff.1 (List.getElem?_map ▸ hm)
  cases hx'
  obtain ⟨hn', hgn⟩ := List.getElem?_eq_some_iff.1 hn
  obtain ⟨hm', hgm⟩ := List.getElem?_eq_some_iff.1 hx
  have hle := List.pairwise_iff_getElem.1 hs m n hm' hn' hmn
  rw [hgn, hgm] at hle
  exact absurd hle (not_le.2 hlt)

/-- A lane in key order is reported event by event. -/
theorem Reported.of_sorted {events : List (MergeKey × ReplayEvent)}
    {pulls : List EventIter.Pulled} (h : Reported (events.map .ok) pulls)
    (hs : events.Pairwise fun x y => x.1 ≤ y.1) :
    pulls.map (·.item) = events.map fun x => .ok x.2 := by
  refine List.ext_getElem? fun n => ?_
  rcases hn : events[n]? with _ | ⟨k, ev⟩
  · have hlen : events.length ≤ n := List.getElem?_eq_none_iff.1 hn
    have hpulls : pulls.length ≤ n := by
      rw [h.length_eq, List.length_map]
      exact hlen
    rw [List.getElem?_map, List.getElem?_map, hn, List.getElem?_eq_none hpulls]
    rfl
  · obtain ⟨p, hp, -, -, hok⟩ := h.event n k ev (by rw [List.getElem?_map, hn]; rfl)
    rw [List.getElem?_map, List.getElem?_map, hp, hn, Option.map_some,
      hok (not_regresses_of_sorted hs hn)]
    rfl

/-! ## The stream as a whole -/

/-- The keyed event of a pull that handed out an event. -/
def EventIter.Pulled.event? (p : EventIter.Pulled) : Option (MergeKey × ReplayEvent) :=
  match p.key, p.item with
  | some k, .ok ev => some (k, ev)
  | _, _ => none

/-- The events a stream hands out, under their keys. -/
def EventIter.keyed (it : EventIter) : List (MergeKey × ReplayEvent) :=
  it.stream.filterMap EventIter.Pulled.event?

theorem filterMap_event?_toPulled
    (out : List (LaneId × Verdict LoadError MergeKey ReplayEvent × WithBot MergeKey)) :
    (out.map EventIter.toPulled).filterMap EventIter.Pulled.event? = emissions out := by
  rw [List.filterMap_map, emissions]
  refine List.filterMap_congr fun x _ => ?_
  rcases x with ⟨l, _ | _ | _, last⟩ <;> rfl

theorem lanes_nodup : EventIter.lanes.Nodup := by decide

theorem mem_lanes (l : LaneId) : l ∈ EventIter.lanes := by cases l <;> decide

section Run

variable (gaps : RowSource GapRow) (book : RowSource BookEventRow) (trades : List TradeRow)

theorem ofRows_run : ∃ out, Run (laneItems gaps book trades) ⊥ out ∧
    (EventIter.ofRows gaps book trades).stream = out.map EventIter.toPulled := by
  obtain ⟨out, hrun, hstream⟩ := (EventIter.ofRows gaps book trades).stream_run
  rw [pending_ofRows] at hrun
  exact ⟨out, hrun, hstream⟩

theorem stream_reported (l : LaneId) : Reported (laneItems gaps book trades l)
    ((EventIter.ofRows gaps book trades).stream.filter (·.lane = l)) := by
  obtain ⟨out, hrun, hstream⟩ := ofRows_run gaps book trades
  rw [hstream]
  exact reported_of_run hrun l

/-- The events a fresh iterator hands out are in strict key order. -/
theorem stream_strict :
    ((EventIter.ofRows gaps book trades).stream.filterMap EventIter.Pulled.event?).Pairwise
      fun x y => x.1 < y.1 := by
  obtain ⟨out, hrun, hstream⟩ := ofRows_run gaps book trades
  rw [hstream, filterMap_event?_toPulled]
  exact hrun.emissions_strict lanes_nodup mem_lanes keys_distinct

end Run

/-! ## Positions in the stream -/

/-- Pull number `i` hands out the event `ev`, taken under the key `k`. -/
def EventIter.HandsOut (it : EventIter) (i : ℕ) (k : MergeKey) (ev : ReplayEvent) : Prop :=
  ∃ p, it.stream[i]? = some p ∧ p.event? = some (k, ev)

theorem EventIter.Pulled.event?_eq_some {p : EventIter.Pulled} {k : MergeKey} {ev : ReplayEvent} :
    p.event? = some (k, ev) ↔ p.key = some k ∧ p.item = .ok ev := by
  rcases p with ⟨l, _ | k', e | ev'⟩ <;> simp [event?]

theorem EventIter.HandsOut.item {it : EventIter} {i : ℕ} {k : MergeKey} {ev : ReplayEvent}
    (h : it.HandsOut i k ev) : it.items[i]? = some (.ok ev) := by
  obtain ⟨p, hp, hev⟩ := h
  rw [EventIter.items, List.getElem?_map, hp, Option.map_some,
    (EventIter.Pulled.event?_eq_some.1 hev).2]

section Positions

variable {gaps : RowSource GapRow} {book : RowSource BookEventRow} {trades : List TradeRow}

/-- An event handed out later has the greater key. -/
theorem handsOut_lt {i j : ℕ} {k k' : MergeKey} {ev ev' : ReplayEvent}
    (hi : (EventIter.ofRows gaps book trades).HandsOut i k ev)
    (hj : (EventIter.ofRows gaps book trades).HandsOut j k' ev') (hij : i < j) : k < k' := by
  obtain ⟨p, hp, hpev⟩ := hi
  obtain ⟨q, hq, hqev⟩ := hj
  obtain ⟨hi', rfl⟩ := List.getElem?_eq_some_iff.1 hp
  obtain ⟨hj', rfl⟩ := List.getElem?_eq_some_iff.1 hq
  have hstrict := List.pairwise_filterMap.1 (stream_strict gaps book trades)
  exact List.pairwise_iff_getElem.1 hstrict i j hi' hj' hij _ hpev _ hqev

/-- A lane's event that does not regress is handed out. -/
theorem exists_handsOut {l : LaneId} {n : ℕ} {k : MergeKey} {ev : ReplayEvent}
    (hn : (laneItems gaps book trades l)[n]? = some (.ok (k, ev)))
    (hreg : ¬ Regresses (laneItems gaps book trades l) n k) :
    ∃ i, (EventIter.ofRows gaps book trades).HandsOut i k ev := by
  obtain ⟨p, hp, hkey, -, hok⟩ := (stream_reported gaps book trades l).event n k ev hn
  have hmem := (List.mem_filter.1 (List.mem_of_getElem? hp)).1
  obtain ⟨i, hi⟩ := List.mem_iff_getElem?.1 hmem
  exact ⟨i, p, hi, EventIter.Pulled.event?_eq_some.2 ⟨hkey, hok hreg⟩⟩

/-- What is handed out is a lane's event that does not regress. -/
theorem handsOut_of_item {i : ℕ} {ev : ReplayEvent}
    (h : (EventIter.ofRows gaps book trades).items[i]? = some (.ok ev)) :
    ∃ k l n, (EventIter.ofRows gaps book trades).HandsOut i k ev ∧
      (laneItems gaps book trades l)[n]? = some (.ok (k, ev)) ∧
      ¬ Regresses (laneItems gaps book trades l) n k := by
  rw [EventIter.items, List.getElem?_map] at h
  obtain ⟨p, hp, hitem⟩ := Option.map_eq_some_iff.1 h
  have hrep := stream_reported gaps book trades p.lane
  have hmem : p ∈ (EventIter.ofRows gaps book trades).stream.filter (·.lane = p.lane) :=
    List.mem_filter.2 ⟨List.mem_of_getElem? hp, by simp⟩
  obtain ⟨n, hn⟩ := List.mem_iff_getElem?.1 hmem
  have hlt : n < (laneItems gaps book trades p.lane).length :=
    hrep.length_eq ▸ (List.getElem?_eq_some_iff.1 hn).1
  rcases hget : (laneItems gaps book trades p.lane)[n] with e | ⟨k, ev'⟩
  · obtain ⟨q, hq, herr⟩ := hrep.failed n e (List.getElem?_eq_some_iff.2 ⟨hlt, hget⟩)
    cases hn.symm.trans hq
    cases hitem.symm.trans herr
  · have hlane := List.getElem?_eq_some_iff.2 ⟨hlt, hget⟩
    obtain ⟨q, hq, hkey, hbad, hok⟩ := hrep.event n k ev' hlane
    cases hn.symm.trans hq
    have hreg : ¬ Regresses (laneItems gaps book trades p.lane) n k := fun hreg => by
      obtain ⟨prev, herr⟩ := hbad hreg
      cases hitem.symm.trans herr
    cases hitem.symm.trans (hok hreg)
    exact ⟨k, p.lane, n, ⟨p, hp, EventIter.Pulled.event?_eq_some.2 ⟨hkey, hitem⟩⟩, hlane, hreg⟩

end Positions

/-! ## A stream without errors -/

/-- What every event of a fresh iterator satisfies: it is not synthetic, and its quantities come
from signed 64-bit columns. -/
def Stored : ReplayEvent → Prop
  | .snapshot _ _ yes no synthetic =>
    synthetic = false ∧ ∀ l ∈ yes ++ no, l.qty.centi.toNat < 2 ^ 63
  | _ => True

theorem toNat_toUInt64_lt {q : Int64} (h : 0 ≤ q) : q.toUInt64.toNat < 2 ^ 63 := by
  have hq : 0 ≤ q.toInt := by simpa using Int64.le_iff_toInt_le.1 h
  have hbits : q.toInt = q.toUInt64.toBitVec.toInt := rfl
  have hlt := q.toUInt64.toNat_lt
  rw [hbits, BitVec.toInt_eq_toNat_cond] at hq
  simp only [UInt64.toNat_toBitVec] at hq
  split_ifs at hq <;> omega

theorem pushLevel_stored {acc sides : Sides} {r : BookEventRow} {i : ℕ}
    (hacc : ∀ l ∈ acc.1 ++ acc.2, l.qty.centi.toNat < 2 ^ 63)
    (h : pushLevel acc r i = .ok sides) : ∀ l ∈ sides.1 ++ sides.2, l.qty.centi.toNat < 2 ^ 63 := by
  unfold pushLevel at h
  split at h
  · rename_i side price qty _ _ _
    split_ifs at h with hq
    have hlt := toNat_toUInt64_lt hq
    cases side <;> cases h <;> intro l hl
    · rcases List.mem_append.1 hl with hl | hl
      · rcases List.mem_append.1 hl with hl | hl
        · exact hacc l (List.mem_append_left _ hl)
        · rw [List.mem_singleton.1 hl]
          exact hlt
      · exact hacc l (List.mem_append_right _ hl)
    · rcases List.mem_append.1 hl with hl | hl
      · exact hacc l (List.mem_append_left _ hl)
      · rcases List.mem_append.1 hl with hl | hl
        · exact hacc l (List.mem_append_right _ hl)
        · rw [List.mem_singleton.1 hl]
          exact hlt
  · cases h
    exact hacc

theorem laneItems_stored {gaps : RowSource GapRow} {book : RowSource BookEventRow}
    {trades : List TradeRow} {l : LaneId} {x : MergeKey × ReplayEvent}
    (hx : x ∈ eventsOf (laneItems gaps book trades l)) : Stored x.2 := by
  cases l with
  | gap =>
    have hgap (src : RowSource GapRow) (n : ℕ) : ∀ x ∈ eventsOf (gapItems n src), Stored x.2 := by
      induction src generalizing n with
      | nil => simp [gapItems]
      | cons y src ih =>
        cases y with
        | error e => exact ih n
        | ok r => exact List.forall_mem_cons.2 ⟨trivial, ih (n + 1)⟩
    exact hgap gaps 0 x hx
  | book =>
    refine bookTurns_event
      (Q := fun g => ∀ l ∈ g.sides.1 ++ g.sides.2, l.qty.centi.toNat < 2 ^ 63)
      (P := fun x => Stored x.2) (fun r i sides h => pushLevel_stored (by simp) h)
      (fun g r i sides hg h => pushLevel_stored hg h) (fun r i ev hd => ?_)
      (fun g hg => ⟨rfl, hg⟩) book none 0 (by simp) x hx
    unfold deltaEvent at hd
    split at hd
    · cases hd
      trivial
    · cases hd
  | trade =>
    obtain ⟨t, -, ht⟩ := List.mem_map.1 (mem_eventsOf.1 hx)
    cases ht
    trivial

section Clean

variable {gaps : RowSource GapRow} {book : RowSource BookEventRow} {trades : List TradeRow}

/-- An event that is handed out is an event of some lane, and was taken under its key. -/
theorem mem_stream_ok {p : EventIter.Pulled} {ev : ReplayEvent}
    (hp : p ∈ (EventIter.ofRows gaps book trades).stream) (hev : p.item = .ok ev) :
    ∃ k l, p.event? = some (k, ev) ∧ (k, ev) ∈ eventsOf (laneItems gaps book trades l) := by
  obtain ⟨out, hrun, hstream⟩ := ofRows_run gaps book trades
  rw [hstream] at hp
  obtain ⟨⟨l, v, last⟩, hx, rfl⟩ := List.mem_map.1 hp
  rcases v with e | ⟨k, a⟩ | ⟨k, a⟩
  · cases hev
  · cases hev
    have hem : (k, ev) ∈ emissions out := List.mem_filterMap.2 ⟨_, hx, rfl⟩
    obtain ⟨j, -, hj⟩ := List.mem_flatMap.1 ((hrun.emissions_perm lanes_nodup mem_lanes).mem_iff.1 hem)
    exact ⟨k, j, rfl, (emitted_laneVerdicts_sublist ⊥ _).subset hj⟩
  · cases hev

/-- The events of a stream without errors, under their keys. -/
theorem keyed_snd {evs : List ReplayEvent}
    (h : (EventIter.ofRows gaps book trades).items = evs.map .ok) :
    (EventIter.ofRows gaps book trades).keyed.map (·.2) = evs := by
  have hsnd : (EventIter.ofRows gaps book trades).keyed.map
      (fun x => Except.ok (ε := LoadError) x.2) = evs.map .ok := by
    rw [← h, EventIter.keyed, List.map_filterMap, EventIter.items, ← List.filterMap_eq_map]
    refine List.filterMap_congr fun p hp => ?_
    have hitem : p.item ∈ evs.map .ok := h ▸ List.mem_map_of_mem hp
    obtain ⟨ev, -, hev⟩ := List.mem_map.1 hitem
    obtain ⟨k, l, hk, -⟩ := mem_stream_ok hp hev.symm
    rw [hk, Function.comp, ← hev]
    rfl
  have hinj : Function.Injective (Except.ok (ε := LoadError) (α := ReplayEvent)) :=
    fun a b h => Except.ok.inj h
  apply List.map_injective_iff.2 hinj
  rw [List.map_map]
  exact hsnd

/-- A keyed event is an event of some lane. -/
theorem mem_lane_of_mem_keyed {x : MergeKey × ReplayEvent}
    (hx : x ∈ (EventIter.ofRows gaps book trades).keyed) :
    ∃ l, x ∈ eventsOf (laneItems gaps book trades l) := by
  rcases x with ⟨k, ev⟩
  obtain ⟨p, hp, hpx⟩ := List.mem_filterMap.1 hx
  obtain ⟨k', l, hk, hl⟩ := mem_stream_ok hp (EventIter.Pulled.event?_eq_some.1 hpx).2
  cases hk.symm.trans hpx
  exact ⟨l, hl⟩

/-- The events of a stream without errors are in time order and come from the stored tables. -/
theorem items_ok_spec {evs : List ReplayEvent}
    (h : (EventIter.ofRows gaps book trades).items = evs.map .ok) :
    evs.Pairwise (fun a b => a.ts ≤ b.ts) ∧ ∀ ev ∈ evs, Stored ev := by
  rw [← keyed_snd h]
  refine ⟨List.pairwise_map.2 ?_, fun ev hev => ?_⟩
  · refine (stream_strict gaps book trades).imp_of_mem fun {x y} hx hy hlt => ?_
    obtain ⟨l, hl⟩ := mem_lane_of_mem_keyed hx
    obtain ⟨l', hl'⟩ := mem_lane_of_mem_keyed hy
    rw [(laneItems_key hl).2, (laneItems_key hl').2]
    exact MergeKey.effectiveTs_le hlt.le
  · obtain ⟨x, hx, rfl⟩ := List.mem_map.1 hev
    obtain ⟨l, hl⟩ := mem_lane_of_mem_keyed hx
    exact laneItems_stored hl

end Clean

/-- A run that emits everything hands out its emissions. -/
theorem map_toPulled_of_emitted
    {out : List (LaneId × Verdict LoadError MergeKey ReplayEvent × WithBot MergeKey)}
    (h : ∀ x ∈ out, ∃ k ev, x.2.1 = .emitted k ev) :
    (out.map EventIter.toPulled).map (fun p => (p.key, p.item)) =
      (emissions out).map fun x => (some x.1, .ok x.2) := by
  induction out with
  | nil => rfl
  | cons x out ih =>
    obtain ⟨k, ev, hx⟩ := h x List.mem_cons_self
    have ih := ih fun y hy => h y (List.mem_cons_of_mem _ hy)
    rcases x with ⟨l, v, last⟩
    obtain rfl : v = .emitted k ev := hx
    rw [List.map_cons, List.map_cons, ih]
    rfl

/-- Lanes without errors and in key order are merged whole. -/
theorem stream_of_sorted {gaps : List GapRow} {book : List BookEventRow} {trades : List TradeRow}
    (hbook : ∀ r ∈ book, r.wellFormed)
    (hgap : (laneEvents gaps book trades .gap).Pairwise fun x y => x.1 ≤ y.1)
    (hbk : (laneEvents gaps book trades .book).Pairwise fun x y => x.1 ≤ y.1) :
    ∃ events : List (MergeKey × ReplayEvent),
      (EventIter.ofRows (gaps.map .ok) (book.map .ok) trades).stream.map
        (fun p => (p.key, p.item)) = events.map (fun x => (some x.1, .ok x.2)) ∧
      events.Perm (laneEvents gaps book trades .gap ++ laneEvents gaps book trades .book ++
        laneEvents gaps book trades .trade) ∧
      events.Pairwise (fun x y => x.1 < y.1) ∧ events.Pairwise fun x y => x.2.ts ≤ y.2.ts := by
  obtain ⟨out, hrun, hstream⟩ := ofRows_run (gaps.map .ok) (book.map .ok) trades
  have hitems := laneItems_of_wellFormed gaps trades hbook
  have hstrict : (emissions out).Pairwise fun x y => x.1 < y.1 :=
    hrun.emissions_strict lanes_nodup mem_lanes keys_distinct
  have hsorted (l : LaneId) : (laneEvents gaps book trades l).Pairwise fun x y => x.1 ≤ y.1 := by
    cases l with
    | gap => exact hgap
    | book => exact hbk
    | trade => exact List.pairwise_map.2 ((tradeLaneRows_sorted trades).imp fun h => h.le)
  have hemit (l : LaneId) : laneVerdicts ⊥ (laneItems (gaps.map .ok) (book.map .ok) trades l) =
      (laneEvents gaps book trades l).map fun x => .emitted x.1 x.2 := by
    rw [hitems]
    exact laneVerdicts_of_sorted ⊥ _ (fun _ _ => bot_le) (hsorted l)
  have hperm : (emissions out).Perm (EventIter.lanes.flatMap (laneEvents gaps book trades)) := by
    have h := hrun.emissions_perm lanes_nodup mem_lanes
    simp only [hemit, List.filterMap_map] at h
    refine h.trans (List.Perm.of_eq ?_)
    congr 1
    funext l
    exact List.filterMap_some
  refine ⟨emissions out, ?_, ?_, hstrict, hstrict.imp_of_mem fun {x y} hx hy hlt => ?_⟩
  · rw [hstream]
    refine map_toPulled_of_emitted fun x hx => ?_
    have hmem : x.2.1 ∈ verdictsOf x.1 out :=
      List.mem_map_of_mem (List.mem_filter.2 ⟨hx, by simp⟩)
    rw [hrun.lane_verdicts, hemit] at hmem
    obtain ⟨y, -, hy⟩ := List.mem_map.1 hmem
    exact ⟨y.1, y.2, hy.symm⟩
  · refine hperm.trans (List.Perm.of_eq ?_)
    simp [EventIter.lanes]
  · have hts {x : MergeKey × ReplayEvent} (hx : x ∈ emissions out) : x.2.ts = x.1.effectiveTs := by
      obtain ⟨l, -, hl⟩ := List.mem_flatMap.1 (hperm.mem_iff.1 hx)
      rw [← eventsOf_ok (laneEvents gaps book trades l), ← hitems] at hl
      exact (laneItems_key hl).2
    rw [hts hx, hts hy]
    exact MergeKey.effectiveTs_le hlt.le

/-- The merged stream is the sorted union of its lanes.  Every item of a lane is reported once, an
event as an order violation exactly when it regresses within its own lane; the events handed out are
in strict key order; and lanes in key order are handed out whole. -/
theorem merged_stream_is_sorted_union (gaps : RowSource GapRow) (book : RowSource BookEventRow)
    (trades : List TradeRow) :
    ∃ it, EventIter.fromSources gaps book (trades.map .ok) = .ok it ∧
      (∀ l, Reported (laneItems gaps book trades l) (it.stream.filter (·.lane = l))) ∧
      (it.stream.filterMap EventIter.Pulled.event?).Pairwise (fun x y => x.1 < y.1) ∧
      ∀ (gapRows : List GapRow) (bookRows : List BookEventRow), gaps = gapRows.map .ok →
        book = bookRows.map .ok → (∀ r ∈ bookRows, r.wellFormed) →
        (laneEvents gapRows bookRows trades .gap).Pairwise (fun x y => x.1 ≤ y.1) →
        (laneEvents gapRows bookRows trades .book).Pairwise (fun x y => x.1 ≤ y.1) →
        ∃ events : List (MergeKey × ReplayEvent),
          it.stream.map (fun p => (p.key, p.item)) = events.map (fun x => (some x.1, .ok x.2)) ∧
          events.Perm (laneEvents gapRows bookRows trades .gap ++
            laneEvents gapRows bookRows trades .book ++
            laneEvents gapRows bookRows trades .trade) ∧
          events.Pairwise (fun x y => x.1 < y.1) ∧
          events.Pairwise fun x y => x.2.ts ≤ y.2.ts := by
  refine ⟨_, fromSources_ok gaps book trades, stream_reported gaps book trades,
    stream_strict gaps book trades, ?_⟩
  rintro gapRows bookRows rfl rfl hw hgap hbk
  exact stream_of_sorted hw hgap hbk

def mergedGaps : List GapRow := [⟨1000, none, "reconnect", ""⟩, ⟨4000, some 3, "seq", ""⟩]

/-- A snapshot of two rows and a delta. -/
def mergedBook : List BookEventRow :=
  [⟨0, 2000, some 1, true, some .yes, some 400000, some 100⟩,
    ⟨0, 2000, some 1, true, some .no, some 500000, some 200⟩,
    ⟨1, 5000, some 4, false, some .yes, some 400000, some (-100)⟩]

/-- Two trades, the later one first and twice. -/
def mergedTrades : List TradeRow :=
  [⟨6000, 6000, none, 400000, 100, .yes, none, some "b"⟩,
    ⟨3000, 3000, some 2, 400000, 100, .yes, none, some "a"⟩,
    ⟨3500, 3000, none, 400000, 100, .yes, none, some "a"⟩]

theorem merged_stream_is_sorted_union_lanes :
    ∃ it, EventIter.fromSources (mergedGaps.map .ok) (mergedBook.map .ok) (mergedTrades.map .ok) =
        .ok it ∧
      ∃ events : List (MergeKey × ReplayEvent),
        it.stream.map (fun p => (p.key, p.item)) = events.map (fun x => (some x.1, .ok x.2)) ∧
        events.length = 6 ∧ events.Pairwise (fun x y => x.1 < y.1) := by
  have hgap : (laneEvents mergedGaps mergedBook mergedTrades .gap).Pairwise
      fun x y => x.1 ≤ y.1 := by decide
  have hbook : (laneEvents mergedGaps mergedBook mergedTrades .book).Pairwise
      fun x y => x.1 ≤ y.1 := by decide
  obtain ⟨it, hit, -, -, hwhole⟩ :=
    merged_stream_is_sorted_union (mergedGaps.map .ok) (mergedBook.map .ok) mergedTrades
  obtain ⟨events, hstream, hperm, hkeys, -⟩ :=
    hwhole mergedGaps mergedBook rfl rfl (by decide) hgap hbook
  exact ⟨it, hit, events, hstream, hperm.length_eq.trans (by decide), hkeys⟩

end Snapevent
