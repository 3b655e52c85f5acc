import Snapevent.EndToEnd.MergedTicker

/-!
# Hole time and replay

Coverage closes a hole at the first snapshot at or after the gap; the replayer clears its pending
gaps at the next snapshot of the merged stream.  The two differ in the instant of the gap itself,
where the merge also compares sequence numbers.
-/

namespace Snapevent

/-! ## Pending time -/

/-- The time from `a` to `b` inside the extent. -/
def heldWithin (ss se a b : ℤ) : ℤ := max 0 (min b se - max ss a)

/-- The time inside the extent during which a replay has pending gaps: each state holds until the
timestamp of the next event, the last one to the end. -/
def pendingTime (ss se : ℤ) : BookReplayer → List ReplayEvent → ℤ
  | _, [] => 0
  | r, ev :: rest =>
    (if (r.apply ev).pendingGaps = [] then 0
      else heldWithin ss se ev.ts ((rest.head?.map ReplayEvent.ts).getD se)) +
      pendingTime ss se (r.apply ev) rest

/-- The ticks at which the events so far leave gaps pending. -/
noncomputable def pendingTicks (ss se : ℤ) (r : BookReplayer) (evs : List ReplayEvent) : Finset ℤ :=
  (Finset.Ico ss se).filter fun t => (r.run (evs.filter (·.ts ≤ t))).pendingGaps ≠ []

theorem mem_pendingTicks {ss se : ℤ} {r : BookReplayer} {evs : List ReplayEvent} {t : ℤ} :
    t ∈ pendingTicks ss se r evs ↔
      (ss ≤ t ∧ t < se) ∧ (r.run (evs.filter (·.ts ≤ t))).pendingGaps ≠ [] := by
  simp [pendingTicks]

/-- The ticks at which the state after one event holds. -/
noncomputable def stateTicks (a b : ℤ) (r : BookReplayer) : Finset ℤ :=
  if r.pendingGaps = [] then ∅ else Finset.Ico a b

theorem mem_stateTicks {a b : ℤ} {r : BookReplayer} {t : ℤ} :
    t ∈ stateTicks a b r ↔ (a ≤ t ∧ t < b) ∧ r.pendingGaps ≠ [] := by
  unfold stateTicks
  split_ifs with hr
  · simp [hr]
  · simp [hr]

theorem card_stateTicks (ss se a b : ℤ) (r : BookReplayer) :
    ((stateTicks (max ss a) (min b se) r).card : ℤ) =
      if r.pendingGaps = [] then 0 else heldWithin ss se a b := by
  unfold stateTicks heldWithin
  split_ifs
  · rfl
  · rw [Int.card_Ico]
    omega

/-- No event has come before the first one. -/
theorem filter_ts_eq_nil {ev : ReplayEvent} {rest : List ReplayEvent}
    (hs : (ev :: rest).Pairwise fun a b => a.ts ≤ b.ts) {t : ℤ} (ht : t < ev.ts) :
    (ev :: rest).filter (·.ts ≤ t) = [] := by
  refine List.filter_eq_nil_iff.2 fun e he => ?_
  rw [decide_eq_true_eq, not_le]
  cases List.mem_cons.1 he with
  | inl heq => rwa [heq]
  | inr he => exact lt_of_lt_of_le ht ((List.pairwise_cons.1 hs).1 e he)

/-- From the first event on, the pending ticks are those of its state and then those of the rest. -/
theorem pendingTicks_cons {ss se : ℤ} {r : BookReplayer} {ev next : ReplayEvent}
    {rest : List ReplayEvent} (hs : (ev :: next :: rest).Pairwise fun a b => a.ts ≤ b.ts) :
    pendingTicks (max ss ev.ts) se r (ev :: next :: rest) =
      stateTicks (max ss ev.ts) (min next.ts se) (r.apply ev) ∪
        pendingTicks (max ss next.ts) se (r.apply ev) (next :: rest) := by
  obtain ⟨hev, hnext⟩ := List.pairwise_cons.1 hs
  have hle : ev.ts ≤ next.ts := hev next List.mem_cons_self
  ext t
  rw [Finset.mem_union, mem_pendingTicks, mem_pendingTicks, mem_stateTicks]
  by_cases hevt : ev.ts ≤ t
  · rw [List.filter_cons_of_pos (by simpa using hevt), BookReplayer.run_cons]
    by_cases hnt : next.ts ≤ t
    · rw [max_le_iff, max_le_iff, lt_min_iff]
      constructor
      · rintro ⟨⟨⟨hss, -⟩, hse⟩, hpending⟩
        exact Or.inr ⟨⟨⟨hss, hnt⟩, hse⟩, hpending⟩
      · rintro (⟨⟨-, hlt, -⟩, -⟩ | ⟨⟨⟨hss, -⟩, hse⟩, hpending⟩)
        · omega
        · exact ⟨⟨⟨hss, hevt⟩, hse⟩, hpending⟩
    · rw [filter_ts_eq_nil hnext (not_le.1 hnt), BookReplayer.run_nil, max_le_iff, max_le_iff,
        lt_min_iff]
      constructor
      · rintro ⟨⟨hss, hse⟩, hpending⟩
        exact Or.inl ⟨⟨hss, by omega, hse⟩, hpending⟩
      · rintro (⟨⟨hss, -, hse⟩, hpending⟩ | ⟨⟨⟨-, hge⟩, -⟩, -⟩)
        · exact ⟨⟨hss, hse⟩, hpending⟩
        · exact absurd hge hnt
  · refine iff_of_false ?_ ?_
    · rintro ⟨⟨hmax, -⟩, -⟩
      exact hevt (le_of_max_le_right hmax)
    · rintro (⟨⟨hmax, -⟩, -⟩ | ⟨⟨hmax, -⟩, -⟩)
      · exact hevt (le_of_max_le_right hmax)
      · exact hevt (hle.trans (le_of_max_le_right hmax))

theorem pendingTime_cons {ss se : ℤ} (r : BookReplayer) {ev : ReplayEvent} {rest : List ReplayEvent}
    (hs : (ev :: rest).Pairwise fun a b => a.ts ≤ b.ts) :
    pendingTime ss se r (ev :: rest) = (pendingTicks (max ss ev.ts) se r (ev :: rest)).card := by
  induction rest generalizing r ev with
  | nil =>
    have hticks : pendingTicks (max ss ev.ts) se r [ev] =
        stateTicks (max ss ev.ts) (min se se) (r.apply ev) := by
      ext t
      rw [mem_pendingTicks, mem_stateTicks, min_self]
      refine and_congr_right fun ht => ?_
      have hev : ev.ts ≤ t := le_of_max_le_right ht.1
      simp [hev]
    rw [hticks, card_stateTicks]
    simp [pendingTime]
  | cons next rest ih =>
    have hdisj : Disjoint (stateTicks (max ss ev.ts) (min next.ts se) (r.apply ev))
        (pendingTicks (max ss next.ts) se (r.apply ev) (next :: rest)) := by
      rw [Finset.disjoint_left]
      intro t ht ht'
      have hlt := lt_of_lt_of_le (mem_stateTicks.1 ht).1.2 (min_le_left _ _)
      have hge := le_of_max_le_right (mem_pendingTicks.1 ht').1.1
      omega
    rw [pendingTicks_cons hs, Finset.card_union_of_disjoint hdisj, Nat.cast_add, card_stateTicks,
      ← ih _ (List.pairwise_cons.1 hs).2]
    rfl

theorem pendingTime_eq {ss se : ℤ} {evs : List ReplayEvent}
    (hs : evs.Pairwise fun a b => a.ts ≤ b.ts) :
    pendingTime ss se .default evs = (pendingTicks ss se .default evs).card := by
  cases evs with
  | nil => simp [pendingTime, pendingTicks, BookReplayer.default]
  | cons ev rest =>
    rw [pendingTime_cons _ hs]
    congr 2
    ext t
    rw [mem_pendingTicks, mem_pendingTicks]
    refine and_congr_left fun hpending => ?_
    have hev : ev.ts ≤ t := by
      by_contra hlt
      apply hpending
      rw [filter_ts_eq_nil hs (not_le.1 hlt)]
      rfl
    rw [max_le_iff]
    simp [hev]

/-! ## A processed ticker -/

/-- Every gap that shares its instant, before the end of the span, with a snapshot shares it with
one that is not before it in sequence order, no number counting as the last. -/
def InstantsReanchored (gaps : List (Envelope × GapMarker)) (snaps : List Envelope) (se : ℤ) : Prop :=
  ∀ g ∈ gaps, g.1.recvUs < se → (∃ s ∈ snaps, s.recvUs = g.1.recvUs) →
    ∃ s ∈ snaps, s.recvUs = g.1.recvUs ∧ seqOrder g.1.seq ≤ seqOrder s.seq

/-- The gap records of a ticker and the gaps synthesized for its verify mismatches. -/
def gapRecords (ticker : String) (orderbookFiles tradeFiles : List CaptureFile)
    (verify : List VerifyOutcomeRow) : List (Envelope × GapMarker) :=
  streamGaps orderbookFiles tradeFiles ++ verify.filterMap (mismatchGapRow ticker)

section Processed

variable {ticker : String} {orderbookFiles tradeFiles : List CaptureFile} {out : TickerOutput}
  (hout : processTicker ticker orderbookFiles tradeFiles = .ok (some out))
include hout

theorem mem_gaps_iff {row : GapsRow} : row ∈ out.gaps ↔
    ∃ g ∈ gapRecords ticker orderbookFiles tradeFiles out.verify, row = GapsTable.row g.1 g.2 := by
  rw [(accounts_of_processTicker hout).gaps, gapsTable_eq, List.mem_map]
  simp only [sortGapRows, List.mem_insertionSort, gapRecords, eq_comm]

/-- At a tick, the replay has gaps pending when some gap so far is after every snapshot so far. -/
theorem mem_pendingTicks_iff {it : EventIter} {evs : List ReplayEvent} (h : Accepted out it evs)
    {ss se t : ℤ} : t ∈ pendingTicks ss se .default evs ↔ (ss ≤ t ∧ t < se) ∧
      ∃ g ∈ gapRecords ticker orderbookFiles tradeFiles out.verify, g.1.recvUs ≤ t ∧
        ∀ s ∈ snapshotRecords (readItems orderbookFiles ++ readItems tradeFiles), s.recvUs ≤ t →
          lineOrder s < lineOrder g.1 := by
  rw [mem_pendingTicks]
  refine and_congr_right fun _ => ?_
  have hkeyed : evs.filter (·.ts ≤ t) = (it.keyed.filter fun x => x.2.ts ≤ t).map (·.2) := by
    rw [← h.keyed_snd, List.filter_map]
    rfl
  rw [hkeyed, pendingGaps_ne_nil_iff (h.strict.filter _)]
  constructor
  · rintro ⟨x, hx, hgap, hclear⟩
    obtain ⟨hmem, hxt⟩ := List.mem_filter.1 hx
    obtain ⟨i, row, hrow, rfl⟩ := (Accepted.gap_iff hout h).1 ⟨hmem, hgap⟩
    obtain ⟨g, hg, rfl⟩ := (mem_gaps_iff hout).1 (List.mem_of_getElem? hrow)
    refine ⟨g, hg, of_decide_eq_true hxt, fun s hs hst => ?_⟩
    obtain ⟨y, hy, hsnap, n, m, hkey⟩ := Accepted.exists_snapshot hout h hs
    by_contra hlt
    have hafter : (mergedGap (GapsTable.row g.1 g.2) i).1 < y.1 := by
      rw [hkey]
      exact (mergedGap_lt_recordKey_iff _ i s n m).2 (not_lt.1 hlt)
    have hyt : y.2.ts ≤ t := by
      rw [h.ts_eq hy, hkey]
      exact hst
    have hnot := hclear y (List.mem_filter.2 ⟨hy, decide_eq_true hyt⟩) hafter
    rw [hsnap] at hnot
    cases hnot
  · rintro ⟨g, hg, hgt, hbefore⟩
    obtain ⟨i, hrow⟩ := List.mem_iff_getElem?.1 ((mem_gaps_iff hout).2 ⟨g, hg, rfl⟩)
    obtain ⟨hmem, hgap⟩ := (Accepted.gap_iff hout h).2 ⟨i, _, hrow, rfl⟩
    refine ⟨_, List.mem_filter.2 ⟨hmem, decide_eq_true hgt⟩, hgap, fun y hy hlt => ?_⟩
    obtain ⟨hymem, hyt⟩ := List.mem_filter.1 hy
    by_contra hsnap
    obtain ⟨s, hs, n, m, hkey⟩ :=
      Accepted.exists_record hout h hymem (by simpa using hsnap)
    have hst : s.recvUs ≤ t := by
      have hyts := of_decide_eq_true hyt
      rw [h.ts_eq hymem, hkey] at hyts
      exact hyts
    rw [hkey, mergedGap_lt_recordKey_iff] at hlt
    exact absurd (hbefore s hs hst) (not_lt.2 hlt)

theorem mem_holeTicks_iff {ss se t : ℤ} :
    t ∈ holeTicks (out.gaps.map (·.recvTsUs)) (snapshotTimes out.bookEvents) ss se ↔
      (ss ≤ t ∧ t < se) ∧ ∃ g ∈ gapRecords ticker orderbookFiles tradeFiles out.verify,
        g.1.recvUs ≤ t ∧ ∀ s ∈ snapshotRecords (readItems orderbookFiles ++ readItems tradeFiles),
          g.1.recvUs ≤ s.recvUs → t < s.recvUs := by
  rw [mem_holeTicks]
  refine and_congr_right fun _ => ?_
  constructor
  · rintro ⟨u, hu, hgt, hopen⟩
    obtain ⟨row, hrow, rfl⟩ := List.mem_map.1 hu
    obtain ⟨g, hg, rfl⟩ := (mem_gaps_iff hout).1 hrow
    exact ⟨g, hg, hgt, fun s hs hge => hopen _ ((mem_snapshotTimes hout).2 ⟨s, hs, rfl⟩) hge⟩
  · rintro ⟨g, hg, hgt, hopen⟩
    refine ⟨_, List.mem_map_of_mem ((mem_gaps_iff hout).2 ⟨g, hg, rfl⟩), hgt, fun u hu hge => ?_⟩
    obtain ⟨s, hs, rfl⟩ := (mem_snapshotTimes hout).1 hu
    exact hopen s hs hge

omit hout in
theorem lineOrder_lt_iff {a b : Envelope} : lineOrder a < lineOrder b ↔
    a.recvUs < b.recvUs ∨ a.recvUs = b.recvUs ∧ seqOrder a.seq < seqOrder b.seq := by
  rw [lineOrder, lineOrder, Prod.Lex.toLex_lt_toLex]
  rfl

theorem holeTicks_subset {it : EventIter} {evs : List ReplayEvent} (h : Accepted out it evs)
    (ss se : ℤ) : holeTicks (out.gaps.map (·.recvTsUs)) (snapshotTimes out.bookEvents) ss se ⊆
      pendingTicks ss se .default evs := by
  intro t ht
  obtain ⟨hspan, g, hg, hgt, hopen⟩ := (mem_holeTicks_iff hout).1 ht
  refine (mem_pendingTicks_iff hout h).2 ⟨hspan, g, hg, hgt, fun s hs hst => ?_⟩
  refine lineOrder_lt_iff.2 (Or.inl ?_)
  by_contra hge
  have hlt := hopen s hs (not_lt.1 hge)
  omega

/-- The two see the same ticks exactly when shared instants are re-anchored. -/
theorem holeTicks_eq_iff {it : EventIter} {evs : List ReplayEvent} (h : Accepted out it evs)
    {ss se : ℤ} (hss : ∀ s ∈ snapshotRecords (readItems orderbookFiles ++ readItems tradeFiles),
      ss ≤ s.recvUs) :
    holeTicks (out.gaps.map (·.recvTsUs)) (snapshotTimes out.bookEvents) ss se =
        pendingTicks ss se .default evs ↔
      InstantsReanchored (gapRecords ticker orderbookFiles tradeFiles out.verify)
        (snapshotRecords (readItems orderbookFiles ++ readItems tradeFiles)) se := by
  constructor
  · rintro heq g hg hgse ⟨s₀, hs₀, hshared⟩
    by_contra hnone
    simp only [not_exists, not_and, not_le] at hnone
    -- the instant of the gap is pending in the replay, for no snapshot there comes after it
    have hpending : g.1.recvUs ∈ pendingTicks ss se .default evs := by
      refine (mem_pendingTicks_iff hout h).2 ⟨⟨hshared ▸ hss s₀ hs₀, hgse⟩, g, hg, le_rfl, ?_⟩
      intro s hs hst
      rcases hst.lt_or_eq with hlt | hsame
      · exact lineOrder_lt_iff.2 (Or.inl hlt)
      · exact lineOrder_lt_iff.2 (Or.inr ⟨hsame, hnone s hs hsame⟩)
    rw [← heq, mem_holeTicks_iff hout] at hpending
    obtain ⟨-, g', -, hle, hopen⟩ := hpending
    have hlt := hopen s₀ hs₀ (by omega)
    omega
  · intro hanchored
    refine (holeTicks_subset hout h ss se).antisymm fun t ht => ?_
    obtain ⟨hspan, g, hg, hgt, hbefore⟩ := (mem_pendingTicks_iff hout h).1 ht
    refine (mem_holeTicks_iff hout).2 ⟨hspan, g, hg, hgt, fun s hs hge => ?_⟩
    by_contra hst
    have hlt := hbefore s hs (not_lt.1 hst)
    rcases lineOrder_lt_iff.1 hlt with hlt | ⟨hsame, -⟩
    · omega
    · obtain ⟨s', hs', hsame', hle⟩ := hanchored g hg (by omega) ⟨s, hs, hsame⟩
      rcases lineOrder_lt_iff.1 (hbefore s' hs' (by omega)) with hlt' | ⟨-, hlt'⟩
      · omega
      · exact absurd hle (not_le.2 hlt')

end Processed

/-- The hole time of a processed ticker is the time its replay has gaps pending exactly when every
gap that shares its instant with a snapshot is re-anchored there. -/
theorem hole_eq_pendingTime_iff {ticker : String} {orderbookFiles tradeFiles : List CaptureFile}
    {out : TickerOutput} (hout : processTicker ticker orderbookFiles tradeFiles = .ok (some out))
    {it : EventIter} {evs : List ReplayEvent} (h : Accepted out it evs) {ss se : ℤ}
    (hextent : extentOf (out.bookEvents.map (·.recvTsUs)) = (some ss, some se)) :
    out.holeUs = some (pendingTime ss se .default evs) ↔
      InstantsReanchored (gapRecords ticker orderbookFiles tradeFiles out.verify)
        (snapshotRecords (readItems orderbookFiles ++ readItems tradeFiles)) se := by
  have hsorted : evs.Pairwise fun a b => a.ts ≤ b.ts := by
    obtain ⟨rows, -, hclean⟩ := h.eq_ofRows
    exact (items_ok_spec hclean).1
  have hss : ∀ s ∈ snapshotRecords (readItems orderbookFiles ++ readItems tradeFiles),
      ss ≤ s.recvUs := by
    intro s hs
    have hmem := (mem_snapshotTimes hout).2 ⟨s, hs, rfl⟩
    obtain ⟨row, hrow, hrowTs⟩ := List.mem_map.1 hmem
    rw [← hrowTs]
    exact (List.min?_eq_some_iff.1 (congrArg Prod.fst hextent)).2 _
      (List.mem_map_of_mem (List.mem_of_mem_filter hrow))
  rw [(figures_of_processTicker hout hextent).2, pendingTime_eq hsorted, Option.some_inj,
    Nat.cast_inj, ← holeTicks_eq_iff hout h hss]
  constructor
  · intro hcard
    exact Finset.eq_of_subset_of_card_le (holeTicks_subset hout h ss se) hcard.ge
  · intro heq
    rw [heq]

/-- Ten microseconds into the epoch. -/
def tenMicros : Timestamp := ⟨10000, by decide⟩

/-- A capture of market `A`: a snapshot, a reconnect at `gapAt` and a delta ten microseconds after
the snapshot. -/
def reconnectAt (gapAt : Timestamp) : CaptureFile :=
  { path := "orderbook/2026-07-03.jsonl"
    lines := [
      .text "snapshot" (.ok (.new epoch (some 1) (some 1) (.snapshot
        { ticker := ⟨"A"⟩, ts := epoch, yes := [⟨⟨500000⟩, ⟨100⟩⟩], no := [] }))),
      .text "gap" (.ok (.new gapAt none none (.gap
        { reason := .reconnect, ticker := ⟨"A"⟩, channel := "orderbook", lastSeq := none
          observedSeq := none, detail := "" }))),
      .text "delta" (.ok (.new tenMicros (some 2) (some 1) (.delta
        { ticker := ⟨"A"⟩, ts := tenMicros, price := ⟨500000⟩, side := .yes
          delta := ⟨100⟩ })))] }

/-- The events of such a capture, the gap at microsecond `us`. -/
def reconnectEvents (us : ℤ) : List ReplayEvent :=
  [.snapshot 0 0 [⟨⟨500000⟩, ⟨100⟩⟩] [] false, .gap us "reconnect" "",
    .delta 10 1 .yes ⟨500000⟩ ⟨100⟩]

theorem hole_eq_pendingTime_iff_sample : ∃ out it,
    processTicker "A" [reconnectAt ⟨5000, by decide⟩] [] = .ok (some out) ∧
      Accepted out it (reconnectEvents 5) ∧ out.holeUs = some 5 ∧
      InstantsReanchored
        (gapRecords "A" [reconnectAt ⟨5000, by decide⟩] [] out.verify)
        (snapshotRecords (readItems [reconnectAt ⟨5000, by decide⟩] ++ readItems [])) 10 := by
  obtain ⟨out, it, hout, hacc, hextent, hhole, hpending⟩ : ∃ out it,
      processTicker "A" [reconnectAt ⟨5000, by decide⟩] [] = .ok (some out) ∧
        Accepted out it (reconnectEvents 5) ∧
        extentOf (out.bookEvents.map (·.recvTsUs)) = (some 0, some 10) ∧ out.holeUs = some 5 ∧
        pendingTime 0 10 .default (reconnectEvents 5) = 5 :=
    ⟨_, _, rfl, ⟨rfl, rfl⟩, rfl, by decide, by decide⟩
  refine ⟨out, it, hout, hacc, hhole, (hole_eq_pendingTime_iff hout hacc hextent).1 ?_⟩
  rw [hhole, hpending]

/-- A reconnect in the microsecond of a snapshot, which the merge hands out after it: coverage sees
no hole, the replay has the gap pending to the end. -/
theorem replay_pending_without_hole : ∃ out it,
    processTicker "A" [reconnectAt ⟨100, by decide⟩] [] = .ok (some out) ∧
      Accepted out it (reconnectEvents 0) ∧
      extentOf (out.bookEvents.map (·.recvTsUs)) = (some 0, some 10) ∧ out.holeUs = some 0 ∧
      pendingTime 0 10 .default (reconnectEvents 0) = 10 :=
  ⟨_, _, rfl, ⟨rfl, rfl⟩, rfl, by decide, by decide⟩

end Snapevent
