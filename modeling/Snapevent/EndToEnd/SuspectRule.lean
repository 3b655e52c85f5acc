import Snapevent.EndToEnd.HoleReplay

/-!
# Which gaps make a book suspect

The processor lets only an orderbook gap make the book suspect.  The gaps table keeps the channel of
a gap, but the loader's rows drop it, so the replayer counts a hole in the trade tape as well.  The
two rules agree exactly when every gap of the trade channel falls while an orderbook gap is open.
-/

namespace Snapevent

/-! ## Gaps and their channels -/

/-- A gap row with the channel it belongs to. -/
abbrev ChannelGap := (Envelope × GapMarker) × Channel

/-- The gap rows of a ticker with their channels: the gap records of the orderbook files, those of
the trade files, and the gaps synthesized for verify mismatches, which are orderbook gaps. -/
def channelGaps (ticker : String) (orderbookFiles tradeFiles : List CaptureFile)
    (verify : List VerifyOutcomeRow) : List ChannelGap :=
  ((readItems orderbookFiles).filterMap gapRecord).map (·, .orderbook) ++
    ((readItems tradeFiles).filterMap gapRecord).map (·, .trade) ++
    (verify.filterMap (mismatchGapRow ticker)).map (·, .orderbook)

/-- The gap rows in the order of the gaps table. -/
def filedGaps (ticker : String) (orderbookFiles tradeFiles : List CaptureFile)
    (verify : List VerifyOutcomeRow) : List ChannelGap :=
  (channelGaps ticker orderbookFiles tradeFiles verify).insertionSort
    fun a b => a.1.1.recvUs ≤ b.1.1.recvUs

/-- Every trade gap comes while an orderbook gap is open: there is an earlier row of the orderbook
channel, and no snapshot between the two. -/
def TradeGapsCovered (filed : List ChannelGap) (snaps : List Envelope) : Prop :=
  ∀ (i : ℕ) (r : Envelope × GapMarker), filed[i]? = some (r, Channel.trade) →
    ∃ j < i, ∃ b : Envelope × GapMarker, filed[j]? = some (b, Channel.orderbook) ∧
      ∀ s ∈ snaps, lineOrder b.1 ≤ lineOrder s → lineOrder r.1 ≤ lineOrder s

/-- The merged event is the gap of a row of the orderbook channel. -/
def IsOrderbookGap (filed : List ChannelGap) (x : MergeKey × ReplayEvent) : Prop :=
  x.2.isGap = true ∧ ∃ b, filed[x.1.fileRow]? = some (b, Channel.orderbook)

/-- After every event of the merged stream, the replayer has gaps pending exactly when an orderbook
gap lies after the last snapshot. -/
def SuspectByOrderbook (filed : List ChannelGap) (it : EventIter) (evs : List ReplayEvent) : Prop :=
  ∀ n, (BookReplayer.default.run (evs.take n)).pendingGaps ≠ [] ↔
    ∃ x ∈ it.keyed.take n, IsOrderbookGap filed x ∧
      ∀ y ∈ it.keyed.take n, x.1 < y.1 → y.2.isSnapshot = false

theorem filedGaps_rows (ticker : String) (orderbookFiles tradeFiles : List CaptureFile)
    (verify : List VerifyOutcomeRow) :
    (filedGaps ticker orderbookFiles tradeFiles verify).map (·.1) =
      sortGapRows (gapRecords ticker orderbookFiles tradeFiles verify) := by
  have hrows : (channelGaps ticker orderbookFiles tradeFiles verify).map (·.1) =
      gapRecords ticker orderbookFiles tradeFiles verify := by
    simp [channelGaps, gapRecords, streamGaps, List.map_append, Function.comp_def]
  rw [← hrows, sortGapRows, filedGaps]
  exact List.map_insertionSort _ _ _ _ fun _ _ _ _ => Iff.rfl

section Processed

variable {ticker : String} {orderbookFiles tradeFiles : List CaptureFile} {out : TickerOutput}
  (hout : processTicker ticker orderbookFiles tradeFiles = .ok (some out))
include hout

theorem gaps_getElem? {i : ℕ} {row : GapsRow} : out.gaps[i]? = some row ↔
    ∃ r, (filedGaps ticker orderbookFiles tradeFiles out.verify)[i]? = some r ∧
      row = GapsTable.row r.1.1 r.1.2 := by
  have hgaps : out.gaps = (filedGaps ticker orderbookFiles tradeFiles out.verify).map
      fun r => GapsTable.row r.1.1 r.1.2 := by
    rw [(accounts_of_processTicker hout).gaps, gapsTable_eq, ← gapRecords, ← filedGaps_rows,
      List.map_map]
    rfl
  rw [hgaps, List.getElem?_map, Option.map_eq_some_iff]
  simp only [eq_comm]

/-- The gaps of the merged stream, with the records they come from. -/
theorem gap_iff_filed {it : EventIter} {evs : List ReplayEvent} (h : Accepted out it evs)
    {x : MergeKey × ReplayEvent} : (x ∈ it.keyed ∧ x.2.isGap = true) ↔
      ∃ (i : ℕ) (r : ChannelGap),
        (filedGaps ticker orderbookFiles tradeFiles out.verify)[i]? = some r ∧
          x = mergedGap (GapsTable.row r.1.1 r.1.2) i := by
  rw [Accepted.gap_iff hout h]
  constructor
  · rintro ⟨i, row, hrow, rfl⟩
    obtain ⟨r, hr, rfl⟩ := (gaps_getElem? hout).1 hrow
    exact ⟨i, r, hr, rfl⟩
  · rintro ⟨i, r, hr, rfl⟩
    exact ⟨i, _, (gaps_getElem? hout).2 ⟨r, hr, rfl⟩, rfl⟩

omit hout in
theorem mergedGap_lt {it : EventIter} {evs : List ReplayEvent} (h : Accepted out it evs)
    {i j : ℕ} {row row' : GapsRow} (hi : out.gaps[i]? = some row) (hj : out.gaps[j]? = some row')
    (hij : i < j) : (mergedGap row i).1 < (mergedGap row' j).1 := by
  obtain ⟨rows, -, hclean⟩ := h.eq_ofRows
  have hlane := lane_strict hclean .gap
  rw [gapLane_eq, List.pairwise_iff_getElem] at hlane
  obtain ⟨hi, rfl⟩ := List.getElem?_eq_some_iff.1 hi
  obtain ⟨hj, rfl⟩ := List.getElem?_eq_some_iff.1 hj
  have hlt := hlane i j (by rwa [List.length_mapIdx]) (by rwa [List.length_mapIdx]) hij
  rwa [List.getElem_mapIdx, List.getElem_mapIdx] at hlt

omit hout in
theorem recordKey_lt_mergedGap_iff (row : GapsRow) (i : ℕ) (env : Envelope) (n : ℤ) (m : ℕ) :
    recordKey n env m < (mergedGap row i).1 ↔ lineOrder env < row.order := by
  simp only [MergeKey.lt_iff, mergedGap, gapKey, decodeGapRow, recordKey, lineOrder, GapsRow.order,
    Prod.Lex.toLex_lt_toLex, PRI_GAP, PRI_BOOK]
  omega

omit hout in
theorem mem_take_succ_iff {keyed : List (MergeKey × ReplayEvent)}
    (hs : keyed.Pairwise fun x y => x.1 < y.1) {p : ℕ} {x y : MergeKey × ReplayEvent}
    (hp : keyed[p]? = some x) : y ∈ keyed.take (p + 1) ↔ y ∈ keyed ∧ y.1 ≤ x.1 := by
  obtain ⟨before, after, rfl, rfl⟩ := List.split_of_getElem? hp
  obtain ⟨-, htail, hacross⟩ := List.pairwise_append.1 hs
  have htake : (before ++ x :: after).take (before.length + 1) = before ++ [x] := by
    rw [List.take_length_add_append, List.take_succ_cons, List.take_zero]
  rw [htake, List.mem_append, List.mem_append, List.mem_singleton, List.mem_cons]
  constructor
  · rintro (hy | rfl)
    · exact ⟨Or.inl hy, (hacross y hy x List.mem_cons_self).le⟩
    · exact ⟨Or.inr (Or.inl rfl), le_rfl⟩
  · rintro ⟨hy | rfl | hy, hle⟩
    · exact Or.inl hy
    · exact Or.inr rfl
    · exact absurd ((List.pairwise_cons.1 htail).1 y hy) (not_lt.2 hle)

omit hout in
theorem mem_take_of_lt {keyed : List (MergeKey × ReplayEvent)}
    (hs : keyed.Pairwise fun x y => x.1 < y.1) {n : ℕ} {x y : MergeKey × ReplayEvent}
    (hx : x ∈ keyed.take n) (hy : y ∈ keyed) (hlt : y.1 < x.1) : y ∈ keyed.take n := by
  rw [← List.take_append_drop n keyed] at hs hy
  cases List.mem_append.1 hy with
  | inl hy => exact hy
  | inr hy =>
    have hxy := (List.pairwise_append.1 hs).2.2 x hx y hy
    exact absurd hlt (not_lt.2 hxy.le)

omit hout in
/-- After a number of events the replayer has gaps pending exactly when one of them is a gap with no
snapshot after it. -/
theorem pendingGaps_take_iff {it : EventIter} {evs : List ReplayEvent} (h : Accepted out it evs)
    (n : ℕ) : (BookReplayer.default.run (evs.take n)).pendingGaps ≠ [] ↔
      ∃ x ∈ it.keyed.take n, x.2.isGap = true ∧
        ∀ y ∈ it.keyed.take n, x.1 < y.1 → y.2.isSnapshot = false := by
  rw [← h.keyed_snd, ← List.map_take,
    pendingGaps_ne_nil_iff (h.strict.sublist (List.take_sublist n _))]

/-- A trade gap that makes the replayer suspect although it is so by the orderbook's rule finds an
orderbook gap open. -/
theorem tradeGapsCovered_of_suspect {it : EventIter} {evs : List ReplayEvent}
    (h : Accepted out it evs)
    (hrule : SuspectByOrderbook (filedGaps ticker orderbookFiles tradeFiles out.verify) it evs) :
    TradeGapsCovered (filedGaps ticker orderbookFiles tradeFiles out.verify)
      (snapshotRecords (readItems orderbookFiles ++ readItems tradeFiles)) := by
  intro i r hr
  obtain ⟨hx, hxgap⟩ := (gap_iff_filed hout h).2 ⟨i, _, hr, rfl⟩
  obtain ⟨p, hp⟩ := List.mem_iff_getElem?.1 hx
  -- just after the trade gap, the replayer is suspect
  obtain ⟨b, hb, ⟨hbgap, b', hb'⟩, hclear⟩ := (hrule (p + 1)).1 ((pendingGaps_take_iff h (p + 1)).2
    ⟨_, (mem_take_succ_iff h.strict hp).2 ⟨hx, le_rfl⟩, hxgap,
      fun y hy hlt => absurd hlt (not_lt.2 ((mem_take_succ_iff h.strict hp).1 hy).2)⟩)
  obtain ⟨hbmem, hble⟩ := (mem_take_succ_iff h.strict hp).1 hb
  obtain ⟨j, bj, hj, rfl⟩ := (gap_iff_filed hout h).1 ⟨hbmem, hbgap⟩
  obtain rfl : bj = (b', Channel.orderbook) := Option.some.inj (hj.symm.trans hb')
  have hne : j ≠ i := by
    rintro rfl
    cases hr.symm.trans hj
  refine ⟨j, ?_, b', hj, fun s hs hbs => ?_⟩
  · by_contra hij
    have hlt := mergedGap_lt h ((gaps_getElem? hout).2 ⟨_, hr, rfl⟩)
      ((gaps_getElem? hout).2 ⟨_, hj, rfl⟩) (by omega)
    exact absurd hlt (not_lt.2 hble)
  · by_contra hsr
    obtain ⟨y, hy, hsnap, n, m, hkey⟩ := Accepted.exists_snapshot hout h hs
    have hbefore : y.1 < (mergedGap (GapsTable.row r.1 r.2) i).1 := by
      rw [hkey]
      exact (recordKey_lt_mergedGap_iff _ i s n m).2 (not_le.1 hsr)
    have hafter : (mergedGap (GapsTable.row b'.1 b'.2) j).1 < y.1 := by
      rw [hkey]
      exact (mergedGap_lt_recordKey_iff _ j s n m).2 hbs
    have hnot := hclear y ((mem_take_succ_iff h.strict hp).2 ⟨hy, hbefore.le⟩) hafter
    rw [hsnap] at hnot
    cases hnot

/-- When every trade gap finds an orderbook gap open, that one is pending wherever the trade gap
is. -/
theorem suspect_of_tradeGapsCovered {it : EventIter} {evs : List ReplayEvent}
    (h : Accepted out it evs)
    (hcovered : TradeGapsCovered (filedGaps ticker orderbookFiles tradeFiles out.verify)
      (snapshotRecords (readItems orderbookFiles ++ readItems tradeFiles))) :
    SuspectByOrderbook (filedGaps ticker orderbookFiles tradeFiles out.verify) it evs := by
  intro n
  rw [pendingGaps_take_iff h]
  refine ⟨?_, fun ⟨x, hx, hxgap, hclear⟩ => ⟨x, hx, hxgap.1, hclear⟩⟩
  rintro ⟨x, hx, hxgap, hclear⟩
  obtain ⟨i, ⟨r, c⟩, hr, rfl⟩ := (gap_iff_filed hout h).1 ⟨List.mem_of_mem_take hx, hxgap⟩
  cases c with
  | orderbook => exact ⟨_, hx, ⟨hxgap, r, hr⟩, hclear⟩
  | trade =>
    obtain ⟨j, hji, b, hb, hopen⟩ := hcovered i r hr
    have hlt := mergedGap_lt h ((gaps_getElem? hout).2 ⟨_, hb, rfl⟩)
      ((gaps_getElem? hout).2 ⟨_, hr, rfl⟩) hji
    obtain ⟨hbmem, hbgap⟩ := (gap_iff_filed hout h).2 ⟨j, _, hb, rfl⟩
    refine ⟨_, mem_take_of_lt h.strict hx hbmem hlt, ⟨hbgap, b, hb⟩, fun y hy hby => ?_⟩
    by_contra hsnap
    obtain ⟨s, hs, n', m, hkey⟩ :=
      Accepted.exists_record hout h (List.mem_of_mem_take hy) (by simpa using hsnap)
    rw [hkey, mergedGap_lt_recordKey_iff] at hby
    have hry : (mergedGap (GapsTable.row r.1 r.2) i).1 < y.1 := by
      rw [hkey]
      exact (mergedGap_lt_recordKey_iff _ i s n' m).2 (hopen s hs hby)
    exact hsnap (hclear y hy hry)

/-- The replayer is suspect by the orderbook's rule exactly when the trade gaps are covered. -/
theorem suspectByOrderbook_iff {it : EventIter} {evs : List ReplayEvent}
    (h : Accepted out it evs) :
    SuspectByOrderbook (filedGaps ticker orderbookFiles tradeFiles out.verify) it evs ↔
      TradeGapsCovered (filedGaps ticker orderbookFiles tradeFiles out.verify)
        (snapshotRecords (readItems orderbookFiles ++ readItems tradeFiles)) :=
  ⟨tradeGapsCovered_of_suspect hout h, suspect_of_tradeGapsCovered hout h⟩

end Processed

/-! ## Captures with increasing times -/

/-- The decoded records of some files. -/
def decodedRecords (files : List CaptureFile) : List Envelope :=
  (readItems files).filterMap Except.toOption

/-- Receive times strictly increase from record to record across both channels, and the book records
stand in the orderbook files. -/
structure IncreasingTimes (orderbookFiles tradeFiles : List CaptureFile) : Prop where
  orderbook : (decodedRecords orderbookFiles).Pairwise fun a b => a.recvUs < b.recvUs
  trade : (decodedRecords tradeFiles).Pairwise fun a b => a.recvUs < b.recvUs
  apart : ∀ a ∈ decodedRecords orderbookFiles, ∀ b ∈ decodedRecords tradeFiles,
    a.recvUs ≠ b.recvUs
  tradeOnly : bookRecords (readItems tradeFiles) = []

theorem IncreasingTimes.inSeqOrder {orderbookFiles tradeFiles : List CaptureFile}
    (h : IncreasingTimes orderbookFiles tradeFiles) :
    InSeqOrder (streamGaps orderbookFiles tradeFiles) := by
  have hgaps (items : List ReadItem)
      (hs : (items.filterMap Except.toOption).Pairwise fun a b => a.recvUs < b.recvUs) :
      (items.filterMap gapRecord).Pairwise fun a b => a.1.recvUs ≠ b.1.recvUs := by
    rw [List.pairwise_filterMap] at hs ⊢
    refine hs.imp fun hlt a ha b hb => ?_
    exact (hlt a.1 (by rw [(gapRecord_eq_some.1 ha).1]; rfl) b.1
      (by rw [(gapRecord_eq_some.1 hb).1]; rfl)).ne
  have hmem {files : List CaptureFile} {g : Envelope × GapMarker}
      (hg : g ∈ (readItems files).filterMap gapRecord) : g.1 ∈ decodedRecords files := by
    obtain ⟨i, hi, hgi⟩ := List.mem_filterMap.1 hg
    exact List.mem_filterMap.2 ⟨i, hi, by rw [(gapRecord_eq_some.1 hgi).1]; rfl⟩
  have hne : (streamGaps orderbookFiles tradeFiles).Pairwise
      fun a b => a.1.recvUs ≠ b.1.recvUs := by
    rw [streamGaps, List.filterMap_append, List.pairwise_append]
    refine ⟨hgaps _ h.orderbook, hgaps _ h.trade, fun a ha b hb => ?_⟩
    exact h.apart a.1 (hmem ha) b.1 (hmem hb)
  exact hne.imp fun hab heq => absurd heq hab

/-- A book lane whose times increase is in key order. -/
theorem recordLane_sorted_of_times {records : List Envelope}
    (hr : ∀ env ∈ records, WritableRecord env)
    (ht : records.Pairwise fun a b => a.recvUs < b.recvUs) :
    (recordLane 0 0 records).Pairwise fun x y => x.1 ≤ y.1 := by
  have hkey {n : ℕ} (hn : n < (recordLane 0 0 records).length) :
      ∃ (hlt : n < records.length) (m : ℕ),
        ((recordLane 0 0 records)[n]).1 = recordKey n records[n] m := by
    have hlt := recordLane_length 0 0 hr ▸ hn
    obtain ⟨m, ev, -, hlane⟩ := recordLane_getElem? 0 0 hr (List.getElem?_eq_getElem hlt)
    rw [List.getElem?_eq_getElem hn, Int.zero_add] at hlane
    exact ⟨hlt, m, by rw [Option.some.inj hlane]⟩
  rw [List.pairwise_iff_getElem] at ht ⊢
  intro i j hi hj hij
  obtain ⟨hlti, m, hkeyi⟩ := hkey hi
  obtain ⟨hltj, m', hkeyj⟩ := hkey hj
  rw [hkeyi, hkeyj, ← not_lt, recordKey_lt_iff hij]
  exact not_lt.2 (lineOrder_lt_iff.2 (Or.inl (ht i j hlti hltj hij))).le

section Processed

variable {ticker : String} {orderbookFiles tradeFiles : List CaptureFile} {out : TickerOutput}
  (hout : processTicker ticker orderbookFiles tradeFiles = .ok (some out))
include hout

theorem IncreasingTimes.accepted (h : IncreasingTimes orderbookFiles tradeFiles) :
    ∃ it evs, Accepted out it evs := by
  obtain ⟨rows, hrows⟩ := trades_decode hout
  obtain ⟨st, hst, heq⟩ := processTicker_eq_some hout
  have hbooks := books_of_onFiles hst
  have hbook : bookEvents out.bookEvents = (recordsRows 0
      (bookRecords (readItems orderbookFiles ++ readItems tradeFiles))).map .ok := by
    rw [heq]
    exact hbooks.rows.bookEvents
  have hgaps : gaps out.gaps = (out.gaps.map decodeGapRow).map .ok := by
    rw [gaps, List.map_map]
    rfl
  have hgapLane : (laneEvents (out.gaps.map decodeGapRow) (recordsRows 0
      (bookRecords (readItems orderbookFiles ++ readItems tradeFiles))) rows .gap).Pairwise
        fun x y => x.1 ≤ y.1 :=
    ((gapKeysSorted_iff_inSeqOrder hout).2 h.inSeqOrder).lane
  have hbookLane : (laneEvents (out.gaps.map decodeGapRow) (recordsRows 0
      (bookRecords (readItems orderbookFiles ++ readItems tradeFiles))) rows .book).Pairwise
        fun x y => x.1 ≤ y.1 := by
    rw [laneEvents, groupedBook_recordsRows 0 0 hbooks.writable]
    refine recordLane_sorted_of_times hbooks.writable ?_
    rw [bookRecords_append, h.tradeOnly, List.append_nil]
    exact h.orderbook.filter _
  obtain ⟨events, hstream, -⟩ := stream_of_sorted (recordsRows_wellFormed 0 hbooks.writable)
    hgapLane hbookLane
  refine ⟨.ofRows (gaps out.gaps) (bookEvents out.bookEvents) rows, events.map (·.2), ?_, ?_⟩
  · rw [hrows]
    exact fromSources_ok _ _ _
  · have hitems := congrArg (List.map Prod.snd) hstream
    rw [hgaps, hbook, EventIter.items]
    simp only [List.map_map] at hitems ⊢
    exact hitems

end Processed

/-! ## The two rules -/

/-- A capture with increasing times is merged without an error, and whenever the tables of a ticker
are, the replayer's suspect rule is the processor's exactly when every gap of the trade channel
comes while an orderbook gap is open. -/
theorem suspect_rule_shared_iff {ticker : String} {orderbookFiles tradeFiles : List CaptureFile}
    {out : TickerOutput} (hout : processTicker ticker orderbookFiles tradeFiles = .ok (some out)) :
    (IncreasingTimes orderbookFiles tradeFiles → ∃ it evs, Accepted out it evs) ∧
      ∀ it evs, Accepted out it evs →
        (SuspectByOrderbook (filedGaps ticker orderbookFiles tradeFiles out.verify) it evs ↔
          TradeGapsCovered (filedGaps ticker orderbookFiles tradeFiles out.verify)
            (snapshotRecords (readItems orderbookFiles ++ readItems tradeFiles))) :=
  ⟨fun h => h.accepted hout, fun _ _ h => suspectByOrderbook_iff hout h⟩

/-- An orderbook file with a snapshot and, ten microseconds later, a delta. -/
def quietFile : CaptureFile :=
  { path := "orderbook/2026-07-03.jsonl"
    lines := [
      .text "snapshot" (.ok (.new epoch (some 1) (some 1) (.snapshot
        { ticker := ⟨"A"⟩, ts := epoch, yes := [⟨⟨500000⟩, ⟨100⟩⟩], no := [] }))),
      .text "delta" (.ok (.new tenMicros (some 2) (some 1) (.delta
        { ticker := ⟨"A"⟩, ts := tenMicros, price := ⟨500000⟩, side := .yes
          delta := ⟨100⟩ })))] }

/-- A trade file with one gap, at `gapAt`. -/
def tradeHole (gapAt : Timestamp) : CaptureFile :=
  { path := "trade/2026-07-03.jsonl"
    lines := [.text "gap" (.ok (.new gapAt none none (.gap
      { reason := .reconnect, ticker := ⟨"A"⟩, channel := "trade", lastSeq := none
        observedSeq := none, detail := "" })))] }

theorem suspect_rule_shared_iff_sample : ∃ out it evs,
    processTicker "A" [reconnectAt ⟨5000, by decide⟩] [tradeHole ⟨6000, by decide⟩] =
        .ok (some out) ∧
      Accepted out it evs ∧ SuspectByOrderbook
        (filedGaps "A" [reconnectAt ⟨5000, by decide⟩] [tradeHole ⟨6000, by decide⟩] out.verify)
        it evs := by
  obtain ⟨out, hout, hverify⟩ : ∃ out, processTicker "A" [reconnectAt ⟨5000, by decide⟩]
      [tradeHole ⟨6000, by decide⟩] = .ok (some out) ∧ out.verify = [] := ⟨_, rfl, rfl⟩
  have hinc : IncreasingTimes [reconnectAt ⟨5000, by decide⟩] [tradeHole ⟨6000, by decide⟩] := by
    constructor <;> decide
  obtain ⟨hmerged, hiff⟩ := suspect_rule_shared_iff hout
  obtain ⟨it, evs, hacc⟩ := hmerged hinc
  refine ⟨out, it, evs, hout, hacc, (hiff it evs hacc).2 ?_⟩
  rw [hverify]
  obtain ⟨b, t, hfiled, hsnaps⟩ : ∃ b t, filedGaps "A" [reconnectAt ⟨5000, by decide⟩]
      [tradeHole ⟨6000, by decide⟩] [] = [(b, Channel.orderbook), (t, Channel.trade)] ∧
        ∀ s ∈ snapshotRecords (readItems [reconnectAt ⟨5000, by decide⟩] ++
          readItems [tradeHole ⟨6000, by decide⟩]), ¬ lineOrder b.1 ≤ lineOrder s :=
    ⟨_, _, rfl, by decide⟩
  rw [hfiled]
  intro i r hr
  match i with
  | 0 => cases hr
  | 1 => exact ⟨0, Nat.one_pos, b, rfl, fun s hs hle => absurd hle (hsnaps s hs)⟩
  | i + 2 => cases hr

/-- A hole in the trade tape, with no orderbook gap anywhere: the replayed book is suspect from then
on. -/
theorem trade_hole_makes_suspect : ∃ out it evs,
    processTicker "A" [quietFile] [tradeHole ⟨5000, by decide⟩] = .ok (some out) ∧
      IncreasingTimes [quietFile] [tradeHole ⟨5000, by decide⟩] ∧ Accepted out it evs ∧
      ¬ SuspectByOrderbook (filedGaps "A" [quietFile] [tradeHole ⟨5000, by decide⟩] out.verify)
        it evs := by
  obtain ⟨out, it, hout, hacc, hverify⟩ : ∃ out it,
      processTicker "A" [quietFile] [tradeHole ⟨5000, by decide⟩] = .ok (some out) ∧
        Accepted out it (reconnectEvents 5) ∧ out.verify = [] := ⟨_, _, rfl, ⟨rfl, rfl⟩, rfl⟩
  refine ⟨out, it, _, hout, by constructor <;> decide, hacc, fun hrule => ?_⟩
  have hpending : (BookReplayer.default.run ((reconnectEvents 5).take 2)).pendingGaps ≠ [] := by
    decide
  obtain ⟨x, -, ⟨-, b, hb⟩, -⟩ := (hrule 2).1 hpending
  obtain ⟨t, hfiled⟩ : ∃ t, filedGaps "A" [quietFile] [tradeHole ⟨5000, by decide⟩] [] =
      [(t, Channel.trade)] := ⟨_, rfl⟩
  rw [hverify, hfiled] at hb
  match hrow : x.1.fileRow with
  | 0 =>
    rw [hrow] at hb
    cases hb
  | i + 1 =>
    rw [hrow] at hb
    cases hb

end Snapevent
