import Snapevent.EndToEnd.Conservation
import Snapevent.EndToEnd.GapOrder
import Snapevent.Load.Accepted
import Snapevent.Process.Coverage

/-!
# The merged stream of a processed ticker

What the stream the loader merges from the written tables holds, when it merges them without an
error: a gap for every row of the gaps table and a snapshot for every snapshot record, in the order
of time and sequence number.
-/

namespace Snapevent

/-! ## Snapshot records -/

/-- The record is a snapshot. -/
def Envelope.isSnapshot (env : Envelope) : Bool :=
  match env.kind with
  | .snapshot _ => true
  | _ => false

theorem Envelope.isSnapshot_iff {env : Envelope} :
    env.isSnapshot = true ↔ ∃ s, env.kind = .snapshot s := by
  unfold Envelope.isSnapshot
  cases env.kind <;> simp

/-- The snapshot records of some items. -/
def snapshotRecords (items : List ReadItem) : List Envelope :=
  (bookRecords items).filter (·.isSnapshot)

theorem mem_snapshotRecords {items : List ReadItem} {env : Envelope} :
    env ∈ snapshotRecords items ↔ env ∈ bookRecords items ∧ env.isSnapshot = true :=
  List.mem_filter

/-- The times of the snapshot rows are those of the snapshot records. -/
theorem mem_snapshotTimes {ticker : String} {orderbookFiles tradeFiles : List CaptureFile}
    {out : TickerOutput} (h : processTicker ticker orderbookFiles tradeFiles = .ok (some out))
    {t : ℤ} : t ∈ snapshotTimes out.bookEvents ↔
      ∃ env ∈ snapshotRecords (readItems orderbookFiles ++ readItems tradeFiles), env.recvUs = t := by
  obtain ⟨st, hst, rfl⟩ := processTicker_eq_some h
  have hrows : (st.finish ticker).bookEvents = _ := (numbered_of_onFiles hst).rows
  rw [hrows]
  unfold snapshotRecords
  generalize bookRecords (readItems orderbookFiles ++ readItems tradeFiles) = records
  have hflat (l : List (Envelope × ℕ)) : t ∈ snapshotTimes (l.flatMap fun r => numberedRows r.2 r.1) ↔
      ∃ env ∈ (l.map (·.1)).filter (·.isSnapshot), env.recvUs = t := by
    induction l with
    | nil => simp [snapshotTimes]
    | cons r l ih =>
      rw [List.flatMap_cons, TickerState.snapshotTimes_append, List.mem_append, ih,
        TickerState.mem_snapshotTimes_numberedRows, List.map_cons, List.filter_cons,
        ← Envelope.isSnapshot_iff]
      cases hsnap : r.1.isSnapshot with
      | true => simp [eq_comm (a := t)]
      | false => simp
  rw [hflat, List.zipIdx_map_fst]

/-! ## The stream -/

/-- The loader merges the tables of a ticker into the events `evs`, without an error. -/
structure Accepted (out : TickerOutput) (it : EventIter) (evs : List ReplayEvent) : Prop where
  opened : EventIter.fromSources (gaps out.gaps) (bookEvents out.bookEvents) (trades out.trades) =
    .ok it
  clean : it.items = evs.map .ok

/-- Receive microsecond and sequence number of a gap row, as they are compared. -/
def GapsRow.order (row : GapsRow) : ℤ ×ₗ ℕ ×ₗ ℤ := toLex (row.recvTsUs, toLex (seqPart row.seq))

/-- The merged gap of row number `i`. -/
def mergedGap (row : GapsRow) (i : ℕ) : MergeKey × ReplayEvent :=
  (gapKey (decodeGapRow row) i, gapEvent (decodeGapRow row))

theorem gapLane_eq (t : GapsTable) (book : RowSource BookEventRow) (trades : List TradeRow) :
    eventsOf (laneItems (gaps t) book trades .gap) = t.mapIdx fun i row => mergedGap row i := by
  have hgaps : gaps t = (t.map decodeGapRow).map .ok := by
    rw [gaps, List.map_map]
    rfl
  rw [laneItems, hgaps, gapItems_ok, eventsOf_ok]
  apply List.ext_getElem
  · simp
  · intro i hi hi'
    simp [mergedGap]

theorem mergedGap_lt_recordKey_iff (row : GapsRow) (i : ℕ) (env : Envelope) (n : ℤ) (m : ℕ) :
    (mergedGap row i).1 < recordKey n env m ↔ row.order ≤ lineOrder env := by
  rw [← not_lt]
  simp only [MergeKey.lt_iff, mergedGap, gapKey, decodeGapRow, recordKey, lineOrder, GapsRow.order,
    Prod.Lex.toLex_lt_toLex, PRI_GAP, PRI_BOOK]
  omega

namespace Accepted

variable {ticker : String} {orderbookFiles tradeFiles : List CaptureFile} {out : TickerOutput}
  {it : EventIter} {evs : List ReplayEvent}

theorem eq_ofRows (h : Accepted out it evs) :
    ∃ rows, it = .ofRows (gaps out.gaps) (bookEvents out.bookEvents) rows ∧
      (EventIter.ofRows (gaps out.gaps) (bookEvents out.bookEvents) rows).items = evs.map .ok := by
  obtain ⟨rows, -, rfl⟩ := Snapevent.eq_ofRows h.opened
  exact ⟨rows, rfl, h.clean⟩

theorem keyed_snd (h : Accepted out it evs) : it.keyed.map (·.2) = evs := by
  obtain ⟨rows, rfl, hclean⟩ := h.eq_ofRows
  exact Snapevent.keyed_snd hclean

theorem strict (h : Accepted out it evs) : it.keyed.Pairwise fun x y => x.1 < y.1 := by
  obtain ⟨rows, rfl, -⟩ := h.eq_ofRows
  exact stream_strict _ _ _

theorem ts_eq (h : Accepted out it evs) {x : MergeKey × ReplayEvent} (hx : x ∈ it.keyed) :
    x.2.ts = x.1.effectiveTs := by
  obtain ⟨rows, rfl, -⟩ := h.eq_ofRows
  obtain ⟨l, hl⟩ := mem_lane_of_mem_keyed hx
  exact (laneItems_key hl).2

section Files

variable (hout : processTicker ticker orderbookFiles tradeFiles = .ok (some out))
include hout

/-- What an event of the book lane is. -/
theorem of_mem_bookLane {rows : List TradeRow} {x : MergeKey × ReplayEvent}
    (hx : x ∈ eventsOf (laneItems (gaps out.gaps) (bookEvents out.bookEvents) rows .book)) :
    ∃ env ∈ bookRecords (readItems orderbookFiles ++ readItems tradeFiles), ∃ (n : ℕ) (m : ℕ),
      recordEvent n env = some x.2 ∧ x.1 = recordKey n env m := by
  obtain ⟨n, hn⟩ := List.mem_iff_getElem?.1 (mem_eventsOf.1 hx)
  rw [bookLane_eq hout] at hn
  obtain ⟨env, m, henv, hev, hkey⟩ :=
    eq_of_recordLane_getElem? (fun e he => writable_of_mem hout he) hn
  exact ⟨env, List.mem_of_getElem? henv, n, m, hev, hkey⟩

omit hout in
theorem recordEvent_isGap {n : ℤ} {env : Envelope} {ev : ReplayEvent}
    (h : recordEvent n env = some ev) : ev.isGap = false := by
  unfold recordEvent at h
  split at h
  · cases h
    rfl
  · cases h
    rfl
  · cases h

omit hout in
theorem recordEvent_isSnapshot {n : ℤ} {env : Envelope} {ev : ReplayEvent}
    (h : recordEvent n env = some ev) : ev.isSnapshot = env.isSnapshot := by
  unfold recordEvent at h
  unfold Envelope.isSnapshot
  split at h
  · rename_i d hk
    cases h
    rw [hk]
    rfl
  · rename_i s hk
    cases h
    rw [hk]
    rfl
  · cases h

omit hout in
theorem of_mem_tradeLane {gaps : RowSource GapRow} {book : RowSource BookEventRow}
    {rows : List TradeRow} {x : MergeKey × ReplayEvent}
    (hx : x ∈ eventsOf (laneItems gaps book rows .trade)) :
    x.2.isGap = false ∧ x.2.isSnapshot = false := by
  obtain ⟨t, -, ht⟩ := List.mem_map.1 (mem_eventsOf.1 hx)
  cases ht
  exact ⟨rfl, rfl⟩

theorem gap_iff (h : Accepted out it evs) {x : MergeKey × ReplayEvent} :
    (x ∈ it.keyed ∧ x.2.isGap = true) ↔
      ∃ i row, out.gaps[i]? = some row ∧ x = mergedGap row i := by
  obtain ⟨rows, rfl, hclean⟩ := h.eq_ofRows
  constructor
  · rintro ⟨hx, hgap⟩
    obtain ⟨l, hl⟩ := mem_lane_of_mem_keyed hx
    cases l with
    | gap =>
      rw [gapLane_eq, List.mem_mapIdx] at hl
      obtain ⟨i, hi, rfl⟩ := hl
      exact ⟨i, _, List.getElem?_eq_getElem hi, rfl⟩
    | book =>
      obtain ⟨env, -, n, m, hev, -⟩ := of_mem_bookLane hout hl
      rw [recordEvent_isGap hev] at hgap
      cases hgap
    | trade =>
      rw [(of_mem_tradeLane hl).1] at hgap
      cases hgap
  · rintro ⟨i, row, hrow, rfl⟩
    refine ⟨(mem_keyed_iff hclean).2 ⟨.gap, ?_⟩, rfl⟩
    obtain ⟨hi, rfl⟩ := List.getElem?_eq_some_iff.1 hrow
    rw [gapLane_eq]
    exact List.mem_mapIdx.2 ⟨i, hi, rfl⟩

/-- Every snapshot of the stream is that of a snapshot record. -/
theorem exists_record (h : Accepted out it evs) {x : MergeKey × ReplayEvent} (hx : x ∈ it.keyed)
    (hsnap : x.2.isSnapshot = true) :
    ∃ env ∈ snapshotRecords (readItems orderbookFiles ++ readItems tradeFiles), ∃ (n : ℕ) (m : ℕ),
      x.1 = recordKey n env m := by
  obtain ⟨rows, rfl, -⟩ := h.eq_ofRows
  obtain ⟨l, hl⟩ := mem_lane_of_mem_keyed hx
  cases l with
  | gap =>
    rw [gapLane_eq, List.mem_mapIdx] at hl
    obtain ⟨i, hi, rfl⟩ := hl
    cases hsnap
  | book =>
    obtain ⟨env, henv, n, m, hev, hkey⟩ := of_mem_bookLane hout hl
    rw [recordEvent_isSnapshot hev] at hsnap
    exact ⟨env, mem_snapshotRecords.2 ⟨henv, hsnap⟩, n, m, hkey⟩
  | trade =>
    rw [(of_mem_tradeLane hl).2] at hsnap
    cases hsnap

theorem exists_snapshot (h : Accepted out it evs) {env : Envelope}
    (henv : env ∈ snapshotRecords (readItems orderbookFiles ++ readItems tradeFiles)) :
    ∃ x ∈ it.keyed, x.2.isSnapshot = true ∧ ∃ (n : ℕ) (m : ℕ), x.1 = recordKey n env m := by
  obtain ⟨rows, rfl, hclean⟩ := h.eq_ofRows
  obtain ⟨hmem, hsnap⟩ := mem_snapshotRecords.1 henv
  obtain ⟨n, hn⟩ := List.mem_iff_getElem?.1 hmem
  obtain ⟨m, ev, hev, hget⟩ := recordLane_getElem? 0 0 (fun e he => writable_of_mem hout he) hn
  rw [Int.zero_add] at hev hget
  refine ⟨(recordKey n env m, ev), (mem_keyed_iff hclean).2 ⟨.book, ?_⟩, ?_, n, m, rfl⟩
  · rw [bookLane_eq hout, eventsOf_ok]
    exact List.mem_of_getElem? hget
  · rw [recordEvent_isSnapshot hev, hsnap]

end Files

end Accepted

end Snapevent
