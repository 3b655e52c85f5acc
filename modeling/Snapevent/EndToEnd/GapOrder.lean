import Snapevent.Load.Stream
import Snapevent.Process.Collected

/-!
# The gaps table and the reader's order

The processor sorts the gap rows of a ticker by receive time in microseconds; the loader expects
them in the order of its merge keys, which also compares sequence numbers.  The two agree exactly
when the gap records of one microsecond were captured in sequence order.
-/

namespace Snapevent

open KeySort

/-- The gaps table is in merge-key order. -/
def GapKeysSorted (t : GapsTable) : Prop :=
  ((t.map decodeGapRow).mapIdx fun i row => gapKey row i).Pairwise (· ≤ ·)

/-- The sequence part of an optional sequence number, as it is compared. -/
def seqOrder (seq : Option UInt64) : ℕ ×ₗ ℤ := toLex (seqPart (seqI64 seq))

/-- Gap rows received in the same microsecond stand in sequence order, rows without a sequence
number last. -/
def InSeqOrder (rows : List (Envelope × GapMarker)) : Prop :=
  rows.Pairwise fun a b => a.1.recvUs = b.1.recvUs → seqOrder a.1.seq ≤ seqOrder b.1.seq

instance (rows : List (Envelope × GapMarker)) : Decidable (InSeqOrder rows) :=
  inferInstanceAs (Decidable (List.Pairwise _ _))

theorem seqOrder_le_none (seq : Option UInt64) : seqOrder seq ≤ seqOrder none := by
  cases seq with
  | none => exact le_rfl
  | some s => exact (Prod.Lex.toLex_lt_toLex.2 (Or.inl Nat.zero_lt_one)).le

/-! ## The written table -/

theorem sortGapRows_eq (rows : List (Envelope × GapMarker)) :
    sortGapRows rows = sortOn (fun r => r.1.recvUs) rows := rfl

/-- Two gap rows are in key order when they are in time and sequence order, the earlier row
first. -/
theorem gapKey_le_iff {a b : Envelope × GapMarker} {i j : ℕ} (hij : i < j)
    (hus : a.1.recvUs ≤ b.1.recvUs) :
    gapKey (decodeGapRow (GapsTable.row a.1 a.2)) i ≤ gapKey (decodeGapRow (GapsTable.row b.1 b.2)) j ↔
      (a.1.recvUs = b.1.recvUs → seqOrder a.1.seq ≤ seqOrder b.1.seq) := by
  simp only [← not_lt, MergeKey.lt_iff, gapKey, decodeGapRow, GapsTable.row, seqOrder,
    Prod.Lex.toLex_lt_toLex]
  omega

/-- A table of rows sorted by time is in key order exactly when rows of one time are in sequence
order. -/
theorem gapKeysSorted_iff {rows : List (Envelope × GapMarker)}
    (hs : rows.Pairwise fun a b => a.1.recvUs ≤ b.1.recvUs) :
    GapKeysSorted (gapsTable rows) ↔ InSeqOrder rows := by
  rw [GapKeysSorted, InSeqOrder, gapsTable_eq, List.map_map, List.pairwise_iff_getElem,
    List.pairwise_iff_getElem]
  have hlen : ((rows.map (decodeGapRow ∘ fun r => GapsTable.row r.1 r.2)).mapIdx
      fun i row => gapKey row i).length = rows.length := by simp
  constructor
  · intro h i j hi hj hij
    have hle := h i j (hlen ▸ hi) (hlen ▸ hj) hij
    simp only [List.getElem_mapIdx, List.getElem_map, Function.comp] at hle
    exact (gapKey_le_iff hij (List.pairwise_iff_getElem.1 hs i j hi hj hij)).1 hle
  · intro h i j hi hj hij
    simp only [List.getElem_mapIdx, List.getElem_map, Function.comp]
    have hi' : i < rows.length := hlen ▸ hi
    have hj' : j < rows.length := hlen ▸ hj
    exact (gapKey_le_iff hij (List.pairwise_iff_getElem.1 hs i j hi' hj' hij)).2 (h i j hi' hj' hij)

/-- Synthesized rows carry no sequence number, so they never stand in the way. -/
theorem inSeqOrder_append_synthesized (ticker : String) (rows : List (Envelope × GapMarker))
    (verify : List VerifyOutcomeRow) :
    InSeqOrder (rows ++ verify.filterMap (mismatchGapRow ticker)) ↔ InSeqOrder rows := by
  have hnone {r : Envelope × GapMarker} (hr : r ∈ verify.filterMap (mismatchGapRow ticker)) :
      r.1.seq = none := by
    obtain ⟨v, -, hv⟩ := List.mem_filterMap.1 hr
    rw [mismatchGapRow] at hv
    split_ifs at hv
    obtain ⟨dt, -, rfl⟩ := Option.map_eq_some_iff.1 hv
    rfl
  refine ⟨fun h => (List.pairwise_append.1 h).1, fun h => List.pairwise_append.2 ⟨h, ?_, ?_⟩⟩
  · refine List.pairwise_of_forall_mem_list fun a ha b hb _ => ?_
    rw [hnone ha, hnone hb]
  · intro a _ b hb _
    rw [hnone hb]
    exact seqOrder_le_none a.1.seq

theorem gapKeysSorted_iff_inSeqOrder {ticker : String}
    {orderbookFiles tradeFiles : List CaptureFile} {out : TickerOutput}
    (h : processTicker ticker orderbookFiles tradeFiles = .ok (some out)) :
    GapKeysSorted out.gaps ↔ InSeqOrder (streamGaps orderbookFiles tradeFiles) := by
  rw [(accounts_of_processTicker h).gaps, sortGapRows_eq, gapKeysSorted_iff (sortOn_sorted _ _)]
  exact (sortOn_sameKey_iff _ (R := fun a b : Envelope × GapMarker =>
    seqOrder a.1.seq ≤ seqOrder b.1.seq) _).trans (inSeqOrder_append_synthesized ticker _ _)

/-! ## The reader -/

/-- No gap row of the table is reported as an order violation, whatever the other tables hold. -/
def GapsAccepted (t : GapsTable) : Prop :=
  ∀ (book : RowSource BookEventRow) (trades : RowSource TradeRow) (it : EventIter),
    EventIter.fromSources (gaps t) book trades = .ok it →
    ∀ p ∈ it.stream, p.lane = .gap → ∃ ev, p.item = .ok ev

/-- The events of a table in key order are in key order. -/
theorem GapKeysSorted.lane {t : GapsTable} (hs : GapKeysSorted t) :
    ((t.map decodeGapRow).mapIdx fun i row => (gapKey row i, gapEvent row)).Pairwise
      fun x y => x.1 ≤ y.1 := by
  have hmap : ((t.map decodeGapRow).mapIdx fun i row => (gapKey row i, gapEvent row)).map (·.1) =
      (t.map decodeGapRow).mapIdx fun i row => gapKey row i :=
    List.ext_getElem (by simp) fun i hi hj => by simp
  rw [GapKeysSorted, ← hmap] at hs
  exact List.pairwise_map.1 hs

theorem gapsAccepted_of_sorted {t : GapsTable} (hs : GapKeysSorted t) : GapsAccepted t := by
  intro book trades it hit p hp hl
  obtain ⟨rows, -, rfl⟩ := eq_ofRows hit
  have hgaps : gaps t = (t.map decodeGapRow).map .ok := by
    rw [gaps, List.map_map]
    rfl
  have hrep := stream_reported (gaps t) book rows .gap
  rw [laneItems, hgaps, gapItems_ok] at hrep
  have hitems := hrep.of_sorted hs.lane
  have hmem : p.item ∈ ((EventIter.ofRows ((t.map decodeGapRow).map .ok) book rows).stream.filter
      (·.lane = .gap)).map (·.item) := by
    rw [← hgaps]
    exact List.mem_map_of_mem (List.mem_filter.2 ⟨hp, by simpa using hl⟩)
  rw [hitems] at hmem
  obtain ⟨x, -, hx⟩ := List.mem_map.1 hmem
  exact ⟨x.2, hx.symm⟩

/-- The loader accepts the gaps table of a processed ticker exactly when the gap records of one
microsecond were captured in sequence order. -/
theorem written_gaps_accepted_iff {ticker : String} {orderbookFiles tradeFiles : List CaptureFile}
    {out : TickerOutput} (h : processTicker ticker orderbookFiles tradeFiles = .ok (some out)) :
    (GapKeysSorted out.gaps ∧ GapsAccepted out.gaps) ↔
      InSeqOrder (streamGaps orderbookFiles tradeFiles) := by
  rw [← gapKeysSorted_iff_inSeqOrder h]
  exact ⟨fun hb => hb.1, fun hs => ⟨hs, gapsAccepted_of_sorted hs⟩⟩

/-- Second 1 of the epoch. -/
def secondOne : Timestamp := ⟨10 ^ 9, by decide⟩

/-- A gap record of ticker `T` received at second 1 with sequence number `seq`. -/
def sampleGapLine (seq : Option UInt64) : Line :=
  .text "gap" (.ok (.new secondOne seq (some 1)
    (.gap ⟨.seqJump, ⟨"T"⟩, "orderbook", none, seq, "seq jump on sid 1"⟩)))

/-- An orderbook capture with two gap records of one microsecond. -/
def sampleGapCapture (first second : Option UInt64) : List CaptureFile :=
  [⟨"orderbook/1.jsonl", [sampleGapLine first, sampleGapLine second]⟩]

theorem written_gaps_accepted_iff_sample : ∃ out,
    processTicker "T" (sampleGapCapture (some 1) none) [] = .ok (some out) ∧
      GapKeysSorted out.gaps ∧ GapsAccepted out.gaps := by
  obtain ⟨out, hout⟩ : ∃ out, processTicker "T" (sampleGapCapture (some 1) none) [] =
    .ok (some out) := ⟨_, rfl⟩
  exact ⟨out, hout, (written_gaps_accepted_iff hout).2 (by decide)⟩

/-- Two gap records of one microsecond, the later one with the smaller sequence number: the table is
out of key order, and the loader refuses its second row. -/
theorem written_gaps_refused : ∃ out,
    processTicker "T" (sampleGapCapture (some 2) (some 1)) [] = .ok (some out) ∧
      ¬ GapKeysSorted out.gaps ∧ ¬ GapsAccepted out.gaps := by
  obtain ⟨out, hout, hgaps⟩ : ∃ out, processTicker "T" (sampleGapCapture (some 2) (some 1)) [] =
      .ok (some out) ∧ out.gaps = [2, 1].map fun s : ℤ =>
        ⟨10 ^ 6, some s, "seq_jump", "orderbook", none, some s, "seq jump on sid 1"⟩ :=
    ⟨_, rfl, rfl⟩
  refine ⟨out, hout, ?_, fun h => ?_⟩
  · rw [gapKeysSorted_iff_inSeqOrder hout]
    decide
  · rw [hgaps] at h
    obtain ⟨ev, hev⟩ := h [] [] _ rfl _ (List.mem_of_getElem? (i := 1) rfl) rfl
    cases hev

end Snapevent
