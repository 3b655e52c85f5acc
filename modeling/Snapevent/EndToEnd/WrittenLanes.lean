import Snapevent.Load.RoundTrip
import Snapevent.Process.Collected

/-!
# The lanes of a processed ticker

What the three lanes of the loader hold when it reads the tables a ticker was processed to, in terms
of the records the ticker was processed from.
-/

namespace Snapevent

open KWayMerge

/-! ## Book records -/

theorem qtyCentiI64_lt {q : UInt64} {n : Int64} (h : qtyCentiI64 q = .ok n) : q.toNat < 2 ^ 63 := by
  by_contra hq
  rw [qtyCentiI64, if_neg hq] at h
  cases h

theorem levelRows_lt {idx : ℤ} {env : Envelope} {evt : Timestamp} {side : Side}
    {levels : List PriceLevel} {rows : List BookEventsRow}
    (h : BookEventsTable.levelRows idx env evt side levels = .ok rows) :
    ∀ l ∈ levels, l.quantity.centi.toNat < 2 ^ 63 := by
  induction levels generalizing rows with
  | nil => simp
  | cons lvl levels ih =>
    rw [BookEventsTable.levelRows, List.mapM_cons] at h
    obtain ⟨row, hrow, h⟩ := FoldM.bind_ok h
    obtain ⟨rest, hrest, -⟩ := FoldM.bind_ok h
    obtain ⟨q, hq, -⟩ := FoldM.bind_ok hrow
    exact List.forall_mem_cons.2 ⟨qtyCentiI64_lt hq, ih hrest⟩

theorem writable_of_onEnvelope {st st' : TickerState} {c : Channel} {env : Envelope}
    (hb : env.isBook = true) (h : st.onEnvelope c env = .ok st') : WritableRecord env := by
  rw [TickerState.onEnvelope] at h
  rcases hk : env.kind with s | d | t | g | r | v <;> rw [hk] at h
  case snapshot =>
    refine ⟨Or.inl ⟨s, hk⟩, fun s' hs' => ?_⟩
    obtain rfl : s' = s := by simpa [hk] using hs'.symm
    obtain ⟨table, htable, -⟩ := FoldM.bind_ok h
    unfold BookEventsTable.pushSnapshot at htable
    split_ifs at htable with hempty
    · obtain ⟨hyes, hno⟩ : s'.yes = [] ∧ s'.no = [] := by simpa using hempty
      simp [hyes, hno]
    · obtain ⟨yes, hyes, htable⟩ := FoldM.bind_ok htable
      obtain ⟨no, hno, -⟩ := FoldM.bind_ok htable
      exact List.forall_mem_append.2 ⟨levelRows_lt hyes, levelRows_lt hno⟩
  case delta => exact ⟨Or.inr ⟨d, hk⟩, by simp [hk]⟩
  all_goals simp [Envelope.isBook, hk] at hb

theorem onEnvelope_of_not_isBook {st st' : TickerState} {c : Channel} {env : Envelope}
    (hb : env.isBook = false) (h : st.onEnvelope c env = .ok st') :
    st'.bookEvents = st.bookEvents ∧ st'.eventIdx = st.eventIdx := by
  have hitem : st.onItem c (.ok env) = .ok st' := h
  cases TickerState.onItem_step hitem with
  | snapshot hk => simp [Envelope.isBook, hk] at hb
  | delta hk => simp [Envelope.isBook, hk] at hb
  | trade hk => exact ⟨rfl, rfl⟩
  | gap hk => exact ⟨rfl, rfl⟩
  | raw hk => exact ⟨rfl, rfl⟩
  | verify hk => exact ⟨rfl, rfl⟩

/-- The book table after some items: it decodes to the rows of their book records, numbered in
order. -/
structure Books (st : TickerState) (items : List ReadItem) : Prop where
  rows : DecodesTo st.bookEvents (recordsRows 0 (bookRecords items))
  idx : st.eventIdx = (bookRecords items).length
  writable : ∀ env ∈ bookRecords items, WritableRecord env

theorem recordsRows_concat (idx : ℤ) (records : List Envelope) (env : Envelope) :
    recordsRows idx (records ++ [env]) =
      recordsRows idx records ++ recordRows (idx + records.length) env := by
  induction records generalizing idx with
  | nil => simp [recordsRows]
  | cons r records ih =>
    rw [List.cons_append, recordsRows, recordsRows, ih, List.append_assoc, List.length_cons]
    congr 3
    omega

theorem Books.onItem {st st' : TickerState} {c : Channel} {used : List ReadItem} {i : ReadItem}
    (hs : Books st used) (h : st.onItem c i = .ok st') : Books st' (used ++ [i]) := by
  cases i with
  | error e =>
    cases h
    have hnone : bookRecords (used ++ [Except.error e]) = bookRecords used := by
      rw [bookRecords_append, bookRecords_of_not_isBook (by simp), List.append_nil]
    exact ⟨hnone ▸ hs.rows, hnone ▸ hs.idx, hnone ▸ hs.writable⟩
  | ok env =>
    cases hb : env.isBook with
    | false =>
      have hnone : bookRecords (used ++ [Except.ok env]) = bookRecords used := by
        rw [bookRecords_append, bookRecords_of_not_isBook (by simp [hb]), List.append_nil]
      obtain ⟨hbook, hidx⟩ := onEnvelope_of_not_isBook hb h
      refine ⟨?_, ?_, hnone ▸ hs.writable⟩
      · rw [hbook, hnone]
        exact hs.rows
      · rw [hidx, hnone]
        exact hs.idx
    | true =>
      have hsome : bookRecords (used ++ [Except.ok env]) = bookRecords used ++ [env] := by
        rw [bookRecords_append]
        simp [bookRecords, Except.toOption, hb]
      have hw := writable_of_onEnvelope hb h
      obtain ⟨st'', hst'', hstate⟩ := BookState.onEnvelope ⟨hs.rows, hs.idx, rfl⟩ hw c
      cases hst''.symm.trans h
      refine ⟨?_, ?_, ?_⟩
      · rw [hsome, recordsRows_concat, Int.zero_add]
        exact hstate.rows
      · rw [hsome, List.length_append]
        exact hstate.idx
      · rw [hsome]
        exact List.forall_mem_append.2 ⟨hs.writable, by simpa using hw⟩

theorem books_of_onFiles {orderbookFiles tradeFiles : List CaptureFile} {st : TickerState}
    (h : TickerState.onFiles orderbookFiles tradeFiles = .ok st) :
    Books st (readItems orderbookFiles ++ readItems tradeFiles) :=
  TickerState.onFiles_invariant (fun _ hs => ⟨hs.rows, hs.idx, hs.writable⟩)
    (fun hs hi => hs.onItem hi) ⟨.nil, rfl, by simp [bookRecords]⟩ h

section Processed

variable {ticker : String} {orderbookFiles tradeFiles : List CaptureFile} {out : TickerOutput}
  (hout : processTicker ticker orderbookFiles tradeFiles = .ok (some out))
include hout

theorem bookLane_eq (gaps : RowSource GapRow) (trades : List TradeRow) :
    laneItems gaps (bookEvents out.bookEvents) trades .book =
      (recordLane 0 0 (bookRecords (readItems orderbookFiles ++ readItems tradeFiles))).map .ok := by
  obtain ⟨st, hst, rfl⟩ := processTicker_eq_some hout
  have hbooks := books_of_onFiles hst
  have hdecode : bookEvents (st.finish ticker).bookEvents = _ := hbooks.rows.bookEvents
  rw [laneItems, hdecode, bookItems_of_wellFormed (recordsRows_wellFormed 0 hbooks.writable),
    groupedBook_recordsRows 0 0 hbooks.writable]

theorem writable_of_mem {env : Envelope}
    (h : env ∈ bookRecords (readItems orderbookFiles ++ readItems tradeFiles)) :
    WritableRecord env := by
  obtain ⟨st, hst, -⟩ := processTicker_eq_some hout
  exact (books_of_onFiles hst).writable env h

end Processed

/-- Element number `k` of the lane is record number `k`. -/
theorem recordLane_getElem? (idx : ℤ) (n : ℕ) {records : List Envelope}
    (hr : ∀ env ∈ records, WritableRecord env) {k : ℕ} {env : Envelope}
    (hk : records[k]? = some env) : ∃ m ev, recordEvent (idx + k) env = some ev ∧
      (recordLane idx n records)[k]? = some (recordKey (idx + k) env m, ev) := by
  induction records generalizing idx n k with
  | nil => simp at hk
  | cons r records ih =>
    obtain ⟨ev, hev, -⟩ := groupEvent_recordRows idx (hr r List.mem_cons_self) 0
    rw [recordLane, hev]
    cases k with
    | zero =>
      cases hk
      exact ⟨n, ev, by simpa using hev, by simp⟩
    | succ k =>
      obtain ⟨m, ev', hev', hlane⟩ := ih (idx + 1) (n + (recordRows idx r).length)
        (fun e h => hr e (List.mem_cons_of_mem _ h)) (k := k) (by simpa using hk)
      have hidx : idx + 1 + (k : ℤ) = idx + (k + 1 : ℕ) := by omega
      rw [hidx] at hev' hlane
      exact ⟨m, ev', hev', by simpa using hlane⟩

theorem recordLane_length (idx : ℤ) (n : ℕ) {records : List Envelope}
    (hr : ∀ env ∈ records, WritableRecord env) :
    (recordLane idx n records).length = records.length := by
  have hlen := congrArg List.length (recordLane_snd idx n records)
  rw [List.length_map, (run_recordEvents .default idx hr).2] at hlen
  exact hlen

theorem eq_of_recordLane_getElem? {records : List Envelope}
    (hr : ∀ env ∈ records, WritableRecord env) {n : ℕ} {k : MergeKey} {ev : ReplayEvent}
    (h : ((recordLane 0 0 records).map (Except.ok (ε := LoadError)))[n]? = some (.ok (k, ev))) :
    ∃ env m, records[n]? = some env ∧ recordEvent n env = some ev ∧ k = recordKey n env m := by
  have hlen : n < records.length := by
    rw [← recordLane_length 0 0 hr]
    simpa using (List.getElem?_eq_some_iff.1 h).1
  obtain ⟨m, ev', hev, hget⟩ := recordLane_getElem? 0 0 hr (List.getElem?_eq_getElem hlen)
  rw [List.getElem?_map, hget, Int.zero_add] at h
  rw [Int.zero_add] at hev
  cases h
  exact ⟨records[n], m, List.getElem?_eq_getElem hlen, hev, rfl⟩

/-- Receive microsecond and sequence number of a record, as they are compared. -/
def lineOrder (env : Envelope) : ℤ ×ₗ ℕ ×ₗ ℤ :=
  toLex (env.recvUs, toLex (seqPart (seqI64 env.seq)))

/-- Of two records the later numbered one has the smaller key exactly when it is smaller in time and
sequence order. -/
theorem recordKey_lt_iff {a b : Envelope} {i j : ℕ} (hij : i < j) (n m : ℕ) :
    recordKey j b m < recordKey i a n ↔ lineOrder b < lineOrder a := by
  simp only [MergeKey.lt_iff, recordKey, lineOrder, Prod.Lex.toLex_lt_toLex]
  omega

/-- A record regresses in its lane exactly when an earlier one is greater in time and sequence
order. -/
theorem regresses_recordLane_iff {before after : List Envelope} {env : Envelope}
    (hr : ∀ e ∈ before ++ env :: after, WritableRecord e) (m : ℕ) :
    Regresses ((recordLane 0 0 (before ++ env :: after)).map .ok) before.length
      (recordKey before.length env m) ↔ ∃ a ∈ before, lineOrder env < lineOrder a := by
  have hlane {i : ℕ} {a : Envelope} (ha : before[i]? = some a) : ∃ n ev,
      ((recordLane 0 0 (before ++ env :: after)).map (Except.ok (ε := LoadError)))[i]? =
        some (.ok (recordKey i a n, ev)) := by
    have hlt := (List.getElem?_eq_some_iff.1 ha).1
    obtain ⟨n, ev, -, hget⟩ := recordLane_getElem? 0 0 hr
      ((List.getElem?_append_left hlt).trans ha)
    exact ⟨n, ev, by rw [List.getElem?_map, hget, Int.zero_add]; rfl⟩
  constructor
  · rintro ⟨i, k, ev, hi, hget, hlt⟩
    obtain ⟨n, ev', hget'⟩ := hlane (List.getElem?_eq_getElem hi)
    cases hget.symm.trans hget'
    exact ⟨before[i], List.getElem_mem hi, (recordKey_lt_iff hi n m).1 hlt⟩
  · rintro ⟨a, ha, hlt⟩
    obtain ⟨i, hi⟩ := List.mem_iff_getElem?.1 ha
    have hlen := (List.getElem?_eq_some_iff.1 hi).1
    obtain ⟨n, ev, hget⟩ := hlane hi
    exact ⟨i, _, ev, hlen, hget, (recordKey_lt_iff hlen n m).2 hlt⟩

/-! ## Gap rows -/

/-- An event of the gap lane is that of a written row. -/
theorem mem_gapLane {t : GapsTable} {book : RowSource BookEventRow} {trades : List TradeRow}
    {x : MergeKey × ReplayEvent} (hx : x ∈ eventsOf (laneItems (gaps t) book trades .gap)) :
    ∃ row ∈ t, ∃ i, x = (gapKey (decodeGapRow row) i, gapEvent (decodeGapRow row)) := by
  have hgaps : gaps t = (t.map decodeGapRow).map .ok := by
    rw [gaps, List.map_map]
    rfl
  rw [laneItems, hgaps, gapItems_ok, eventsOf_ok, List.mem_mapIdx] at hx
  obtain ⟨i, hi, rfl⟩ := hx
  rw [List.getElem_map]
  exact ⟨_, List.getElem_mem _, i, rfl⟩

/-- A written gap row is that of a captured gap record or a synthesized mismatch. -/
theorem mem_gaps_of_processTicker {ticker : String} {orderbookFiles tradeFiles : List CaptureFile}
    {out : TickerOutput} (hout : processTicker ticker orderbookFiles tradeFiles = .ok (some out))
    {row : GapsRow} (h : row ∈ out.gaps) :
    (∃ r ∈ streamGaps orderbookFiles tradeFiles, row = GapsTable.row r.1 r.2) ∨
      row.reason = gapReasonStr .verifyMismatch := by
  rw [(accounts_of_processTicker hout).gaps, gapsTable_eq] at h
  obtain ⟨r, hr, rfl⟩ := List.mem_map.1 h
  rcases List.mem_append.1 ((List.mem_insertionSort _).1 hr) with hr | hr
  · exact Or.inl ⟨r, hr, rfl⟩
  · obtain ⟨v, -, hv⟩ := List.mem_filterMap.1 hr
    rw [mismatchGapRow] at hv
    split_ifs at hv
    obtain ⟨dt, -, rfl⟩ := Option.map_eq_some_iff.1 hv
    exact Or.inr rfl

/-! ## Trade rows -/

theorem mapM_id_eq {α : Type} {xs : RowSource α} {ys : List α}
    (h : xs.mapM (id : Except LoadError α → Except LoadError α) = .ok ys) : xs = ys.map .ok := by
  induction xs generalizing ys with
  | nil =>
    cases h
    rfl
  | cons x xs ih =>
    rw [List.mapM_cons] at h
    obtain ⟨y, hy, h⟩ := FoldM.bind_ok h
    obtain ⟨rest, hrest, h⟩ := FoldM.bind_ok h
    cases h
    rw [List.map_cons, ← ih hrest]
    exact congrArg (· :: xs) hy

/-- The row a written trade is decoded to. -/
def decodedTrade (env : Envelope) (t : Trade) : TradeRow :=
  { recvTsUs := env.recvUs, eventTsUs := t.ts.timestampMicros, seq := seqI64 env.seq
    priceMicro := t.price.micro, countCenti := t.count.centi, takerSide := t.takerSide
    takerBookSide := t.takerBookSide, tradeId := t.tradeId }

theorem decodeTradeRow_row {env : Envelope} {t : Trade} {i : ℕ} {row : TradeRow}
    (h : decodeTradeRow i (TradesTable.row env t t.count.centi.toInt64) = .ok row) :
    row = decodedTrade env t := by
  rw [decodeTradeRow] at h
  obtain ⟨bookSide, hbookSide, h⟩ := FoldM.bind_ok h
  obtain ⟨price, hprice, h⟩ := FoldM.bind_ok h
  dsimp only at h
  split_ifs at h
  swap
  · cases h
  obtain ⟨count, hcount, h⟩ := FoldM.bind_ok h
  obtain ⟨side, hside, h⟩ := FoldM.bind_ok h
  cases hcount
  cases h
  have hb : bookSide = t.takerBookSide := by
    rcases t with ⟨_, _, _, _, _, _ | b, _⟩
    · cases hbookSide
      rfl
    · simp only [TradesTable.row, Option.map_some, decodeOpt, toBookSide_bookSideStr] at hbookSide
      cases hbookSide
      rfl
  have hp : price = t.price.micro := by
    rw [TradesTable.row, toPrice_micro] at hprice
    cases hprice
    rfl
  have hs : side = t.takerSide := by
    rw [TradesTable.row, toSide_sideStr] at hside
    cases hside
    rfl
  rw [hb, hp, hs, decodedTrade, ← UInt64.toUInt64_toInt64 t.count.centi]
  rfl

theorem decodeTradeRow_ok {t : Trade} (h : t.count.centi.toNat < 2 ^ 63) (env : Envelope) (i : ℕ) :
    decodeTradeRow i (TradesTable.row env t t.count.centi.toInt64) = .ok (decodedTrade env t) := by
  have hbook : decodeOpt (toBookSide · "trades" i) (t.takerBookSide.map bookSideStr) =
      .ok t.takerBookSide := by
    cases t.takerBookSide with
    | none => rfl
    | some b => simp [decodeOpt]
  unfold decodeTradeRow TradesTable.row
  simp only [hbook, toPrice_micro, toSide_sideStr, if_pos (toInt64_nonneg h)]
  rw [UInt64.toUInt64_toInt64]
  rfl

theorem tradesPush_lt {t t' : TradesTable} {env : Envelope} {trade : Trade}
    (h : t.push env trade = .ok t') : trade.count.centi.toNat < 2 ^ 63 := by
  obtain ⟨count, hcount, -⟩ := FoldM.bind_ok h
  exact qtyCentiI64_lt hcount

/-- A written trade fits its column. -/
theorem tradeCount_lt {orderbookFiles tradeFiles : List CaptureFile} {st : TickerState}
    (h : TickerState.onFiles orderbookFiles tradeFiles = .ok st) :
    ∀ env t, Except.ok env ∈ readItems orderbookFiles ++ readItems tradeFiles →
      env.kind = .trade t → t.count.centi.toNat < 2 ^ 63 := by
  refine TickerState.onFiles_invariant
    (P := fun _ used => ∀ env t, Except.ok env ∈ used → env.kind = .trade t →
      t.count.centi.toNat < 2 ^ 63)
    (fun _ hs => hs) (fun {c st used i st'} hs hi env t hmem hk => ?_) (by simp) h
  cases List.mem_append.1 hmem with
  | inl hmem => exact hs env t hmem hk
  | inr hmem =>
    obtain rfl := List.mem_singleton.1 hmem
    rw [TickerState.onItem, TickerState.onEnvelope, hk] at hi
    obtain ⟨table, htable, -⟩ := FoldM.bind_ok hi
    exact tradesPush_lt htable

theorem exists_map_ok {α ε : Type} {xs : List (Except ε α)} (h : ∀ x ∈ xs, ∃ y, x = .ok y) :
    ∃ ys : List α, xs = ys.map .ok := by
  induction xs with
  | nil => exact ⟨[], rfl⟩
  | cons x xs ih =>
    obtain ⟨⟨y, rfl⟩, hxs⟩ := List.forall_mem_cons.1 h
    obtain ⟨ys, rfl⟩ := ih hxs
    exact ⟨y :: ys, rfl⟩

section Processed

variable {ticker : String} {orderbookFiles tradeFiles : List CaptureFile} {out : TickerOutput}
  (hout : processTicker ticker orderbookFiles tradeFiles = .ok (some out))
include hout

theorem exists_trade_of_row {row : TradesRow} (hrow : row ∈ out.trades) :
    ∃ env t, .ok env ∈ readItems orderbookFiles ++ readItems tradeFiles ∧ env.kind = .trade t ∧
      row = TradesTable.row env t t.count.centi.toInt64 := by
  rw [(accounts_of_processTicker hout).trades] at hrow
  obtain ⟨item, hitem, hmem⟩ := List.mem_flatMap.1 hrow
  cases item with
  | error e => cases hmem
  | ok env =>
    simp only [tradeRows] at hmem
    split at hmem
    · rename_i t hk
      exact ⟨env, t, hitem, hk, List.mem_singleton.1 hmem⟩
    · cases hmem

theorem trades_decode : ∃ rows : List TradeRow, trades out.trades = rows.map .ok := by
  apply exists_map_ok
  intro x hx
  rw [trades, List.mem_mapIdx] at hx
  obtain ⟨i, hi, rfl⟩ := hx
  obtain ⟨env, t, hitem, hk, hrow⟩ := exists_trade_of_row hout (List.getElem_mem hi)
  obtain ⟨st, hst, -⟩ := processTicker_eq_some hout
  rw [hrow]
  exact ⟨_, decodeTradeRow_ok (tradeCount_lt hst env t hitem hk) env i⟩

/-- A decoded row is that of a captured trade. -/
theorem exists_trade_of_decoded {rows : List TradeRow} (hrows : trades out.trades = rows.map .ok)
    {row : TradeRow} (hrow : row ∈ rows) : ∃ env t,
      .ok env ∈ readItems orderbookFiles ++ readItems tradeFiles ∧ env.kind = .trade t ∧
      row = decodedTrade env t := by
  have hok : Except.ok row ∈ trades out.trades := by
    rw [hrows]
    exact List.mem_map_of_mem hrow
  rw [trades, List.mem_mapIdx] at hok
  obtain ⟨i, hi, hdecode⟩ := hok
  obtain ⟨env, t, hitem, hk, hwritten⟩ := exists_trade_of_row hout (List.getElem_mem hi)
  rw [hwritten] at hdecode
  exact ⟨env, t, hitem, hk, decodeTradeRow_row hdecode⟩

end Processed

/-- A captured trade is among the decoded rows. -/
theorem mem_decodedTrades {ticker : String} {orderbookFiles tradeFiles : List CaptureFile}
    {out : TickerOutput} (hout : processTicker ticker orderbookFiles tradeFiles = .ok (some out))
    {rows : List TradeRow} (hrows : trades out.trades = rows.map .ok) {env : Envelope} {t : Trade}
    (hk : env.kind = .trade t)
    (hmem : .ok env ∈ readItems orderbookFiles ++ readItems tradeFiles) :
    decodedTrade env t ∈ rows := by
  have hrow : TradesTable.row env t t.count.centi.toInt64 ∈ out.trades := by
    rw [(accounts_of_processTicker hout).trades]
    exact List.mem_flatMap.2 ⟨.ok env, hmem, by simp [tradeRows, hk]⟩
  obtain ⟨i, hi⟩ := List.mem_iff_getElem?.1 hrow
  have hdecoded : (trades out.trades)[i]? =
      some (decodeTradeRow i (TradesTable.row env t t.count.centi.toInt64)) := by
    rw [trades, List.getElem?_mapIdx, hi]
    rfl
  rw [hrows, List.getElem?_map] at hdecoded
  obtain ⟨row, hget, hok⟩ := Option.map_eq_some_iff.1 hdecoded
  rw [← decodeTradeRow_row hok.symm]
  exact List.mem_of_getElem? hget

/-- The trade lane holds every sequenced trade under a key no later than its own: itself when it has
no id, else the one event of its id. -/
theorem exists_tradeLaneRow {rows : List TradeRow} {row : TradeRow} (hrow : row ∈ rows)
    (hseq : row.seq.isSome) : ∃ u ∈ tradeLaneRows rows, ∃ i, u.key ≤ tradeKey row i ∧
      u.2.tradeId = row.tradeId ∧ (row.tradeId = none → u.2 = row) := by
  obtain ⟨i, hi⟩ : ∃ i, (i, row) ∈ filed rows := by
    rw [← filed_snd rows] at hrow
    obtain ⟨⟨i, r⟩, hmem, rfl⟩ := List.mem_map.1 hrow
    exact ⟨i, hmem⟩
  have hlane (u : FiledTrade) : u ∈ tradeLaneRows rows ↔ u ∈ dedupTrades (filed rows) :=
    (tradeLaneRows_perm rows).mem_iff
  cases hid : row.tradeId with
  | none =>
    refine ⟨(i, row), (hlane _).2 (List.mem_append_left _ ?_), i, le_rfl, hid, fun _ => rfl⟩
    exact List.mem_filter.2 ⟨hi, by simp [hid]⟩
  | some id =>
    have hmem : id ∈ tradeIds (filed rows) := mem_tradeIds.2 ⟨_, hi, hid⟩
    obtain ⟨u, hu, hof⟩ := collapse_copiesOf hmem
    refine ⟨u, (hlane u).2 (List.mem_append_right _ (List.mem_filterMap.2 ⟨id, hmem, hu⟩)), i, ?_,
      hof.tradeId, by simp⟩
    have hcopy : (i, row) ∈ copiesOf id (filed rows) := mem_copiesOf.2 ⟨hi, hid⟩
    obtain ⟨pos, fields, hp, hf, rfl⟩ := hof
    rw [key_mergeCopies id hp hf]
    have hws : (copiesOf id (filed rows)).any FiledTrade.isWs :=
      List.any_eq_true.2 ⟨_, hcopy, hseq⟩
    rw [IsPosition, if_pos hws] at hp
    exact hp.le _ hcopy hseq

end Snapevent
