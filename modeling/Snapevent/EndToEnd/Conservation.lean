import Snapevent.EndToEnd.WrittenLanes
import Snapevent.Lib.Somewhere

/-!
# Every line is accounted for

The manifest lets the raw capture be deleted when a ticker is complete.  That decision rests on the
counts: every line that is not blank is one row, of one table, or a preserved read error.
-/

namespace Snapevent

/-- The line holds nothing but white space. -/
def Line.isBlank : Line → Bool
  | .io _ => false
  | .text raw _ => raw.toList.all isWhiteSpace

/-- The line decodes to a record that is not a raw fallback. -/
def Line.Structured : Line → Prop
  | .io _ => False
  | .text _ (.error _) => False
  | .text _ (.ok env) => env.validate = .ok () ∧ ∀ r, env.kind ≠ .raw r

/-- The lines of a file that are not blank. -/
def CaptureFile.nonBlank (f : CaptureFile) : List Line := f.lines.filter (!·.isBlank)

/-- The quantities that go to a signed column fit it. -/
def Envelope.QuantitiesFit (env : Envelope) : Prop :=
  match env.kind with
  | .snapshot s => ∀ l ∈ s.yes ++ s.no, l.quantity.centi.toNat < 2 ^ 63
  | .trade t => t.count.centi.toNat < 2 ^ 63
  | _ => True

/-- Event time and name of a book record. -/
def Envelope.bookStamp (env : Envelope) : Option (ℤ × String) :=
  match env.kind with
  | .snapshot s => some (s.ts.timestampMicros, "snapshot")
  | .delta d => some (d.ts.timestampMicros, "delta")
  | _ => none

/-- The top-of-book row is the one of record number `n`. -/
def BookTopRow.Names (row : BookTopRow) (n : ℕ) (env : Envelope) : Prop :=
  row.eventIdx = n ∧ row.recvTsUs = env.recvUs ∧ row.seq = seqI64 env.seq ∧
    env.bookStamp = some (row.eventTsUs, row.event)

/-- What processing the files of a ticker conserves. -/
structure Conserved (ticker : String) (orderbookFiles tradeFiles : List CaptureFile)
    (out : TickerOutput) : Prop where
  records : out.sourceFiles.map (·.records) =
    (orderbookFiles ++ tradeFiles).map fun f => f.nonBlank.length
  accounts : Accounts ticker orderbookFiles tradeFiles out
  balance : (out.sourceFiles.map (·.records)).sum +
      (out.verify.filter (·.outcome = .mismatch)).length =
    out.bookTop.length + out.trades.length + out.raw.length + out.verify.length +
      out.readErrors.length + out.gaps.length
  numbered : out.bookTop.map (·.eventIdx) = (List.range out.bookTop.length).map fun n : ℕ => (n : ℤ)
  named : ∀ (n : ℕ) row, out.bookTop[n]? = some row →
    ∃ env, (bookRecords (readItems orderbookFiles ++ readItems tradeFiles))[n]? = some env ∧
      row.Names n env ∧ out.bookEvents.filter (·.eventIdx = (n : ℤ)) = numberedRows n env ∧
      numberedRows n env ≠ []
  rows : ∀ row ∈ out.bookEvents, ∃ n < out.bookTop.length, row.eventIdx = n
  complete_iff : out.outcome.complete = true ↔
    ∀ f ∈ orderbookFiles ++ tradeFiles, ∀ l ∈ f.nonBlank, l.Structured

/-! ## Lines and items -/

theorem readLine_isSome (n : ℕ) (l : Line) : (readLine n l).isSome = !l.isBlank := by
  cases l with
  | io e => rfl
  | text raw parsed =>
    simp only [readLine, Line.isBlank]
    cases hblank : raw.toList.all isWhiteSpace with
    | true => simp
    | false =>
      cases parsed with
      | error e => simp
      | ok env =>
        cases hv : env.validate with
        | error e => simp [hv]
        | ok _ => simp [hv]

theorem readEnvelopes_length (f : CaptureFile) :
    (readEnvelopes f.lines).length = f.nonBlank.length := by
  have h (l : List (Line × ℕ)) : (l.filterMap fun x => readLine x.2 x.1).length =
      ((l.map (·.1)).filter (!·.isBlank)).length := by
    induction l with
    | nil => rfl
    | cons x l ih =>
      have hx := readLine_isSome x.2 x.1
      rw [List.filterMap_cons, List.map_cons, List.filter_cons, ← hx]
      cases readLine x.2 x.1 with
      | none => exact ih
      | some i => exact congrArg (· + 1) ih
  rw [readEnvelopes, h, List.zipIdx_map_fst, CaptureFile.nonBlank]

/-- The item is a record that is not a raw fallback. -/
def ReadItem.Structured (i : ReadItem) : Prop := ∃ env, i = .ok env ∧ ∀ r, env.kind ≠ .raw r

theorem structured_iff {n : ℕ} {l : Line} {i : ReadItem} (h : readLine n l = some i) :
    ReadItem.Structured i ↔ l.Structured := by
  cases l with
  | io e =>
    cases h
    simp [ReadItem.Structured, Line.Structured]
  | text raw parsed =>
    simp only [readLine] at h
    split_ifs at h with hblank
    cases parsed with
    | error e =>
      cases h
      simp [ReadItem.Structured, Line.Structured]
    | ok env =>
      dsimp only at h
      unfold Line.Structured
      cases hv : env.validate with
      | error e =>
        rw [hv] at h
        cases h
        simp [ReadItem.Structured, hv]
      | ok _ =>
        rw [hv] at h
        cases h
        simp [ReadItem.Structured, hv]

theorem readEnvelopes_structured (f : CaptureFile) :
    (∀ i ∈ readEnvelopes f.lines, ReadItem.Structured i) ↔ ∀ l ∈ f.nonBlank, l.Structured := by
  simp only [readEnvelopes, CaptureFile.nonBlank, List.mem_filterMap, List.mem_filter]
  constructor
  · rintro h l ⟨hl, hblank⟩
    rw [← List.zipIdx_map_fst 1 f.lines] at hl
    obtain ⟨x, hx, rfl⟩ := List.mem_map.1 hl
    rw [← readLine_isSome x.2] at hblank
    obtain ⟨i, hi⟩ := Option.isSome_iff_exists.1 hblank
    exact (structured_iff hi).1 (h i ⟨x, hx, hi⟩)
  · rintro h i ⟨x, hx, hi⟩
    have hl : x.1 ∈ f.lines := by
      rw [← List.zipIdx_map_fst 1 f.lines]
      exact List.mem_map_of_mem hx
    have hblank := readLine_isSome x.2 x.1
    rw [hi] at hblank
    exact (structured_iff hi).2 (h x.1 ⟨hl, hblank.symm⟩)

/-! ## The numbers of book records -/

/-- The book tables after some items: the rows of their book records, numbered in order. -/
structure NumberedBooks (st : TickerState) (items : List ReadItem) : Prop where
  rows : st.bookEvents = (bookRecords items).zipIdx.flatMap fun r => numberedRows r.2 r.1
  length : st.bookTop.length = (bookRecords items).length
  top : ∀ (n : ℕ) row, st.bookTop[n]? = some row →
    ∃ env, (bookRecords items)[n]? = some env ∧ row.Names n env
  idx : st.eventIdx = (bookRecords items).length

theorem bookRecords_concat (items : List ReadItem) {env : Envelope} (hb : env.isBook = true) :
    bookRecords (items ++ [.ok env]) = bookRecords items ++ [env] := by
  rw [bookRecords_append]
  simp [bookRecords, Except.toOption, hb]

theorem bookRecords_concat_of_not_isBook (items : List ReadItem) {i : ReadItem}
    (h : ∀ env, i = .ok env → env.isBook = false) :
    bookRecords (items ++ [i]) = bookRecords items := by
  rw [bookRecords_append, bookRecords_of_not_isBook h, List.append_nil]

/-- A book record gets the next number. -/
theorem NumberedBooks.book {st st' : TickerState} {used : List ReadItem} {env : Envelope}
    (hs : NumberedBooks st used) (hb : env.isBook = true)
    (hrows : st'.bookEvents = st.bookEvents ++ numberedRows st.eventIdx env) {row : BookTopRow}
    (htop : st'.bookTop = st.bookTop ++ [row]) (hidx : st'.eventIdx = st.eventIdx + 1)
    (hnames : row.eventIdx = st.eventIdx ∧ row.recvTsUs = env.recvUs ∧ row.seq = seqI64 env.seq ∧
      env.bookStamp = some (row.eventTsUs, row.event)) : NumberedBooks st' (used ++ [.ok env]) := by
  have hconcat := bookRecords_concat used hb
  constructor
  case rows =>
    rw [hrows, hconcat, List.zipIdx_append, List.flatMap_append, ← hs.rows, hs.idx]
    simp
  case length => rw [htop, hconcat, List.length_append, List.length_append, hs.length]; rfl
  case idx => rw [hidx, hconcat, hs.idx, List.length_append]; rfl
  case top =>
    intro n r hr
    rw [htop] at hr
    rw [hconcat]
    rcases Nat.lt_or_ge n st.bookTop.length with hn | hn
    · rw [List.getElem?_append_left hn] at hr
      rw [List.getElem?_append_left (hs.length ▸ hn)]
      exact hs.top n r hr
    · rw [List.getElem?_append_right hn] at hr
      rw [List.getElem?_append_right (hs.length ▸ hn), ← hs.length]
      rw [List.getElem?_singleton] at hr ⊢
      split_ifs at hr ⊢ with hzero
      · cases hr
        have hn' : n = st.bookTop.length := by omega
        obtain ⟨hrow, hrest⟩ := hnames
        refine ⟨env, rfl, ?_, hrest⟩
        rw [hrow, hs.idx, hn', hs.length]

theorem NumberedBooks.onItem {st st' : TickerState} {c : Channel} {used : List ReadItem}
    {i : ReadItem} (hs : NumberedBooks st used) (h : st.onItem c i = .ok st') :
    NumberedBooks st' (used ++ [i]) := by
  have hother (hnot : ∀ env, i = .ok env → env.isBook = false)
      (hrows : st'.bookEvents = st.bookEvents) (htop : st'.bookTop = st.bookTop)
      (hidx : st'.eventIdx = st.eventIdx) : NumberedBooks st' (used ++ [i]) := by
    have hsame := bookRecords_concat_of_not_isBook used hnot
    exact ⟨by rw [hrows, hsame, hs.rows], by rw [htop, hsame, hs.length],
      by rw [htop, hsame]; exact hs.top, by rw [hidx, hsame, hs.idx]⟩
  have hnot {env : Envelope} (hb : env.isBook = false) :
      ∀ env', (Except.ok env : ReadItem) = .ok env' → env'.isBook = false := by
    rintro env' heq
    cases heq
    exact hb
  cases TickerState.onItem_step h with
  | snapshot hk =>
    exact hs.book (by rw [Envelope.isBook, hk]) rfl rfl rfl
      ⟨rfl, rfl, rfl, by rw [Envelope.bookStamp, hk]⟩
  | delta hk =>
    exact hs.book (by rw [Envelope.isBook, hk]) rfl rfl rfl
      ⟨rfl, rfl, rfl, by rw [Envelope.bookStamp, hk]⟩
  | error e => exact hother (by simp) rfl rfl rfl
  | trade hk => exact hother (hnot (by rw [Envelope.isBook, hk])) rfl rfl rfl
  | gap hk => exact hother (hnot (by rw [Envelope.isBook, hk])) rfl rfl rfl
  | raw hk => exact hother (hnot (by rw [Envelope.isBook, hk])) rfl rfl rfl
  | verify hk => exact hother (hnot (by rw [Envelope.isBook, hk])) rfl rfl rfl

theorem numbered_of_onFiles {orderbookFiles tradeFiles : List CaptureFile} {st : TickerState}
    (h : TickerState.onFiles orderbookFiles tradeFiles = .ok st) :
    NumberedBooks st (readItems orderbookFiles ++ readItems tradeFiles) :=
  TickerState.onFiles_invariant (fun _ hs => ⟨hs.rows, hs.length, hs.top, hs.idx⟩)
    (fun hs hi => hs.onItem hi) ⟨rfl, rfl, by simp [TickerState.init], rfl⟩ h

/-! ## Processing succeeds -/

theorem levelRows_ok {levels : List PriceLevel} (h : ∀ l ∈ levels, l.quantity.centi.toNat < 2 ^ 63)
    (idx : ℤ) (env : Envelope) (evt : Timestamp) (side : Side) :
    ∃ rows, BookEventsTable.levelRows idx env evt side levels = .ok rows := by
  induction levels with
  | nil => exact ⟨[], rfl⟩
  | cons lvl levels ih =>
    obtain ⟨hlvl, hlevels⟩ := List.forall_mem_cons.1 h
    obtain ⟨rows, hrows⟩ := ih hlevels
    rw [BookEventsTable.levelRows, List.mapM_cons]
    rw [BookEventsTable.levelRows] at hrows
    rw [hrows, qtyCentiI64_of_lt hlvl]
    exact ⟨_, rfl⟩

theorem TickerState.onItem_ok {i : ReadItem} (h : ∀ env, i = .ok env → env.QuantitiesFit)
    (c : Channel) (st : TickerState) : ∃ st', st.onItem c i = .ok st' := by
  cases i with
  | error e => exact ⟨_, rfl⟩
  | ok env =>
    have hfit := h env rfl
    unfold Envelope.QuantitiesFit at hfit
    rw [onItem, onEnvelope]
    cases hk : env.kind with
    | snapshot s =>
      rw [hk] at hfit
      obtain ⟨yes, hyes⟩ := levelRows_ok (fun l hl => hfit l (List.mem_append_left _ hl))
        st.eventIdx env s.ts .yes
      obtain ⟨no, hno⟩ := levelRows_ok (fun l hl => hfit l (List.mem_append_right _ hl))
        st.eventIdx env s.ts .no
      obtain ⟨table, htable⟩ : ∃ table, st.bookEvents.pushSnapshot st.eventIdx env s = .ok table := by
        unfold BookEventsTable.pushSnapshot
        split_ifs
        · exact ⟨_, rfl⟩
        · rw [hyes, hno]
          exact ⟨_, rfl⟩
      dsimp only
      rw [htable]
      exact ⟨_, rfl⟩
    | trade t =>
      rw [hk] at hfit
      dsimp only
      rw [TradesTable.push, qtyCentiI64_of_lt hfit]
      exact ⟨_, rfl⟩
    | delta d => exact ⟨_, rfl⟩
    | gap g => exact ⟨_, rfl⟩
    | raw r => exact ⟨_, rfl⟩
    | verify v => exact ⟨_, rfl⟩

theorem TickerState.foldlM_onFile_ok {c : Channel} {files : List CaptureFile}
    (h : ∀ env, Except.ok env ∈ readItems files → env.QuantitiesFit) (st : TickerState) :
    ∃ st', files.foldlM (onFile c) st = .ok st' := by
  refine FoldM.exists_ok (fun f hf st => ?_) st
  have hitem : ∀ i ∈ readEnvelopes f.lines, ∀ st : TickerState, ∃ st', st.onItem c i = .ok st' := by
    intro i hi st
    refine onItem_ok (fun env henv => h env ?_) c st
    rw [← henv]
    exact List.mem_flatMap.2 ⟨f, hf, hi⟩
  obtain ⟨t, ht⟩ := FoldM.exists_ok hitem st
  rw [onFile, ht]
  exact ⟨_, rfl⟩

/-- Files whose quantities fit their columns are processed. -/
theorem processTicker_ok (ticker : String) {orderbookFiles tradeFiles : List CaptureFile}
    (hne : orderbookFiles ++ tradeFiles ≠ [])
    (h : ∀ env, Except.ok env ∈ readItems orderbookFiles ++ readItems tradeFiles →
      env.QuantitiesFit) :
    ∃ out, processTicker ticker orderbookFiles tradeFiles = .ok (some out) := by
  obtain ⟨st, hst⟩ := TickerState.foldlM_onFile_ok (c := .orderbook)
    (fun env henv => h env (List.mem_append_left _ henv)) .init
  obtain ⟨st', hst'⟩ := TickerState.foldlM_onFile_ok (c := .trade)
    (fun env henv => h env (List.mem_append_right _ henv)) st
  have hfiles : TickerState.onFiles orderbookFiles tradeFiles = .ok st' := by
    rw [TickerState.onFiles, hst]
    exact hst'
  have hsome : ¬ (orderbookFiles.isEmpty && tradeFiles.isEmpty) = true := by
    intro hempty
    rw [Bool.and_eq_true, List.isEmpty_iff, List.isEmpty_iff] at hempty
    exact hne (by rw [hempty.1, hempty.2, List.nil_append])
  refine ⟨st'.finish ticker, ?_⟩
  rw [processTicker, if_neg hsome, hfiles]
  rfl

/-! ## The balance -/

theorem onFiles_sourceFiles {orderbookFiles tradeFiles : List CaptureFile} {st : TickerState}
    (h : TickerState.onFiles orderbookFiles tradeFiles = .ok st) :
    st.sourceFiles.map (·.records) =
      (orderbookFiles ++ tradeFiles).map fun f => f.nonBlank.length := by
  have hfile (c : Channel) (s : TickerState) (f : CaptureFile) (s' : TickerState)
      (hs : s.onFile c f = .ok s') : s'.sourceFiles.map (·.records) =
        s.sourceFiles.map (·.records) ++ [f.nonBlank.length] := by
    obtain ⟨t, ht, hs⟩ := FoldM.bind_ok hs
    cases hs
    have hitem (s : TickerState) (i : ReadItem) (s' : TickerState) (hs : s.onItem c i = .ok s') :
        s'.sourceFiles = s.sourceFiles ++ [] := by
      rw [(TickerState.onItem_adds hs).sourceFiles, List.append_nil]
    have hsame := FoldM.collect hitem ht
    simp [hsame, readEnvelopes_length]
  obtain ⟨t, hob, htr⟩ := FoldM.bind_ok h
  have hob' := FoldM.collect (hfile .orderbook) hob
  have htr' := FoldM.collect (hfile .trade) htr
  rw [htr', hob', List.map_append, List.map_eq_flatMap (l := orderbookFiles),
    List.map_eq_flatMap (l := tradeFiles)]
  rfl

theorem item_accounted (channel : String) (i : ReadItem) :
    (bookRecords [i]).length + (tradeRows i).length + (rawRows channel i).length +
      (observationsOf i).length + (readErrorsOf i).length + (gapRecord i).toList.length = 1 := by
  cases i with
  | error e => rfl
  | ok env =>
    cases hk : env.kind <;>
      simp [bookRecords, Except.toOption, Envelope.isBook, tradeRows, rawRows, observationsOf,
        readErrorsOf, gapRecord, hk]

theorem items_accounted (channel : String) (items : List ReadItem) :
    (bookRecords items).length + (items.flatMap tradeRows).length +
      (items.flatMap (rawRows channel)).length + (items.flatMap observationsOf).length +
      (items.flatMap readErrorsOf).length + (items.filterMap gapRecord).length = items.length := by
  induction items with
  | nil => rfl
  | cons i items ih =>
    have hi := item_accounted channel i
    have hbook := congrArg List.length (bookRecords_append [i] items)
    rw [List.singleton_append, List.length_append] at hbook
    have hgap : ((i :: items).filterMap gapRecord).length =
        (gapRecord i).toList.length + (items.filterMap gapRecord).length := by
      rw [List.filterMap_cons]
      cases gapRecord i with
      | none => simp
      | some g => simp [Nat.add_comm]
    simp only [List.flatMap_cons, List.length_append, List.length_cons]
    omega

section Processed

variable {ticker : String} {orderbookFiles tradeFiles : List CaptureFile} {out : TickerOutput}

/-- Every mismatch has a gap row: its time is that of a record. -/
theorem synthesized_length (h : Accounts ticker orderbookFiles tradeFiles out) :
    (out.verify.filterMap (mismatchGapRow ticker)).length =
      (out.verify.filter (·.outcome = .mismatch)).length := by
  have hstamped : ∀ row ∈ out.verify, ∃ dt, Timestamp.fromTimestampMicros row.recvTsUs = some dt := by
    intro row hrow
    have hobs := List.mem_map_of_mem (f := (·.observation)) hrow
    rw [h.verify] at hobs
    obtain ⟨i, -, hi⟩ := List.mem_flatMap.1 hobs
    cases i with
    | error e => cases hi
    | ok env =>
      simp only [observationsOf] at hi
      split at hi
      · have heq := List.mem_singleton.1 hi
        have hts : row.recvTsUs = env.recvUs := congrArg Prod.fst heq
        obtain ⟨dt, hdt, -⟩ := Timestamp.fromTimestampMicros_timestampMicros env.recvTs
        exact ⟨dt, by rw [hts]; exact hdt⟩
      · cases hi
  generalize out.verify = rows at hstamped ⊢
  induction rows with
  | nil => rfl
  | cons row rows ih =>
    obtain ⟨⟨dt, hdt⟩, hrows⟩ := List.forall_mem_cons.1 hstamped
    rw [List.filterMap_cons, List.filter_cons, mismatchGapRow]
    by_cases hm : row.outcome = .mismatch
    · simp [hm, hdt, ih hrows]
    · simp [hm, ih hrows]

theorem complete_iff_structured (h : Accounts ticker orderbookFiles tradeFiles out) :
    out.outcome.complete = true ↔
      ∀ f ∈ orderbookFiles ++ tradeFiles, ∀ l ∈ f.nonBlank, l.Structured := by
  have hitem (channel : String) (i : ReadItem) :
      ReadItem.Structured i ↔ readErrorsOf i = [] ∧ rawRows channel i = [] := by
    cases i with
    | error e => simp [ReadItem.Structured, readErrorsOf]
    | ok env => cases hk : env.kind <;> simp [ReadItem.Structured, readErrorsOf, rawRows, hk]
  have hfiles (channel : String) (files : List CaptureFile) :
      (readItems files).flatMap readErrorsOf = [] ∧ (readItems files).flatMap (rawRows channel) = [] ↔
        ∀ f ∈ files, ∀ l ∈ f.nonBlank, l.Structured := by
    simp only [← readEnvelopes_structured, List.flatMap_eq_nil_iff, readItems, List.mem_flatMap,
      hitem channel]
    constructor
    · rintro ⟨herrors, hraw⟩ f hf i hi
      exact ⟨herrors i ⟨f, hf, hi⟩, hraw i ⟨f, hf, hi⟩⟩
    · intro hall
      constructor
      · rintro i ⟨f, hf, hi⟩
        exact (hall f hf i hi).1
      · rintro i ⟨f, hf, hi⟩
        exact (hall f hf i hi).2
  rw [h.complete_iff, h.readErrors, h.raw, List.flatMap_append, List.append_eq_nil_iff,
    List.append_eq_nil_iff, List.forall_mem_append, ← hfiles Channel.orderbook.str orderbookFiles,
    ← hfiles Channel.trade.str tradeFiles]
  exact and_and_and_comm

theorem eventIdx_of_mem {idx : ℤ} {env : Envelope} {row : BookEventsRow}
    (h : row ∈ numberedRows idx env) : row.eventIdx = idx := by
  obtain ⟨row', -, rfl⟩ := List.mem_map.1 h
  rfl

/-- The rows numbered `n` are those of record `n`. -/
theorem filter_numberedRows {records : List Envelope} {n : ℕ} {env : Envelope}
    (h : records[n]? = some env) :
    (records.zipIdx.flatMap fun r => numberedRows r.2 r.1).filter (·.eventIdx = (n : ℤ)) =
      numberedRows n env := by
  have hnone {l : List (Envelope × ℕ)} (hl : ∀ r ∈ l, r.2 ≠ n) :
      (l.flatMap fun r => numberedRows r.2 r.1).filter (·.eventIdx = (n : ℤ)) = [] := by
    refine List.filter_eq_nil_iff.2 fun row hrow => ?_
    obtain ⟨r, hr, hrow⟩ := List.mem_flatMap.1 hrow
    have := hl r hr
    rw [eventIdx_of_mem hrow, decide_eq_true_eq]
    omega
  have hall : (numberedRows n env).filter (·.eventIdx = (n : ℤ)) = numberedRows n env :=
    List.filter_eq_self.2 fun row hrow => decide_eq_true (eventIdx_of_mem hrow)
  obtain ⟨before, after, rfl, rfl⟩ := List.split_of_getElem? h
  rw [List.zipIdx_append, List.zipIdx_cons, List.flatMap_append, List.flatMap_cons,
    List.filter_append, List.filter_append, Nat.zero_add, hall, hnone, hnone, List.nil_append,
    List.append_nil]
  · intro r hr
    have := (List.mem_zipIdx hr).1
    omega
  · intro r hr
    have := (List.mem_zipIdx hr).2.1
    omega

theorem readItems_length (files : List CaptureFile) :
    (readItems files).length = (files.map fun f => f.nonBlank.length).sum := by
  rw [readItems, List.length_flatMap]
  simp only [readEnvelopes_length]

/-- The items are the rows of the tables and the read errors; the mismatches are gap rows besides. -/
theorem balance_of_accounts (h : Accounts ticker orderbookFiles tradeFiles out)
    (hbook : out.bookTop.length =
      (bookRecords (readItems orderbookFiles ++ readItems tradeFiles)).length) :
    (readItems orderbookFiles).length + (readItems tradeFiles).length +
        (out.verify.filter (·.outcome = .mismatch)).length =
      out.bookTop.length + out.trades.length + out.raw.length + out.verify.length +
        out.readErrors.length + out.gaps.length := by
  have hob := items_accounted Channel.orderbook.str (readItems orderbookFiles)
  have htr := items_accounted Channel.trade.str (readItems tradeFiles)
  have hsynthesized := synthesized_length h
  have htrades := congrArg List.length h.trades
  have hraw := congrArg List.length h.raw
  have hverify := congrArg List.length h.verify
  have herrors := congrArg List.length h.readErrors
  have hgaps := congrArg List.length h.gaps
  rw [bookRecords_append, List.length_append] at hbook
  rw [List.flatMap_append, List.length_append] at htrades herrors hverify
  rw [List.length_append] at hraw
  rw [List.length_map] at hverify
  rw [gapsTable_eq, List.length_map, sortGapRows, List.length_insertionSort, List.length_append,
    streamGaps, List.filterMap_append, List.length_append] at hgaps
  omega

theorem NumberedBooks.numbered {st : TickerState} {items : List ReadItem}
    (hs : NumberedBooks st items) :
    st.bookTop.map (·.eventIdx) = (List.range st.bookTop.length).map fun n : ℕ => (n : ℤ) := by
  apply List.ext_getElem?
  intro n
  rw [List.getElem?_map, List.getElem?_map]
  cases hrow : st.bookTop[n]? with
  | none =>
    rw [List.getElem?_eq_none (by simpa using List.getElem?_eq_none_iff.1 hrow)]
    rfl
  | some row =>
    obtain ⟨env, -, hidx, -⟩ := hs.top n row hrow
    have hn := (List.getElem?_eq_some_iff.1 hrow).1
    rw [List.getElem?_range hn]
    exact congrArg some hidx

theorem conserved_of_onFiles {st : TickerState}
    (h : TickerState.onFiles orderbookFiles tradeFiles = .ok st) :
    Conserved ticker orderbookFiles tradeFiles (st.finish ticker) := by
  have hnum := numbered_of_onFiles h
  set out := st.finish ticker with hout
  have hacc : Accounts ticker orderbookFiles tradeFiles out := accounts_of_onFiles h
  have hrecords : out.sourceFiles.map (·.records) =
      (orderbookFiles ++ tradeFiles).map fun f => f.nonBlank.length := onFiles_sourceFiles h
  constructor
  case records => exact hrecords
  case accounts => exact hacc
  case complete_iff => exact complete_iff_structured hacc
  case numbered => exact hnum.numbered
  case balance =>
    rw [hrecords, ← readItems_length, readItems, List.flatMap_append, List.length_append]
    exact balance_of_accounts hacc hnum.length
  case named =>
    intro n row hrow
    obtain ⟨env, henv, hnames⟩ := hnum.top n row hrow
    have hb : env.isBook = true := (List.mem_filter.1 (List.mem_of_getElem? henv)).2
    refine ⟨env, henv, hnames, ?_, numberedRows_ne_nil n hb⟩
    rw [← filter_numberedRows henv, ← hnum.rows]
    rfl
  case rows =>
    intro row hrow
    have hrows : row ∈ st.bookEvents := hrow
    rw [hnum.rows] at hrows
    obtain ⟨r, hr, hrow'⟩ := List.mem_flatMap.1 hrows
    refine ⟨r.2, ?_, eventIdx_of_mem hrow'⟩
    show r.2 < st.bookTop.length
    rw [hnum.length]
    simpa using (List.mem_zipIdx hr).2.1

end Processed

/-- Processing a ticker whose quantities fit succeeds, and accounts for every line that is not blank
exactly once. -/
theorem processing_conserves (ticker : String) {orderbookFiles tradeFiles : List CaptureFile}
    (hq : ∀ env, Except.ok env ∈ readItems (orderbookFiles ++ tradeFiles) → env.QuantitiesFit) :
    ∃ result, processTicker ticker orderbookFiles tradeFiles = .ok result ∧
      (result = none ↔ orderbookFiles = [] ∧ tradeFiles = []) ∧
      ∀ out, result = some out → Conserved ticker orderbookFiles tradeFiles out := by
  by_cases hempty : orderbookFiles = [] ∧ tradeFiles = []
  · refine ⟨none, ?_, by simp [hempty], by simp⟩
    rw [processTicker, hempty.1, hempty.2]
    rfl
  have hfit (env : Envelope) (henv : Except.ok env ∈ readItems orderbookFiles ∨
      Except.ok env ∈ readItems tradeFiles) : env.QuantitiesFit := by
    apply hq
    rw [readItems, List.flatMap_append]
    exact List.mem_append.2 henv
  obtain ⟨st₁, hob⟩ := TickerState.foldlM_onFile_ok (c := .orderbook)
    (fun env henv => hfit env (Or.inl henv)) TickerState.init
  obtain ⟨st, htr⟩ := TickerState.foldlM_onFile_ok (c := .trade)
    (fun env henv => hfit env (Or.inr henv)) st₁
  have hst : TickerState.onFiles orderbookFiles tradeFiles = .ok st := by
    rw [TickerState.onFiles, hob]
    exact htr
  refine ⟨some (st.finish ticker), ?_, by simp [hempty], ?_⟩
  · rw [processTicker, if_neg (by simpa using hempty), hst]
    rfl
  rintro out hout
  cases hout
  exact conserved_of_onFiles hst

/-- A snapshot record of market `A`. -/
def snapshotEnvelope : Envelope :=
  .new epoch (some 1) (some 1) (.snapshot
    { ticker := ⟨"A"⟩, ts := epoch, yes := [⟨⟨500000⟩, ⟨100⟩⟩], no := [] })

/-- A file with a blank line, an unreadable one and a snapshot. -/
def mixedFile : CaptureFile :=
  { path := "orderbook/2026-07-03.jsonl"
    lines := [.text " " (.error "EOF while parsing"), .text "x" (.error "expected value"),
      .text "\x7b\x7d" (.ok snapshotEnvelope)] }

theorem processing_conserves_sample : ∃ out, processTicker "A" [mixedFile] [] = .ok (some out) ∧
    out.bookTop.length = 1 ∧ out.readErrors.length = 1 ∧ Conserved "A" [mixedFile] [] out := by
  have hfit : ∀ env, Except.ok env ∈ readItems ([mixedFile] ++ []) → env.QuantitiesFit := by
    intro env henv
    change Except.ok env ∈ [.error _, .ok snapshotEnvelope] at henv
    obtain rfl : env = snapshotEnvelope := by simpa using henv
    simp [Envelope.QuantitiesFit, snapshotEnvelope, Envelope.new]
  obtain ⟨result, hresult, -, hconserved⟩ := processing_conserves "A" hfit
  obtain ⟨out, hout, hlen⟩ : ∃ out, processTicker "A" [mixedFile] [] = .ok (some out) ∧
      out.bookTop.length = 1 ∧ out.readErrors.length = 1 := ⟨_, rfl, by decide⟩
  rw [hout] at hresult
  cases hresult
  exact ⟨out, hout, hlen.1, hlen.2, hconserved out rfl⟩

end Snapevent
