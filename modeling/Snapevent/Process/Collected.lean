import Snapevent.Lib.FoldM
import Snapevent.Process.Ticker

/-!
# What the record loop collects

A table that every record extends on the right holds, after the whole loop, what the records of the
orderbook files and then those of the trade files added to it.
-/

namespace Snapevent

/-- What one line of a file decodes to. -/
abbrev ReadItem := Except ReadError Envelope

/-- The items of some files in the order they are read. -/
def readItems (files : List CaptureFile) : List ReadItem :=
  files.flatMap fun f => readEnvelopes f.lines

namespace TickerState

variable {β : Type} (get : TickerState → List β) (add : Channel → ReadItem → List β)

theorem onFile_collect (hfiles : ∀ st fs, get { st with sourceFiles := fs } = get st)
    (hstep : ∀ c st i st', onItem c st i = .ok st' → get st' = get st ++ add c i) {c : Channel}
    {st st' : TickerState} {file : CaptureFile} (h : st.onFile c file = .ok st') :
    get st' = get st ++ (readEnvelopes file.lines).flatMap (add c) := by
  rw [onFile] at h
  cases hf : (readEnvelopes file.lines).foldlM (onItem c) st with
  | error e =>
    rw [hf] at h
    cases h
  | ok t =>
    rw [hf] at h
    cases h
    rw [hfiles]
    exact FoldM.collect (hstep c) hf

theorem onFiles_collect (hfiles : ∀ st fs, get { st with sourceFiles := fs } = get st)
    (hstep : ∀ c st i st', onItem c st i = .ok st' → get st' = get st ++ add c i)
    {orderbookFiles tradeFiles : List CaptureFile} {st : TickerState}
    (h : onFiles orderbookFiles tradeFiles = .ok st) :
    get st = get init ++ (readItems orderbookFiles).flatMap (add .orderbook) ++
      (readItems tradeFiles).flatMap (add .trade) := by
  rw [onFiles] at h
  cases hob : orderbookFiles.foldlM (onFile .orderbook) init with
  | error e =>
    rw [hob] at h
    cases h
  | ok t =>
    rw [hob] at h
    have hchannel (c : Channel) {files : List CaptureFile} {s s' : TickerState}
        (hf : files.foldlM (onFile c) s = .ok s') :
        get s' = get s ++ (readItems files).flatMap (add c) := by
      rw [FoldM.collect (fun s f s' hs => onFile_collect get add hfiles hstep hs) hf, readItems,
        List.flatMap_assoc]
    rw [hchannel .trade h, hchannel .orderbook hob]

theorem onFiles_invariant {P : TickerState → List ReadItem → Prop}
    (hfiles : ∀ {st used} fs, P st used → P { st with sourceFiles := fs } used)
    (hstep : ∀ {c st used i st'}, P st used → onItem c st i = .ok st' → P st' (used ++ [i]))
    (hinit : P init []) {orderbookFiles tradeFiles : List CaptureFile} {st : TickerState}
    (h : onFiles orderbookFiles tradeFiles = .ok st) :
    P st (readItems orderbookFiles ++ readItems tradeFiles) := by
  have hchannel (c : Channel) {files : List CaptureFile} {used : List ReadItem}
      {s s' : TickerState} (hs : P s used) (hf : files.foldlM (onFile c) s = .ok s') :
      P s' (used ++ readItems files) := by
    have hstart : P s (used ++ readItems []) := by simpa [readItems] using hs
    have hfile {s : TickerState} {done : List CaptureFile} {f : CaptureFile} {s' : TickerState}
        (hs : P s (used ++ readItems done)) (hf : s.onFile c f = .ok s') :
        P s' (used ++ readItems (done ++ [f])) := by
      obtain ⟨t, ht, hs'⟩ := FoldM.bind_ok hf
      cases hs'
      rw [readItems, List.flatMap_append, List.flatMap_singleton, ← List.append_assoc]
      exact hfiles _ (FoldM.invariant hstep hs ht)
    exact FoldM.invariant (P := fun s files => P s (used ++ readItems files)) hfile hstart hf
  obtain ⟨s, hob, htr⟩ := FoldM.bind_ok h
  simpa using hchannel .trade (hchannel .orderbook hinit hob) htr

end TickerState

theorem processTicker_eq_some {ticker : String} {orderbookFiles tradeFiles : List CaptureFile}
    {out : TickerOutput} (h : processTicker ticker orderbookFiles tradeFiles = .ok (some out)) :
    ∃ st, TickerState.onFiles orderbookFiles tradeFiles = .ok st ∧ out = st.finish ticker := by
  rw [processTicker] at h
  split_ifs at h with hempty
  · cases h
  · cases hf : TickerState.onFiles orderbookFiles tradeFiles with
    | error e =>
      rw [hf] at h
      cases h
    | ok st =>
      rw [hf] at h
      cases h
      exact ⟨st, rfl, rfl⟩

/-! ## What a record adds -/

/-- The record is a snapshot or a delta. -/
def Envelope.isBook (env : Envelope) : Bool :=
  match env.kind with
  | .snapshot _ => true
  | .delta _ => true
  | _ => false

/-- The book records of some items. -/
def bookRecords (items : List ReadItem) : List Envelope :=
  (items.filterMap Except.toOption).filter (·.isBook)

theorem bookRecords_append (items items' : List ReadItem) :
    bookRecords (items ++ items') = bookRecords items ++ bookRecords items' := by
  rw [bookRecords, List.filterMap_append, List.filter_append]
  rfl

theorem bookRecords_of_not_isBook {i : ReadItem} (h : ∀ env, i = .ok env → env.isBook = false) :
    bookRecords [i] = [] := by
  cases i with
  | error e => rfl
  | ok env => simp [bookRecords, Except.toOption, h env rfl]

/-- A book row without the number of its record. -/
def BookEventsRow.unnumbered (row : BookEventsRow) : BookEventsRow := { row with eventIdx := 0 }

/-- The unnumbered row of one level of a snapshot. -/
def BookEventsTable.levelRow (env : Envelope) (evt : Timestamp) (side : Side) (lvl : PriceLevel) :
    BookEventsRow :=
  BookEventsTable.row 0 env evt true (some (sideStr side)) (some (lvl.price.micro.toNat : ℤ))
    (some lvl.quantity.centi.toInt64)

/-- The book rows of an item, unnumbered. -/
def bookRows : ReadItem → BookEventsTable
  | .ok env =>
    match env.kind with
    | .snapshot s =>
      if s.yes.isEmpty && s.no.isEmpty then [BookEventsTable.row 0 env s.ts true none none none]
      else s.yes.map (BookEventsTable.levelRow env s.ts .yes) ++
        s.no.map (BookEventsTable.levelRow env s.ts .no)
    | .delta d => BookEventsTable.pushDelta [] 0 env d
    | _ => []
  | .error _ => []

/-- The trade rows of an item. -/
def tradeRows : ReadItem → TradesTable
  | .ok env =>
    match env.kind with
    | .trade t => [TradesTable.row env t t.count.centi.toInt64]
    | _ => []
  | .error _ => []

/-- The gap row of an item. -/
def gapRecord : ReadItem → Option (Envelope × GapMarker)
  | .ok env =>
    match env.kind with
    | .gap g => some (env, g)
    | _ => none
  | .error _ => none

theorem gapRecord_eq_some {i : ReadItem} {r : Envelope × GapMarker} :
    gapRecord i = some r ↔ i = .ok r.1 ∧ r.1.kind = .gap r.2 := by
  rcases r with ⟨env, g⟩
  cases i with
  | error e => simp [gapRecord]
  | ok env' =>
    rw [gapRecord]
    constructor
    · intro h
      split at h
      · cases h
        exact ⟨rfl, ‹_›⟩
      · cases h
    · rintro ⟨h, hk⟩
      cases h
      rw [hk]

/-- The raw rows of an item of a file of `channel`. -/
def rawRows (channel : String) : ReadItem → RawTable
  | .ok env =>
    match env.kind with
    | .raw r => [RawTable.row env channel r]
    | _ => []
  | .error _ => []

/-- The REST observation of an item. -/
def observationsOf : ReadItem → List Observation
  | .ok env =>
    match env.kind with
    | .verify v => [restObservation env.recvUs v.yes v.no]
    | _ => []
  | .error _ => []

/-- The read error of an item. -/
def readErrorsOf : ReadItem → List ReadError
  | .ok _ => []
  | .error e => [e]

/-- What one item of a file of `channel` adds to the tables of a state. -/
structure Adds (channel : Channel) (i : ReadItem) (st st' : TickerState) : Prop where
  book : st'.bookEvents.map (·.unnumbered) = st.bookEvents.map (·.unnumbered) ++ bookRows i
  trades : st'.trades = st.trades ++ tradeRows i
  gaps : st'.gapRows = st.gapRows ++ (gapRecord i).toList
  raw : st'.raw = st.raw ++ rawRows channel.str i
  verify : st'.engine.observations = st.engine.observations ++ observationsOf i
  readErrors : st'.readErrors = st.readErrors ++ readErrorsOf i
  sourceFiles : st'.sourceFiles = st.sourceFiles

/-- The book rows of a record numbered `idx`. -/
def numberedRows (idx : ℤ) (env : Envelope) : BookEventsTable :=
  (bookRows (.ok env)).map fun row => { row with eventIdx := idx }

theorem unnumbered_of_mem {i : ReadItem} {row : BookEventsRow} (h : row ∈ bookRows i) :
    row.unnumbered = row := by
  have hlevel (env : Envelope) (evt : Timestamp) (side : Side) (levels : List PriceLevel) :
      ∀ row ∈ levels.map (BookEventsTable.levelRow env evt side), row.unnumbered = row := by
    intro row hrow
    obtain ⟨lvl, -, rfl⟩ := List.mem_map.1 hrow
    rfl
  unfold bookRows at h
  split at h
  · split at h
    · split_ifs at h
      · rw [List.mem_singleton.1 h]
        rfl
      · cases List.mem_append.1 h with
        | inl h => exact hlevel _ _ _ _ row h
        | inr h => exact hlevel _ _ _ _ row h
    · rw [List.mem_singleton.1 h]
      rfl
    · cases h
  · cases h

theorem numberedRows_unnumbered (idx : ℤ) (env : Envelope) :
    (numberedRows idx env).map (·.unnumbered) = bookRows (.ok env) := by
  rw [numberedRows, List.map_map]
  refine (List.map_congr_left fun row hrow => ?_).trans (List.map_id _)
  exact unnumbered_of_mem hrow

theorem numberedRows_ne_nil (idx : ℤ) {env : Envelope} (hb : env.isBook = true) :
    numberedRows idx env ≠ [] := by
  rw [numberedRows, ne_eq, List.map_eq_nil_iff]
  simp only [bookRows]
  cases hk : env.kind with
  | snapshot s =>
    dsimp only
    split_ifs with hempty
    · simp
    · rw [Bool.and_eq_true, List.isEmpty_iff, List.isEmpty_iff] at hempty
      simpa using hempty
  | delta d => simp [BookEventsTable.pushDelta]
  | _ => simp [Envelope.isBook, hk] at hb

/-- The rows of a book record carry its receive time and say whether it is a snapshot. -/
theorem bookRows_stamp {env : Envelope} {row : BookEventsRow} (h : row ∈ bookRows (.ok env)) :
    row.recvTsUs = env.recvUs ∧ (row.isSnapshot = true ↔ ∃ s, env.kind = .snapshot s) := by
  simp only [bookRows] at h
  cases hk : env.kind with
  | snapshot s =>
    rw [hk] at h
    dsimp only at h
    split_ifs at h
    · simp [List.mem_singleton.1 h, BookEventsTable.row]
    · obtain hmem | hmem := List.mem_append.1 h
      · obtain ⟨lvl, -, rfl⟩ := List.mem_map.1 hmem
        simp [BookEventsTable.levelRow, BookEventsTable.row]
      · obtain ⟨lvl, -, rfl⟩ := List.mem_map.1 hmem
        simp [BookEventsTable.levelRow, BookEventsTable.row]
  | delta d =>
    rw [hk] at h
    rw [List.mem_singleton.1 h]
    simp [BookEventsTable.row]
  | _ => simp [hk] at h

theorem numberedRows_stamp {idx : ℤ} {env : Envelope} {row : BookEventsRow}
    (h : row ∈ numberedRows idx env) :
    row.recvTsUs = env.recvUs ∧ (row.isSnapshot = true ↔ ∃ s, env.kind = .snapshot s) := by
  obtain ⟨row', hrow, rfl⟩ := List.mem_map.1 h
  have hstamp := bookRows_stamp hrow
  exact hstamp

theorem levelRows_eq {idx : ℤ} {env : Envelope} {evt : Timestamp} {side : Side}
    {levels : List PriceLevel} {rows : List BookEventsRow}
    (h : BookEventsTable.levelRows idx env evt side levels = .ok rows) :
    rows = levels.map fun lvl =>
      { BookEventsTable.levelRow env evt side lvl with eventIdx := idx } := by
  induction levels generalizing rows with
  | nil =>
    cases h
    rfl
  | cons lvl levels ih =>
    simp only [BookEventsTable.levelRows, List.mapM_cons] at h ih
    obtain ⟨row, hrow, h⟩ := FoldM.bind_ok h
    obtain ⟨rest, hrest, h⟩ := FoldM.bind_ok h
    obtain ⟨q, hq, hrow⟩ := FoldM.bind_ok hrow
    cases h
    cases hrow
    rw [List.map_cons, ih hrest, qtyCentiI64_ok hq]
    rfl

theorem pushSnapshot_eq {t t' : BookEventsTable} {idx : ℤ} {env : Envelope}
    {s : OrderbookSnapshot} (hk : env.kind = .snapshot s)
    (h : t.pushSnapshot idx env s = .ok t') : t' = t ++ numberedRows idx env := by
  simp only [numberedRows, bookRows, hk]
  unfold BookEventsTable.pushSnapshot at h
  split_ifs at h ⊢ with hempty
  · cases h
    rfl
  · obtain ⟨yes, hyes, h⟩ := FoldM.bind_ok h
    obtain ⟨no, hno, h⟩ := FoldM.bind_ok h
    cases h
    rw [levelRows_eq hyes, levelRows_eq hno, List.map_append, List.map_map, List.map_map,
      List.append_assoc]
    rfl

theorem pushDelta_eq (t : BookEventsTable) (idx : ℤ) {env : Envelope} {d : OrderbookDelta}
    (hk : env.kind = .delta d) : t.pushDelta idx env d = t ++ numberedRows idx env := by
  simp only [numberedRows, bookRows, hk]
  rfl

theorem tradesPush_ok {t t' : TradesTable} {env : Envelope} {trade : Trade}
    (h : t.push env trade = .ok t') :
    t' = t ++ [TradesTable.row env trade trade.count.centi.toInt64] := by
  obtain ⟨count, hcount, h⟩ := FoldM.bind_ok h
  cases h
  rw [qtyCentiI64_ok hcount]

namespace TickerState

@[simp] theorem afterBook_bookEvents (st : TickerState) (env : Envelope) (evt : Timestamp)
    (event : String) (isSnapshot : Bool) :
    (st.afterBook env evt event isSnapshot).bookEvents = st.bookEvents := rfl

theorem afterBook_observations (st : TickerState) (env : Envelope) (evt : Timestamp)
    (event : String) (isSnapshot : Bool) :
    (st.afterBook env evt event isSnapshot).engine.observations = st.engine.observations :=
  VerifyEngine.onBookEvent_observations _ _ _ _

/-- What one item of a file of `channel` does to the state of the loop. -/
inductive ItemStep (channel : Channel) (st : TickerState) : ReadItem → TickerState → Prop
  | error (e : ReadError) :
    ItemStep channel st (.error e) { st with readErrors := st.readErrors ++ [e] }
  | snapshot {env : Envelope} {s : OrderbookSnapshot} (hk : env.kind = .snapshot s) :
    ItemStep channel st (.ok env) (afterBook { st with
      recvExtent := extend st.recvExtent env.recvUs
      bookEvents := st.bookEvents ++ numberedRows st.eventIdx env
      snapTsUs := st.snapTsUs ++ [env.recvUs]
      book := st.book.applySnapshot s } env s.ts "snapshot" true)
  | delta {env : Envelope} {d : OrderbookDelta} (hk : env.kind = .delta d) :
    ItemStep channel st (.ok env) (afterBook { st with
      recvExtent := extend st.recvExtent env.recvUs
      bookEvents := st.bookEvents ++ numberedRows st.eventIdx env
      book := st.book.applyDelta d } env d.ts "delta" false)
  | trade {env : Envelope} {t : Trade} (hk : env.kind = .trade t) :
    ItemStep channel st (.ok env) { st with
      recvExtent := extend st.recvExtent env.recvUs
      trades := st.trades ++ [TradesTable.row env t t.count.centi.toInt64]
      tradeExtent := extend st.tradeExtent t.ts.timestampMicros }
  | gap {env : Envelope} {g : GapMarker} (hk : env.kind = .gap g) :
    ItemStep channel st (.ok env) { st with
      recvExtent := extend st.recvExtent env.recvUs
      gapRows := st.gapRows ++ [(env, g)]
      engine := if channel = .orderbook then st.engine.onGap else st.engine }
  | raw {env : Envelope} {r : RawFallback} (hk : env.kind = .raw r) :
    ItemStep channel st (.ok env) { st with
      recvExtent := extend st.recvExtent env.recvUs
      raw := st.raw ++ [RawTable.row env channel.str r] }
  | verify {env : Envelope} {v : OrderbookSnapshot} (hk : env.kind = .verify v) :
    ItemStep channel st (.ok env) { st with
      recvExtent := extend st.recvExtent env.recvUs
      engine := st.engine.onVerify env.recvUs v.yes v.no st.book }

theorem onItem_step {c : Channel} {st st' : TickerState} {i : ReadItem}
    (h : st.onItem c i = .ok st') : ItemStep c st i st' := by
  cases i with
  | error e =>
    cases h
    exact .error e
  | ok env =>
    rw [onItem, onEnvelope] at h
    cases hk : env.kind with
    | snapshot s =>
      rw [hk] at h
      obtain ⟨table, htable, h⟩ := FoldM.bind_ok h
      cases h
      rw [pushSnapshot_eq hk htable]
      exact .snapshot hk
    | delta d =>
      rw [hk] at h
      cases h
      rw [pushDelta_eq _ _ hk]
      exact .delta hk
    | trade t =>
      rw [hk] at h
      obtain ⟨table, htable, h⟩ := FoldM.bind_ok h
      cases h
      rw [tradesPush_ok htable]
      exact .trade hk
    | gap g =>
      rw [hk] at h
      cases h
      exact .gap hk
    | raw r =>
      rw [hk] at h
      cases h
      exact .raw hk
    | verify v =>
      rw [hk] at h
      cases h
      exact .verify hk

theorem onItem_adds {c : Channel} {st st' : TickerState} {i : ReadItem}
    (h : st.onItem c i = .ok st') : Adds c i st st' := by
  cases onItem_step h with
  | error e =>
    constructor <;> simp [bookRows, tradeRows, gapRecord, rawRows, observationsOf, readErrorsOf]
  | snapshot hk =>
    constructor
    case book => rw [afterBook_bookEvents, List.map_append, numberedRows_unnumbered]
    case verify =>
      rw [afterBook_observations]
      simp [observationsOf, hk]
    all_goals simp [tradeRows, gapRecord, rawRows, readErrorsOf, hk, afterBook]
  | delta hk =>
    constructor
    case book => rw [afterBook_bookEvents, List.map_append, numberedRows_unnumbered]
    case verify =>
      rw [afterBook_observations]
      simp [observationsOf, hk]
    all_goals simp [tradeRows, gapRecord, rawRows, readErrorsOf, hk, afterBook]
  | gap hk =>
    constructor
    case verify =>
      simp only [observationsOf, hk, List.append_nil]
      split_ifs
      · exact VerifyEngine.onGap_observations _
      · rfl
    all_goals simp [bookRows, tradeRows, gapRecord, rawRows, readErrorsOf, hk]
  | verify hk =>
    constructor
    case verify =>
      simp only [observationsOf, hk]
      exact VerifyEngine.onVerify_observations _ _ _ _ _
    all_goals simp [bookRows, tradeRows, gapRecord, rawRows, readErrorsOf, hk]
  | trade hk =>
    constructor <;>
      simp [bookRows, tradeRows, gapRecord, rawRows, observationsOf, readErrorsOf, hk]
  | raw hk =>
    constructor <;>
      simp [bookRows, tradeRows, gapRecord, rawRows, observationsOf, readErrorsOf, hk]

end TickerState

/-! ## The whole ticker -/

/-- The gap records of a ticker's files in the order they are read. -/
def streamGaps (orderbookFiles tradeFiles : List CaptureFile) : List (Envelope × GapMarker) :=
  (readItems orderbookFiles ++ readItems tradeFiles).filterMap gapRecord

theorem gapsTable_eq (rows : List (Envelope × GapMarker)) :
    gapsTable rows = rows.map fun r => GapsTable.row r.1 r.2 := by
  have h (t : GapsTable) : rows.foldl (fun t r => t.push r.1 r.2) t =
      t ++ rows.map fun r => GapsTable.row r.1 r.2 := by
    induction rows generalizing t with
    | nil => simp
    | cons r rows ih => rw [List.foldl_cons, ih, GapsTable.push, List.map_cons, List.append_assoc,
        List.singleton_append]
  exact h []

/-- The output of a ticker holds exactly what its items add and, in the gaps table, the synthesized
mismatch rows. -/
structure Accounts (ticker : String) (orderbookFiles tradeFiles : List CaptureFile)
    (out : TickerOutput) : Prop where
  book : out.bookEvents.map (·.unnumbered) =
    (readItems orderbookFiles ++ readItems tradeFiles).flatMap bookRows
  trades : out.trades = (readItems orderbookFiles ++ readItems tradeFiles).flatMap tradeRows
  gaps : out.gaps = gapsTable (sortGapRows
    (streamGaps orderbookFiles tradeFiles ++ out.verify.filterMap (mismatchGapRow ticker)))
  raw : out.raw = (readItems orderbookFiles).flatMap (rawRows Channel.orderbook.str) ++
    (readItems tradeFiles).flatMap (rawRows Channel.trade.str)
  verify : out.verify.map (·.observation) =
    (readItems orderbookFiles ++ readItems tradeFiles).flatMap observationsOf
  readErrors : out.readErrors =
    (readItems orderbookFiles ++ readItems tradeFiles).flatMap readErrorsOf
  ticker_eq : out.outcome.ticker = ticker
  complete_iff : out.outcome.complete = true ↔ out.readErrors = [] ∧ out.raw = []

theorem accounts_of_onFiles {ticker : String} {orderbookFiles tradeFiles : List CaptureFile}
    {st : TickerState} (h : TickerState.onFiles orderbookFiles tradeFiles = .ok st) :
    Accounts ticker orderbookFiles tradeFiles (st.finish ticker) := by
  have hitem {c : Channel} {s : TickerState} {i : ReadItem} {s' : TickerState}
      (hs : s.onItem c i = .ok s') : Adds c i s s' := TickerState.onItem_adds hs
  have hgaps : st.gapRows = streamGaps orderbookFiles tradeFiles := by
    rw [TickerState.onFiles_collect (fun st => st.gapRows) (fun _ i => (gapRecord i).toList)
      (fun _ _ => rfl) (fun c st i st' hs => (hitem hs).gaps) h, streamGaps, List.filterMap_append]
    simp [TickerState.init, List.filterMap_eq_flatMap_toList]
  constructor
  case book =>
    refine (TickerState.onFiles_collect (fun st => st.bookEvents.map (·.unnumbered))
      (fun _ i => bookRows i) (fun _ _ => rfl) (fun c st i st' hs => (hitem hs).book) h).trans ?_
    simp [TickerState.init]
  case trades =>
    exact (TickerState.onFiles_collect (fun st => st.trades) (fun _ i => tradeRows i)
      (fun _ _ => rfl) (fun c st i st' hs => (hitem hs).trades) h).trans (by simp [TickerState.init])
  case gaps =>
    rw [← hgaps]
    rfl
  case raw =>
    exact (TickerState.onFiles_collect (fun st => st.raw) (fun c => rawRows c.str) (fun _ _ => rfl)
      (fun c st i st' hs => (hitem hs).raw) h).trans (by simp [TickerState.init])
  case verify =>
    apply (VerifyEngine.finish_observations st.engine).trans
    exact (TickerState.onFiles_collect (fun st => st.engine.observations)
      (fun _ i => observationsOf i) (fun _ _ => rfl) (fun c st i st' hs => (hitem hs).verify) h).trans
      (by simp [TickerState.init, VerifyEngine.new, VerifyEngine.observations])
  case readErrors =>
    exact (TickerState.onFiles_collect (fun st => st.readErrors) (fun _ i => readErrorsOf i)
      (fun _ _ => rfl) (fun c st i st' hs => (hitem hs).readErrors) h).trans
      (by simp [TickerState.init])
  case ticker_eq => rfl
  case complete_iff => simp [TickerState.finish]

theorem accounts_of_processTicker {ticker : String} {orderbookFiles tradeFiles : List CaptureFile}
    {out : TickerOutput} (h : processTicker ticker orderbookFiles tradeFiles = .ok (some out)) :
    Accounts ticker orderbookFiles tradeFiles out := by
  obtain ⟨st, hst, rfl⟩ := processTicker_eq_some h
  exact accounts_of_onFiles hst

end Snapevent
