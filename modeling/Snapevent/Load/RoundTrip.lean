import Mathlib.Algebra.Order.Monoid.Unbundled.WithTop
import Snapevent.Load.Replay
import Snapevent.Load.Stream
import Snapevent.Process.Ticker

/-!
# Book reconstruction across the stored format

The book records of one ticker are written to its `book_events` table, read back, regrouped and
replayed.  The replayed book is the one the processor held, after every record.
-/

namespace Snapevent

/-! ## Rows of one record -/

/-- A decoded snapshot row of `env`. -/
def snapRow (idx : ℤ) (env : Envelope) (side : Option Side) (price : Option UInt32)
    (qty : Option Int64) : BookEventRow :=
  { eventIdx := idx, recvTsUs := env.recvUs, seq := seqI64 env.seq, isSnapshot := true
    side, priceMicro := price, qtyCenti := qty }

/-- The decoded row of one snapshot level. -/
def levelRow (idx : ℤ) (env : Envelope) (side : Side) (level : PriceLevel) : BookEventRow :=
  snapRow idx env (some side) (some level.price.micro) (some level.quantity.centi.toInt64)

/-- The decoded rows of a record. -/
def recordRows (idx : ℤ) (env : Envelope) : List BookEventRow :=
  match env.kind with
  | .snapshot s =>
    if s.yes.isEmpty && s.no.isEmpty then [snapRow idx env none none none]
    else s.yes.map (levelRow idx env .yes) ++ s.no.map (levelRow idx env .no)
  | .delta d =>
    [{ snapRow idx env (some d.side) (some d.price.micro) (some d.delta.centi) with
       isSnapshot := false }]
  | _ => []

/-- The levels of a snapshot side as an event shows them. -/
def eventLevels (levels : List PriceLevel) : List Level := levels.map fun l => ⟨l.price, l.quantity⟩

/-- The event of a book record. -/
def recordEvent (idx : ℤ) (env : Envelope) : Option ReplayEvent :=
  match env.kind with
  | .delta d => some (.delta env.recvUs idx d.side d.price d.delta)
  | .snapshot s => some (.snapshot env.recvUs idx (eventLevels s.yes) (eventLevels s.no) false)
  | _ => none

/-- The book after a record. -/
def recordBook (b : Book) (env : Envelope) : Book :=
  match env.kind with
  | .snapshot s => b.applySnapshot s
  | .delta d => b.applyDelta d
  | _ => b

/-- A snapshot or delta whose columns fit their signed 64-bit types. -/
structure BookRecord (env : Envelope) : Prop where
  kind : (∃ s, env.kind = .snapshot s) ∨ ∃ d, env.kind = .delta d
  seq : ∀ s, env.seq = some s → s.toNat < 2 ^ 63
  qty : ∀ s, env.kind = .snapshot s → ∀ l ∈ s.yes ++ s.no, l.quantity.centi.toNat < 2 ^ 63

/-- A snapshot or delta the table can hold. -/
structure WritableRecord (env : Envelope) : Prop where
  kind : (∃ s, env.kind = .snapshot s) ∨ ∃ d, env.kind = .delta d
  qty : ∀ s, env.kind = .snapshot s → ∀ l ∈ s.yes ++ s.no, l.quantity.centi.toNat < 2 ^ 63

theorem BookRecord.writable {env : Envelope} (h : BookRecord env) : WritableRecord env :=
  ⟨h.kind, h.qty⟩

/-- The written rows `t` decode to `rows`, wherever they stand. -/
def DecodesTo (t : BookEventsTable) (rows : List BookEventRow) : Prop :=
  List.Forall₂ (fun w r => ∀ i, decodeBookRow i w = .ok r) t rows

theorem DecodesTo.bookEvents {t : BookEventsTable} {rows : List BookEventRow}
    (h : DecodesTo t rows) : bookEvents t = rows.map .ok := by
  have hn (n : ℕ) : (t.mapIdx fun i w => decodeBookRow (i + n) w) = rows.map .ok := by
    induction h generalizing n with
    | nil => rfl
    | @cons w r t rows hw _ ih =>
      rw [List.mapIdx_cons, hw]
      have := ih (n + 1)
      simp only [Nat.add_assoc, Nat.add_comm 1 n, List.map_cons] at this ⊢
      rw [this]
  exact hn 0

theorem DecodesTo.append {t t' : BookEventsTable} {rows rows' : List BookEventRow}
    (h : DecodesTo t rows) (h' : DecodesTo t' rows') : DecodesTo (t ++ t') (rows ++ rows') :=
  List.rel_append h h'

/-- The rows of one snapshot side are written and decode to its levels. -/
theorem levelRows_decodes (idx : ℤ) (env : Envelope) (evt : Timestamp) (side : Side)
    (levels : List PriceLevel) (hq : ∀ l ∈ levels, l.quantity.centi.toNat < 2 ^ 63) :
    ∃ t, BookEventsTable.levelRows idx env evt side levels = .ok t ∧
      DecodesTo t (levels.map (levelRow idx env side)) := by
  induction levels with
  | nil => exact ⟨[], rfl, .nil⟩
  | cons l levels ih =>
    obtain ⟨t, ht, hd⟩ := ih fun l h => hq l (List.mem_cons_of_mem _ h)
    refine ⟨BookEventsTable.row idx env evt true (some (sideStr side))
      (some (l.price.micro.toNat : ℤ)) (some l.quantity.centi.toInt64) :: t, ?_, .cons (fun i => ?_) hd⟩
    · rw [BookEventsTable.levelRows, List.mapM_cons, qtyCentiI64_of_lt (hq l List.mem_cons_self)]
      show (BookEventsTable.levelRows idx env evt side levels >>= _) = _
      rw [ht]
      rfl
    · simp [decodeBookRow, BookEventsTable.row, decodeOpt, levelRow, snapRow]
      rfl

/-- The rows of a snapshot are written and decode to the rows of its record. -/
theorem pushSnapshot_decodes {t : BookEventsTable} {rows : List BookEventRow}
    (h : DecodesTo t rows) (idx : ℤ) {env : Envelope} {s : OrderbookSnapshot}
    (hs : env.kind = .snapshot s) (hq : ∀ l ∈ s.yes ++ s.no, l.quantity.centi.toNat < 2 ^ 63) :
    ∃ t', t.pushSnapshot idx env s = .ok t' ∧ DecodesTo t' (rows ++ recordRows idx env) := by
  rw [recordRows, hs]
  by_cases hempty : s.yes.isEmpty && s.no.isEmpty
  · refine ⟨t ++ [BookEventsTable.row idx env s.ts true none none none], ?_, ?_⟩
    · rw [BookEventsTable.pushSnapshot, if_pos hempty]
      rfl
    · simp only [hempty, if_true]
      exact h.append (.cons (fun i => rfl) .nil)
  · obtain ⟨yes, hyes, hdyes⟩ := levelRows_decodes idx env s.ts .yes s.yes fun l h =>
      hq l (List.mem_append_left _ h)
    obtain ⟨no, hno, hdno⟩ := levelRows_decodes idx env s.ts .no s.no fun l h =>
      hq l (List.mem_append_right _ h)
    refine ⟨t ++ yes ++ no, ?_, ?_⟩
    · rw [BookEventsTable.pushSnapshot, if_neg hempty]
      simp only [hyes, hno]
      rfl
    · simp only [hempty, if_false, Bool.false_eq_true]
      rw [← List.append_assoc]
      exact (h.append hdyes).append hdno

theorem pushDelta_decodes {t : BookEventsTable} {rows : List BookEventRow} (h : DecodesTo t rows)
    (idx : ℤ) {env : Envelope} {d : OrderbookDelta} (hd : env.kind = .delta d) :
    DecodesTo (t.pushDelta idx env d) (rows ++ recordRows idx env) := by
  rw [recordRows, hd]
  refine h.append (.cons (fun i => ?_) .nil)
  simp [decodeBookRow, BookEventsTable.row, decodeOpt, snapRow]
  rfl

/-! ## Processing the records -/

/-- The loop state after some book records: the rows they decode to, the next index, the book. -/
structure BookState (st : TickerState) (rows : List BookEventRow) (idx : ℤ) (b : Book) : Prop where
  rows : DecodesTo st.bookEvents rows
  idx : st.eventIdx = idx
  book : st.book = b

theorem BookState.onEnvelope {st : TickerState} {rows : List BookEventRow} {idx : ℤ} {b : Book}
    (h : BookState st rows idx b) {env : Envelope} (hr : WritableRecord env) (channel : Channel) :
    ∃ st', st.onEnvelope channel env = .ok st' ∧
      BookState st' (rows ++ recordRows idx env) (idx + 1) (recordBook b env) := by
  obtain ⟨hrows, rfl, rfl⟩ := h
  rcases hr.kind with ⟨s, hs⟩ | ⟨d, hd⟩
  · obtain ⟨t', ht, hdec⟩ := pushSnapshot_decodes hrows st.eventIdx hs (hr.qty s hs)
    refine ⟨_, by rw [TickerState.onEnvelope, hs]; simp only [ht]; rfl, hdec, rfl, ?_⟩
    rw [recordBook, hs]
    rfl
  · refine ⟨_, by rw [TickerState.onEnvelope, hd]; rfl, pushDelta_decodes hrows _ hd, rfl, ?_⟩
    rw [recordBook, hd]
    rfl

/-- The decoded rows of records numbered from `idx`. -/
def recordsRows (idx : ℤ) : List Envelope → List BookEventRow
  | [] => []
  | env :: rest => recordRows idx env ++ recordsRows (idx + 1) rest

/-- The events of records numbered from `idx`. -/
def recordEvents (idx : ℤ) : List Envelope → List ReplayEvent
  | [] => []
  | env :: rest => (recordEvent idx env).toList ++ recordEvents (idx + 1) rest

theorem BookState.run {st : TickerState} {rows : List BookEventRow} {idx : ℤ} {b : Book}
    (h : BookState st rows idx b) {records : List Envelope} (hr : ∀ env ∈ records, WritableRecord env)
    (channel : Channel) :
    ∃ st', records.foldlM (TickerState.onEnvelope · channel) st = .ok st' ∧
      BookState st' (rows ++ recordsRows idx records) (idx + records.length)
        (records.foldl recordBook b) := by
  induction records generalizing st rows idx b with
  | nil => exact ⟨st, rfl, by simpa [recordsRows] using h⟩
  | cons env records ih =>
    obtain ⟨st₁, h₁, hst₁⟩ := h.onEnvelope (hr env List.mem_cons_self) channel
    obtain ⟨st₂, h₂, hst₂⟩ := ih hst₁ fun env h => hr env (List.mem_cons_of_mem _ h)
    refine ⟨st₂, ?_, ?_⟩
    · rw [List.foldlM_cons, h₁]
      exact h₂
    · have hlen : idx + (env :: records).length = idx + 1 + records.length := by
        simp only [List.length_cons]
        omega
      rw [hlen, recordsRows, ← List.append_assoc]
      exact hst₂

/-! ## Regrouping -/

/-- The numbered rows of each record. -/
def recordChunks (idx : ℤ) (n : ℕ) : List Envelope → List (List (BookEventRow × ℕ))
  | [] => []
  | env :: rest =>
    (recordRows idx env).zipIdx n :: recordChunks (idx + 1) (n + (recordRows idx env).length) rest

theorem recordChunks_flatten (idx : ℤ) (n : ℕ) (records : List Envelope) :
    (recordChunks idx n records).flatten = (recordsRows idx records).zipIdx n := by
  induction records generalizing idx n with
  | nil => rfl
  | cons env records ih =>
    rw [recordChunks, List.flatten_cons, ih, recordsRows, List.zipIdx_append, Nat.add_comm n]

/-- The rows of one record: well formed, stamped with its index, time and sequence number, all of
one kind, and a single row unless they are a snapshot's. -/
structure RecordRows (idx : ℤ) (env : Envelope) (snap : Bool) (rows : List BookEventRow) : Prop where
  ne_nil : rows ≠ []
  row : ∀ r ∈ rows, r.eventIdx = idx ∧ r.recvTsUs = env.recvUs ∧ r.seq = seqI64 env.seq ∧
    r.isSnapshot = snap ∧ r.wellFormed
  single : snap = false → rows.length = 1

theorem recordRows_snapshot (idx : ℤ) {env : Envelope} {s : OrderbookSnapshot}
    (hs : env.kind = .snapshot s) (hq : ∀ l ∈ s.yes ++ s.no, l.quantity.centi.toNat < 2 ^ 63) :
    RecordRows idx env true (recordRows idx env) := by
  rw [recordRows, hs]
  by_cases hempty : s.yes.isEmpty && s.no.isEmpty
  · simp only [hempty, if_true]
    refine ⟨by simp, fun r hr => ?_, by simp⟩
    rw [List.mem_singleton.1 hr]
    exact ⟨rfl, rfl, rfl, rfl, rfl⟩
  · simp only [hempty, if_false, Bool.false_eq_true]
    have hrow (side : Side) (l : PriceLevel) (hl : l ∈ s.yes ++ s.no) :
        (levelRow idx env side l).wellFormed := by
      simpa [BookEventRow.wellFormed, levelRow, snapRow] using toInt64_nonneg (hq l hl)
    refine ⟨?_, fun r hr => ?_, by simp⟩
    · simpa [imp_iff_not_or, not_and_or] using hempty
    · rcases List.mem_append.1 hr with hr | hr
      · obtain ⟨l, hl, rfl⟩ := List.mem_map.1 hr
        exact ⟨rfl, rfl, rfl, rfl, hrow _ _ (List.mem_append_left _ hl)⟩
      · obtain ⟨l, hl, rfl⟩ := List.mem_map.1 hr
        exact ⟨rfl, rfl, rfl, rfl, hrow _ _ (List.mem_append_right _ hl)⟩

theorem recordRows_delta (idx : ℤ) {env : Envelope} {d : OrderbookDelta}
    (hd : env.kind = .delta d) : RecordRows idx env false (recordRows idx env) := by
  rw [recordRows, hd]
  refine ⟨by simp, fun r hr => ?_, fun _ => rfl⟩
  rw [List.mem_singleton.1 hr]
  exact ⟨rfl, rfl, rfl, rfl, rfl⟩

theorem recordRows_spec (idx : ℤ) {env : Envelope} (hr : WritableRecord env) :
    ∃ snap, RecordRows idx env snap (recordRows idx env) := by
  rcases hr.kind with ⟨s, hs⟩ | ⟨d, hd⟩
  · exact ⟨true, recordRows_snapshot idx hs (hr.qty s hs)⟩
  · exact ⟨false, recordRows_delta idx hd⟩

theorem fst_mem_of_mem_zipIdx {rows : List BookEventRow} {n : ℕ} {x : BookEventRow × ℕ}
    (hx : x ∈ rows.zipIdx n) : x.1 ∈ rows := by
  rw [← List.zipIdx_map_fst n rows]
  exact List.mem_map_of_mem hx

theorem RecordRows.isChain {idx : ℤ} {env : Envelope} {snap : Bool} {rows : List BookEventRow}
    (h : RecordRows idx env snap rows) (n : ℕ) :
    (rows.zipIdx n).IsChain fun a b => sameGroup a b := by
  cases snap with
  | true =>
    refine List.Pairwise.isChain (List.pairwise_of_forall_mem_list fun a ha b hb => ?_)
    obtain ⟨hia, -, -, hsa, -⟩ := h.row _ (fst_mem_of_mem_zipIdx ha)
    obtain ⟨hib, -, -, hsb, -⟩ := h.row _ (fst_mem_of_mem_zipIdx hb)
    simp [sameGroup, BookEventRow.joins, hsa, hsb, hia, hib]
  | false =>
    obtain ⟨r, rfl⟩ := List.length_eq_one_iff.1 (h.single rfl)
    exact .singleton _

/-- The merge key of a record whose first row is number `n`. -/
def recordKey (idx : ℤ) (env : Envelope) (n : ℕ) : MergeKey :=
  ⟨env.recvUs, (seqPart (seqI64 env.seq)).1, (seqPart (seqI64 env.seq)).2, PRI_BOOK, idx, n⟩

theorem levelsOf_zipIdx (side : Side) (rows : List BookEventRow) (n : ℕ) :
    levelsOf side (rows.zipIdx n) = rows.filterMap (rowLevel side) := by
  conv_rhs => rw [← List.zipIdx_map_fst n rows, List.filterMap_map]
  rfl

theorem filterMap_rowLevel_levelRow (idx : ℤ) (env : Envelope) (side side' : Side)
    (levels : List PriceLevel) :
    (levels.map (levelRow idx env side')).filterMap (rowLevel side) =
      if side' = side then eventLevels levels else [] := by
  induction levels with
  | nil => simp [eventLevels]
  | cons l levels ih =>
    rw [List.map_cons, List.filterMap_cons, ih]
    by_cases h : side' = side <;> simp [h, rowLevel, levelRow, snapRow, eventLevels]

/-- The rows of a record are regrouped to its event. -/
theorem groupEvent_recordRows (idx : ℤ) {env : Envelope} (hr : WritableRecord env) (n : ℕ) :
    ∃ ev, recordEvent idx env = some ev ∧
      groupEvent ((recordRows idx env).zipIdx n) = some (recordKey idx env n, ev) := by
  rcases hr.kind with ⟨s, hs⟩ | ⟨d, hd⟩
  · refine ⟨_, by rw [recordEvent, hs], ?_⟩
    have hlevels (side : Side) : levelsOf side ((recordRows idx env).zipIdx n) =
        eventLevels (if side = .yes then s.yes else s.no) := by
      rw [levelsOf_zipIdx, recordRows, hs]
      by_cases hempty : s.yes.isEmpty && s.no.isEmpty
      · obtain ⟨hyes, hno⟩ : s.yes = [] ∧ s.no = [] := by simpa using hempty
        cases side <;> simp [hyes, hno, rowLevel, snapRow, eventLevels]
      · simp only [hempty, if_false, Bool.false_eq_true, List.filterMap_append,
          filterMap_rowLevel_levelRow]
        cases side <;> simp
    have hspec := recordRows_snapshot idx hs (hr.qty s hs)
    have hyes := hlevels .yes
    have hno := hlevels .no
    obtain ⟨r, rest, hrows⟩ := List.exists_cons_of_ne_nil hspec.ne_nil
    obtain ⟨hidx, hts, hseq, hsnap, -⟩ := hspec.row r (by simp [hrows])
    rw [hrows, List.zipIdx_cons] at hyes hno ⊢
    rw [groupEvent, if_pos hsnap, hyes, hno, bookKey, hidx, hts, hseq]
    rfl
  · refine ⟨_, by rw [recordEvent, hd], ?_⟩
    rw [recordRows, hd]
    rfl

/-- The keyed events of records numbered from `idx`, their first row being number `n`. -/
def recordLane (idx : ℤ) (n : ℕ) : List Envelope → List (MergeKey × ReplayEvent)
  | [] => []
  | env :: rest =>
    ((recordEvent idx env).map (recordKey idx env n, ·)).toList ++
      recordLane (idx + 1) (n + (recordRows idx env).length) rest

theorem recordLane_snd (idx : ℤ) (n : ℕ) (records : List Envelope) :
    (recordLane idx n records).map (·.2) = recordEvents idx records := by
  induction records generalizing idx n with
  | nil => rfl
  | cons env records ih =>
    rw [recordLane, recordEvents, List.map_append, ih]
    rcases recordEvent idx env with _ | ev <;> rfl

/-- Chunks of later records have later indices. -/
theorem recordChunks_spec (idx : ℤ) (n : ℕ) {records : List Envelope}
    (hr : ∀ env ∈ records, WritableRecord env) :
    (recordChunks idx n records).filterMap groupEvent = recordLane idx n records ∧
      (∀ c ∈ recordChunks idx n records, c ≠ [] ∧ (c.IsChain fun a b => sameGroup a b) ∧
        ∀ x ∈ c, idx ≤ x.1.eventIdx) ∧
      (recordChunks idx n records).IsChain fun a b =>
        ∃ ha hb, sameGroup (a.getLast ha) (b.head hb) = false := by
  induction records generalizing idx n with
  | nil => exact ⟨rfl, by simp [recordChunks], .nil⟩
  | cons env records ih =>
    have henv := hr env List.mem_cons_self
    obtain ⟨snap, hspec⟩ := recordRows_spec idx henv
    obtain ⟨ihe, ihc, ihs⟩ := ih (idx + 1) (n + (recordRows idx env).length)
      fun env h => hr env (List.mem_cons_of_mem _ h)
    obtain ⟨ev, hev, hg⟩ := groupEvent_recordRows idx henv n
    have hne : (recordRows idx env).zipIdx n ≠ [] := by
      simpa [List.zipIdx_eq_nil_iff] using hspec.ne_nil
    rw [recordChunks, recordLane]
    refine ⟨?_, List.forall_mem_cons.2 ⟨⟨hne, hspec.isChain n, fun x hx => ?_⟩, fun c hc => ?_⟩, ?_⟩
    · rw [List.filterMap_cons, hg, ihe, hev]
      rfl
    · exact (hspec.row _ (fst_mem_of_mem_zipIdx hx)).1.ge
    · obtain ⟨h₁, h₂, h₃⟩ := ihc c hc
      exact ⟨h₁, h₂, fun x hx => by have := h₃ x hx; omega⟩
    · refine List.isChain_cons.2 ⟨fun c hc => ?_, ihs⟩
      obtain ⟨hc₁, -, hc₃⟩ := ihc c (List.mem_of_mem_head? hc)
      refine ⟨hne, hc₁, ?_⟩
      have hlast := (hspec.row _ (fst_mem_of_mem_zipIdx (List.getLast_mem hne))).1
      have hhead := hc₃ _ (List.head_mem hc₁)
      have hneq : (c.head hc₁).1.eventIdx ≠
          (((recordRows idx env).zipIdx n).getLast hne).1.eventIdx := by
        omega
      simp [sameGroup, BookEventRow.joins, hneq]

theorem groupedBook_recordsRows (idx : ℤ) (n : ℕ) {records : List Envelope}
    (hr : ∀ env ∈ records, WritableRecord env) :
    groupedBook n (recordsRows idx records) = recordLane idx n records := by
  obtain ⟨hevents, hchunks, hsplit⟩ := recordChunks_spec idx n hr
  have hnil : [] ∉ recordChunks idx n records := fun h => (hchunks [] h).1 rfl
  rw [groupedBook, ← recordChunks_flatten,
    List.splitBy_flatten hnil (fun c hc => (hchunks c hc).2.1) hsplit, hevents]

theorem recordsRows_wellFormed (idx : ℤ) {records : List Envelope}
    (hr : ∀ env ∈ records, WritableRecord env) : ∀ r ∈ recordsRows idx records, r.wellFormed := by
  induction records generalizing idx with
  | nil => simp [recordsRows]
  | cons env records ih =>
    obtain ⟨snap, hspec⟩ := recordRows_spec idx (hr env List.mem_cons_self)
    refine List.forall_mem_append.2 ⟨fun r h => (hspec.row r h).2.2.2.2, ?_⟩
    exact ih _ fun env h => hr env (List.mem_cons_of_mem _ h)

/-! ## The lane is in order -/

/-- Receive time in microseconds, then sequence number with a missing one last. -/
def recordOrder (env : Envelope) : ℤ ×ₗ WithTop ℕ :=
  toLex (env.recvUs, env.seq.elim ⊤ fun s => (s.toNat : WithTop ℕ))

theorem recordKey_lt {a b : Envelope} (ha : BookRecord a) (hb : BookRecord b)
    (h : recordOrder a ≤ recordOrder b) {idx idx' : ℤ} (hidx : idx < idx') (n n' : ℕ) :
    recordKey idx a n < recordKey idx' b n' := by
  rw [MergeKey.lt_iff]
  simp only [recordOrder, Prod.Lex.toLex_le_toLex] at h
  rcases h with h | ⟨hts, hseq⟩
  · exact Or.inl h
  · refine Or.inr ⟨hts, ?_⟩
    simp only [recordKey]
    rcases hsa : a.seq with _ | s <;> rcases hsb : b.seq with _ | t
    · simp [seqI64, seqPart, hidx]
    · simp [hsa, hsb] at hseq
    · rw [seqI64_some (ha.seq s hsa)]
      simp [seqI64, seqPart]
    · rw [seqI64_some (ha.seq s hsa), seqI64_some (hb.seq t hsb)]
      have hle : s.toNat ≤ t.toNat := by simpa [hsa, hsb] using hseq
      refine Or.inr ⟨rfl, ?_⟩
      rcases hle.lt_or_eq with hlt | heq
      · exact Or.inl (Int.ofNat_lt.2 hlt)
      · exact Or.inr ⟨by rw [heq], Or.inr ⟨trivial, Or.inl hidx⟩⟩

theorem recordLane_key_ge (idx : ℤ) (n : ℕ) (records : List Envelope) :
    ∀ x ∈ recordLane idx n records, ∃ env ∈ records, ∃ i m, idx ≤ i ∧ x.1 = recordKey i env m := by
  induction records generalizing idx n with
  | nil => simp [recordLane]
  | cons env records ih =>
    rintro x hx
    rcases List.mem_append.1 hx with hx | hx
    · obtain ⟨ev, -, rfl⟩ := Option.map_eq_some_iff.1 (Option.mem_toList.1 hx)
      exact ⟨env, List.mem_cons_self, idx, n, le_rfl, rfl⟩
    · obtain ⟨env', henv', i, m, hi, hkey⟩ := ih _ _ x hx
      exact ⟨env', List.mem_cons_of_mem _ henv', i, m, by omega, hkey⟩

/-- Records in order make a lane in key order. -/
theorem recordLane_sorted (idx : ℤ) (n : ℕ) {records : List Envelope}
    (hr : ∀ env ∈ records, BookRecord env)
    (ho : records.Pairwise fun a b => recordOrder a ≤ recordOrder b) :
    (recordLane idx n records).Pairwise fun x y => x.1 ≤ y.1 := by
  induction records generalizing idx n with
  | nil => exact .nil
  | cons env records ih =>
    obtain ⟨henv, ho⟩ := List.pairwise_cons.1 ho
    refine List.pairwise_append.2 ⟨?_, ih _ _ (fun e h => hr e (List.mem_cons_of_mem _ h)) ho, ?_⟩
    · cases recordEvent idx env with
      | none => exact .nil
      | some ev => exact .cons (by simp) .nil
    · intro x hx y hy
      obtain ⟨ev, -, rfl⟩ := Option.map_eq_some_iff.1 (Option.mem_toList.1 hx)
      obtain ⟨env', henv', i, m, hi, hkey⟩ := recordLane_key_ge _ _ _ y hy
      rw [hkey]
      exact (recordKey_lt (hr env List.mem_cons_self) (hr env' (List.mem_cons_of_mem _ henv'))
        (henv env' henv') (by omega) n m).le

/-! ## Replaying the events -/

theorem toLevels_eventLevels (levels : List PriceLevel) : toLevels (eventLevels levels) = levels := by
  rw [toLevels, eventLevels, List.map_map]
  exact List.map_id _

/-- The event of a record does to the replayed book what the record does to the processor's. -/
theorem apply_recordEvent (r : BookReplayer) (idx : ℤ) {env : Envelope} {ev : ReplayEvent}
    (hev : recordEvent idx env = some ev) : (r.apply ev).book = recordBook r.book env := by
  unfold recordEvent at hev
  split at hev
  case h_1 d hd =>
    cases hev
    rw [recordBook, hd]
    rfl
  case h_2 s hs =>
    cases hev
    rw [recordBook, hs, BookReplayer.apply, toLevels_eventLevels, toLevels_eventLevels]
    rfl
  case h_3 => cases hev

theorem run_recordEvents (r : BookReplayer) (idx : ℤ) {records : List Envelope}
    (hr : ∀ env ∈ records, WritableRecord env) :
    (r.run (recordEvents idx records)).book = records.foldl recordBook r.book ∧
      (recordEvents idx records).length = records.length := by
  induction records generalizing r idx with
  | nil => exact ⟨rfl, rfl⟩
  | cons env records ih =>
    obtain ⟨ev, hev, -⟩ := groupEvent_recordRows idx (hr env List.mem_cons_self) 0
    obtain ⟨hbook, hlen⟩ := ih (r.apply ev) (idx + 1) fun env h => hr env (List.mem_cons_of_mem _ h)
    rw [recordEvents, hev]
    refine ⟨?_, by simpa using hlen⟩
    rw [List.foldl_cons, ← apply_recordEvent r idx hev]
    exact hbook

theorem recordEvents_take (idx : ℤ) {records : List Envelope}
    (hr : ∀ env ∈ records, WritableRecord env) (n : ℕ) :
    (recordEvents idx records).take n = recordEvents idx (records.take n) := by
  induction records generalizing idx n with
  | nil => simp [recordEvents]
  | cons env records ih =>
    cases n with
    | zero => rfl
    | succ n =>
      obtain ⟨ev, hev, -⟩ := groupEvent_recordRows idx (hr env List.mem_cons_self) 0
      have := ih (idx + 1) (fun env h => hr env (List.mem_cons_of_mem _ h)) n
      simpa [recordEvents, hev] using this

/-- Book records written to the table, read back, regrouped and replayed give one event a record, in
order, and after every record the book the processor held. -/
theorem book_reconstruction_lossless (records : List Envelope)
    (hr : ∀ env ∈ records, BookRecord env)
    (ho : records.Pairwise fun a b => recordOrder a ≤ recordOrder b)
    (gaps : RowSource GapRow) (trades : List TradeRow) :
    ∃ st it, records.foldlM (TickerState.onEnvelope · .orderbook) .init = .ok st ∧
      EventIter.fromSources gaps (bookEvents st.bookEvents) (trades.map .ok) = .ok it ∧
      ∃ events : List ReplayEvent,
        (it.stream.filter (·.lane = .book)).map (·.item) = events.map .ok ∧
        events.length = records.length ∧
        ∀ n, ∃ st', (records.take n).foldlM (TickerState.onEnvelope · .orderbook) .init = .ok st' ∧
          (BookReplayer.default.run (events.take n)).book = st'.book ∧
          (BookReplayer.default.run (events.take n)).book.top = st'.book.top := by
  have hw : ∀ env ∈ records, WritableRecord env := fun env h => (hr env h).writable
  have hinit : BookState .init [] 0 .default := ⟨.nil, rfl, rfl⟩
  obtain ⟨st, hst, hstate⟩ := hinit.run hw .orderbook
  refine ⟨st, _, hst, fromSources_ok _ _ _, recordEvents 0 records, ?_,
    (run_recordEvents .default 0 hw).2, fun n => ?_⟩
  · have hlane : laneItems gaps (bookEvents st.bookEvents) trades .book =
        (recordLane 0 0 records).map .ok := by
      rw [laneItems, hstate.rows.bookEvents, List.nil_append,
        bookItems_of_wellFormed (recordsRows_wellFormed 0 hw), groupedBook_recordsRows 0 0 hw]
    have hrep := stream_reported gaps (bookEvents st.bookEvents) trades .book
    rw [hlane] at hrep
    rw [hrep.of_sorted (recordLane_sorted 0 0 hr ho), ← recordLane_snd 0 0 records, List.map_map]
    rfl
  · have hwn : ∀ env ∈ records.take n, WritableRecord env :=
      fun env h => hw env (List.mem_of_mem_take h)
    obtain ⟨st', hst', hstate'⟩ := hinit.run hwn .orderbook
    have hbook : (BookReplayer.default.run ((recordEvents 0 records).take n)).book = st'.book := by
      rw [recordEvents_take 0 hw, (run_recordEvents .default 0 hwn).1, hstate'.book]
      rfl
    exact ⟨st', hst', hbook, by rw [hbook]⟩

/-- A snapshot with a repeated price, and an empty one after it. -/
def sampleRecords : List Envelope :=
  [.new ⟨1000, by decide⟩ (some 1) (some 7) (.snapshot
      { ticker := ⟨"K"⟩, ts := epoch, yes := [⟨⟨450000⟩, ⟨100⟩⟩, ⟨⟨450000⟩, ⟨200⟩⟩], no := [] }),
    .new ⟨1000, by decide⟩ none (some 7) (.snapshot
      { ticker := ⟨"K"⟩, ts := epoch, yes := [], no := [] })]

theorem book_reconstruction_lossless_sample :
    ∃ st it, sampleRecords.foldlM (TickerState.onEnvelope · .orderbook) .init = .ok st ∧
      EventIter.fromSources [] (bookEvents st.bookEvents) [] = .ok it ∧
      ∃ events : List ReplayEvent,
        (it.stream.filter (·.lane = .book)).map (·.item) = events.map .ok ∧ events.length = 2 := by
  have hr : ∀ env ∈ sampleRecords, BookRecord env := by
    simp only [sampleRecords, List.forall_mem_cons, List.not_mem_nil, false_implies, implies_true,
      and_true]
    refine ⟨⟨Or.inl ⟨_, rfl⟩, ?_, ?_⟩, ⟨Or.inl ⟨_, rfl⟩, ?_, ?_⟩⟩
    · rintro s ⟨⟩
      decide
    · rintro s ⟨⟩
      decide
    · rintro s ⟨⟩
    · rintro s ⟨⟩
      decide
  have ho : sampleRecords.Pairwise fun a b => recordOrder a ≤ recordOrder b := by
    apply List.pairwise_pair.2
    rw [recordOrder, recordOrder, Prod.Lex.toLex_le_toLex]
    exact Or.inr ⟨rfl, le_top⟩
  obtain ⟨st, it, hst, hit, events, hevents, hlen, -⟩ :=
    book_reconstruction_lossless sampleRecords hr ho [] []
  exact ⟨st, it, hst, hit, events, hevents, hlen⟩

end Snapevent
