import Snapevent.EndToEnd.DropSafety
import Snapevent.EndToEnd.WrittenLanes
import Snapevent.Process.VerifyCalls
import Snapevent.Process.VerifyLag

/-!
# The lags of a written file

The writer takes records from the WebSocket queue and from the verify queue as they arrive.
Whatever the order in which it takes them, the book events of a file stand in the order of their
queue.
-/

namespace Snapevent

/-- The record comes from the WebSocket queue. -/
def Incoming.isEvent : Incoming → Bool
  | .event _ => true
  | .verify .. => false

/-- When the record was received. -/
def Incoming.recvTs : Incoming → Timestamp
  | .event ev => ev.recvTs
  | .verify _ now => now

/-- The records of a queue are taken in the order they were received. -/
def QueueOrdered (queue : List Persisted) : Prop :=
  queue.Pairwise fun p q => p.incoming.recvTs.nanos ≤ q.incoming.recvTs.nanos

theorem Incoming.isEvent_of_isBook {i : Incoming} {ticker channel : String} {env : Envelope}
    (h : i.target = some (ticker, channel, env)) (hb : env.isBook = true) :
    i.isEvent = true ∧ env.recvUs = i.recvTs.timestampMicros := by
  rcases i with ⟨recvTs, sid, seq, ⟨c, t, record⟩ | m | d | ⟨c, t, r⟩⟩ | ⟨outcome, now⟩
  · cases h
    exact ⟨rfl, rfl⟩
  · cases h
  · cases h
  · cases h
    cases hb
  · cases outcome with
    | book ticker yes no =>
      cases h
      cases hb
    | undecodable ticker error payload =>
      cases h
      cases hb

theorem recorded_engineCalls (channel : Channel) (book : Book) (items : List ReadItem) :
    (recorded (engineCalls channel book items)).map (·.1) =
      (bookRecords items).map (·.recvUs) := by
  induction items generalizing book with
  | nil => rfl
  | cons i items ih =>
    rw [engineCalls, recorded_append, List.map_append, ih, ← List.singleton_append,
      bookRecords_append, List.map_append]
    congr 1
    cases i with
    | error e => rfl
    | ok env =>
      simp only [engineCall, bookRecords, List.filterMap_cons, Except.toOption, List.filterMap_nil]
      cases hk : env.kind with
      | gap g =>
        dsimp only
        split_ifs <;> simp [Envelope.isBook, hk, recorded, EngineCall.fed?]
      | _ => simp [Envelope.isBook, hk, recorded, EngineCall.fed?]

/-- The records that lines decode to inherit the order of the lines. -/
theorem readEnvelopes_pairwise {α : Type} (line : α → Line) {r : α → α → Prop}
    {s : ReadItem → ReadItem → Prop} {l : List α} (h : l.Pairwise r)
    (hrs : ∀ x y, r x y → ∀ n m i j, readLine n (line x) = some i → readLine m (line y) = some j →
      s i j) : (readEnvelopes (l.map line)).Pairwise s := by
  rw [readEnvelopes, List.pairwise_filterMap]
  have hzip : (((l.map line).zipIdx 1).map Prod.fst).Pairwise fun a b =>
      ∀ n m i j, readLine n a = some i → readLine m b = some j → s i j := by
    rw [List.zipIdx_map_fst, List.pairwise_map]
    exact h.imp (hrs _ _)
  rw [List.pairwise_map] at hzip
  exact hzip.imp fun hab i hi j hj => hab _ _ i j hi hj

/-- A line that reads as a book record was stored for one of the WebSocket queue. -/
theorem isEvent_of_readLine {p : Persisted} {k : String × String × String}
    (hp : p.filedIn k = true) {n : ℕ} {env : Envelope} (h : readLine n p.line = some (.ok env))
    (hb : env.isBook = true) :
    p.incoming.isEvent = true ∧ env.recvUs = p.incoming.recvTs.timestampMicros := by
  obtain ⟨⟨ticker, channel, env'⟩, ht, -⟩ := (Option.any_eq_true _ _).1 hp
  obtain ⟨i, hi, hread⟩ := (p.stored _ ht).readLine (Incoming.target_spec ht).1 n
  rw [h] at hi
  cases hi
  cases hread with
  | inl heq =>
    cases heq
    exact Incoming.isEvent_of_isBook ht hb
  | inr hraw =>
    obtain ⟨r, hr⟩ := hraw
    simp [Envelope.isBook, hr] at hb

section Written

variable {records : List Persisted} {w : Writer} {f : StreamFile}

theorem bookRecords_sorted (hevents : QueueOrdered (records.filter (·.incoming.isEvent)))
    (hw : writerTask records = .ok w) (hf : f ∈ w.tree) :
    (bookRecords (readEnvelopes f.lines)).Pairwise fun e e' => e.recvUs ≤ e'.recvUs := by
  have hfiled : (records.filter (·.filedIn (Tree.key f))).Pairwise fun p q =>
      p.filedIn (Tree.key f) = true ∧ q.filedIn (Tree.key f) = true ∧
        (p.incoming.isEvent = true → q.incoming.isEvent = true →
          p.incoming.recvTs.nanos ≤ q.incoming.recvTs.nanos) := by
    rw [QueueOrdered, List.pairwise_filter] at hevents
    refine List.pairwise_filter.2 (hevents.imp ?_)
    exact fun hle hp hq => ⟨hp, hq, hle⟩
  have hitems : (readEnvelopes f.lines).Pairwise fun i j => ∀ e e', i = .ok e → j = .ok e' →
      e.isBook = true → e'.isBook = true → e.recvUs ≤ e'.recvUs := by
    rw [lines_of_writerTask hw hf]
    refine readEnvelopes_pairwise Persisted.line hfiled ?_
    rintro p q ⟨hp, hq, hle⟩ n m i j hi hj e e' rfl rfl hb hb'
    obtain ⟨hev, hts⟩ := isEvent_of_readLine hp hi hb
    obtain ⟨hev', hts'⟩ := isEvent_of_readLine hq hj hb'
    rw [hts, hts']
    exact Timestamp.timestampMicros_mono (hle hev hev')
  have hok {i : ReadItem} {e : Envelope} (h : i.toOption = some e) : i = .ok e := by
    cases i with
    | error _ => cases h
    | ok env =>
      cases h
      rfl
  rw [bookRecords, List.pairwise_filter, List.pairwise_filterMap]
  exact hitems.imp fun h e he e' he' hb hb' => h e e' (hok he) (hok he') hb hb'

/-- The lags of a file are bounded, in whatever order its records were taken from the two queues,
exactly when no observation finds its state outside the window. -/
theorem written_lags_bounded_iff {out : TickerOutput}
    (hevents : QueueOrdered (records.filter (·.incoming.isEvent)))
    (hw : writerTask records = .ok w) (hf : f ∈ w.tree)
    (hout : processTicker f.ticker [⟨f.path, f.lines⟩] [] = .ok (some out)) :
    VerifyEngine.LagsBounded out.verify ↔
      VerifyEngine.InReach (tickerCalls (readEnvelopes f.lines) []) := by
  have hitems : readItems [⟨f.path, f.lines⟩] = readEnvelopes f.lines := List.append_nil _
  rw [verify_of_processTicker hout, hitems]
  apply VerifyEngine.lagsBounded_iff (booksAgree_tickerCalls _ _)
  have htimes : (recorded (tickerCalls (readEnvelopes f.lines) [])).map (·.1) =
      (bookRecords (readEnvelopes f.lines)).map (·.recvUs) := by
    rw [tickerCalls, engineCalls, List.append_nil, recorded_engineCalls]
  have hsorted : ((recorded (tickerCalls (readEnvelopes f.lines) [])).map (·.1)).Pairwise
      (· ≤ ·) := by
    rw [htimes, List.pairwise_map]
    exact bookRecords_sorted hevents hw hf
  exact List.pairwise_map.1 hsorted

end Written

/-! ### An observation ahead of its snapshot -/

/-- A REST observation of market `A` received at `us` microseconds, stored as it was written. -/
def storedObservation (us : ℤ) (hus : minUtcNanos ≤ us * 1000 ∧ us * 1000 ≤ maxUtcNanos)
    (yes no : List PriceLevel) : Persisted :=
  let incoming : Incoming := .verify (.book "A" yes no) ⟨us * 1000, hus⟩
  { incoming, day := "2026-07-03"
    line := .text "\x7b\x7d" (.ok (verifyEnvelope (.book "A" yes no) ⟨us * 1000, hus⟩).2)
    stored := by
      intro t ht
      cases ht
      exact .written (by decide) }

/-- A snapshot of market `A`. -/
def snapshotFrame (yes no : List PriceLevel) : DecodedFrame :=
  { sid := some 1, seq := some 1
    outcome := .data .orderbook ⟨"A"⟩
      (.snapshot { ticker := ⟨"A"⟩, ts := epoch, yes, no }) }

/-- An observation that overtakes the snapshot it equals by ten seconds. -/
def overtaking : List Persisted :=
  [storedObservation 10000000 (by decide) VerifyEngine.oneLevel [],
    storedFrame 0 (by decide) (snapshotFrame VerifyEngine.oneLevel [])]

theorem overtaking_ordered : QueueOrdered (overtaking.filter (·.incoming.isEvent)) := by
  simp [QueueOrdered, overtaking, storedObservation, storedFrame, Incoming.isEvent]

theorem written_lags_bounded_iff_sample : ∃ w, writerTask overtaking = .ok w ∧
    ∃ f ∈ w.tree, ∃ out, processTicker f.ticker [⟨f.path, f.lines⟩] [] = .ok (some out) ∧
      (VerifyEngine.LagsBounded out.verify ↔
        VerifyEngine.InReach (tickerCalls (readEnvelopes f.lines) [])) := by
  obtain ⟨w, hw, f, hf, out, hout⟩ : ∃ w, writerTask overtaking = .ok w ∧
      ∃ f ∈ w.tree, ∃ out, processTicker f.ticker [⟨f.path, f.lines⟩] [] = .ok (some out) :=
    ⟨_, rfl, _, List.mem_singleton_self _, _, rfl⟩
  exact ⟨w, hw, f, hf, out, hout, written_lags_bounded_iff overtaking_ordered hw hf hout⟩

theorem lag_beyond_window : ∃ w, writerTask overtaking = .ok w ∧
    QueueOrdered (overtaking.filter (·.incoming.isEvent)) ∧
    QueueOrdered (overtaking.filter fun p => !p.incoming.isEvent) ∧
    ∃ f ∈ w.tree, ∃ out, processTicker f.ticker [⟨f.path, f.lines⟩] [] = .ok (some out) ∧
      out.verify.map (·.matchLagUs) = [some (-10000000)] ∧ ¬ VerifyEngine.LagsBounded out.verify := by
  refine ⟨_, rfl, overtaking_ordered, ?_, _, List.mem_singleton_self _, _, rfl, by decide, ?_⟩
  · simp [QueueOrdered, overtaking, storedObservation, storedFrame, Incoming.isEvent]
  · intro h
    have habs := h _ List.mem_cons_self (by decide) (-10000000) (by decide)
    revert habs
    decide

end Snapevent
