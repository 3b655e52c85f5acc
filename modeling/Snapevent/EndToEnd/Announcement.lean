import Snapevent.Cli.Capture
import Snapevent.EndToEnd.GapOrder
import Snapevent.EndToEnd.WrittenLanes
import Snapevent.Kalshi.Handled

/-!
# Is a jump announced before the data that revealed it?

The session sends the marker of a sequence jump right before the frame that revealed it, under the
frame's receive time but without a sequence number of its own.  The loader's merge puts what has no
sequence number after what has one, so within that microsecond the frame's record comes first.
-/

namespace Snapevent

/-! ## From the session to the tables -/

/-- The frame is one the decoder returns: book updates on the orderbook channel, trades on the trade
channel. -/
def DecodedFrame.WellTyped (frame : DecodedFrame) : Prop :=
  match frame.outcome with
  | .data .orderbook _ (.snapshot _) => True
  | .data .orderbook _ (.delta _) => True
  | .data .trade _ (.trade _) => True
  | .data .. => False
  | _ => True

/-- The envelopes the writer stores in one stream. -/
def persisted (dir : String) (c : Channel) (sent : List CaptureEvent) : List Envelope :=
  sent.filterMap fun ev =>
    ((Incoming.event ev).target.filter fun t => t.1 = dir ∧ t.2.1 = c.str).map (·.2.2)

/-- The book records the writer stores for one ticker. -/
def storedBooks (dir : String) (sent : List CaptureEvent) : List Envelope :=
  (persisted dir .orderbook sent).filter (·.isBook)

/-! ## The property -/

namespace Handled

/-- The frame reveals a sequence jump on `sid` to the stream of its own, subscribed ticker. -/
def Reveals (x : Handled) (tickers : List String) (dir : String) (sid : Int64) : Prop :=
  ∃ channel ticker record lastSeq observedSeq,
    x.frame.outcome = .data channel ticker record ∧ ticker.str ∈ tickers ∧
      safeTicker ticker.str = dir ∧ x.outcome = .gap channel sid lastSeq observedSeq

/-- The frame holds a delta. -/
def IsDelta (x : Handled) : Prop :=
  ∃ channel ticker d, x.frame.outcome = .data channel ticker (.delta d)

/-- The microsecond in which the frame was received. -/
def recvUs (x : Handled) : ℤ := x.recvTs.timestampMicros

/-- The event announcing a jump that the frame reveals. -/
def jumpEvent (x : Handled) (sid : Int64) : ReplayEvent :=
  .gap x.recvUs (gapReasonStr .seqJump) ("seq jump on sid " ++ toString sid.toInt)

/-- The event is the replay of the frame's record: of a delta under its number in the ticker's
directory, of a trade under its id or, without one, with its own fields. -/
def ReplayedAs (x : Handled) (dir : String) (ev : ReplayEvent) : Prop :=
  match x.frame.outcome with
  | .data _ _ (.delta d) =>
    ev = .delta x.recvUs (storedBooks dir x.sent).length d.side d.price d.delta
  | .data _ _ (.trade t) =>
    match t.tradeId with
    | some id => ∃ ts price count side bookSide source,
      ev = .trade ts price count side bookSide (some id) source
    | none => ev = .trade x.recvUs t.price t.count t.takerSide t.takerBookSide none .ws
  | _ => False

/-- Receive microsecond and sequence number of the frame, as they are compared. -/
def order (x : Handled) : ℤ ×ₗ ℕ ×ₗ ℤ := toLex (x.recvUs, seqOrder x.frame.seq)

/-- Some book record stored for the ticker before the frame comes after it in time and sequence
order. -/
def Overtaken (x : Handled) (dir : String) : Prop :=
  ∃ a ∈ storedBooks dir x.sent, x.order < lineOrder a

end Handled

/-- Every jump is announced before the delta or trade that revealed it, and is pending when that
delta is applied. -/
structure AnnouncedFirst (tickers : List String) (dir : String) (handled : List Handled)
    (items : List (Except LoadError ReplayEvent)) : Prop where
  announced : ∀ x ∈ handled, ∀ sid, x.Reveals tickers dir sid → ∀ (j : ℕ) ev,
    items[j]? = some (.ok ev) → x.ReplayedAs dir ev →
      ∃ i < j, items[i]? = some (.ok (x.jumpEvent sid))
  pending : ∀ x ∈ handled, ∀ sid, x.Reveals tickers dir sid → x.IsDelta → ∀ (j : ℕ) ev,
    items[j]? = some (.ok ev) → x.ReplayedAs dir ev → x.jumpEvent sid ∈
      (BookReplayer.default.run ((items.take j).filterMap Except.toOption)).pendingGaps

/-! ## What is stored -/

theorem mem_persisted {dir : String} {c : Channel} {sent : List CaptureEvent} {env : Envelope} :
    env ∈ persisted dir c sent ↔
      ∃ ev ∈ sent, (Incoming.event ev).target = some (dir, c.str, env) := by
  simp only [persisted, List.mem_filterMap, Option.map_eq_some_iff, Option.filter_eq_some_iff,
    decide_eq_true_eq]
  constructor
  · rintro ⟨ev, hev, ⟨dir', channel, env'⟩, ⟨ht, rfl, rfl⟩, rfl⟩
    exact ⟨ev, hev, ht⟩
  · rintro ⟨ev, hev, ht⟩
    exact ⟨ev, hev, _, ⟨ht, rfl, rfl⟩, rfl⟩

theorem target_data {recvTs : Timestamp} {sid : Option Int64} {seq : Option UInt64}
    {channel : Channel} {ticker : Ticker} {record : RecordKind} {dir channel' : String}
    {env : Envelope} :
    (Incoming.event ⟨recvTs, ⟨sid, seq, .data channel ticker record⟩⟩).target =
        some (dir, channel', env) ↔
      safeTicker ticker.str = dir ∧ channel.str = channel' ∧ .new recvTs seq sid record = env := by
  show some (_, _, _) = _ ↔ _
  rw [Option.some_inj, Prod.mk.injEq, Prod.mk.injEq]

theorem Channel.str_injective : Function.Injective Channel.str := by
  rintro (_ | _) (_ | _) h
  · rfl
  · simp [Channel.str] at h
  · simp [Channel.str] at h
  · rfl

theorem persisted_append (dir : String) (c : Channel) (sent sent' : List CaptureEvent) :
    persisted dir c (sent ++ sent') = persisted dir c sent ++ persisted dir c sent' :=
  List.filterMap_append

theorem storedBooks_append (dir : String) (sent sent' : List CaptureEvent) :
    storedBooks dir (sent ++ sent') = storedBooks dir sent ++ storedBooks dir sent' := by
  rw [storedBooks, persisted_append, List.filter_append]
  rfl

theorem storedBooks_markers (dir : String) {gaps : List CaptureEvent}
    (h : ∀ ev ∈ gaps, ev.IsMarker) : storedBooks dir gaps = [] := by
  refine List.filter_eq_nil_iff.2 fun env henv => ?_
  obtain ⟨ev, hev, ht⟩ := mem_persisted.1 henv
  obtain ⟨recvTs, sid, channel, marker, rfl⟩ := h ev hev
  obtain ⟨-, -, rfl⟩ := target_data.1 ht
  simp [Envelope.isBook, Envelope.new]

/-- What is stored of a run whose frames the decoder returned: gap records without a sequence
number, raw records, and on each channel its own data. -/
inductive StoredKind (c : Channel) (env : Envelope) : Prop
  | gap (g : GapMarker) : env.kind = .gap g → env.seq = none → StoredKind c env
  | book : c = .orderbook → env.isBook = true → StoredKind c env
  | trade (t : Trade) : c = .trade → env.kind = .trade t → StoredKind c env
  | raw (r : RawFallback) : env.kind = .raw r → StoredKind c env

section Run

variable {tickers : List String} {handled : List Handled} {sent : List CaptureEvent}
  (htrace : Trace tickers [] handled sent) (hframes : ∀ x ∈ handled, x.frame.WellTyped)
include htrace hframes

theorem persisted_kind {dir : String} {c : Channel} {env : Envelope}
    (h : env ∈ persisted dir c sent) : StoredKind c env := by
  obtain ⟨ev, hev, ht⟩ := mem_persisted.1 h
  rcases htrace.mem_sent hev with hnil | ⟨recvTs, sid, channel, marker, rfl⟩ | ⟨x, hx, rfl⟩
  · cases hnil
  · obtain ⟨-, -, rfl⟩ := target_data.1 ht
    exact .gap marker rfl rfl
  · have htyped := hframes x hx
    rcases x with ⟨before, recvTs, sid, seq, ⟨channel, ticker, record⟩ | m | d | ⟨c', ticker, r⟩⟩
    · obtain ⟨-, hc, rfl⟩ := target_data.1 ht
      cases Channel.str_injective hc
      rcases c with _ | _ <;> rcases record with s | d | t | g | r | v <;> try cases htyped
      · exact .book rfl rfl
      · exact .book rfl rfl
      · exact .trade t rfl rfl
    · cases ht
    · cases ht
    · change some (_, _, _) = _ at ht
      rw [Option.some_inj, Prod.mk.injEq, Prod.mk.injEq] at ht
      obtain ⟨-, -, rfl⟩ := ht
      exact .raw r rfl

end Run

/-! ## Into the loader -/

/-- The records of a run have been stored, processed and decoded: `rows` are the decoded trades. -/
structure Loaded (tickers : List String) (dir : String) (handled : List Handled)
    (sent : List CaptureEvent) (out : TickerOutput) (rows : List TradeRow) : Prop where
  trace : Trace tickers [] handled sent
  frames : ∀ x ∈ handled, x.frame.WellTyped
  processed : ∃ orderbookFiles tradeFiles,
    readItems orderbookFiles = (persisted dir .orderbook sent).map .ok ∧
    readItems tradeFiles = (persisted dir .trade sent).map .ok ∧
    processTicker dir orderbookFiles tradeFiles = .ok (some out)
  decoded : trades out.trades = rows.map .ok

/-- The iterator over a ticker's tables. -/
def replayOf (out : TickerOutput) (rows : List TradeRow) : EventIter :=
  .ofRows (gaps out.gaps) (bookEvents out.bookEvents) rows

namespace Loaded

variable {tickers : List String} {dir : String} {handled : List Handled}
  {sent : List CaptureEvent} {out : TickerOutput} {rows : List TradeRow}
  (h : Loaded tickers dir handled sent out rows)
include h

theorem bookRecords_eq {orderbookFiles tradeFiles : List CaptureFile}
    (hob : readItems orderbookFiles = (persisted dir .orderbook sent).map .ok)
    (htr : readItems tradeFiles = (persisted dir .trade sent).map .ok) :
    bookRecords (readItems orderbookFiles ++ readItems tradeFiles) = storedBooks dir sent := by
  have hok (envs : List Envelope) :
      (envs.map (Except.ok (ε := ReadError))).filterMap Except.toOption = envs := by
    rw [List.filterMap_map]
    exact List.filterMap_some
  have htrade : bookRecords (readItems tradeFiles) = [] := by
    rw [htr, bookRecords, hok]
    refine List.filter_eq_nil_iff.2 fun env henv => ?_
    rcases persisted_kind h.trace h.frames henv with ⟨g, hk, -⟩ | ⟨hc, -⟩ | ⟨t, -, hk⟩ | ⟨r, hk⟩
    · simp [Envelope.isBook, hk]
    · cases hc
    · simp [Envelope.isBook, hk]
    · simp [Envelope.isBook, hk]
  rw [bookRecords_append, htrade, List.append_nil, hob, bookRecords, hok]
  rfl

theorem bookLane : laneItems (gaps out.gaps) (bookEvents out.bookEvents) rows .book =
      (recordLane 0 0 (storedBooks dir sent)).map .ok ∧
    ∀ env ∈ storedBooks dir sent, WritableRecord env := by
  obtain ⟨ob, tr, hob, htr, hout⟩ := h.processed
  rw [← h.bookRecords_eq hob htr]
  exact ⟨bookLane_eq hout _ rows, fun env henv => writable_of_mem hout henv⟩

/-- A marker of a jump is taken under a key without a sequence number. -/
theorem jump_key {x : Handled} {sid : Int64} {i : ℕ}
    (hi : (replayOf out rows).items[i]? = some (.ok (x.jumpEvent sid))) :
    ∃ k, (replayOf out rows).HandsOut i k (x.jumpEvent sid) ∧ k.effectiveTs = x.recvUs ∧
      k.seqClass = 1 := by
  obtain ⟨k, l, n, hk, hlane, -⟩ := handsOut_of_item hi
  refine ⟨k, hk, ?_⟩
  have hmem := List.mem_of_getElem? hlane
  cases l with
  | gap =>
    obtain ⟨row, hrow, m, hx⟩ := mem_gapLane (mem_eventsOf.2 hmem)
    obtain ⟨rfl, hev⟩ := Prod.mk.inj hx
    obtain ⟨hts, hreason, -⟩ := ReplayEvent.gap.inj hev
    obtain ⟨ob, tr, hob, htr, hout⟩ := h.processed
    rcases mem_gaps_of_processTicker hout hrow with ⟨⟨env, g⟩, hr, rfl⟩ | hmismatch
    · obtain ⟨item, hitem, hrec⟩ := List.mem_filterMap.1 hr
      obtain ⟨rfl, hkind⟩ := gapRecord_eq_some.1 hrec
      replace hkind : env.kind = .gap g := hkind
      have hstored : ∃ c, env ∈ persisted dir c sent := by
        rw [hob, htr, ← List.map_append] at hitem
        obtain ⟨env', henv, heq⟩ := List.mem_map.1 hitem
        cases heq
        exact (List.mem_append.1 henv).elim (fun he => ⟨_, he⟩) fun he => ⟨_, he⟩
      obtain ⟨c, henv⟩ := hstored
      have hseq : env.seq = none := by
        rcases persisted_kind h.trace h.frames henv with ⟨-, -, hs⟩ | ⟨-, hb⟩ | ⟨t, -, hk⟩ | ⟨r, hk⟩
        · exact hs
        · simp [Envelope.isBook, hkind] at hb
        · cases hkind.symm.trans hk
        · cases hkind.symm.trans hk
      refine ⟨hts.symm, ?_⟩
      simp [gapKey, decodeGapRow, GapsTable.row, hseq, seqI64, seqPart]
    · rw [decodeGapRow, hmismatch] at hreason
      replace hreason : gapReasonStr .seqJump = gapReasonStr .verifyMismatch := hreason
      exact absurd hreason (by decide)
  | book =>
    obtain ⟨hbook, hw⟩ := h.bookLane
    rw [hbook] at hlane
    obtain ⟨env, m, -, hev, -⟩ := eq_of_recordLane_getElem? hw hlane
    rw [recordEvent] at hev
    split at hev <;> cases hev
  | trade =>
    obtain ⟨t, -, ht⟩ := List.mem_map.1 hmem
    cases ht

/-! ### The revealing frame -/

/-- Where the record of a revealing frame stands among what is sent. -/
theorem sent_eq {x : Handled} (hx : x ∈ handled) {channel : Channel} {sid : Int64}
    {lastSeq : Option UInt64} {observedSeq : UInt64}
    (hgap : x.outcome = .gap channel sid lastSeq observedSeq) :
    ∃ gaps after, (∀ ev ∈ gaps, CaptureEvent.IsMarker ev) ∧
      sent = x.sent ++ gaps ++ ⟨x.recvTs, x.frame⟩ :: after := by
  obtain ⟨after, hafter⟩ := h.trace.events_isPrefix hx
  refine ⟨seqJumpEvents x.recvTs tickers channel sid lastSeq observedSeq, after, ?_, ?_⟩
  · intro ev hev
    obtain ⟨ticker, -, rfl⟩ := List.mem_map.1 hev
    exact ⟨_, _, _, _, rfl⟩
  · rw [← hafter, Handled.events, hgap, textEvents]
    simp

/-- The record of a revealing delta is the next book record after those stored before it. -/
theorem storedBooks_eq {x : Handled} (hx : x ∈ handled) {sid : Int64}
    {lastSeq : Option UInt64} {observedSeq : UInt64} {ticker : Ticker} {d : OrderbookDelta}
    (hframe : x.frame = ⟨some sid, some observedSeq, .data .orderbook ticker (.delta d)⟩)
    (hdir : safeTicker ticker.str = dir)
    (hgap : x.outcome = .gap .orderbook sid lastSeq observedSeq) :
    ∃ after, storedBooks dir sent = storedBooks dir x.sent ++
      .new x.recvTs x.frame.seq x.frame.sid (.delta d) :: after := by
  obtain ⟨gaps, after, hmarkers, hsent⟩ := h.sent_eq hx hgap
  have hself : storedBooks dir [⟨x.recvTs, x.frame⟩] =
      [.new x.recvTs x.frame.seq x.frame.sid (.delta d)] := by
    have ht : (Incoming.event ⟨x.recvTs, x.frame⟩).target = some (dir, Channel.orderbook.str,
        .new x.recvTs x.frame.seq x.frame.sid (.delta d)) := by
      rw [hframe]
      exact target_data.2 ⟨hdir, rfl, rfl⟩
    simp [storedBooks, persisted, ht, Envelope.isBook, Envelope.new]
  refine ⟨storedBooks dir after, ?_⟩
  rw [hsent, ← List.singleton_append, storedBooks_append, storedBooks_append, storedBooks_append,
    storedBooks_markers dir hmarkers, hself, List.append_nil]
  rfl

section Delta

variable {x : Handled} (hx : x ∈ handled) {sid : Int64} {lastSeq : Option UInt64}
  {observedSeq : UInt64} {ticker : Ticker} {d : OrderbookDelta}
  (hframe : x.frame = ⟨some sid, some observedSeq, .data .orderbook ticker (.delta d)⟩)
  (hdir : safeTicker ticker.str = dir)
  (hgap : x.outcome = .gap .orderbook sid lastSeq observedSeq)
include hx hframe hdir hgap

/-- A revealing delta that is not overtaken is handed out, before everything of its microsecond that
has no sequence number. -/
theorem exists_delta_handsOut (hnot : ¬ x.Overtaken dir) :
    ∃ j k ev, (replayOf out rows).HandsOut j k ev ∧ x.ReplayedAs dir ev ∧
      ∀ k' : MergeKey, k'.effectiveTs = x.recvUs → k'.seqClass = 1 → k < k' := by
  obtain ⟨hlane, hw⟩ := h.bookLane
  obtain ⟨after, hbooks⟩ := h.storedBooks_eq hx hframe hdir hgap
  rw [hbooks] at hlane hw
  let env : Envelope := .new x.recvTs x.frame.seq x.frame.sid (.delta d)
  have hat : (storedBooks dir x.sent ++ env :: after)[(storedBooks dir x.sent).length]? =
      some env := by simp
  obtain ⟨m, ev, hev, hget⟩ := recordLane_getElem? 0 0 hw hat
  rw [Int.zero_add] at hev hget
  have hreg : ¬ Regresses (laneItems (gaps out.gaps) (bookEvents out.bookEvents) rows .book)
      (storedBooks dir x.sent).length (recordKey (storedBooks dir x.sent).length env m) := by
    rw [hlane]
    exact fun hreg => hnot ((regresses_recordLane_iff hw m).1 hreg)
  obtain ⟨j, hj⟩ := exists_handsOut (by rw [hlane, List.getElem?_map, hget]; rfl) hreg
  refine ⟨j, _, ev, hj, ?_, fun k' hts hclass => ?_⟩
  · rw [Handled.ReplayedAs, hframe]
    cases hev
    rfl
  · refine (MergeKey.lt_iff _ _).2 (Or.inr ⟨hts.symm, Or.inl ?_⟩)
    have hseq : env.seq = some observedSeq := congrArg DecodedFrame.seq hframe
    rw [hclass, recordKey, hseq]
    exact Nat.zero_lt_one

theorem not_overtaken_of_replayed {j : ℕ} {ev : ReplayEvent}
    (hj : (replayOf out rows).items[j]? = some (.ok ev)) (hev : x.ReplayedAs dir ev) :
    ¬ x.Overtaken dir := by
  obtain ⟨hlane, hw⟩ := h.bookLane
  obtain ⟨after, hbooks⟩ := h.storedBooks_eq hx hframe hdir hgap
  rw [hbooks] at hlane hw
  rw [Handled.ReplayedAs, hframe] at hev
  obtain ⟨k, l, n, -, hget, hreg⟩ := handsOut_of_item hj
  cases l with
  | gap =>
    obtain ⟨row, -, m, heq⟩ := mem_gapLane (mem_eventsOf.2 (List.mem_of_getElem? hget))
    cases hev.symm.trans (Prod.mk.inj heq).2
  | book =>
    rw [hlane] at hget hreg
    obtain ⟨env, m, henv, hrec, rfl⟩ := eq_of_recordLane_getElem? hw hget
    obtain rfl : n = (storedBooks dir x.sent).length := by
      rw [hev, recordEvent] at hrec
      split at hrec
      · obtain ⟨-, hidx, -⟩ := ReplayEvent.delta.inj (Option.some_inj.1 hrec)
        exact Int.ofNat_inj.1 hidx
      · cases hrec
      · cases hrec
    obtain rfl : env = .new x.recvTs x.frame.seq x.frame.sid (.delta d) := by
      simpa using henv.symm
    exact fun hover => hreg ((regresses_recordLane_iff hw m).2 hover)
  | trade =>
    obtain ⟨t, -, ht⟩ := List.mem_map.1 (List.mem_of_getElem? hget)
    cases hev.symm.trans (Prod.mk.inj (Except.ok.inj ht)).2.symm

end Delta

/-- A revealing trade, or the one trade of its id, is handed out before everything of its
microsecond that has no sequence number. -/
theorem exists_trade_handsOut {x : Handled} (hx : x ∈ handled) {sid : Int64}
    {lastSeq : Option UInt64} {observedSeq : UInt64} {ticker : Ticker} {t : Trade}
    (hframe : x.frame = ⟨some sid, some observedSeq, .data .trade ticker (.trade t)⟩)
    (hdir : safeTicker ticker.str = dir)
    (hgap : x.outcome = .gap .trade sid lastSeq observedSeq) :
    ∃ j k ev, (replayOf out rows).HandsOut j k ev ∧ x.ReplayedAs dir ev ∧
      ∀ k' : MergeKey, k'.effectiveTs = x.recvUs → k'.seqClass = 1 → k < k' := by
  let env : Envelope := .new x.recvTs (some observedSeq) (some sid) (.trade t)
  have henv : env ∈ persisted dir .trade sent := by
    obtain ⟨gaps, after, -, hsent⟩ := h.sent_eq hx hgap
    refine mem_persisted.2 ⟨⟨x.recvTs, x.frame⟩, by simp [hsent], ?_⟩
    rw [hframe]
    exact target_data.2 ⟨hdir, rfl, rfl⟩
  obtain ⟨ob, tr, hob, htr, hout⟩ := h.processed
  have hrow : decodedTrade env t ∈ rows := by
    refine mem_decodedTrades hout h.decoded rfl (List.mem_append_right _ ?_)
    rw [htr]
    exact List.mem_map_of_mem henv
  obtain ⟨u, hu, i, hkey, hid, hself⟩ := exists_tradeLaneRow hrow rfl
  obtain ⟨n, hn⟩ := List.mem_iff_getElem?.1 hu
  have hlane : laneItems (gaps out.gaps) (bookEvents out.bookEvents) rows .trade =
      ((tradeLaneRows rows).map fun u => (u.key, tradeEvent u.2)).map .ok := by
    rw [List.map_map]
    rfl
  have hget : ((tradeLaneRows rows).map fun u => (u.key, tradeEvent u.2))[n]? =
      some (u.key, tradeEvent u.2) := by
    rw [List.getElem?_map, hn]
    rfl
  have hsorted : ((tradeLaneRows rows).map fun u => (u.key, tradeEvent u.2)).Pairwise
      fun x y => x.1 ≤ y.1 :=
    List.pairwise_map.2 ((tradeLaneRows_sorted rows).imp fun hlt => hlt.le)
  obtain ⟨j, hj⟩ := exists_handsOut (by rw [hlane, List.getElem?_map, hget]; rfl)
    (hlane ▸ not_regresses_of_sorted hsorted hget)
  refine ⟨j, _, _, hj, ?_, fun k' hts hclass => hkey.trans_lt ?_⟩
  · rw [Handled.ReplayedAs, hframe]
    dsimp only
    cases htid : t.tradeId with
    | none =>
      rw [hself htid, tradeEvent, decodedTrade, htid]
      rfl
    | some id =>
      have hidu : u.2.tradeId = some id := hid.trans htid
      exact ⟨_, _, _, _, _, _, by rw [tradeEvent, hidu]⟩
  · refine (MergeKey.lt_iff _ _).2 (Or.inr ⟨hts.symm, Or.inl ?_⟩)
    rw [hclass]
    exact Nat.zero_lt_one

/-- A revealing frame holds a delta of the orderbook or a trade. -/
theorem reveals_cases {x : Handled} (hx : x ∈ handled) {sid : Int64}
    (hreveals : x.Reveals tickers dir sid) : ∃ lastSeq observedSeq ticker,
    safeTicker ticker.str = dir ∧
      ((∃ d, x.frame = ⟨some sid, some observedSeq, .data .orderbook ticker (.delta d)⟩ ∧
          x.outcome = .gap .orderbook sid lastSeq observedSeq) ∨
        ∃ t, x.frame = ⟨some sid, some observedSeq, .data .trade ticker (.trade t)⟩ ∧
          x.outcome = .gap .trade sid lastSeq observedSeq) := by
  obtain ⟨channel, ticker, record, lastSeq, observedSeq, hout, -, hdir, hgap⟩ := hreveals
  obtain ⟨ticker', record', hframe, hsnap⟩ := classifySeq_gap hgap
  rw [hframe] at hout
  cases hout
  refine ⟨lastSeq, observedSeq, ticker, hdir, ?_⟩
  have htyped := h.frames x hx
  rw [hframe] at htyped ⊢
  rcases channel with _ | _ <;> rcases record with s | d | t | g | r | v
  case orderbook.snapshot => cases hsnap
  case orderbook.delta => exact Or.inl ⟨d, rfl, hgap⟩
  case trade.trade => exact Or.inr ⟨t, rfl, hgap⟩
  all_goals cases htyped

/-- What is handed out before everything of its microsecond that has no sequence number is not
announced. -/
theorem not_announced {x : Handled} {sid : Int64} {j : ℕ} {k : MergeKey} {ev : ReplayEvent}
    (hj : (replayOf out rows).HandsOut j k ev)
    (hfirst : ∀ k' : MergeKey, k'.effectiveTs = x.recvUs → k'.seqClass = 1 → k < k') :
    ¬ ∃ i < j, (replayOf out rows).items[i]? = some (.ok (x.jumpEvent sid)) := by
  rintro ⟨i, hij, hi⟩
  obtain ⟨k', hk', hts, hclass⟩ := h.jump_key hi
  exact lt_asymm (handsOut_lt hk' hj hij) (hfirst k' hts hclass)

theorem announcedFirst_iff : AnnouncedFirst tickers dir handled (replayOf out rows).items ↔
    ∀ x ∈ handled, ∀ sid, x.Reveals tickers dir sid → x.IsDelta ∧ x.Overtaken dir := by
  constructor
  · intro hfirst x hx sid hreveals
    obtain ⟨lastSeq, observedSeq, ticker, hdir, ⟨d, hframe, hgap⟩ | ⟨t, hframe, hgap⟩⟩ :=
      h.reveals_cases hx hreveals
    · refine ⟨⟨.orderbook, ticker, d, by rw [hframe]⟩, ?_⟩
      by_contra hnot
      obtain ⟨j, k, ev, hj, hev, hbefore⟩ :=
        h.exists_delta_handsOut hx hframe hdir hgap hnot
      exact h.not_announced hj hbefore (hfirst.announced x hx sid hreveals j ev hj.item hev)
    · obtain ⟨j, k, ev, hj, hev, hbefore⟩ := h.exists_trade_handsOut hx hframe hdir hgap
      exact absurd (hfirst.announced x hx sid hreveals j ev hj.item hev)
        (h.not_announced hj hbefore)
  · intro hcond
    have hnever {x : Handled} (hx : x ∈ handled) {sid : Int64}
        (hreveals : x.Reveals tickers dir sid) {j : ℕ} {ev : ReplayEvent}
        (hj : (replayOf out rows).items[j]? = some (.ok ev)) : ¬ x.ReplayedAs dir ev := by
      intro hev
      obtain ⟨⟨channel, ticker', d', hdelta⟩, hover⟩ := hcond x hx sid hreveals
      obtain ⟨lastSeq, observedSeq, ticker, hdir, ⟨d, hframe, hgap⟩ | ⟨t, hframe, -⟩⟩ :=
        h.reveals_cases hx hreveals
      · exact h.not_overtaken_of_replayed hx hframe hdir hgap hj hev hover
      · rw [hframe] at hdelta
        cases hdelta
    exact ⟨fun x hx sid hreveals j ev hj hev => absurd hev (hnever hx hreveals hj),
      fun x hx sid hreveals _ j ev hj hev => absurd hev (hnever hx hreveals hj)⟩

end Loaded

/-- The jumps of a run are announced before the data that revealed them only where that data never
comes: no trade of the ticker reveals a jump, and every delta that does is refused by the merge,
having been stored after a record that comes later in time and sequence order. -/
theorem jumps_announced_iff {tickers : List String} {room : Option ℕ} {turns : List Turn}
    (hframes : ∀ x ∈ runHandled tickers room turns, x.frame.WellTyped) {dir : String}
    {orderbookFiles tradeFiles : List CaptureFile}
    (hob : readItems orderbookFiles =
      (persisted dir .orderbook (runSession tickers room turns).sent).map .ok)
    (htr : readItems tradeFiles =
      (persisted dir .trade (runSession tickers room turns).sent).map .ok)
    {out : TickerOutput} (hout : processTicker dir orderbookFiles tradeFiles = .ok (some out))
    {it : EventIter} (hit : EventIter.fromSources (gaps out.gaps) (bookEvents out.bookEvents)
      (trades out.trades) = .ok it) :
    AnnouncedFirst tickers dir (runHandled tickers room turns) it.items ↔
      ∀ x ∈ runHandled tickers room turns, ∀ sid, x.Reveals tickers dir sid →
        x.IsDelta ∧ x.Overtaken dir := by
  obtain ⟨rows, hrows, rfl⟩ := eq_ofRows hit
  have h : Loaded tickers dir (runHandled tickers room turns) (runSession tickers room turns).sent
      out rows :=
    ⟨runSession_trace tickers room turns, hframes, ⟨_, _, hob, htr, hout⟩, mapM_id_eq hrows⟩
  exact h.announcedFirst_iff

/-! ### Two sessions of one ticker -/

/-- A stored line that reads as `env`. -/
def storedLine (env : Envelope) : Line := .text "\x7b\x7d" (.ok env)

/-- The files of one channel of ticker `A`. -/
def filesOf (c : Channel) (sent : List CaptureEvent) : List CaptureFile :=
  [⟨c.str ++ "/2026-07-03.jsonl", (persisted "A" c sent).map storedLine⟩]

/-- The frame of an orderbook update of ticker `A`. -/
def bookFrame (seq : UInt64) (record : RecordKind) : DecodedFrame :=
  ⟨some 1, some seq, .data .orderbook ⟨"A"⟩ record⟩

/-- A connection with an empty snapshot numbered `first`, received at 1 s, and a delta numbered
`second`, received at `received`. -/
def twoFrames (first second : UInt64) (received : Timestamp) : List Turn :=
  [.connected 101 epoch
    [.text secondOne (bookFrame first (.snapshot ⟨⟨"A"⟩, epoch, [], []⟩)),
      .text received (bookFrame second (.delta ⟨⟨"A"⟩, epoch, .yes, ⟨500000⟩, ⟨100⟩⟩))] true]

/-- The delta falls back to an earlier number in the microsecond of the snapshot. -/
def fallback : List Turn := twoFrames 5 3 secondOne

/-- The delta skips a number, a millisecond after the snapshot. -/
def skip : List Turn := twoFrames 1 3 ⟨1001 * 10 ^ 6, by decide⟩

/-- What a session of ticker `A` is processed to. -/
def processed (turns : List Turn) : Except String (Option TickerOutput) :=
  processTicker "A" (filesOf .orderbook (runSession ["A"] none turns).sent)
    (filesOf .trade (runSession ["A"] none turns).sent)

/-- The delta that falls back reveals a jump, and the merge refuses it. -/
theorem jumps_announced_iff_fallback : ∃ out it, processed fallback = .ok (some out) ∧
    EventIter.fromSources (gaps out.gaps) (bookEvents out.bookEvents) (trades out.trades) = .ok it ∧
    AnnouncedFirst ["A"] "A" (runHandled ["A"] none fallback) it.items := by
  obtain ⟨out, it, hout, hit⟩ : ∃ out it, processed fallback = .ok (some out) ∧
      EventIter.fromSources (gaps out.gaps) (bookEvents out.bookEvents) (trades out.trades) =
        .ok it := ⟨_, _, rfl, rfl⟩
  have hprocess : processTicker "A" (filesOf .orderbook (runSession ["A"] none fallback).sent)
    (filesOf .trade (runSession ["A"] none fallback).sent) = .ok (some out) := hout
  refine ⟨out, it, hout, hit, (jumps_announced_iff ?_ rfl rfl hprocess hit).2 ?_⟩
  · intro x hx
    have hframe := List.mem_map_of_mem (f := (·.frame)) hx
    change x.frame ∈ [bookFrame 5 _, bookFrame 3 _] at hframe
    rcases List.mem_pair.1 hframe with h | h <;> rw [h] <;> trivial
  · intro x hx sid hreveals
    change x ∈ [_, _] at hx
    rcases List.mem_pair.1 hx with rfl | rfl
    · obtain ⟨_, _, _, _, _, -, -, -, hgap⟩ := hreveals
      cases hgap
    · refine ⟨⟨_, _, _, rfl⟩, _, List.mem_of_getElem? (i := 0) rfl, ?_⟩
      refine Prod.Lex.toLex_lt_toLex.2 (Or.inr ⟨rfl, Prod.Lex.toLex_lt_toLex.2 (Or.inr ⟨rfl, ?_⟩)⟩)
      decide

/-- The gap of the skipped number comes after the delta that revealed it, and the replayer applies
the delta with no gap pending. -/
theorem jump_announced_late : ∃ out it, processed skip = .ok (some out) ∧
    EventIter.fromSources (gaps out.gaps) (bookEvents out.bookEvents) (trades out.trades) = .ok it ∧
    it.items = [.ok (.snapshot 1000000 0 [] [] false), .ok (.delta 1001000 1 .yes ⟨500000⟩ ⟨100⟩),
      .ok (.gap 1001000 "seq_jump" "seq jump on sid 1")] ∧
    (BookReplayer.default.run ((it.items.take 1).filterMap Except.toOption)).pendingGaps = [] ∧
    ¬ AnnouncedFirst ["A"] "A" (runHandled ["A"] none skip) it.items := by
  obtain ⟨out, it, hout, hit, hitems⟩ : ∃ out it, processed skip = .ok (some out) ∧
      EventIter.fromSources (gaps out.gaps) (bookEvents out.bookEvents) (trades out.trades) =
        .ok it ∧
      it.items = [.ok (.snapshot 1000000 0 [] [] false),
        .ok (.delta 1001000 1 .yes ⟨500000⟩ ⟨100⟩),
        .ok (.gap 1001000 "seq_jump" "seq jump on sid 1")] := ⟨_, _, rfl, rfl, rfl⟩
  refine ⟨out, it, hout, hit, hitems, by rw [hitems]; rfl, fun h => ?_⟩
  obtain ⟨i, hi, hgap⟩ := h.announced _ (List.mem_of_getElem? (i := 1) rfl) 1
    ⟨.orderbook, ⟨"A"⟩, _, _, _, rfl, by simp, by decide, rfl⟩ 1 _ (by rw [hitems]; rfl) rfl
  obtain rfl : i = 0 := by omega
  rw [hitems] at hgap
  cases hgap

end Snapevent
