import Snapevent.Cli.Backfill
import Snapevent.Cli.Capture
import Snapevent.EndToEnd.TradeReplay
import Snapevent.Kalshi.Verbatim

/-!
# The provenance of replayed trades

Where a trade came from is not stored; the loader takes a row with a sequence number for a live
trade and any other for a backfilled one.  The writer stores the sequence number the frame decoder
found, and the decoder accepts a trade frame without one: such a trade is replayed as a backfilled
trade, at its execution time.
-/

namespace Snapevent

/-! ## The trades of the two writers -/

/-- The text frame is persisted as the record `env` of the live trade `t`. -/
def LiveTrade (lib : JsonLib) (text : String) (recvTs : Timestamp) (env : Envelope) (t : Trade) :
    Prop :=
  (∃ ticker channel,
    (Incoming.event ⟨recvTs, decodeFrame lib text recvTs⟩).target = some (ticker, channel, env)) ∧
  env.kind = .trade t

/-- The record `env` is what the backfill writes for a fetched trade `t`. -/
def BackfilledTrade (serde : Serde) (env : Envelope) (t : Trade) : Prop :=
  (∃ rt recvTs, env = tradeToEnvelope serde rt recvTs) ∧ env.kind = .trade t

/-- What is persisted as a trade was decoded as one, and keeps the sequence number of its frame. -/
theorem LiveTrade.decoded {lib : JsonLib} {text : String} {recvTs : Timestamp} {env : Envelope}
    {t : Trade} (h : LiveTrade lib text recvTs env t) :
    ∃ channel ticker, (decodeFrame lib text recvTs).outcome = .data channel ticker (.trade t) ∧
      env.seq = (decodeFrame lib text recvTs).seq := by
  obtain ⟨⟨ticker, channel, htarget⟩, hk⟩ := h
  rw [Incoming.target, classify] at htarget
  dsimp only at htarget
  cases ho : (decodeFrame lib text recvTs).outcome with
  | data c tk record =>
    rw [ho] at htarget
    cases htarget
    cases hk
    exact ⟨c, tk, rfl, rfl⟩
  | raw c tk fallback =>
    rw [ho] at htarget
    cases htarget
    cases hk
  | control m =>
    rw [ho] at htarget
    cases htarget
  | serverError d =>
    rw [ho] at htarget
    cases htarget

/-- Every trade record the decoder makes is persisted. -/
theorem liveTrade_of_data {lib : JsonLib} {text : String} {recvTs : Timestamp} {channel : Channel}
    {ticker : Ticker} {t : Trade}
    (h : (decodeFrame lib text recvTs).outcome = .data channel ticker (.trade t)) :
    LiveTrade lib text recvTs (.new recvTs (decodeFrame lib text recvTs).seq
      (decodeFrame lib text recvTs).sid (.trade t)) t := by
  refine ⟨⟨safeTicker ticker.str, channel.str, ?_⟩, rfl⟩
  rw [Incoming.target, classify]
  dsimp only
  rw [h]
  rfl

/-! ## Trade events -/

/-- The event is that of a trade with this id and this source. -/
def ReplayEvent.IsTrade (id : Option String) (source : TradeSource) : ReplayEvent → Prop
  | .trade _ _ _ _ _ id' source' => id' = id ∧ source' = source
  | _ => False

section Stream

variable {gaps : RowSource GapRow} {book : RowSource BookEventRow} {rows : List TradeRow}

theorem exists_row_of_trade {ev : ReplayEvent} {id : Option String} {source : TradeSource}
    (h : .ok ev ∈ (EventIter.ofRows gaps book rows).items) (ht : ev.IsTrade id source) :
    ∃ u ∈ tradeLaneRows rows, ev = tradeEvent u.2 := by
  obtain ⟨p, hp, hev⟩ := List.mem_map.1 h
  obtain ⟨k, l, -, hl⟩ := mem_stream_ok hp hev
  cases l with
  | gap =>
    have hgap : ∀ (n : ℕ) (src : RowSource GapRow), ∀ x ∈ eventsOf (gapItems n src),
        ¬ x.2.IsTrade id source := by
      intro n src
      induction src generalizing n with
      | nil => simp [gapItems, eventsOf]
      | cons r src ih =>
        cases r with
        | error e => exact ih n
        | ok r => exact List.forall_mem_cons.2 ⟨fun h => h, ih (n + 1)⟩
    exact absurd ht (hgap 0 gaps _ hl)
  | book =>
    have hbook : ∀ x ∈ eventsOf (bookItems 0 book), ¬ x.2.IsTrade id source := by
      apply bookTurns_event (Q := fun _ => True) (P := fun x => ¬ x.2.IsTrade id source)
      · exact fun _ _ _ _ => trivial
      · exact fun _ _ _ _ _ _ => trivial
      · intro r i ev hd
        unfold deltaEvent at hd
        split at hd
        · cases hd
          exact fun h => h
        · cases hd
      · exact fun _ _ h => h
      · exact fun _ _ => trivial
    exact absurd ht (hbook _ hl)
  | trade =>
    rw [laneItems, mem_eventsOf, tradeItems] at hl
    obtain ⟨u, hu, heq⟩ := List.mem_map.1 hl
    cases heq
    exact ⟨u, hu, rfl⟩

theorem tradeEvent_mem_items {u : FiledTrade} (hu : u ∈ tradeLaneRows rows) :
    .ok (tradeEvent u.2) ∈ (EventIter.ofRows gaps book rows).items := by
  have hsorted : (laneEvents [] [] rows .trade).Pairwise fun x y => x.1 ≤ y.1 :=
    List.pairwise_map.2 ((tradeLaneRows_sorted rows).imp fun h => h.le)
  have hlane : laneItems gaps book rows .trade = (laneEvents [] [] rows .trade).map .ok :=
    (List.map_map ..).symm
  have hreported := stream_reported gaps book rows .trade
  rw [hlane] at hreported
  have hmem : Except.ok (tradeEvent u.2) ∈ ((EventIter.ofRows gaps book rows).stream.filter
      (·.lane = .trade)).map (·.item) := by
    rw [hreported.of_sorted hsorted]
    exact List.mem_map.2 ⟨(u.key, tradeEvent u.2), List.mem_map_of_mem hu, rfl⟩
  obtain ⟨p, hp, hev⟩ := List.mem_map.1 hmem
  rw [← hev]
  exact List.mem_map_of_mem (List.mem_filter.1 hp).1

end Stream

/-! ## Rows and their source -/

section Rows

variable {rows : List TradeRow} {row : TradeRow}

/-- The only sequenced copy of a trade gives the trade's event its time and its source. -/
theorem exists_ws_event (hrow : row ∈ rows) (hseq : row.seq.isSome)
    (hsole : ∀ r ∈ rows, r.tradeId = row.tradeId → row.tradeId.isSome → r.seq.isSome → r = row) :
    ∃ u ∈ tradeLaneRows rows, ∃ f ∈ rows,
      (f = row ∨ row.tradeId.isSome ∧ f.tradeId = row.tradeId ∧ f.seq = none) ∧
      tradeEvent u.2 = .trade row.recvTsUs ⟨f.priceMicro⟩ ⟨f.countCenti⟩ f.takerSide
        (f.takerBookSide.or row.takerBookSide) row.tradeId .ws := by
  obtain ⟨s, hs⟩ := Option.isSome_iff_exists.1 hseq
  obtain ⟨i, hi⟩ : ∃ i, (i, row) ∈ filed rows := by
    have hmem : row ∈ (filed rows).map (·.2) := by rwa [filed_snd]
    obtain ⟨⟨i, r⟩, hi, rfl⟩ := List.mem_map.1 hmem
    exact ⟨i, hi⟩
  have hlane (u : FiledTrade) : u ∈ tradeLaneRows rows ↔ u ∈ dedupTrades (filed rows) :=
    (tradeLaneRows_perm rows).mem_iff
  cases hid : row.tradeId with
  | none =>
    refine ⟨(i, row), (hlane _).2 (List.mem_append_left _ ?_), row, hrow, Or.inl rfl, ?_⟩
    · exact List.mem_filter.2 ⟨hi, by rw [hid]; rfl⟩
    · rw [Option.or_self, tradeEvent, tradeEffective, hs, hid]
  | some id =>
    have hmem : id ∈ tradeIds (filed rows) := mem_tradeIds.2 ⟨_, hi, hid⟩
    obtain ⟨u, hu, pos, fields, hp, hf, rfl⟩ := collapse_copiesOf hmem
    have hcopy : (i, row) ∈ copiesOf id (filed rows) := mem_copiesOf.2 ⟨hi, hid⟩
    -- the place is that of the one sequenced copy
    have hpos : pos.2 = row := by
      rw [IsPosition, if_pos (List.any_eq_true.2 ⟨_, hcopy, hseq⟩)] at hp
      obtain ⟨hpmem, hpid⟩ := mem_copiesOf.1 hp.mem
      apply hsole _ (mem_of_filed hpmem) (hpid.trans hid.symm) _ hp.holds
      rw [hid]
      rfl
    have hfields : fields.2 = row ∨ fields.2.tradeId = some id ∧ fields.2.seq = none := by
      rw [IsFields] at hf
      split_ifs at hf
      · exact Or.inr ⟨(mem_copiesOf.1 hf.mem).2, Option.isNone_iff_eq_none.1 hf.holds⟩
      · exact Or.inl (by rw [hf, hpos])
    have hfmem : fields.2 ∈ rows := by
      rw [IsFields] at hf
      split_ifs at hf
      · exact mem_of_filed (mem_copiesOf.1 hf.mem).1
      · rwa [hf, hpos]
    refine ⟨_, (hlane _).2 (List.mem_append_right _ (List.mem_filterMap.2 ⟨id, hmem, hu⟩)),
      fields.2, hfmem, hfields.imp_right fun h => ⟨rfl, h⟩, ?_⟩
    rw [tradeEvent, mergeCopies, hpos, tradeEffective, hs]

/-- A lane row without a sequence number stands for copies without one, at the execution time of one
of them. -/
theorem exists_rest_copy {u : FiledTrade} (hu : u ∈ tradeLaneRows rows) (hseq : u.2.seq = none) :
    (∃ f ∈ rows, f.seq = none ∧ f.tradeId = u.2.tradeId ∧ f.eventTsUs = u.2.eventTsUs) ∧
      ∀ r ∈ rows, r.tradeId = u.2.tradeId → r.tradeId.isSome → r.seq = none := by
  rw [(tradeLaneRows_perm rows).mem_iff] at hu
  rcases mem_dedupTrades hu with ⟨hmem, hnone⟩ | ⟨id, -, pos, fields, hp, hf, rfl⟩
  · refine ⟨⟨u.2, mem_of_filed hmem, hseq, rfl, rfl⟩, ?_⟩
    intro r hr hid hsome
    rw [hid, hnone] at hsome
    cases hsome
  · have hpseq : pos.2.seq = none := hseq
    -- a sequenced copy would be the place
    have hws : ¬ (copiesOf id (filed rows)).any FiledTrade.isWs := by
      intro hws
      rw [IsPosition, if_pos hws] at hp
      have hholds := hp.holds
      rw [FiledTrade.isWs, hpseq] at hholds
      cases hholds
    have hcopies : ∀ t ∈ copiesOf id (filed rows), t.2.seq = none := by
      intro t ht
      rw [← Option.not_isSome_iff_eq_none]
      exact fun h => hws (List.any_eq_true.2 ⟨t, ht, h⟩)
    have hrest : (copiesOf id (filed rows)).any FiledTrade.isRest :=
      List.any_eq_true.2 ⟨pos, hp.mem, by rw [FiledTrade.isRest, hpseq]; rfl⟩
    rw [IsFields, if_pos hrest] at hf
    obtain ⟨hfmem, hfid⟩ := mem_copiesOf.1 hf.mem
    refine ⟨⟨fields.2, mem_of_filed hfmem, hcopies _ hf.mem, hfid, rfl⟩, ?_⟩
    intro r hr hid _
    rw [← filed_snd rows] at hr
    obtain ⟨t, ht, rfl⟩ := List.mem_map.1 hr
    exact hcopies t (mem_copiesOf.2 ⟨ht, hid⟩)

theorem exists_ws_copy {u : FiledTrade} (hu : u ∈ tradeLaneRows rows) (hseq : u.2.seq.isSome) :
    ∃ r ∈ rows, r.seq.isSome := by
  rw [(tradeLaneRows_perm rows).mem_iff] at hu
  rcases mem_dedupTrades hu with ⟨hmem, -⟩ | ⟨id, -, pos, fields, hp, -, rfl⟩
  · exact ⟨u.2, mem_of_filed hmem, hseq⟩
  · exact ⟨pos.2, mem_of_filed (mem_copiesOf.1 hp.mem).1, hseq⟩

end Rows

/-! ## Replaying a live trade -/

/-- The items of a ticker's files hold the record `env` of the trade `t` as its only sequenced copy,
among records that fit their columns. -/
structure HoldsTrade (items : List ReadItem) (env : Envelope) (t : Trade) : Prop where
  mem : .ok env ∈ items
  sole : ∀ env' t', .ok env' ∈ items → env'.kind = .trade t' → t'.tradeId = t.tradeId →
    t.tradeId.isSome → env'.seq.isSome → env' = env
  fits : ∀ env', .ok env' ∈ items → env' ≠ env → env'.QuantitiesFit

/-- The event of a live trade: from the WebSocket, at its receive time, with its own fields or those
of a copy that has no sequence number. -/
def IsLiveEvent (items : List ReadItem) (env : Envelope) (t : Trade) (ev : ReplayEvent) : Prop :=
  ∃ f, (f = t ∨ t.tradeId.isSome ∧ f.tradeId = t.tradeId ∧
      ∃ env', .ok env' ∈ items ∧ env'.kind = .trade f ∧ env'.seq = none) ∧
    ev = .trade env.recvUs f.price f.count f.takerSide (f.takerBookSide.or t.takerBookSide)
      t.tradeId .ws

/-- The replay hands out the live trade as such, and no trade of its id as a backfilled one. -/
def HandsOutLive (items : List ReadItem) (env : Envelope) (t : Trade) (it : EventIter) : Prop :=
  (∃ ev, .ok ev ∈ it.items ∧ IsLiveEvent items env t ev) ∧
  (t.tradeId.isSome → ∀ ev, .ok ev ∈ it.items → ¬ ev.IsTrade t.tradeId .restBackfill)

/-- Whenever the frame is persisted as a trade, the files that hold the record are processed, and
their replay hands out the trade as a live one. -/
def KeepsProvenance (lib : JsonLib) (text : String) (recvTs : Timestamp) : Prop :=
  ∀ env t, LiveTrade lib text recvTs env t →
    ∀ ticker orderbookFiles tradeFiles,
      HoldsTrade (readItems orderbookFiles ++ readItems tradeFiles) env t →
      ∃ out, processTicker ticker orderbookFiles tradeFiles = .ok (some out) ∧
        ∀ incomplete, ∃ it, (openLoader out incomplete).allowIncomplete.events = .ok it ∧
          HandsOutLive (readItems orderbookFiles ++ readItems tradeFiles) env t it

/-- A trade frame has a sequence number and a count its column can hold. -/
def Sequenced (lib : JsonLib) (text : String) (recvTs : Timestamp) : Prop :=
  ∀ channel ticker t, (decodeFrame lib text recvTs).outcome = .data channel ticker (.trade t) →
    (decodeFrame lib text recvTs).seq.isSome ∧ t.count.centi.toNat < 2 ^ 63

theorem quantitiesFit_trade {env : Envelope} {t : Trade} (hk : env.kind = .trade t) :
    env.QuantitiesFit ↔ t.count.centi.toNat < 2 ^ 63 := by
  rw [Envelope.QuantitiesFit, hk]

section Processed

variable {ticker : String} {orderbookFiles tradeFiles : List CaptureFile} {out : TickerOutput}
  (hout : processTicker ticker orderbookFiles tradeFiles = .ok (some out))
include hout

theorem handsOutLive {env : Envelope} {t : Trade} (hk : env.kind = .trade t)
    (hseq : env.seq.isSome)
    (h : HoldsTrade (readItems orderbookFiles ++ readItems tradeFiles) env t)
    (incomplete : Option (List String)) :
    ∃ it, (openLoader out incomplete).allowIncomplete.events = .ok it ∧
      HandsOutLive (readItems orderbookFiles ++ readItems tradeFiles) env t it := by
  obtain ⟨rows, hrows⟩ := trades_decode hout
  refine ⟨_, events_openLoader hrows incomplete, ?_, ?_⟩
  · have hrow : decodedTrade env t ∈ rows := mem_decodedTrades hout hrows hk h.mem
    have hrowSeq : (decodedTrade env t).seq.isSome := by
      rw [decodedTrade, seqI64, Option.isSome_map]
      exact hseq
    have hsole : ∀ r ∈ rows, r.tradeId = t.tradeId → t.tradeId.isSome → r.seq.isSome →
        r = decodedTrade env t := by
      intro r hr hid hsome hrseq
      obtain ⟨env', t', hmem, hk', rfl⟩ := exists_trade_of_decoded hout hrows hr
      rw [decodedTrade, seqI64, Option.isSome_map] at hrseq
      have hsame := h.sole env' t' hmem hk' hid hsome hrseq
      subst hsame
      cases hk.symm.trans hk'
      rfl
    obtain ⟨u, hu, f, hf, hfields, hev⟩ := exists_ws_event hrow hrowSeq hsole
    refine ⟨_, tradeEvent_mem_items hu, ?_⟩
    rw [hev]
    rcases hfields with rfl | ⟨hsome, hid, hfseq⟩
    · exact ⟨t, Or.inl rfl, rfl⟩
    · obtain ⟨env', t', hmem, hk', rfl⟩ := exists_trade_of_decoded hout hrows hf
      rw [decodedTrade, seqI64, Option.map_eq_none_iff] at hfseq
      exact ⟨t', Or.inr ⟨hsome, hid, env', hmem, hk', hfseq⟩, rfl⟩
  · intro hsome ev hev htrade
    obtain ⟨u, hu, rfl⟩ := exists_row_of_trade hev htrade
    obtain ⟨hid, hsource⟩ := htrade
    have hnone : u.2.seq = none := by
      rw [tradeEffective] at hsource
      cases hs : u.2.seq with
      | none => rfl
      | some s =>
        rw [hs] at hsource
        cases hsource
    have hcopies := (exists_rest_copy hu hnone).2 _ (mem_decodedTrades hout hrows hk h.mem)
      hid.symm hsome
    rw [decodedTrade, seqI64, Option.map_eq_none_iff] at hcopies
    rw [hcopies] at hseq
    cases hseq

/-- A replayed live trade has a record with a sequence number. -/
theorem exists_sequenced_of_ws {incomplete : Option (List String)} {it : EventIter}
    (hit : (openLoader out incomplete).allowIncomplete.events = .ok it) {ev : ReplayEvent}
    (hev : .ok ev ∈ it.items) {id : Option String} (ht : ev.IsTrade id .ws) :
    ∃ env, .ok env ∈ readItems orderbookFiles ++ readItems tradeFiles ∧ env.seq.isSome := by
  obtain ⟨rows, hrows⟩ := trades_decode hout
  cases hit.symm.trans (events_openLoader hrows incomplete)
  obtain ⟨u, hu, rfl⟩ := exists_row_of_trade hev ht
  have hseq : u.2.seq.isSome := by
    have hsource := ht.2
    rw [tradeEffective] at hsource
    cases hs : u.2.seq with
    | none =>
      rw [hs] at hsource
      cases hsource
    | some s => rfl
  obtain ⟨r, hr, hrseq⟩ := exists_ws_copy hu hseq
  obtain ⟨env, t, hmem, -, rfl⟩ := exists_trade_of_decoded hout hrows hr
  rw [decodedTrade, seqI64, Option.isSome_map] at hrseq
  exact ⟨env, hmem, hrseq⟩

/-- A trade replayed as a backfilled one has a record without a sequence number, and stands at its
execution time. -/
theorem exists_unsequenced_of_rest {incomplete : Option (List String)} {it : EventIter}
    (hit : (openLoader out incomplete).allowIncomplete.events = .ok it) {ev : ReplayEvent}
    (hev : .ok ev ∈ it.items) {id : Option String} (ht : ev.IsTrade id .restBackfill) :
    ∃ env t, .ok env ∈ readItems orderbookFiles ++ readItems tradeFiles ∧ env.kind = .trade t ∧
      env.seq = none ∧ t.tradeId = id ∧ ev.ts = t.ts.timestampMicros := by
  obtain ⟨rows, hrows⟩ := trades_decode hout
  cases hit.symm.trans (events_openLoader hrows incomplete)
  obtain ⟨u, hu, rfl⟩ := exists_row_of_trade hev ht
  obtain ⟨hid, hsource⟩ := ht
  cases hs : u.2.seq with
  | some s =>
    rw [tradeEffective, hs] at hsource
    cases hsource
  | none =>
    obtain ⟨⟨f, hf, hfseq, hfid, hfts⟩, -⟩ := exists_rest_copy hu hs
    obtain ⟨env, t, hmem, hk, rfl⟩ := exists_trade_of_decoded hout hrows hf
    rw [decodedTrade, seqI64, Option.map_eq_none_iff] at hfseq
    refine ⟨env, t, hmem, hk, hfseq, hfid.trans hid, ?_⟩
    rw [tradeEvent, tradeEffective, hs]
    exact hfts.symm

end Processed

/-! ## When provenance is kept -/

/-- In every capture whose live trade frames have a sequence number, only trades that the backfill
wrote are replayed as backfilled ones, each at its execution time. -/
def OnlyBackfilled (serde : Serde) : Prop :=
  ∀ ticker orderbookFiles tradeFiles out incomplete it,
    processTicker ticker orderbookFiles tradeFiles = .ok (some out) →
    (openLoader out incomplete).allowIncomplete.events = .ok it →
    (∀ env t, .ok env ∈ readItems orderbookFiles ++ readItems tradeFiles → env.kind = .trade t →
      BackfilledTrade serde env t ∨ ∃ text recvTs,
        LiveTrade serde.toJsonLib text recvTs env t ∧ Sequenced serde.toJsonLib text recvTs) →
    ∀ ev id, .ok ev ∈ it.items → ev.IsTrade id .restBackfill →
      ∃ env t, .ok env ∈ readItems orderbookFiles ++ readItems tradeFiles ∧
        BackfilledTrade serde env t ∧ t.tradeId = id ∧ ev.ts = t.ts.timestampMicros

/-- The file of one record. -/
def recordFile (serde : Serde) (env : Envelope) : CaptureFile :=
  ⟨"trade.jsonl", serde.fileLines (serde.fileBytes [env])⟩

theorem readItems_recordFile (serde : Serde) (recvTs : Timestamp) (seq : Option UInt64)
    (sid : Option Int64) (t : Trade) :
    readItems [recordFile serde (.new recvTs seq sid (.trade t))] =
      [.ok (.new recvTs seq sid (.trade t))] := by
  have hstored : ∀ env ∈ [Envelope.new recvTs seq sid (.trade t)], serde.Storable env := by
    intro env henv
    rw [List.mem_singleton.1 henv]
    exact ⟨⟨trivial, Envelope.validate_new _ _ _ _⟩, trivial⟩
  rw [readItems, List.flatMap_singleton, recordFile, readEnvelopes_fileBytes hstored]
  rfl

theorem sequenced_of_keepsProvenance {serde : Serde} {text : String} {recvTs : Timestamp}
    (h : KeepsProvenance serde.toJsonLib text recvTs) : Sequenced serde.toJsonLib text recvTs := by
  intro channel ticker t ho
  let env : Envelope := .new recvTs (decodeFrame serde.toJsonLib text recvTs).seq
    (decodeFrame serde.toJsonLib text recvTs).sid (.trade t)
  have hitems : readItems [] ++ readItems [recordFile serde env] = [.ok env] := by
    rw [readItems_recordFile serde recvTs]
    rfl
  have hone : ∀ env', Except.ok env' ∈ readItems [] ++ readItems [recordFile serde env] →
      env' = env := by
    intro env' hmem
    rw [hitems] at hmem
    cases List.mem_singleton.1 hmem
    rfl
  have hholds : HoldsTrade (readItems [] ++ readItems [recordFile serde env]) env t := by
    refine ⟨?_, fun env' _ hmem _ _ _ _ => hone env' hmem, ?_⟩
    · rw [hitems]
      exact List.mem_singleton_self _
    · exact fun env' hmem hne => absurd (hone env' hmem) hne
  obtain ⟨out, hout, hreplay⟩ := h env t (liveTrade_of_data ho) "A" [] [recordFile serde env] hholds
  obtain ⟨it, hit, ⟨ev, hev, f, -, hlive⟩, -⟩ := hreplay none
  have hws : ev.IsTrade t.tradeId .ws := by
    rw [hlive]
    exact ⟨rfl, rfl⟩
  obtain ⟨env', hmem, hseq⟩ := exists_sequenced_of_ws hout hit hev hws
  rw [hone env' hmem] at hseq
  obtain ⟨st, hst, -⟩ := processTicker_eq_some hout
  exact ⟨hseq, tradeCount_lt hst env t hholds.mem rfl⟩

/-- A live trade frame keeps its provenance, in all files that hold its record, if and only if it
has a sequence number and a count its column can hold; and where all live trade frames do, only
backfilled trades are replayed as such. -/
theorem live_provenance_iff (serde : Serde) :
    (∀ text recvTs,
      KeepsProvenance serde.toJsonLib text recvTs ↔ Sequenced serde.toJsonLib text recvTs) ∧
    OnlyBackfilled serde := by
  refine ⟨fun text recvTs => ⟨sequenced_of_keepsProvenance, ?_⟩, ?_⟩
  · intro hs env t hlive ticker orderbookFiles tradeFiles hholds
    obtain ⟨channel, market, ho, hseq⟩ := hlive.decoded
    obtain ⟨hsome, hfit⟩ := hs channel market t ho
    rw [← hseq] at hsome
    have hne : orderbookFiles ++ tradeFiles ≠ [] := by
      intro hnil
      obtain ⟨rfl, rfl⟩ := List.append_eq_nil_iff.1 hnil
      cases hholds.mem
    have hfits : ∀ env', Except.ok env' ∈ readItems orderbookFiles ++ readItems tradeFiles →
        env'.QuantitiesFit := by
      intro env' hmem
      by_cases heq : env' = env
      · rw [heq, quantitiesFit_trade hlive.2]
        exact hfit
      · exact hholds.fits env' hmem heq
    obtain ⟨out, hout⟩ := processTicker_ok ticker hne hfits
    exact ⟨out, hout, handsOutLive hout hlive.2 hsome hholds⟩
  · intro ticker orderbookFiles tradeFiles out incomplete it hout hit hwritten ev id hev ht
    obtain ⟨env, t, hmem, hk, hseq, hid, hts⟩ := exists_unsequenced_of_rest hout hit hev ht
    rcases hwritten env t hmem hk with hbackfilled | ⟨text, recvTs, hlive, hs⟩
    · exact ⟨env, t, hmem, hbackfilled, hid, hts⟩
    · -- a live record of a sequenced frame has its number
      obtain ⟨channel, market, ho, hframe⟩ := hlive.decoded
      have hsome := (hs channel market t ho).1
      rw [← hframe, hseq] at hsome
      cases hsome

/-- A live trade whose frame has no sequence number is replayed as a backfilled one. -/
theorem backfilled_of_unsequenced {serde : Serde} {text : String} {recvTs : Timestamp}
    {sid : Option Int64} {channel : Channel} {ticker : Ticker} {t : Trade}
    (hframe : decodeFrame serde.toJsonLib text recvTs =
      ⟨sid, none, .data channel ticker (.trade t)⟩)
    (hid : t.tradeId.isSome) (hfit : t.count.centi.toNat < 2 ^ 63) :
    ¬ KeepsProvenance serde.toJsonLib text recvTs ∧
      ∃ env, LiveTrade serde.toJsonLib text recvTs env t ∧
        env.recvUs = recvTs.timestampMicros ∧ ReplaysOnce "A" [recordFile serde env] [t] := by
  have ho : (decodeFrame serde.toJsonLib text recvTs).outcome =
      .data channel ticker (.trade t) := by
    rw [hframe]
  have hlive := liveTrade_of_data ho
  rw [hframe] at hlive
  constructor
  · intro h
    have hsome := (sequenced_of_keepsProvenance h channel ticker t ho).1
    rw [hframe] at hsome
    cases hsome
  · have hitems := readItems_recordFile serde recvTs none sid t
    refine ⟨.new recvTs none sid (.trade t), hlive, rfl, ?_⟩
    refine replaysOnce_of_items "A" ?_ (List.nodup_singleton _) ?_ ?_ ?_
    · exact List.forall_mem_singleton.2 hid
    · exact List.forall_mem_singleton.2 hfit
    · intro env hmem
      rw [hitems] at hmem
      cases List.mem_singleton.1 hmem
      exact ⟨rfl, t, List.mem_singleton_self t, rfl⟩
    · intro t' ht
      rw [List.mem_singleton.1 ht]
      refine ⟨.new recvTs none sid (.trade t), ?_, rfl⟩
      rw [hitems]
      exact List.mem_singleton_self _

/-- A trade frame without a sequence number. -/
def unsequencedFrame : Value :=
  .object [("msg", .object [("count_fp", .string "1.00"), ("market_ticker", .string "A"),
      ("taker_outcome_side", .string "yes"), ("trade_id", .string "t"),
      ("ts_ms", .number (.posInt 1000)), ("yes_price_dollars", .string "0.5")]),
    ("sid", .number (.posInt 1)), ("type", .string "trade")]

/-- The trade, executed at second one. -/
def unsequencedTrade : Trade :=
  { ticker := ⟨"A"⟩, ts := ⟨1000000000, by decide⟩, price := ⟨500000⟩, count := ⟨100⟩
    takerSide := .yes, takerBookSide := none, tradeId := some "t" }

/-- When it is received. -/
def secondTwo : Timestamp := ⟨2000000000, by decide⟩

theorem decodeFrame_unsequencedFrame :
    decodeFrame Serde.sample.toJsonLib unsequencedFrame.text secondTwo =
      ⟨some 1, none, .data .trade ⟨"A"⟩ (.trade unsequencedTrade)⟩ := by
  have hheld : unsequencedFrame.Held Serde.sample.toJsonLib := by
    refine ⟨?_, ⟨?_, trivial, trivial, trivial, trivial, trivial, trivial, trivial⟩, trivial,
      trivial, trivial⟩
    · simp only [SortedMap.Sorted]
      decide
    · simp only [SortedMap.Sorted]
      decide
  rw [decodeFrame, JsonLib.parse_text hheld (by decide)]
  rfl

/-- A live trade that is received at second two is replayed as a backfilled one at second one. -/
theorem unsequenced_trade_backfilled :
    (¬ KeepsProvenance Serde.sample.toJsonLib unsequencedFrame.text secondTwo ∧
      ∃ env, LiveTrade Serde.sample.toJsonLib unsequencedFrame.text secondTwo env
          unsequencedTrade ∧ env.recvUs = secondTwo.timestampMicros ∧
        ReplaysOnce "A" [recordFile .sample env] [unsequencedTrade]) ∧
      secondTwo.timestampMicros = 2000000 ∧ unsequencedTrade.backfillEvent.ts = 1000000 := by
  have hcount : unsequencedTrade.count.centi.toNat = 100 := rfl
  have hfit : unsequencedTrade.count.centi.toNat < 2 ^ 63 := by omega
  exact ⟨backfilled_of_unsequenced decodeFrame_unsequencedFrame rfl hfit, by decide, by decide⟩

end Snapevent
