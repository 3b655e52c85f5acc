import Snapevent.EndToEnd.Conservation

/-!
# Replaying backfilled trades

Files that hold nothing but trades without sequence numbers and lines that cannot be read are
processed and replayed to the trades of the readable lines, each id once.
-/

namespace Snapevent

/-- The event a trade without a sequence number is replayed as. -/
def Trade.backfillEvent (t : Trade) : ReplayEvent :=
  .trade t.ts.timestampMicros t.price t.count t.takerSide t.takerBookSide t.tradeId .restBackfill

/-- The opened tables of a processed ticker. -/
def openLoader (out : TickerOutput) (incomplete : Option (List String)) : Loader where
  gaps := gaps out.gaps
  book := bookEvents out.bookEvents
  trades := trades out.trades
  incomplete := incomplete
  acknowledged := false

/-- The tables of a processed ticker open, complete or not, once incompleteness is acknowledged. -/
theorem events_openLoader {out : TickerOutput} {rows : List TradeRow}
    (hrows : trades out.trades = rows.map .ok) (incomplete : Option (List String)) :
    (openLoader out incomplete).allowIncomplete.events =
      .ok (.ofRows (gaps out.gaps) (bookEvents out.bookEvents) rows) := by
  have hgate : (openLoader out incomplete).allowIncomplete.gate = .ok () := by
    cases incomplete <;> rfl
  rw [Loader.events, hgate]
  show EventIter.fromSources (gaps out.gaps) (bookEvents out.bookEvents) (trades out.trades) = _
  rw [hrows, fromSources_ok]

/-- Processing the trade files of a ticker and replaying the tables, whether they are complete or
not, hands out every trade once and nothing else; with no files there are no trades. -/
def ReplaysOnce (ticker : String) (files : List CaptureFile) (ts : List Trade) : Prop :=
  match processTicker ticker [] files with
  | .ok (some out) => ∀ incomplete, ∃ (it : EventIter) (evs : List ReplayEvent),
      (openLoader out incomplete).allowIncomplete.events = .ok it ∧ it.items = evs.map .ok ∧
      evs.Perm (ts.map Trade.backfillEvent)
  | .ok none => ts = []
  | .error _ => False

/-! ## The copies of one trade -/

theorem tradeEvent_decodedTrade {env : Envelope} (hseq : env.seq = none) (t : Trade) :
    tradeEvent (decodedTrade env t) = t.backfillEvent := by
  simp only [tradeEvent, decodedTrade, tradeEffective, seqI64, hseq, Trade.backfillEvent,
    Option.map_none]

/-- Copies with one event are merged to it. -/
theorem tradeEvent_mergeCopies {id : String} {pos fields : FiledTrade} {ev : ReplayEvent}
    (hpos : pos.2.seq = none) (hfields : fields.2.seq = none) (hid : fields.2.tradeId = some id)
    (hposEv : tradeEvent pos.2 = ev) (hfieldsEv : tradeEvent fields.2 = ev) :
    tradeEvent (mergeCopies id pos fields).2 = ev := by
  rw [← hfieldsEv] at hposEv ⊢
  simp only [tradeEvent, tradeEffective, hpos, hfields, ReplayEvent.trade.injEq] at hposEv
  simp only [tradeEvent, tradeEffective, mergeCopies, hpos, hfields, hid, ReplayEvent.trade.injEq,
    true_and, and_true]
  rw [hposEv.2.2.2.2.1]
  cases fields.2.takerBookSide <;> rfl

section Lane

variable {rows : List TradeRow} {ts : List Trade} (hsome : ∀ t ∈ ts, t.tradeId.isSome)
  (hrows : ∀ row ∈ rows, ∃ t ∈ ts, row.tradeId = t.tradeId ∧ row.seq = none ∧
    tradeEvent row = t.backfillEvent)

theorem mem_of_filed {t : FiledTrade} (ht : t ∈ filed rows) : t.2 ∈ rows := by
  rw [← filed_snd rows]
  exact List.mem_map_of_mem ht

variable (hids : (ts.map (·.tradeId)).Nodup)

include hsome hrows hids

theorem exists_trade_of_mem {u : FiledTrade} (hu : u ∈ tradeLaneRows rows) :
    ∃ t ∈ ts, u.2.tradeId = t.tradeId ∧ tradeEvent u.2 = t.backfillEvent := by
  rw [(tradeLaneRows_perm rows).mem_iff] at hu
  rcases mem_dedupTrades hu with ⟨hmem, hnone⟩ | ⟨id, -, hof⟩
  · obtain ⟨t, ht, hid, -⟩ := hrows _ (mem_of_filed hmem)
    have hid' := hsome t ht
    rw [← hid, hnone] at hid'
    cases hid'
  · have hid := hof.tradeId
    obtain ⟨pos, fields, hp, hf, rfl⟩ := hof
    have hfields : fields ∈ copiesOf id (filed rows) := by
      unfold IsFields at hf
      split_ifs at hf
      · exact hf.mem
      · rw [hf]
        exact hp.mem
    obtain ⟨hposMem, hposId⟩ := mem_copiesOf.1 hp.mem
    obtain ⟨hfieldsMem, hfieldsId⟩ := mem_copiesOf.1 hfields
    obtain ⟨t, ht, htid, hposSeq, hposEv⟩ := hrows _ (mem_of_filed hposMem)
    obtain ⟨t', ht', htid', hfieldsSeq, hfieldsEv⟩ := hrows _ (mem_of_filed hfieldsMem)
    -- both copies are copies of one trade
    have hsame : t' = t := by
      apply List.inj_on_of_nodup_map hids ht' ht
      rw [← htid, ← htid', hposId, hfieldsId]
    subst hsame
    exact ⟨t', ht, by rw [hid, ← hposId, htid],
      tradeEvent_mergeCopies hposSeq hfieldsSeq hfieldsId hposEv hfieldsEv⟩

theorem exists_row_of_mem {t : Trade} (ht : t ∈ ts) (hrow : ∃ row ∈ rows, row.tradeId = t.tradeId) :
    ∃ u ∈ tradeLaneRows rows, u.2.tradeId = t.tradeId ∧ tradeEvent u.2 = t.backfillEvent := by
  obtain ⟨row, hmem, hid⟩ := hrow
  obtain ⟨id, htid⟩ := Option.isSome_iff_exists.1 (hsome t ht)
  have hkept : id ∈ (dedupTrades (filed rows)).filterMap (·.2.tradeId) := by
    rw [filterMap_tradeId_dedupTrades, mem_tradeIds]
    rw [← filed_snd rows] at hmem
    obtain ⟨c, hc, rfl⟩ := List.mem_map.1 hmem
    exact ⟨c, hc, hid.trans htid⟩
  obtain ⟨u, hu, huid⟩ := List.mem_filterMap.1 hkept
  rw [← (tradeLaneRows_perm rows).mem_iff] at hu
  obtain ⟨t', ht', hut', hev⟩ := exists_trade_of_mem hsome hrows hids hu
  have hsame : t' = t := by
    apply List.inj_on_of_nodup_map hids ht' ht
    rw [← hut', huid, htid]
  subst hsame
  exact ⟨u, hu, hut', hev⟩

/-- Rows without sequence numbers that are copies of some trades, at least one of each, are replayed
to the trades. -/
theorem tradeLane_perm (hall : ∀ t ∈ ts, ∃ row ∈ rows, row.tradeId = t.tradeId) :
    ((tradeLaneRows rows).map fun u => tradeEvent u.2).Perm (ts.map Trade.backfillEvent) := by
  have hlane : ((tradeLaneRows rows).map (·.2.tradeId)).Nodup := by
    have hmap : (dedupTrades (filed rows)).map (·.2.tradeId) =
        ((dedupTrades (filed rows)).filterMap (·.2.tradeId)).map some := by
      rw [List.map_filterMap, ← List.filterMap_eq_map]
      apply List.filterMap_congr
      intro u hu
      rw [← (tradeLaneRows_perm rows).mem_iff] at hu
      obtain ⟨t, ht, hid, -⟩ := exists_trade_of_mem hsome hrows hids hu
      obtain ⟨id, htid⟩ := Option.isSome_iff_exists.1 (hsome t ht)
      simp [hid, htid]
    rw [((tradeLaneRows_perm rows).map _).nodup_iff, hmap, filterMap_tradeId_dedupTrades]
    exact (nodup_tradeIds _).map (Option.some_injective _)
  have hpairs : ((tradeLaneRows rows).map fun u => (u.2.tradeId, tradeEvent u.2)).Perm
      (ts.map fun t => (t.tradeId, t.backfillEvent)) := by
    rw [List.perm_ext_iff_of_nodup]
    · rintro ⟨id, ev⟩
      rw [List.mem_map, List.mem_map]
      constructor
      · rintro ⟨u, hu, heq⟩
        cases heq
        obtain ⟨t, ht, hid, hev⟩ := exists_trade_of_mem hsome hrows hids hu
        exact ⟨t, ht, by rw [hid, hev]⟩
      · rintro ⟨t, ht, heq⟩
        cases heq
        obtain ⟨u, hu, hid, hev⟩ := exists_row_of_mem hsome hrows hids ht (hall t ht)
        exact ⟨u, hu, by rw [hid, hev]⟩
    · exact List.Nodup.of_map Prod.fst (by rwa [List.map_map])
    · exact List.Nodup.of_map Prod.fst (by rwa [List.map_map])
  have hevents := hpairs.map Prod.snd
  rwa [List.map_map, List.map_map] at hevents

end Lane

/-! ## Processing -/

/-- The item is a read error or a trade that fits its column. -/
def ReadItem.Backfilled (i : ReadItem) : Prop :=
  (∃ e, i = .error e) ∨ ∃ env t, i = .ok env ∧ env.kind = .trade t ∧ t.count.centi.toNat < 2 ^ 63

section Files

variable {ticker : String} {files : List CaptureFile}
  (hitems : ∀ i ∈ readItems files, ReadItem.Backfilled i)

include hitems

theorem processTicker_backfilled (ticker : String) (hne : files ≠ []) :
    ∃ out, processTicker ticker [] files = .ok (some out) := by
  apply processTicker_ok ticker (by rwa [List.nil_append])
  intro env henv
  rcases hitems _ henv with ⟨e, he⟩ | ⟨env', t, he, hk, hfit⟩
  · cases he
  · cases he
    rw [Envelope.QuantitiesFit, hk]
    exact hfit

variable {out : TickerOutput} (hout : processTicker ticker [] files = .ok (some out))

include hout

theorem gaps_eq_nil : out.gaps = [] ∧ out.bookEvents = [] := by
  have haccounts := accounts_of_processTicker hout
  have hnone {β : Type} {add : ReadItem → List β} (herror : ∀ e, add (.error e) = [])
      (htrade : ∀ env t, env.kind = .trade t → add (.ok env) = []) :
      (readItems [] ++ readItems files).flatMap add = [] := by
    rw [List.flatMap_eq_nil_iff]
    intro i hi
    rcases hitems i hi with ⟨e, rfl⟩ | ⟨env, t, rfl, hk, -⟩
    · exact herror e
    · exact htrade env t hk
  constructor
  · have hverify : out.verify = [] := by
      have hmap := haccounts.verify
      rw [hnone (fun _ => rfl) fun env t hk => by simp [observationsOf, hk]] at hmap
      exact List.map_eq_nil_iff.1 hmap
    have hstream : streamGaps [] files = [] := by
      rw [streamGaps, List.filterMap_eq_flatMap_toList]
      exact hnone (fun _ => rfl) fun env t hk => by simp [gapRecord, hk]
    rw [haccounts.gaps, hverify, hstream]
    rfl
  · have hmap := haccounts.book
    rw [hnone (fun _ => rfl) fun env t hk => by simp [bookRows, hk]] at hmap
    exact List.map_eq_nil_iff.1 hmap

/-- The replay hands out the trade lane. -/
theorem replay_eq {rows : List TradeRow} (hrows : trades out.trades = rows.map .ok)
    (incomplete : Option (List String)) : ∃ (it : EventIter) (evs : List ReplayEvent),
      (openLoader out incomplete).allowIncomplete.events = .ok it ∧ it.items = evs.map .ok ∧
      evs.Perm ((tradeLaneRows rows).map fun t => tradeEvent t.2) := by
  obtain ⟨hgaps, hbook⟩ := gaps_eq_nil hitems hout
  obtain ⟨events, hstream, hperm, -⟩ := @stream_of_sorted [] [] rows (by simp) .nil .nil
  refine ⟨.ofRows [] [] rows, events.map (·.2), ?_, ?_, ?_⟩
  · rw [events_openLoader hrows, hgaps, hbook]
    rfl
  · have hitem := congrArg (List.map Prod.snd) hstream
    rw [List.map_map, List.map_map] at hitem
    rw [EventIter.items, List.map_map]
    exact hitem
  · have hlane := hperm.map Prod.snd
    have hbookLane : laneEvents [] [] rows .book = [] := rfl
    have hgapLane : laneEvents [] [] rows .gap = [] := rfl
    rw [hbookLane, hgapLane, List.nil_append, List.nil_append, laneEvents, List.map_map] at hlane
    exact hlane

end Files

/-- Files that hold at least one copy of each of some trades and nothing else that is readable are
replayed to the trades. -/
theorem replaysOnce_of_items (ticker : String) {files : List CaptureFile} {ts : List Trade}
    (hsome : ∀ t ∈ ts, t.tradeId.isSome) (hids : (ts.map (·.tradeId)).Nodup)
    (hfit : ∀ t ∈ ts, t.count.centi.toNat < 2 ^ 63)
    (hitems : ∀ env, .ok env ∈ readItems files → env.seq = none ∧ ∃ t ∈ ts, env.kind = .trade t)
    (hall : ∀ t ∈ ts, ∃ env, .ok env ∈ readItems files ∧ env.kind = .trade t) :
    ReplaysOnce ticker files ts := by
  have hbackfilled : ∀ i ∈ readItems files, ReadItem.Backfilled i := by
    intro i hi
    cases i with
    | error e => exact Or.inl ⟨e, rfl⟩
    | ok env =>
      obtain ⟨-, t, ht, hk⟩ := hitems env hi
      exact Or.inr ⟨env, t, rfl, hk, hfit t ht⟩
  by_cases hne : files = []
  · subst hne
    have hnone : ts = [] := by
      rw [List.eq_nil_iff_forall_not_mem]
      intro t ht
      obtain ⟨env, henv, -⟩ := hall t ht
      cases henv
    exact hnone
  · obtain ⟨out, hout⟩ := processTicker_backfilled hbackfilled ticker hne
    obtain ⟨rows, hrows⟩ := trades_decode hout
    rw [ReplaysOnce, hout]
    intro incomplete
    obtain ⟨it, evs, hit, hclean, hperm⟩ := replay_eq hbackfilled hout hrows incomplete
    refine ⟨it, evs, hit, hclean, hperm.trans ?_⟩
    apply tradeLane_perm hsome ?_ hids
    · intro t ht
      obtain ⟨env, henv, hk⟩ := hall t ht
      exact ⟨decodedTrade env t, mem_decodedTrades hout hrows hk henv, rfl⟩
    · intro row hrow
      obtain ⟨env, t, henv, hk, rfl⟩ := exists_trade_of_decoded hout hrows hrow
      obtain ⟨hseq, t', ht', hk'⟩ := hitems env henv
      rw [hk] at hk'
      cases hk'
      refine ⟨t, ht', rfl, ?_, tradeEvent_decodedTrade hseq t⟩
      simp [decodedTrade, seqI64, hseq]

theorem eq_nil_of_unreadable {ticker : String} {files : List CaptureFile} {ts : List Trade}
    (hitems : ∀ i ∈ readItems files, ∃ e, i = .error e) (h : ReplaysOnce ticker files ts) :
    ts = [] := by
  have hbackfilled : ∀ i ∈ readItems files, ReadItem.Backfilled i := fun i hi => Or.inl (hitems i hi)
  by_cases hne : files = []
  · subst hne
    exact h
  · obtain ⟨out, hout⟩ := processTicker_backfilled hbackfilled ticker hne
    obtain ⟨rows, hrows⟩ := trades_decode hout
    have hnone : rows = [] := by
      rw [List.eq_nil_iff_forall_not_mem]
      intro row hrow
      obtain ⟨env, t, henv, -⟩ := exists_trade_of_decoded hout hrows hrow
      obtain ⟨e, he⟩ := hitems _ henv
      cases he
    subst hnone
    rw [ReplaysOnce, hout] at h
    obtain ⟨it, evs, hit, hclean, hperm⟩ := h none
    obtain ⟨it', evs', hit', hclean', hperm'⟩ := replay_eq hbackfilled hout hrows none
    have hsame : it' = it := Except.ok.inj (hit'.symm.trans hit)
    rw [hsame, hclean] at hclean'
    have hevs : evs = evs' := List.map_injective_iff.2 (fun _ _ => Except.ok.inj) hclean'
    rw [hevs, hperm'.eq_nil] at hperm
    exact List.map_eq_nil_iff.1 hperm.symm.eq_nil

end Snapevent
