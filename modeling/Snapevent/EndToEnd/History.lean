import Snapevent.EndToEnd.DropSafety
import Snapevent.Kalshi.Connections
import Snapevent.Lib.Somewhere

/-!
# Histories of capture runs

A session directory outlives the runs that append to it.  Whatever the history of the directory,
every connection a run makes after its first is marked in the streams of the run's tickers before
anything that is received over it.  The first connection of a run is no reconnect to the run: what
the directory held before is not looked at.
-/

namespace Snapevent

theorem Incoming.event?_eq_some {i : Incoming} {ev : CaptureEvent} :
    i.event? = some ev ↔ i = .event ev := by
  cases i <;> simp [event?]

/-- What a run sends, each event with the number of the connection it is sent over. -/
def numberedSent (tickers : List String) (room : Option ℕ) (turns : List Turn) :
    List (ℕ × CaptureEvent) :=
  (runConnections tickers room turns).zipIdx.flatMap fun c => c.1.map (Prod.mk c.2)

/-- The events among a writer's records. -/
def numberedEvents (records : List (ℕ × Persisted)) : List (ℕ × CaptureEvent) :=
  records.filterMap fun r => r.2.incoming.event?.map (Prod.mk r.1)

/-- A run of the capture: what its session awaits, and what its writer takes, each event with the
number of its connection.  The writer takes the events as they are sent, up to where it halts. -/
structure CaptureRun where
  tickers : List String
  room : Option ℕ
  turns : List Turn
  records : List (ℕ × Persisted)
  fed : numberedEvents records <+: numberedSent tickers room turns

/-- The files of the session directory after a run: its writer opens them for append. -/
def CaptureRun.write (tree : Tree) (run : CaptureRun) : Except StoreError Tree := do
  let w ← (run.records.map (·.2)).foldlM (fun w p => w.take p.incoming p.day p.line)
    (Writer.mk .default tree)
  return w.tree

/-- A record of the session directory: the run that took it, and the connection of the run. -/
structure Received where
  run : ℕ
  connection : ℕ
  persisted : Persisted

/-- The records of the session directory, in the order they were appended. -/
def historyRecords (history : List CaptureRun) : List Received :=
  history.zipIdx.flatMap fun r => r.1.records.map fun p => ⟨r.2, p.1, p.2⟩

/-- The event is a data record. -/
def CaptureEvent.isData (ev : CaptureEvent) : Bool :=
  match ev.frame.outcome with
  | .data _ _ record => !record.isGap
  | _ => false

/-- The event is a reconnect marker. -/
def CaptureEvent.isReconnect (ev : CaptureEvent) : Bool :=
  match ev.frame.outcome with
  | .data _ _ (.gap g) => g.reason = .reconnect
  | _ => false

namespace Received

/-- The stream the record is appended to. -/
def stream (r : Received) : Option (String × String) :=
  r.persisted.incoming.target.map fun t => (t.1, t.2.1)

def isData (r : Received) : Bool := r.persisted.incoming.event?.any (·.isData)

def isReconnect (r : Received) : Bool := r.persisted.incoming.event?.any (·.isReconnect)

/-- The record was received over a connection that is not the first of its run, in a stream of a
ticker its run subscribes to. -/
def OnReconnect (history : List CaptureRun) (r : Received) : Prop :=
  r.connection ≠ 0 ∧ ∃ run, history[r.run]? = some run ∧
    ∃ ticker ∈ run.tickers, ∃ channel : Channel, r.stream = some (safeTicker ticker, channel.str)

end Received

/-- In each stream, two data records in a row that were received over two connections have a
reconnect marker between them, when the later one is covered. -/
def BreaksMarked (covered : Received → Prop) (records : List Received) : Prop :=
  ∀ stream before x mid y after, records = before ++ x :: (mid ++ y :: after) →
    x.isData → y.isData → x.stream = some stream → y.stream = some stream →
    (∀ z ∈ mid, z.stream = some stream → ¬ z.isData) →
    (x.run, x.connection) ≠ (y.run, y.connection) → covered y →
    ∃ z ∈ mid, z.stream = some stream ∧ z.isReconnect

/-! ## The files -/

theorem flatMap_zipIdx {α β : Type*} (l : List α) (f : α → List β) :
    l.zipIdx.flatMap (fun x => f x.1) = l.flatMap f := by
  conv_rhs => rw [← List.zipIdx_map_fst 0 l, List.flatMap_map]

/-- Numbered or not, a run sends the same events. -/
theorem numberedSent_snd (tickers : List String) (room : Option ℕ) (turns : List Turn) :
    (numberedSent tickers room turns).map (·.2) = (runSession tickers room turns).sent := by
  rw [runSession_sent, List.flatten_eq_flatMap, ← flatMap_zipIdx, numberedSent, List.map_flatMap]
  refine List.flatMap_congr fun c _ => ?_
  rw [List.map_map]
  exact List.map_id _

theorem CaptureRun.events_prefix (run : CaptureRun) :
    run.records.filterMap (·.2.incoming.event?) <+:
      (runSession run.tickers run.room run.turns).sent := by
  have hevents : (numberedEvents run.records).map (·.2) =
      run.records.filterMap (·.2.incoming.event?) := by
    rw [numberedEvents, List.map_filterMap]
    refine List.filterMap_congr fun r _ => ?_
    rw [Option.map_map]
    exact Option.map_id'
  rw [← hevents, ← numberedSent_snd]
  exact run.fed.map _

theorem CaptureRun.write_ok (tree : Tree) (run : CaptureRun) :
    run.write tree = .ok ((run.records.map (·.2)).foldl Persisted.store tree) := by
  obtain ⟨report, hok⟩ := Writer.foldlM_take_ok (run.records.map (·.2)) ⟨.default, tree⟩
  rw [write, hok]
  rfl

theorem historyRecords_persisted (history : List CaptureRun) :
    (historyRecords history).map (·.persisted) =
      history.flatMap fun run => run.records.map (·.2) := by
  rw [← flatMap_zipIdx, historyRecords, List.map_flatMap]
  refine List.flatMap_congr fun r _ => ?_
  rw [List.map_map]
  rfl

theorem foldlM_write (history : List CaptureRun) (tree : Tree) :
    history.foldlM CaptureRun.write tree =
      .ok (((historyRecords history).map (·.persisted)).foldl Persisted.store tree) := by
  rw [historyRecords_persisted]
  induction history generalizing tree with
  | nil => rfl
  | cons run history ih =>
    rw [List.foldlM_cons, run.write_ok, List.flatMap_cons, List.foldl_append]
    exact ih _

/-- Every file of the session directory holds the lines of its records, in the order in which the
runs took them. -/
theorem linesOf_history (history : List CaptureRun) : ∃ tree,
    history.foldlM CaptureRun.write [] = .ok tree ∧ ∀ key, tree.linesOf key =
      ((historyRecords history).filter (·.persisted.filedIn key)).map (·.persisted.line) := by
  refine ⟨_, foldlM_write history [], fun key => ?_⟩
  rw [linesOf_store, List.filter_map, List.map_map]
  rfl

/-! ## What stands before a record of a later connection -/

/-- Before what is received over a connection that is not the first stands the marker of its
reconnect, and what stands in between was sent over the same connection. -/
theorem numberedSent_split {tickers : List String} {room : Option ℕ} {turns : List Turn}
    {pre post : List (ℕ × CaptureEvent)} {n : ℕ} {ev : CaptureEvent}
    (h : numberedSent tickers room turns = pre ++ (n, ev) :: post) (hdata : ¬ ev.IsMarker)
    (hn : n ≠ 0) {ticker : String} (ht : ticker ∈ tickers) (channel : Channel) :
    ∃ recvTs before mid, pre = before ++
        (n, gapCaptureEvent recvTs none channel (reconnectMarker ticker channel)) :: mid ∧
      ∀ e ∈ mid, e.1 = n := by
  obtain ⟨conns, ⟨sent, k⟩, conns', part, rest, hconns, hpart, rfl⟩ :=
    List.exists_split_of_flatMap h
  dsimp only at hpart
  obtain ⟨before, after, rfl, rfl, hafter⟩ := List.map_eq_append_iff.1 hpart
  obtain ⟨ev', after, rfl, hev', -⟩ := List.map_eq_cons_iff.1 hafter
  obtain ⟨rfl, rfl⟩ := Prod.mk.inj hev'
  -- the connection opens with its markers, and the record is none of them
  obtain ⟨m, hm⟩ := Nat.exists_eq_succ_of_ne_zero hn
  have hconn : (runConnections tickers room turns)[m + 1]? = some (before ++ ev' :: after) := by
    rw [← Nat.succ_eq_add_one, ← hm]
    apply List.mk_mem_zipIdx_iff_getElem?.1
    rw [hconns]
    exact List.mem_append_right _ List.mem_cons_self
  rcases runConnections_opens hconn with ⟨recvTs, hopens⟩ | hmarkers
  · obtain ⟨read, rfl⟩ := List.prefix_of_not_mem hopens
      fun hmem => hdata (isMarker_of_mem_reconnectMarkers hmem)
    obtain ⟨others, others', hsplit⟩ :=
      List.append_of_mem (mem_reconnectMarkers recvTs ht channel)
    refine ⟨recvTs, conns.flatMap (fun c => c.1.map (Prod.mk c.2)) ++ others.map (Prod.mk k),
      (others' ++ read).map (Prod.mk k), ?_, ?_⟩
    · rw [hsplit, List.append_assoc, List.map_append, List.cons_append, List.map_cons,
        List.append_assoc]
    · intro e he
      obtain ⟨ev, -, rfl⟩ := List.mem_map.1 he
      rfl
  · exact absurd (hmarkers ev' (by simp)) hdata

/-- So does it among the records of the run. -/
theorem CaptureRun.exists_marker {run : CaptureRun} {pre post : List (ℕ × Persisted)} {n : ℕ}
    {p : Persisted} {ev : CaptureEvent} (h : run.records = pre ++ (n, p) :: post)
    (hev : p.incoming.event? = some ev) (hdata : ¬ ev.IsMarker) (hn : n ≠ 0) {ticker : String}
    (ht : ticker ∈ run.tickers) (channel : Channel) :
    ∃ recvTs before z mid, pre = before ++ (n, z) :: mid ∧
      z.incoming.event? =
        some (gapCaptureEvent recvTs none channel (reconnectMarker ticker channel)) ∧
      ∀ e ∈ numberedEvents mid, e.1 = n := by
  obtain ⟨rest, hrest⟩ := run.fed
  have hself : p.incoming.event?.map (Prod.mk n) = some (n, ev) := by rw [hev, Option.map_some]
  rw [h, numberedEvents, List.filterMap_append, List.filterMap_cons, hself,
    List.append_assoc] at hrest
  obtain ⟨recvTs, before, mid, hsplit, hmid⟩ := numberedSent_split hrest.symm hdata hn ht channel
  obtain ⟨before', ⟨k, z⟩, mid', rfl, -, hz, rfl⟩ := List.exists_split_of_filterMap hsplit
  obtain ⟨ev', hev', heq⟩ := Option.map_eq_some_iff.1 hz
  obtain ⟨rfl, rfl⟩ := Prod.mk.inj heq
  exact ⟨recvTs, before', z, mid', rfl, hev', hmid⟩

theorem CaptureEvent.not_isMarker_of_isData {ev : CaptureEvent} (h : ev.isData = true) :
    ¬ ev.IsMarker := by
  rintro ⟨recvTs, sid, channel, marker, rfl⟩
  cases h

theorem breaksMarked_history (history : List CaptureRun) :
    BreaksMarked (·.OnReconnect history) (historyRecords history) := by
  rintro stream before x mid ⟨i, n, p⟩ after h hx hy hxs hys - hne
    ⟨hn, run, hrun, ticker, ht, channel, hstream⟩
  obtain rfl : stream = (safeTicker ticker, channel.str) := by
    rw [hys] at hstream
    exact Option.some.inj hstream
  obtain ⟨ev, hev, hdata⟩ := (Option.any_eq_true _ _).1 hy
  -- the record stands among those of its run, whose marker stands before it
  rw [← List.cons_append, ← List.append_assoc] at h
  obtain ⟨runs, ⟨run', k⟩, runs', part, rest, hruns, hpart, hbefore⟩ :=
    List.exists_split_of_flatMap h
  dsimp only at hpart
  obtain ⟨pre, post, hrecords, rfl, hpost⟩ := List.map_eq_append_iff.1 hpart
  obtain ⟨⟨n', p'⟩, post, rfl, heq, -⟩ := List.map_eq_cons_iff.1 hpost
  obtain ⟨rfl, rfl, rfl⟩ := Received.mk.inj heq
  have hget : history[k]? = some run' := by
    apply List.mk_mem_zipIdx_iff_getElem?.1
    rw [hruns]
    exact List.mem_append_right _ List.mem_cons_self
  obtain rfl : run' = run := Option.some.inj (hget.symm.trans hrun)
  obtain ⟨recvTs, records, z, between, rfl, hz, hbetween⟩ := CaptureRun.exists_marker hrecords hev
    (CaptureEvent.not_isMarker_of_isData hdata) hn ht channel
  rw [List.map_append, List.map_cons, ← List.append_assoc] at hbefore
  have hzdata : x ≠ ⟨k, n', z⟩ := by
    rintro rfl
    rw [Received.isData, hz] at hx
    cases hx
  rcases List.split_of_ne hzdata hbefore with ⟨mid', -, rfl⟩ | ⟨mid', -, hafter⟩
  · refine ⟨⟨k, n', z⟩, by simp, ?_, ?_⟩
    · rw [Received.stream, Incoming.event?_eq_some.1 hz]
      rfl
    · rw [Received.isReconnect, hz]
      rfl
  · -- what was received after the marker was received over the same connection
    exfalso
    have hmem : x ∈ between.map fun p => (⟨k, p.1, p.2⟩ : Received) := by
      rw [hafter]
      simp
    obtain ⟨⟨c, q⟩, hq, rfl⟩ := List.mem_map.1 hmem
    obtain ⟨ev', hev', -⟩ := (Option.any_eq_true _ _).1 hx
    have hc := hbetween (c, ev') (List.mem_filterMap.2 ⟨(c, q), hq, by simp [hev']⟩)
    exact hne (congrArg (Prod.mk k) hc)

/-- Over any history of runs the files hold what the runs append, each the events its session sends
as far as its writer gets, and every break that a reconnect ends is marked. -/
theorem reconnects_marked (history : List CaptureRun) :
    (∀ run ∈ history, run.records.filterMap (·.2.incoming.event?) <+:
      (runSession run.tickers run.room run.turns).sent) ∧
    (∃ tree, history.foldlM CaptureRun.write [] = .ok tree ∧ ∀ key, tree.linesOf key =
      ((historyRecords history).filter (·.persisted.filedIn key)).map (·.persisted.line)) ∧
    BreaksMarked (·.OnReconnect history) (historyRecords history) :=
  ⟨fun run _ => run.events_prefix, linesOf_history history, breaksMarked_history history⟩

/-! ### Breaks that are not marked -/

/-- A run that receives one trade of market `A` over its only connection. -/
def oneTrade : CaptureRun :=
  { tickers := ["A"], room := none
    turns := [.connected 101 epoch [.text ⟨10 ^ 3, by decide⟩ tradeFrame] true]
    records := [(0, storedFrame 1 (by decide) tradeFrame)]
    fed := ⟨[], rfl⟩ }

/-- A run for market `B` that receives a trade of market `A` before and after a reconnect. -/
def unsubscribedTrades : CaptureRun :=
  { tickers := ["B"], room := none
    turns := [.connected 101 epoch [.text ⟨10 ^ 3, by decide⟩ tradeFrame, .close] false,
      .connected 101 ⟨2000, by decide⟩ [.text ⟨3000, by decide⟩ tradeFrame] true]
    records := [(0, storedFrame 1 (by decide) tradeFrame),
      (1, storedFrame 2 (by decide)
        (gapCaptureEvent ⟨2000, by decide⟩ none .orderbook (reconnectMarker "B" .orderbook)).frame),
      (1, storedFrame 2 (by decide)
        (gapCaptureEvent ⟨2000, by decide⟩ none .trade (reconnectMarker "B" .trade)).frame),
      (1, storedFrame 3 (by decide) tradeFrame)]
    fed := ⟨[], rfl⟩ }

/-- A restart leaves no marker, and neither does a reconnect in a stream its run does not subscribe
to. -/
theorem breaks_without_marker :
    ¬ BreaksMarked (fun _ => True) (historyRecords [oneTrade, oneTrade]) ∧
      ¬ BreaksMarked (fun _ => True) (historyRecords [unsubscribedTrades]) := by
  constructor
  · intro h
    obtain ⟨z, hz, -⟩ := h ("A", "trade") [] _ [] _ [] rfl rfl rfl rfl rfl (by simp) (by decide)
      trivial
    cases hz
  · intro h
    obtain ⟨z, hz, hs, -⟩ := h ("A", "trade") [] _ [_, _] _ [] rfl rfl rfl rfl rfl
      (by decide) (by decide) trivial
    rcases List.mem_pair.1 hz with rfl | rfl
    · revert hs
      decide
    · revert hs
      decide

end Snapevent
