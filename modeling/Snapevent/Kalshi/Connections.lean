import Mathlib.Data.List.Infix
import Snapevent.Kalshi.Handled

/-!
# The connections of a run

What is sent over each connection a run makes.  Every connection but the first opens with the
markers of its reconnect; the flag that tells them apart lives as long as the run.
-/

namespace Snapevent

/-- The events of a reconnect, one for each stream. -/
def reconnectMarkers (recvTs : Timestamp) (tickers : List String) : List CaptureEvent :=
  tickers.flatMap fun ticker => ONDISK_CHANNELS.map fun channel =>
    gapCaptureEvent recvTs none channel (reconnectMarker ticker channel)

theorem emitReconnectGaps_ok {s s' : Session} {recvTs : Timestamp} {tickers : List String}
    (h : emitReconnectGaps s recvTs tickers = .ok s') :
    s'.sent = s.sent ++ reconnectMarkers recvTs tickers := by
  refine FoldM.collect (fun s ticker s' hs => ?_) h
  rw [List.map_eq_flatMap]
  exact FoldM.collect (fun s channel s' hs => sendGap_ok hs) hs

theorem mem_reconnectMarkers (recvTs : Timestamp) {tickers : List String} {ticker : String}
    (h : ticker ∈ tickers) (channel : Channel) :
    gapCaptureEvent recvTs none channel (reconnectMarker ticker channel) ∈
      reconnectMarkers recvTs tickers := by
  refine List.mem_flatMap.2 ⟨ticker, h, List.mem_map_of_mem ?_⟩
  cases channel <;> decide

theorem isMarker_of_mem_reconnectMarkers {recvTs : Timestamp} {tickers : List String}
    {ev : CaptureEvent} (h : ev ∈ reconnectMarkers recvTs tickers) : ev.IsMarker := by
  obtain ⟨ticker, -, h⟩ := List.mem_flatMap.1 h
  obtain ⟨channel, -, rfl⟩ := List.mem_map.1 h
  exact ⟨_, _, _, _, rfl⟩

/-- What is sent over each connection the outer loop makes. -/
def loopConnections (tickers : List String) (first : Bool) (s : Session) :
    List Turn → List (List CaptureEvent)
  | [] => []
  | .shutdown :: _ => []
  | .refused stop :: turns => if stop then [] else loopConnections tickers first s turns
  | .connected status recvTs events stop :: turns =>
    let s := { s with stats := { s.stats with
      status := some status, connects := s.stats.connects + 1 } }
    match if first then .ok s else emitReconnectGaps s recvTs tickers with
    | .error t => [t.sent.drop s.sent.length]
    | .ok t =>
      let (u, reconnect) := readLoop tickers (.new, t) events
      u.sent.drop s.sent.length ::
        if !reconnect || stop then [] else loopConnections tickers false u turns

/-- What is sent over each connection a run of the session makes. -/
def runConnections (tickers : List String) (room : Option ℕ) (turns : List Turn) :
    List (List CaptureEvent) :=
  loopConnections tickers true (.start room) turns

/-- The connection opens with the markers of a reconnect, or broke off among them. -/
def OpensMarked (tickers : List String) (sent : List CaptureEvent) : Prop :=
  (∃ recvTs, reconnectMarkers recvTs tickers <+: sent) ∨ ∀ ev ∈ sent, ev.IsMarker

theorem Session.Marked.isPrefix {s s' : Session} (h : s.Marked s') : s.sent <+: s'.sent := by
  obtain ⟨gaps, hsent, -⟩ := h
  exact ⟨gaps, hsent.symm⟩

/-- The connections send what the loop sends. -/
theorem loopConnections_sent (tickers : List String) (first : Bool) (s : Session)
    (turns : List Turn) : (sessionLoop tickers first s turns).sent =
      s.sent ++ (loopConnections tickers first s turns).flatten := by
  induction turns generalizing first s with
  | nil => simp [sessionLoop, loopConnections]
  | cons turn turns ih =>
    rcases turn with _ | stop | ⟨status, recvTs, events, stop⟩
    · simp [sessionLoop, loopConnections, Session.finish]
    · rw [sessionLoop, loopConnections]
      split_ifs
      · simp [Session.finish]
      · exact ih first s
    · let s₀ : Session := { s with stats := { s.stats with
        status := some status, connects := s.stats.connects + 1 } }
      have hopened := (opening_marked first s₀ recvTs tickers).isPrefix
      rw [sessionLoop, loopConnections]
      dsimp only
      rcases hopen : (if first then .ok s₀ else emitReconnectGaps s₀ recvTs tickers) with t | t
      · rw [hopen] at hopened ⊢
        rw [List.flatten_singleton]
        exact List.prefix_append_drop hopened
      · rw [hopen] at hopened ⊢
        have hread := (readLoop_trace tickers (.new, t) events).isPrefix
        dsimp only
        rcases hloop : readLoop tickers (.new, t) events with ⟨u, _ | _⟩
        · rw [hloop] at hread
          have hsent := List.prefix_append_drop (hopened.trans hread)
          rw [List.flatten_cons, ← List.append_assoc]
          change u.sent = s.sent ++ u.sent.drop s.sent.length at hsent
          rw [← hsent]
          exact (List.append_nil _).symm
        · rw [hloop] at hread
          have hsent := List.prefix_append_drop (hopened.trans hread)
          rw [List.flatten_cons, ← List.append_assoc]
          change u.sent = s.sent ++ u.sent.drop s.sent.length at hsent
          rw [← hsent]
          cases stop with
          | false => exact ih false u
          | true => exact (List.append_nil _).symm

/-- Every connection but the first of a loop that has not connected yet opens with the markers of a
reconnect. -/
theorem loopConnections_opens (tickers : List String) (first : Bool) (s : Session)
    (turns : List Turn) :
    ∀ sent ∈ (loopConnections tickers first s turns).drop first.toNat,
      OpensMarked tickers sent := by
  induction turns generalizing first s with
  | nil => simp [loopConnections]
  | cons turn turns ih =>
    rcases turn with _ | stop | ⟨status, recvTs, events, stop⟩
    · simp [loopConnections]
    · rw [loopConnections]
      split_ifs
      · simp
      · exact ih first s
    · let s₀ : Session := { s with stats := { s.stats with
        status := some status, connects := s.stats.connects + 1 } }
      have hrest (u : Session) (b : Bool) : ∀ sent ∈
          (if b then [] else loopConnections tickers false u turns), OpensMarked tickers sent := by
        split_ifs
        · simp
        · exact ih false u
      rw [loopConnections]
      cases first with
      | true => exact hrest _ _
      | false =>
        have hopened := emitReconnectGaps_marked s₀ recvTs tickers
        dsimp only [Bool.false_eq_true, if_false, Bool.toNat_false, List.drop_zero]
        rcases hopen : emitReconnectGaps s₀ recvTs tickers with t | t
        · rw [hopen] at hopened
          obtain ⟨gaps, hgaps, hmarkers⟩ := hopened
          have hdrop : t.sent.drop s.sent.length = gaps := by
            change t.sent = s.sent ++ gaps at hgaps
            rw [hgaps, List.drop_left]
          refine List.forall_mem_singleton.2 (Or.inr ?_)
          rw [hdrop]
          exact hmarkers
        · obtain ⟨read, hread⟩ := (readLoop_trace tickers (.new, t) events).isPrefix
          have hsent : (readLoop tickers (.new, t) events).1.sent =
              s.sent ++ (reconnectMarkers recvTs tickers ++ read) := by
            rw [← hread, emitReconnectGaps_ok hopen, List.append_assoc]
          refine List.forall_mem_cons.2 ⟨Or.inl ⟨recvTs, ?_⟩, hrest _ _⟩
          rw [hsent, List.drop_left]
          exact List.prefix_append _ _

theorem runSession_sent (tickers : List String) (room : Option ℕ) (turns : List Turn) :
    (runSession tickers room turns).sent = (runConnections tickers room turns).flatten :=
  loopConnections_sent tickers true (.start room) turns

theorem runConnections_opens {tickers : List String} {room : Option ℕ} {turns : List Turn} {n : ℕ}
    {sent : List CaptureEvent} (h : (runConnections tickers room turns)[n + 1]? = some sent) :
    OpensMarked tickers sent := by
  apply loopConnections_opens tickers true (.start room) turns
  refine List.mem_of_getElem? (i := n) ?_
  rw [List.getElem?_drop, Nat.add_comm]
  exact h

end Snapevent
