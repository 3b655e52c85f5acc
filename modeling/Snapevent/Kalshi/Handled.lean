import Snapevent.Kalshi.Session

/-!
# The frames a run handles

Which text frames a run of the session handles to the end, each with the connection it found, and
what the consumer is sent for them.
-/

namespace Snapevent

/-- A text frame the read loop handled: the connection before it, its receive time and what was
decoded. -/
structure Handled where
  before : Connected
  recvTs : Timestamp
  frame : DecodedFrame

namespace Handled

/-- What was sent before the frame. -/
def sent (x : Handled) : List CaptureEvent := x.before.2.sent

/-- What its sequence number is classified as. -/
def outcome (x : Handled) : SeqOutcome := (classifySeq x.frame x.before.1).2

/-- The events the frame is turned into. -/
def events (x : Handled) (tickers : List String) : List CaptureEvent :=
  textEvents tickers x.recvTs x.frame x.outcome

end Handled

/-- Only a sequenced data frame that is no snapshot reveals a jump. -/
theorem classifySeq_gap {frame : DecodedFrame} {trackers : Trackers} {channel : Channel}
    {sid : Int64} {lastSeq : Option UInt64} {observedSeq : UInt64}
    (h : (classifySeq frame trackers).2 = .gap channel sid lastSeq observedSeq) :
    ∃ ticker record, frame = ⟨some sid, some observedSeq, .data channel ticker record⟩ ∧
      record.isSnapshot = false := by
  rcases frame with ⟨_ | sid', seq, ⟨channel', ticker, record⟩ | m | d | ⟨c, ticker, r⟩⟩
  case some.data =>
    rw [classifySeq] at h
    cases hr : record.isSnapshot with
    | false =>
      cases seq with
      | none => simp [hr] at h
      | some seq =>
        simp only [hr, Bool.false_eq_true, if_false] at h
        rcases hseq : (trackers sid').onSequenced seq with ⟨tracker, _ | _ | ⟨last, observed⟩⟩ <;>
          rw [hseq] at h <;> cases h
        obtain rfl : observedSeq = seq := by
          rw [SeqTracker.onSequenced] at hseq
          split at hseq
          · cases hseq
          · split_ifs at hseq <;> cases hseq
            rfl
        exact ⟨ticker, record, rfl, hr⟩
    | true => simp [hr, SeqTracker.onSnapshot] at h
  all_goals cases h

/-- The frames the read loop handles. -/
def readHandled (tickers : List String) (c : Connected) : List SocketEvent → List Handled
  | [] => []
  | ev :: evs =>
    match onSocketEvent tickers c ev with
    | .stop .. => []
    | .go c' =>
      match ev with
      | .text recvTs frame => ⟨c, recvTs, frame⟩ :: readHandled tickers c' evs
      | _ => readHandled tickers c' evs

/-- The frames the outer loop handles. -/
def loopHandled (tickers : List String) (first : Bool) (s : Session) : List Turn → List Handled
  | [] => []
  | .shutdown :: _ => []
  | .refused stop :: turns => if stop then [] else loopHandled tickers first s turns
  | .connected status recvTs events stop :: turns =>
    let s := { s with stats := { s.stats with
      status := some status, connects := s.stats.connects + 1 } }
    match if first then .ok s else emitReconnectGaps s recvTs tickers with
    | .error _ => []
    | .ok s =>
      let (s', reconnect) := readLoop tickers (.new, s) events
      readHandled tickers (.new, s) events ++
        if !reconnect || stop then [] else loopHandled tickers false s' turns

/-- The frames a run of the session handles. -/
def runHandled (tickers : List String) (room : Option ℕ) (turns : List Turn) : List Handled :=
  loopHandled tickers true (.start room) turns

/-! ## What is sent for them -/

/-- The event is a synthesized gap marker. -/
def CaptureEvent.IsMarker (ev : CaptureEvent) : Prop :=
  ∃ recvTs sid channel marker, ev = gapCaptureEvent recvTs sid channel marker

/-- Between the sent lists `sent` and `sent'` the frames `hs` were handled, each finding what had
been sent before it, and gap markers were sent. -/
inductive Trace (tickers : List String) :
    List CaptureEvent → List Handled → List CaptureEvent → Prop
  | done {sent} : Trace tickers sent [] sent
  | markers {sent gaps hs sent'} : (∀ ev ∈ gaps, ev.IsMarker) →
      Trace tickers (sent ++ gaps) hs sent' → Trace tickers sent hs sent'
  | handle {sent x hs sent'} : x.sent = sent →
      Trace tickers (sent ++ x.events tickers) hs sent' → Trace tickers sent (x :: hs) sent'

namespace Trace

variable {tickers : List String} {sent sent' sent'' : List CaptureEvent} {hs hs' : List Handled}

theorem append (h : Trace tickers sent hs sent') (h' : Trace tickers sent' hs' sent'') :
    Trace tickers sent (hs ++ hs') sent'' := by
  induction h with
  | done => exact h'
  | markers hm _ ih => exact .markers hm (ih h')
  | handle hx _ ih => exact .handle hx (ih h')

theorem isPrefix (h : Trace tickers sent hs sent') : sent <+: sent' := by
  induction h with
  | done => exact List.prefix_rfl
  | markers _ _ ih => exact (List.prefix_append _ _).trans ih
  | handle _ _ ih => exact (List.prefix_append _ _).trans ih

/-- The events of a handled frame follow what was sent before it. -/
theorem events_isPrefix (h : Trace tickers sent hs sent') {x : Handled} (hx : x ∈ hs) :
    x.sent ++ x.events tickers <+: sent' := by
  induction h with
  | done => simp at hx
  | markers _ _ ih => exact ih hx
  | handle hsent hrest ih =>
    rcases List.mem_cons.1 hx with rfl | hx
    · rw [hsent]
      exact hrest.isPrefix
    · exact ih hx

theorem mem_textEvents {recvTs : Timestamp} {frame : DecodedFrame} {outcome : SeqOutcome}
    {ev : CaptureEvent} (h : ev ∈ textEvents tickers recvTs frame outcome) :
    ev.IsMarker ∨ ev = ⟨recvTs, frame⟩ := by
  rcases outcome with _ | _ | ⟨channel, sid, lastSeq, observedSeq⟩
  · exact Or.inr (List.mem_singleton.1 h)
  · cases h
  · rcases List.mem_append.1 h with h | h
    · obtain ⟨ticker, -, rfl⟩ := List.mem_map.1 h
      exact Or.inl ⟨_, _, _, _, rfl⟩
    · exact Or.inr (List.mem_singleton.1 h)

theorem mem_sent (h : Trace tickers sent hs sent') {ev : CaptureEvent} (hev : ev ∈ sent') :
    ev ∈ sent ∨ ev.IsMarker ∨ ∃ x ∈ hs, ev = ⟨x.recvTs, x.frame⟩ := by
  induction h with
  | done => exact Or.inl hev
  | markers hmarkers _ ih =>
    rcases ih hev with hev | hev
    · exact (List.mem_append.1 hev).imp_right fun hev => Or.inl (hmarkers ev hev)
    · exact Or.inr hev
  | @handle _ x _ _ _ _ ih =>
    rcases ih hev with hev | hev | ⟨y, hy, rfl⟩
    · rcases List.mem_append.1 hev with hev | hev
      · exact Or.inl hev
      · exact Or.inr ((mem_textEvents hev).imp_right fun he => ⟨x, List.mem_cons_self, he⟩)
    · exact Or.inr (Or.inl hev)
    · exact Or.inr (Or.inr ⟨y, List.mem_cons_of_mem x hy, rfl⟩)

end Trace

/-! ## Following the loops -/

/-- Only gap markers were sent in between. -/
def Session.Marked (s s' : Session) : Prop :=
  ∃ gaps, s'.sent = s.sent ++ gaps ∧ ∀ ev ∈ gaps, ev.IsMarker

namespace Session.Marked

theorem refl (s : Session) : s.Marked s := ⟨[], by simp, by simp⟩

theorem trans {s s' s'' : Session} : s.Marked s' → s'.Marked s'' → s.Marked s'' := by
  rintro ⟨gaps, h, hm⟩ ⟨gaps', h', hm'⟩
  exact ⟨gaps ++ gaps', by rw [h', h, List.append_assoc], List.forall_mem_append.2 ⟨hm, hm'⟩⟩

theorem trace {s s' : Session} (h : s.Marked s') {tickers : List String} {hs : List Handled}
    {sent : List CaptureEvent} (htrace : Trace tickers s'.sent hs sent) :
    Trace tickers s.sent hs sent := by
  obtain ⟨gaps, hsent, hm⟩ := h
  rw [hsent] at htrace
  exact .markers hm htrace

end Session.Marked

theorem sendGap_marked (s : Session) (recvTs : Timestamp) (sid : Option Int64) (channel : Channel)
    (marker : GapMarker) : s.Marked (FoldM.last (sendGap s recvTs sid channel marker)) := by
  rcases s with ⟨sent, _ | _ | n, stats⟩
  · exact ⟨[_], rfl, by simpa using ⟨recvTs, sid, channel, marker, rfl⟩⟩
  · exact .refl _
  · exact ⟨[_], rfl, by simpa using ⟨recvTs, sid, channel, marker, rfl⟩⟩

theorem emitSeqGaps_marked (s : Session) (recvTs : Timestamp) (tickers : List String)
    (channel : Channel) (sid : Int64) (lastSeq : Option UInt64) (observedSeq : UInt64) :
    s.Marked (FoldM.last (emitSeqGaps s recvTs tickers channel sid lastSeq observedSeq)) :=
  FoldM.last_foldlM .refl .trans (fun s _ => sendGap_marked s ..) tickers s

theorem emitReconnectGaps_marked (s : Session) (recvTs : Timestamp) (tickers : List String) :
    s.Marked (FoldM.last (emitReconnectGaps s recvTs tickers)) :=
  FoldM.last_foldlM .refl .trans (fun s _ => FoldM.last_foldlM .refl .trans
    (fun s _ => sendGap_marked s ..) ONDISK_CHANNELS s) tickers s

theorem opening_marked (first : Bool) (s : Session) (recvTs : Timestamp) (tickers : List String) :
    s.Marked (FoldM.last (if first then .ok s else emitReconnectGaps s recvTs tickers)) := by
  cases first with
  | false => exact emitReconnectGaps_marked s recvTs tickers
  | true => exact .refl s

theorem Session.send_error {s s' : Session} {ev : CaptureEvent} (h : s.send ev = .error s') :
    s' = s := by
  rw [send] at h
  split at h <;> cases h
  rfl

/-- When the consumer leaves during a frame, only markers of that frame were sent. -/
theorem onText_error {tickers : List String} {c : Connected} {recvTs : Timestamp}
    {frame : DecodedFrame} {s : Session} (h : onText tickers c recvTs frame = .error s) :
    c.2.Marked s := by
  let s₀ : Session := { c.2 with stats := c.2.stats.countFrame frame }
  rw [onText] at h
  rcases hseq : classifySeq frame c.1 with
    ⟨trackers, _ | _ | ⟨channel, sid, lastSeq, observedSeq⟩⟩ <;>
    rw [hseq] at h <;> dsimp only at h
  · cases hsend : s₀.send ⟨recvTs, frame⟩ with
    | error e =>
      rw [hsend] at h
      cases h
      rw [Session.send_error hsend]
      exact ⟨[], (List.append_nil _).symm, by simp⟩
    | ok t =>
      rw [hsend] at h
      cases h
  · cases h
  · have hmarked := emitSeqGaps_marked s₀ recvTs tickers channel sid lastSeq observedSeq
    cases hemit : emitSeqGaps s₀ recvTs tickers channel sid lastSeq observedSeq with
    | error e =>
      rw [hemit] at h hmarked
      cases h
      exact hmarked
    | ok t =>
      rw [hemit] at h hmarked
      cases hsend : t.send ⟨recvTs, frame⟩ with
      | error e =>
        change (t.send _ >>= _) = _ at h
        rw [hsend] at h
        cases h
        cases Session.send_error hsend
        exact hmarked
      | ok u =>
        change (t.send _ >>= _) = _ at h
        rw [hsend] at h
        cases h

/-- The read loop sends the events of the frames it handles, and gap markers. -/
theorem readLoop_trace (tickers : List String) (c : Connected) (evs : List SocketEvent) :
    Trace tickers c.2.sent (readHandled tickers c evs) (readLoop tickers c evs).1.sent := by
  induction evs generalizing c with
  | nil => exact .done
  | cons ev evs ih =>
    rw [readHandled, readLoop]
    rcases ev with _ | _ | _ | ⟨recvTs, frame⟩ | ponged | _ | _
    case text =>
      rw [onSocketEvent]
      cases htext : onText tickers c recvTs frame with
      | error s => exact (onText_error htext).trace .done
      | ok c' =>
        refine .handle rfl ?_
        have hsent := (onText_ok htext).2
        rw [Handled.events, Handled.outcome, ← hsent]
        exact ih c'
    case ping =>
      cases ponged with
      | false => exact .done
      | true => exact ih c
    case other => exact ih c
    all_goals exact .done

/-- So does the outer loop. -/
theorem sessionLoop_trace (tickers : List String) (first : Bool) (s : Session) (turns : List Turn) :
    Trace tickers s.sent (loopHandled tickers first s turns)
      (sessionLoop tickers first s turns).sent := by
  induction turns generalizing first s with
  | nil => exact .done
  | cons turn turns ih =>
    rcases turn with _ | stop | ⟨status, recvTs, events, stop⟩
    · exact .done
    · rw [loopHandled, sessionLoop]
      split_ifs
      · exact .done
      · exact ih first s
    · let s₀ : Session := { s with stats := { s.stats with
        status := some status, connects := s.stats.connects + 1 } }
      have hopened := opening_marked first s₀ recvTs tickers
      rw [loopHandled, sessionLoop]
      dsimp only
      rcases hopen : (if first then .ok s₀ else emitReconnectGaps s₀ recvTs tickers) with s₁ | s₁
      · rw [hopen] at hopened ⊢
        exact hopened.trace .done
      · rw [hopen] at hopened ⊢
        apply hopened.trace
        have hread := readLoop_trace tickers (.new, s₁) events
        dsimp only
        rcases hloop : readLoop tickers (.new, s₁) events with ⟨s₂, _ | _⟩
        · rw [hloop] at hread
          exact hread.append .done
        · rw [hloop] at hread
          dsimp only
          cases stop with
          | false => exact hread.append (ih false s₂)
          | true => exact hread.append .done

theorem runSession_trace (tickers : List String) (room : Option ℕ) (turns : List Turn) :
    Trace tickers [] (runHandled tickers room turns) (runSession tickers room turns).sent :=
  sessionLoop_trace tickers true (.start room) turns

end Snapevent
