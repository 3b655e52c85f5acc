import Mathlib.Logic.Function.Basic
import Snapevent.Core.Records
import Snapevent.Lib.FoldM
import Snapevent.Kalshi.SeqTracker

/-!
# The capture session

The producer half of the capture (`session.rs`): the read loop with inline gap detection, inside the
loop that reconnects.  The socket, the clock and the shutdown signal are a script of what the source
awaits; a text frame stands in it as `decode_frame` returned it (`protocol.rs`), with its receive
time.  The consumer may drop its receiver after any number of events.
-/

namespace Snapevent

/-! ## Frames -/

/-- The classification of a decoded frame. -/
inductive FrameOutcome
  | data (channel : Channel) (ticker : Ticker) (record : RecordKind)
  | control (msgType : String)
  | serverError (detail : String)
  | raw (channel : Option Channel) (ticker : Option Ticker) (fallback : RawFallback)

/-- A decoded frame. -/
structure DecodedFrame where
  sid : Option Int64
  seq : Option UInt64
  outcome : FrameOutcome

/-- A frame with the receive time stamped when it arrived. -/
structure CaptureEvent where
  recvTs : Timestamp
  frame : DecodedFrame

/-- A short label for the by-type statistics. -/
def frameLabel (frame : DecodedFrame) : String :=
  match frame.outcome with
  | .data _ _ record =>
    match record with
    | .snapshot _ => "snapshot"
    | .delta _ => "delta"
    | .trade _ => "trade"
    | .gap _ => "gap"
    | .raw _ => "raw"
    | .verify _ => "verify"
  | .control msgType => "control:" ++ msgType
  | .serverError _ => "error"
  | .raw .. => "raw"

/-! ## Session state -/

/-- Why a session ended. -/
inductive SessionEnd
  | shutdown
  | sinkClosed
  deriving DecidableEq, Repr

/-- Statistics of a session run. -/
structure SessionStats where
  status : Option UInt16
  frames : ℕ
  byType : String → ℕ
  connects : ℕ
  gaps : ℕ
  ended : Option SessionEnd

/-- The statistics of a session that has not begun. -/
def SessionStats.default : SessionStats :=
  { status := none, frames := 0, byType := fun _ => 0, connects := 0, gaps := 0, ended := none }

/-- A running session: the events its consumer has taken, how many more it takes before it drops
the receiver (`none`: it never does), and the statistics. -/
structure Session where
  sent : List CaptureEvent
  room : Option ℕ
  stats : SessionStats

namespace Session

/-- A session that has not begun. -/
def start (room : Option ℕ) : Session := { sent := [], room, stats := .default }

/-- Send one event; an error is a dropped receiver. -/
def send (s : Session) (ev : CaptureEvent) : Except Session Session :=
  match s.room with
  | some 0 => .error s
  | some (n + 1) => .ok { s with sent := s.sent ++ [ev], room := some n }
  | none => .ok { s with sent := s.sent ++ [ev] }

/-- Mark the session ended. -/
def finish (s : Session) (why : SessionEnd) : Session :=
  { s with stats := { s.stats with ended := some why } }

end Session

/-! ## Gap markers -/

/-- The event of a synthesized gap marker: it carries no sequence number of its own. -/
def gapCaptureEvent (recvTs : Timestamp) (sid : Option Int64) (channel : Channel)
    (marker : GapMarker) : CaptureEvent :=
  ⟨recvTs, ⟨sid, none, .data channel marker.ticker (.gap marker)⟩⟩

/-- Send one synthesized gap marker. -/
def sendGap (s : Session) (recvTs : Timestamp) (sid : Option Int64) (channel : Channel)
    (marker : GapMarker) : Except Session Session :=
  { s with stats := { s.stats with gaps := s.stats.gaps + 1 } }.send
    (gapCaptureEvent recvTs sid channel marker)

/-- The reconnect marker of a stream. -/
def reconnectMarker (ticker : String) (channel : Channel) : GapMarker :=
  { reason := .reconnect, ticker := ⟨ticker⟩, channel := channel.str, lastSeq := none
    observedSeq := none, detail := "reconnected after disconnect/idle" }

/-- The channels a reconnect is marked in. -/
def ONDISK_CHANNELS : List Channel := [.orderbook, .trade]

/-- Mark a reconnect in every stream. -/
def emitReconnectGaps (s : Session) (recvTs : Timestamp) (tickers : List String) :
    Except Session Session :=
  tickers.foldlM (fun s ticker => ONDISK_CHANNELS.foldlM (fun s channel =>
    sendGap s recvTs none channel (reconnectMarker ticker channel)) s) s

/-- The sequence-jump marker of a ticker. -/
def seqJumpMarker (ticker : String) (channel : Channel) (sid : Int64) (lastSeq : Option UInt64)
    (observedSeq : UInt64) : GapMarker :=
  { reason := .seqJump, ticker := ⟨ticker⟩, channel := channel.str, lastSeq
    observedSeq := some observedSeq, detail := "seq jump on sid " ++ toString sid.toInt }

/-- Mark a sequence jump in the stream of every ticker on the channel. -/
def emitSeqGaps (s : Session) (recvTs : Timestamp) (tickers : List String) (channel : Channel)
    (sid : Int64) (lastSeq : Option UInt64) (observedSeq : UInt64) : Except Session Session :=
  tickers.foldlM (fun s ticker =>
    sendGap s recvTs (some sid) channel (seqJumpMarker ticker channel sid lastSeq observedSeq)) s

/-! ## One frame -/

/-- The trackers of a connection, one for each `sid` that has been seen. -/
abbrev Trackers := Int64 → SeqTracker

/-- The trackers of a new connection. -/
def Trackers.new : Trackers := fun _ => .new

/-- What to do with a frame after sequence checking. -/
inductive SeqOutcome
  | persist
  | duplicate
  | gap (channel : Channel) (sid : Int64) (lastSeq : Option UInt64) (observedSeq : UInt64)
  deriving DecidableEq, Repr

/-- The record is a full snapshot. -/
def RecordKind.isSnapshot : RecordKind → Bool
  | .snapshot _ => true
  | _ => false

/-- Feed a sequenced data frame to the tracker of its `sid`; other frames are not tracked. -/
def classifySeq (frame : DecodedFrame) (trackers : Trackers) : Trackers × SeqOutcome :=
  match frame.outcome, frame.sid with
  | .data channel _ record, some sid =>
    let (tracker, verdict) :=
      if record.isSnapshot then (trackers sid).onSnapshot frame.seq
      else match frame.seq with
        | some seq => (trackers sid).onSequenced seq
        | none => (trackers sid, .accept)
    let outcome := match verdict with
      | .accept => .persist
      | .duplicate => .duplicate
      | .gap lastSeq observedSeq => .gap channel sid lastSeq observedSeq
    (Function.update trackers sid tracker, outcome)
  | _, _ => (trackers, .persist)

/-- The session and the trackers of its connection. -/
abbrev Connected := Trackers × Session

/-- Count a frame that was read. -/
def SessionStats.countFrame (stats : SessionStats) (frame : DecodedFrame) : SessionStats :=
  { stats with
    frames := stats.frames + 1
    byType := Function.update stats.byType (frameLabel frame) (stats.byType (frameLabel frame) + 1) }

/-- Handle one text frame: count it, check its sequence number, mark a jump before the frame that
revealed it, and send the frame unless it is a duplicate. -/
def onText (tickers : List String) (c : Connected) (recvTs : Timestamp) (frame : DecodedFrame) :
    Except Session Connected := do
  let s := { c.2 with stats := c.2.stats.countFrame frame }
  let (trackers, outcome) := classifySeq frame c.1
  match outcome with
  | .duplicate => return (trackers, s)
  | .gap channel sid lastSeq observedSeq =>
    let s ← emitSeqGaps s recvTs tickers channel sid lastSeq observedSeq
    return (trackers, ← s.send ⟨recvTs, frame⟩)
  | .persist => return (trackers, ← s.send ⟨recvTs, frame⟩)

/-! ## One connection -/

/-- What the read loop awaits next; a script that is over is a stream the server closed. -/
inductive SocketEvent
  | shutdown
  | idle
  | failed
  | text (recvTs : Timestamp) (frame : DecodedFrame)
  | ping (ponged : Bool)
  | close
  | other

/-- What the read loop does after one event. -/
inductive LoopStep
  | go (c : Connected)
  | stop (s : Session) (reconnect : Bool)

/-- Handle one event of the socket. -/
def onSocketEvent (tickers : List String) (c : Connected) : SocketEvent → LoopStep
  | .shutdown => .stop (c.2.finish .shutdown) false
  | .idle => .stop c.2 true
  | .failed => .stop c.2 true
  | .close => .stop c.2 true
  | .ping ponged => if ponged then .go c else .stop c.2 true
  | .other => .go c
  | .text recvTs frame =>
    match onText tickers c recvTs frame with
    | .ok c => .go c
    | .error s => .stop (s.finish .sinkClosed) false

/-- The inner read loop: the session it leaves, and whether to reconnect. -/
def readLoop (tickers : List String) (c : Connected) : List SocketEvent → Session × Bool
  | [] => (c.2, true)
  | ev :: evs =>
    match onSocketEvent tickers c ev with
    | .go c => readLoop tickers c evs
    | .stop s reconnect => (s, reconnect)

/-! ## The session loop -/

/-- One turn of the outer loop; `stop` tells whether shutdown fires during the backoff after it. -/
inductive Turn
  | shutdown
  | refused (stop : Bool)
  | connected (status : UInt16) (recvTs : Timestamp) (events : List SocketEvent) (stop : Bool)

/-- The outer loop; `first` until a connection has been made. -/
def sessionLoop (tickers : List String) (first : Bool) (s : Session) : List Turn → Session
  | [] => s
  | .shutdown :: _ => s.finish .shutdown
  | .refused stop :: turns =>
    if stop then s.finish .shutdown else sessionLoop tickers first s turns
  | .connected status recvTs events stop :: turns =>
    let s := { s with stats := { s.stats with
      status := some status, connects := s.stats.connects + 1 } }
    match if first then .ok s else emitReconnectGaps s recvTs tickers with
    | .error s => s.finish .sinkClosed
    | .ok s =>
      let (s, reconnect) := readLoop tickers (.new, s) events
      if !reconnect then s
      else if stop then s.finish .shutdown
      else sessionLoop tickers false s turns

/-- Run the capture session against a script, with a consumer that takes `room` events. -/
def runSession (tickers : List String) (room : Option ℕ) (turns : List Turn) : Session :=
  sessionLoop tickers true (.start room) turns

/-! ## What is sent -/

/-- The events of a sequence jump, one for each ticker. -/
def seqJumpEvents (recvTs : Timestamp) (tickers : List String) (channel : Channel) (sid : Int64)
    (lastSeq : Option UInt64) (observedSeq : UInt64) : List CaptureEvent :=
  tickers.map fun ticker => gapCaptureEvent recvTs (some sid) channel
    (seqJumpMarker ticker channel sid lastSeq observedSeq)

/-- The events a text frame is turned into. -/
def textEvents (tickers : List String) (recvTs : Timestamp) (frame : DecodedFrame) :
    SeqOutcome → List CaptureEvent
  | .duplicate => []
  | .gap channel sid lastSeq observedSeq =>
    seqJumpEvents recvTs tickers channel sid lastSeq observedSeq ++ [⟨recvTs, frame⟩]
  | .persist => [⟨recvTs, frame⟩]

theorem Session.send_ok {s s' : Session} {ev : CaptureEvent} (h : s.send ev = .ok s') :
    s'.sent = s.sent ++ [ev] := by
  rw [send] at h
  split at h
  · cases h
  · cases h
    rfl
  · cases h
    rfl

theorem sendGap_ok {s s' : Session} {recvTs : Timestamp} {sid : Option Int64} {channel : Channel}
    {marker : GapMarker} (h : sendGap s recvTs sid channel marker = .ok s') :
    s'.sent = s.sent ++ [gapCaptureEvent recvTs sid channel marker] := by
  have hsent := Session.send_ok h
  exact hsent

theorem emitSeqGaps_ok {s s' : Session} {recvTs : Timestamp} {tickers : List String}
    {channel : Channel} {sid : Int64} {lastSeq : Option UInt64} {observedSeq : UInt64}
    (h : emitSeqGaps s recvTs tickers channel sid lastSeq observedSeq = .ok s') :
    s'.sent = s.sent ++ seqJumpEvents recvTs tickers channel sid lastSeq observedSeq := by
  rw [seqJumpEvents, List.map_eq_flatMap]
  exact FoldM.collect (fun s ticker s' hs => sendGap_ok hs) h

/-- Handling a text frame updates the trackers and sends the frame's events. -/
theorem onText_ok {tickers : List String} {c c' : Connected} {recvTs : Timestamp}
    {frame : DecodedFrame} (h : onText tickers c recvTs frame = .ok c') :
    c'.1 = (classifySeq frame c.1).1 ∧
      c'.2.sent = c.2.sent ++ textEvents tickers recvTs frame (classifySeq frame c.1).2 := by
  rw [onText] at h
  rcases hseq : classifySeq frame c.1 with
    ⟨trackers, _ | _ | ⟨channel, sid, lastSeq, observedSeq⟩⟩ <;>
    rw [hseq] at h <;> dsimp only at h
  · obtain ⟨s, hs, h⟩ := FoldM.bind_ok h
    cases h
    have hsent := Session.send_ok hs
    exact ⟨rfl, hsent⟩
  · cases h
    exact ⟨rfl, (List.append_nil _).symm⟩
  · obtain ⟨s, hs, h⟩ := FoldM.bind_ok h
    obtain ⟨s', hs', h⟩ := FoldM.bind_ok h
    cases h
    refine ⟨rfl, ?_⟩
    rw [Session.send_ok hs', emitSeqGaps_ok hs, List.append_assoc]
    rfl

/-! ## A consumer that stays -/

theorem Session.send_open {s : Session} (h : s.room = none) (ev : CaptureEvent) :
    ∃ s', s.send ev = .ok s' ∧ s'.room = none := by
  rw [send, h]
  exact ⟨_, rfl, rfl⟩

theorem emitSeqGaps_open {s : Session} (h : s.room = none) (recvTs : Timestamp)
    (tickers : List String) (channel : Channel) (sid : Int64) (lastSeq : Option UInt64)
    (observedSeq : UInt64) :
    ∃ s', emitSeqGaps s recvTs tickers channel sid lastSeq observedSeq = .ok s' ∧
      s'.room = none := by
  induction tickers generalizing s with
  | nil => exact ⟨s, rfl, h⟩
  | cons ticker tickers ih =>
    obtain ⟨s₁, hs₁, hroom⟩ := Session.send_open
      (s := { s with stats := { s.stats with gaps := s.stats.gaps + 1 } }) h
      (gapCaptureEvent recvTs (some sid) channel
        (seqJumpMarker ticker channel sid lastSeq observedSeq))
    obtain ⟨s₂, hs₂, hroom₂⟩ := ih hroom
    refine ⟨s₂, ?_, hroom₂⟩
    rw [emitSeqGaps, List.foldlM_cons, sendGap, hs₁]
    exact hs₂

/-- A consumer that stays is sent every frame. -/
theorem onText_open (tickers : List String) {c : Connected} (recvTs : Timestamp)
    (frame : DecodedFrame) (h : c.2.room = none) :
    ∃ c', onText tickers c recvTs frame = .ok c' ∧ c'.2.room = none := by
  rw [onText]
  rcases classifySeq frame c.1 with ⟨trackers, _ | _ | ⟨channel, sid, lastSeq, observedSeq⟩⟩
  · obtain ⟨s, hs, hroom⟩ := Session.send_open
      (s := { c.2 with stats := c.2.stats.countFrame frame }) h ⟨recvTs, frame⟩
    dsimp only
    rw [hs]
    exact ⟨_, rfl, hroom⟩
  · exact ⟨_, rfl, h⟩
  · obtain ⟨s, hs, hroom⟩ := emitSeqGaps_open
      (s := { c.2 with stats := c.2.stats.countFrame frame }) h recvTs tickers channel sid lastSeq
      observedSeq
    obtain ⟨s', hs', hroom'⟩ := Session.send_open hroom ⟨recvTs, frame⟩
    dsimp only
    rw [hs]
    refine ⟨(trackers, s'), ?_, hroom'⟩
    show (s.send _ >>= fun s => pure (trackers, s)) = _
    rw [hs']
    rfl

/-! ## Going on -/

/-- The connection after some events that do not end the read loop. -/
def readOn (tickers : List String) (c : Connected) : List SocketEvent → Option Connected
  | [] => some c
  | ev :: evs =>
    match onSocketEvent tickers c ev with
    | .go c => readOn tickers c evs
    | .stop .. => none

theorem readOn_append (tickers : List String) (c : Connected) (pre post : List SocketEvent) :
    readOn tickers c (pre ++ post) = (readOn tickers c pre).bind (readOn tickers · post) := by
  induction pre generalizing c with
  | nil => rfl
  | cons ev pre ih =>
    rw [List.cons_append, readOn, readOn]
    rcases onSocketEvent tickers c ev with c | ⟨s, reconnect⟩
    · exact ih c
    · rfl

end Snapevent
