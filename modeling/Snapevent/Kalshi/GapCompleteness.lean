import Mathlib.Data.List.Induction
import Snapevent.Kalshi.Session
import Snapevent.Lib.Somewhere

/-!
# Are all holes of the order book marked?

Several tickers share one orderbook subscription, on which the venue numbers the snapshots and
deltas of all of them consecutively.  Messages get lost or cannot be decoded.  The session keeps one
sequence tracker for the subscription, while the books are per ticker: a delta received right after
missing messages reveals the hole to every ticker, but a snapshot of one ticker re-baselines the
tracker for the others too.
-/

namespace Snapevent

/-! ## What the venue sends -/

/-- A snapshot or a delta of one market. -/
inductive BookUpdate
  | snapshot (s : OrderbookSnapshot)
  | delta (d : OrderbookDelta)

namespace BookUpdate

/-- The market of an update. -/
def ticker : BookUpdate → Ticker
  | snapshot s => s.ticker
  | delta d => d.ticker

/-- The record of an update. -/
def record : BookUpdate → RecordKind
  | snapshot s => .snapshot s
  | delta d => .delta d

/-- The update is a delta. -/
def isDelta : BookUpdate → Bool
  | snapshot _ => false
  | delta _ => true

/-- The frame of update number `n` of subscription `sid`. -/
def frame (u : BookUpdate) (sid : Int64) (n : ℕ) : DecodedFrame :=
  ⟨some sid, some (UInt64.ofNat n), .data .orderbook u.ticker u.record⟩

end BookUpdate

/-- What became of a numbered message: it was decoded, it was lost, or only a raw fallback of it
arrived. -/
inductive Fate
  | received
  | lost
  | raw (sid : Option Int64) (seq : Option UInt64) (channel : Option Channel)
      (ticker : Option Ticker) (fallback : RawFallback)

/-- What happens next on a connection: the next numbered message of the subscription, or anything
else the socket has. -/
inductive Arrival
  | book (recvTs : Timestamp) (update : BookUpdate) (fate : Fate)
  | other (ev : SocketEvent)

namespace Arrival

/-- The arrival uses up a sequence number of the subscription. -/
def isNumbered : Arrival → Bool
  | book .. => true
  | other _ => false

/-- The arrival is a numbered message that was decoded. -/
def isReceived : Arrival → Bool
  | book _ _ .received => true
  | _ => false

/-- The arrival is a delta that was decoded. -/
def isReceivedDelta : Arrival → Bool
  | book _ u .received => u.isDelta
  | _ => false

/-- The arrival is a decoded snapshot or delta of ticker `A`. -/
def isRecordOf (A : Ticker) : Arrival → Bool
  | book _ u .received => u.ticker = A
  | _ => false

/-- The arrival is a delta of ticker `A` that is missing. -/
def isMissingDeltaOf (A : Ticker) : Arrival → Bool
  | book _ _ .received => false
  | book _ u _ => u.isDelta && u.ticker = A
  | other _ => false

/-- What the socket hands the read loop, `n` being the next sequence number. -/
def events (sid : Int64) (n : ℕ) : Arrival → List SocketEvent
  | book recvTs u .received => [.text recvTs (u.frame sid n)]
  | book _ _ .lost => []
  | book recvTs _ (.raw sid seq channel ticker fallback) =>
    [.text recvTs ⟨sid, seq, .raw channel ticker fallback⟩]
  | other ev => [ev]

end Arrival

/-- How many sequence numbers the arrivals use up. -/
def numbered (xs : List Arrival) : ℕ := xs.countP (·.isNumbered)

/-- What the socket hands the read loop for some arrivals. -/
def feed (sid : Int64) (n : ℕ) : List Arrival → List SocketEvent
  | [] => []
  | x :: xs => x.events sid n ++ feed sid (n + numbered [x]) xs

/-- Anything else that does not end the connection; data among it is the trade tape, on another
subscription. -/
def Bystander (sid : Int64) : SocketEvent → Prop
  | .text _ ⟨sid', _, .data channel _ _⟩ => channel = .trade ∧ sid' ≠ some sid
  | .text .. => True
  | .ping ponged => ponged = true
  | .other => True
  | _ => False

/-- Everything that happens on one connection: the orderbook subscription, its first sequence
number, and the arrivals in order.  No sequence number reaches the largest one. -/
structure VenueRun where
  sid : Int64
  first : ℕ
  arrivals : List Arrival
  inRange : first + numbered arrivals < 2 ^ 64
  bystanders : ∀ ev, .other ev ∈ arrivals → Bystander sid ev

/-! ## The property -/

/-- Between its record at the end of `before` (or the start of the connection) and its delta `x`,
ticker `A` has no record and misses a delta. -/
structure Hole (A : Ticker) (before span : List Arrival) (x : Arrival) : Prop where
  last : ∀ y ∈ before.getLast?, y.isRecordOf A
  silent : ∀ y ∈ span, ¬ y.isRecordOf A
  missing : ∃ y ∈ span, y.isMissingDeltaOf A
  next : x.isRecordOf A ∧ x.isReceivedDelta

/-- The event marks a gap in the orderbook stream of ticker `A`. -/
def CaptureEvent.marksGap (ev : CaptureEvent) (A : Ticker) : Prop :=
  ∃ marker, ev.frame.outcome = .data .orderbook A (.gap marker)

/-- The event hands on the numbered message `x`. -/
def CaptureEvent.carries (ev : CaptureEvent) (sid : Int64) (n : ℕ) : Arrival → Prop
  | .book recvTs u _ => ev = ⟨recvTs, u.frame sid n⟩
  | .other _ => False

/-- Every hole of a subscribed ticker is marked in its orderbook stream, after the ticker's last
record before the hole and before the delta that follows it, as soon as that delta is handed on. -/
def HolesMarked (tickers : List String) (run : VenueRun) : Prop :=
  ∀ A ∈ tickers, ∀ before span x after, run.arrivals = before ++ span ++ x :: after →
    Hole ⟨A⟩ before span x → ∀ (s : Session) (c c' : Connected),
    readOn tickers (.new, s) (feed run.sid run.first before) = some c →
    readOn tickers (.new, s) (feed run.sid run.first (before ++ span ++ [x])) = some c' →
    ∃ marks ev, c'.2.sent = c.2.sent ++ marks ++ [ev] ∧
      ev.carries run.sid (run.first + numbered (before ++ span)) x ∧ ∃ m ∈ marks, m.marksGap ⟨A⟩

/-- The delta `x` reveals a hole of the subscription: the numbered message just before it is
missing, and an earlier one was received. -/
def Reveals (before : List Arrival) (x : Arrival) : Prop :=
  x.isReceivedDelta ∧ (∃ y ∈ (before.filter (·.isNumbered)).getLast?, ¬ y.isReceived) ∧
    ∃ y ∈ before, y.isReceived

/-- Between a hole of a subscribed ticker and the ticker's next delta, that one included, some delta
reveals a hole of the subscription. -/
def HolesRevealed (tickers : List String) (run : VenueRun) : Prop :=
  ∀ A ∈ tickers, ∀ before span x after, run.arrivals = before ++ span ++ x :: after →
    Hole ⟨A⟩ before span x → Somewhere (fun pre y => Reveals (before ++ pre) y) (span ++ [x])

/-! ## What the tracker of the subscription knows -/

/-- The sequence numbers that were received, `n` being the next one. -/
def receivedSeqs (n : ℕ) : List Arrival → List ℕ
  | [] => []
  | x :: xs => (if x.isReceived then [n] else []) ++ receivedSeqs (n + numbered [x]) xs

/-- The last sequence number that was received. -/
def lastReceived (n : ℕ) (xs : List Arrival) : Option ℕ := (receivedSeqs n xs).getLast?

section Arrivals

variable {sid : Int64} {n : ℕ} {xs ys : List Arrival} {x : Arrival}

theorem numbered_append : numbered (xs ++ ys) = numbered xs + numbered ys := List.countP_append

theorem numbered_cons (x : Arrival) (xs : List Arrival) :
    numbered (x :: xs) = numbered [x] + numbered xs :=
  (numbered_append : numbered ([x] ++ xs) = _)

theorem feed_append : feed sid n (xs ++ ys) = feed sid n xs ++ feed sid (n + numbered xs) ys := by
  induction xs generalizing n with
  | nil => rfl
  | cons y xs ih =>
    rw [List.cons_append, feed, feed, ih, List.append_assoc, numbered_cons y xs, Nat.add_assoc]

theorem feed_singleton : feed sid n [x] = x.events sid n := List.append_nil _

theorem receivedSeqs_concat : receivedSeqs n (xs ++ [x]) =
    receivedSeqs n xs ++ if x.isReceived then [n + numbered xs] else [] := by
  induction xs generalizing n with
  | nil => simp [receivedSeqs, numbered]
  | cons y xs ih =>
    rw [List.cons_append, receivedSeqs, receivedSeqs, ih, List.append_assoc, numbered_cons y xs,
      Nat.add_assoc]

theorem lastReceived_concat : lastReceived n (xs ++ [x]) =
    if x.isReceived then some (n + numbered xs) else lastReceived n xs := by
  rw [lastReceived, receivedSeqs_concat]
  split_ifs
  · rw [List.getLast?_concat]
  · rw [List.append_nil, lastReceived]

theorem isNumbered_of_isReceived (h : x.isReceived) : x.isNumbered := by
  rcases x with ⟨recvTs, u, _ | _ | _⟩ | ev
  · rfl
  · rfl
  · rfl
  · cases h

theorem lastReceived_lt {l : ℕ} (h : lastReceived n xs = some l) : l < n + numbered xs := by
  induction xs using List.reverseRecOn with
  | nil => cases h
  | append_singleton xs x ih =>
    rw [lastReceived_concat] at h
    rw [numbered_append]
    split_ifs at h with hx
    · cases h
      have hone : numbered [x] = 1 := by simp [numbered, isNumbered_of_isReceived hx]
      omega
    · have hlt := ih h
      omega

theorem lastReceived_isSome (n : ℕ) (xs : List Arrival) :
    (∃ l, lastReceived n xs = some l) ↔ ∃ y ∈ xs, y.isReceived := by
  induction xs using List.reverseRecOn with
  | nil => simp [lastReceived, receivedSeqs]
  | append_singleton xs x ih =>
    rw [lastReceived_concat]
    split_ifs with hx
    · simp [hx]
    · simp [ih, hx]

theorem reveals_iff : Reveals xs x ↔
    x.isReceivedDelta ∧ ∃ l, lastReceived n xs = some l ∧ l + 1 < n + numbered xs := by
  refine and_congr_right fun _ => ?_
  induction xs using List.reverseRecOn with
  | nil => simp [lastReceived, receivedSeqs]
  | append_singleton xs y ih =>
    rw [lastReceived_concat, numbered_append, List.filter_append]
    cases hnum : y.isNumbered with
    | false =>
      have hrec : ¬ y.isReceived := fun h => by simp [isNumbered_of_isReceived h] at hnum
      have hzero : numbered [y] = 0 := by simp [numbered, hnum]
      simpa [hnum, hrec, hzero] using ih
    | true =>
      have hone : numbered [y] = 1 := by simp [numbered, hnum]
      simp only [hone, List.filter_cons, hnum, if_true, List.filter_nil, List.getLast?_concat]
      by_cases hrec : y.isReceived
      · simp [hrec]
        omega
      · have hiff := lastReceived_isSome n xs
        constructor
        · rintro ⟨-, z, hz, hzr⟩
          rcases List.mem_append.1 hz with hz | hz
          · obtain ⟨l, hl⟩ := hiff.2 ⟨z, hz, hzr⟩
            have hlt := lastReceived_lt hl
            exact ⟨l, by simpa [hrec] using hl, by omega⟩
          · exact absurd (List.mem_singleton.1 hz ▸ hzr) hrec
        · rintro ⟨l, hl, -⟩
          obtain ⟨z, hz, hzr⟩ := hiff.1 ⟨l, by simpa [hrec] using hl⟩
          exact ⟨⟨y, rfl, hrec⟩, z, List.mem_append_left _ hz, hzr⟩

end Arrivals

/-! ## One arrival -/

theorem ofNat_succ_iff {l n : ℕ} (hl : l < n) (hn : n + 1 < 2 ^ 64) :
    UInt64.ofNat n = UInt64.ofNat l + 1 ↔ n = l + 1 := by
  rw [← UInt64.toNat_inj, UInt64.toNat_add, UInt64.toNat_ofNat', UInt64.toNat_ofNat']
  simp
  omega

theorem ofNat_ne {l n : ℕ} (hl : l < n) (hn : n < 2 ^ 64) : UInt64.ofNat n ≠ UInt64.ofNat l := by
  rw [Ne, ← UInt64.toNat_inj, UInt64.toNat_ofNat', UInt64.toNat_ofNat']
  omega

/-- What the tracker of the subscription makes of message number `n`, `last` being the last one it
received. -/
theorem classifySeq_frame (u : BookUpdate) (sid : Int64) {n : ℕ} {last : Option ℕ}
    {trackers : Trackers} (ht : (trackers sid).lastSeq = last.map UInt64.ofNat)
    (hlast : ∀ l ∈ last, l < n) (hn : n + 1 < 2 ^ 64) :
    ((classifySeq (u.frame sid n) trackers).1 sid).lastSeq = some (UInt64.ofNat n) ∧
      ((u.isDelta ∧ ∃ l ∈ last, l + 1 < n) → (classifySeq (u.frame sid n) trackers).2 =
        .gap .orderbook sid (last.map UInt64.ofNat) (UInt64.ofNat n)) ∧
      (¬ (u.isDelta ∧ ∃ l ∈ last, l + 1 < n) →
        (classifySeq (u.frame sid n) trackers).2 = .persist) := by
  cases u with
  | snapshot s =>
    simp [classifySeq, BookUpdate.frame, BookUpdate.record, RecordKind.isSnapshot,
      SeqTracker.onSnapshot, BookUpdate.isDelta]
  | delta d =>
    cases last with
    | none =>
      have ht' : (trackers sid).lastSeq = none := ht
      simp [classifySeq, BookUpdate.frame, BookUpdate.record, RecordKind.isSnapshot,
        SeqTracker.onSequenced, ht']
    | some l =>
      have ht' : (trackers sid).lastSeq = some (UInt64.ofNat l) := ht
      have hl := hlast l rfl
      have hne := ofNat_ne hl (by omega : n < 2 ^ 64)
      have hsucc := ofNat_succ_iff hl hn
      by_cases hstep : n = l + 1
      · simp [classifySeq, BookUpdate.frame, BookUpdate.record, RecordKind.isSnapshot,
          SeqTracker.onSequenced, ht', hstep]
      · simp [classifySeq, BookUpdate.frame, BookUpdate.record, RecordKind.isSnapshot,
          SeqTracker.onSequenced, ht', mt hsucc.1 hstep, hne, BookUpdate.isDelta]
        omega

section Step

variable {tickers : List String} {sid : Int64} {c c' : Connected} {recvTs : Timestamp}
  {frame : DecodedFrame}

theorem readOn_text (h : readOn tickers c [.text recvTs frame] = some c') :
    onText tickers c recvTs frame = .ok c' := by
  rw [readOn, onSocketEvent] at h
  cases ht : onText tickers c recvTs frame with
  | error s =>
    rw [ht] at h
    cases h
  | ok c'' =>
    rw [ht] at h
    cases h
    rfl

theorem marksGap_seqJumpEvents {channel : Channel} {sid' : Int64} {lastSeq : Option UInt64}
    {observedSeq : UInt64} {A : String} :
    (∃ ev ∈ seqJumpEvents recvTs tickers channel sid' lastSeq observedSeq, ev.marksGap ⟨A⟩) ↔
      channel = .orderbook ∧ A ∈ tickers := by
  simp only [seqJumpEvents, List.mem_map, exists_exists_and_eq_and, CaptureEvent.marksGap,
    gapCaptureEvent, seqJumpMarker, FrameOutcome.data.injEq, Ticker.mk.injEq]
  constructor
  · rintro ⟨B, hB, marker, hchannel, rfl, -⟩
    exact ⟨hchannel, hB⟩
  · rintro ⟨hchannel, hA⟩
    exact ⟨A, hA, _, hchannel, rfl, rfl⟩

/-- The frame itself marks no orderbook gap unless it is an orderbook gap. -/
theorem marksGap_textEvents {outcome : SeqOutcome} {A : String}
    (hown : ¬ CaptureEvent.marksGap ⟨recvTs, frame⟩ ⟨A⟩) :
    (∃ ev ∈ textEvents tickers recvTs frame outcome, ev.marksGap ⟨A⟩) ↔
      (∃ sid lastSeq observedSeq, outcome = .gap .orderbook sid lastSeq observedSeq) ∧
        A ∈ tickers := by
  rcases outcome with _ | _ | ⟨channel, sid', lastSeq, observedSeq⟩
  · simp [textEvents, hown]
  · simp [textEvents]
  · simp only [textEvents, List.mem_append, List.mem_singleton, or_and_right, exists_or,
      marksGap_seqJumpEvents, exists_eq_left, hown, or_false]
    simp

/-- A bystander leaves the tracker of the subscription alone and reveals nothing there. -/
theorem classifySeq_bystander (hb : Bystander sid (.text recvTs frame)) (trackers : Trackers) :
    (classifySeq frame trackers).1 sid = trackers sid ∧
      ∀ sid' lastSeq observedSeq,
        (classifySeq frame trackers).2 ≠ .gap .orderbook sid' lastSeq observedSeq := by
  rcases frame with ⟨_ | sid', seq, ⟨channel, ticker, record⟩ | _ | _ | _⟩
  all_goals try exact ⟨rfl, by simp [classifySeq]⟩
  obtain ⟨rfl, hne⟩ := hb
  have hsid : sid ≠ sid' := fun h => hne (congrArg some h.symm)
  refine ⟨Function.update_of_ne hsid _ _, fun sid'' lastSeq observedSeq => ?_⟩
  simp only [classifySeq]
  split <;> simp

theorem bystander_marksGap (hb : Bystander sid (.text recvTs frame)) (A : Ticker) :
    ¬ CaptureEvent.marksGap ⟨recvTs, frame⟩ A := by
  rintro ⟨marker, hmarker⟩
  rcases frame with ⟨sid', seq, ⟨channel, ticker, record⟩ | _ | _ | _⟩
  · cases hmarker
    cases hb.1
  · cases hmarker
  · cases hmarker
  · cases hmarker

/-- What one arrival has sent, `revealed` telling whether it revealed a hole. -/
structure Sends (tickers : List String) (sid : Int64) (n : ℕ) (x : Arrival) (revealed : Prop)
    (out : List CaptureEvent) : Prop where
  marks : ∀ A ∈ tickers, (∃ ev ∈ out, ev.marksGap ⟨A⟩) ↔ revealed
  own : x.isReceived → ∃ marks ev, out = marks ++ [ev] ∧ ev.carries sid n x ∧
    ∀ A, ¬ ev.marksGap A

theorem readOn_text_bystander {n : ℕ} {x : Arrival} (hx : ¬ x.isReceived)
    (hb : Bystander sid (.text recvTs frame))
    (h : readOn tickers c [.text recvTs frame] = some c') : (c'.1 sid) = c.1 sid ∧
      ∃ out, c'.2.sent = c.2.sent ++ out ∧ Sends tickers sid n x False out := by
  obtain ⟨htrackers, hsent⟩ := onText_ok (readOn_text h)
  obtain ⟨hsid, hgap⟩ := classifySeq_bystander hb c.1
  refine ⟨by rw [htrackers, hsid], _, hsent, fun A _ => ?_, fun h => absurd h hx⟩
  rw [marksGap_textEvents (bystander_marksGap hb ⟨A⟩)]
  simp only [hgap, exists_false, false_and]

/-- One arrival: the tracker learns the number of a received message, and a gap is marked for every
subscribed ticker exactly when a delta was received with numbers missing before it. -/
theorem readOn_arrival {n : ℕ} {last : Option ℕ} {x : Arrival}
    (hb : ∀ ev, x = .other ev → Bystander sid ev)
    (ht : (c.1 sid).lastSeq = last.map UInt64.ofNat) (hlast : ∀ l ∈ last, l < n)
    (hn : n + numbered [x] < 2 ^ 64) (h : readOn tickers c (x.events sid n) = some c') :
    (c'.1 sid).lastSeq = (if x.isReceived then some n else last).map UInt64.ofNat ∧
      ∃ out, c'.2.sent = c.2.sent ++ out ∧
        Sends tickers sid n x (x.isReceivedDelta ∧ ∃ l ∈ last, l + 1 < n) out := by
  rcases x with ⟨recvTs, u, _ | _ | ⟨sid', seq, channel, ticker, fallback⟩⟩ | ev
  · obtain ⟨htrackers, hsent⟩ := onText_ok (readOn_text h)
    obtain ⟨hseq, hgap, hpersist⟩ := classifySeq_frame u sid ht hlast hn
    have hown (A : Ticker) : ¬ CaptureEvent.marksGap ⟨recvTs, u.frame sid n⟩ A := by
      rintro ⟨marker, hmarker⟩
      rcases u with s | d <;> cases hmarker
    refine ⟨by rw [htrackers, hseq]; rfl, _, hsent, fun A hA => ?_, fun _ => ?_⟩
    · rw [marksGap_textEvents (hown ⟨A⟩)]
      by_cases hreveal : u.isDelta ∧ ∃ l ∈ last, l + 1 < n
      · exact iff_of_true ⟨⟨_, _, _, hgap hreveal⟩, hA⟩ hreveal
      · rw [hpersist hreveal]
        exact iff_of_false (by simp) hreveal
    · by_cases hreveal : u.isDelta ∧ ∃ l ∈ last, l + 1 < n
      · rw [hgap hreveal]
        exact ⟨_, _, rfl, rfl, hown⟩
      · rw [hpersist hreveal]
        exact ⟨[], _, rfl, rfl, hown⟩
  · cases h
    exact ⟨ht, [], (List.append_nil _).symm, by simp [Arrival.isReceivedDelta],
      fun h => by cases h⟩
  · obtain ⟨hsid, out, hsent, hsends⟩ := readOn_text_bystander
      (x := .book recvTs u (.raw sid' seq channel ticker fallback)) (n := n)
      (by simp [Arrival.isReceived])
      (by trivial) h
    refine ⟨by rw [hsid, ht]; rfl, out, hsent, ?_⟩
    simpa [Arrival.isReceivedDelta] using hsends
  · have hb := hb ev rfl
    have hquiet (he : onSocketEvent tickers c ev = .go c) : c' = c := by
      rw [Arrival.events, readOn, he] at h
      cases h
      rfl
    rcases ev with _ | _ | _ | ⟨recvTs, frame⟩ | ponged | _ | _
    · cases hb
    · cases hb
    · cases hb
    · obtain ⟨hsid, out, hsent, hsends⟩ := readOn_text_bystander (n := n)
        (x := .other (.text recvTs frame)) (by simp [Arrival.isReceived]) hb h
      refine ⟨by rw [hsid, ht]; rfl, out, hsent, ?_⟩
      simpa [Arrival.isReceivedDelta] using hsends
    · obtain rfl := hquiet (if_pos hb)
      exact ⟨ht, [], (List.append_nil _).symm, by simp [Arrival.isReceivedDelta],
        fun h => by cases h⟩
    · cases hb
    · obtain rfl := hquiet rfl
      exact ⟨ht, [], (List.append_nil _).symm, by simp [Arrival.isReceivedDelta],
        fun h => by cases h⟩

end Step

/-! ## A whole connection -/

section Run

variable {tickers : List String} {run : VenueRun} {s : Session}

theorem readOn_concat {xs : List Arrival} {x : Arrival} {c' : Connected}
    (h : readOn tickers (.new, s) (feed run.sid run.first (xs ++ [x])) = some c') :
    ∃ c, readOn tickers (.new, s) (feed run.sid run.first xs) = some c ∧
      readOn tickers c (x.events run.sid (run.first + numbered xs)) = some c' := by
  rw [feed_append, feed_singleton, readOn_append] at h
  exact Option.bind_eq_some_iff.1 h

/-- One more arrival of a run: the tracker knows the last number received, and the events sent mark
a gap exactly when the arrival reveals a hole. -/
theorem readOn_step {xs rest : List Arrival} {x : Arrival} {c c' : Connected}
    (harr : run.arrivals = xs ++ x :: rest)
    (ht : (c.1 run.sid).lastSeq = (lastReceived run.first xs).map UInt64.ofNat)
    (h : readOn tickers c (x.events run.sid (run.first + numbered xs)) = some c') :
    (c'.1 run.sid).lastSeq = (lastReceived run.first (xs ++ [x])).map UInt64.ofNat ∧
      ∃ out, c'.2.sent = c.2.sent ++ out ∧
        Sends tickers run.sid (run.first + numbered xs) x (Reveals xs x) out := by
  have hn : run.first + numbered xs + numbered [x] < 2 ^ 64 := by
    have hrange := run.inRange
    rw [harr, ← List.singleton_append, numbered_append, numbered_append] at hrange
    omega
  have hb : ∀ ev, x = .other ev → Bystander run.sid ev := by
    rintro ev rfl
    exact run.bystanders ev (by simp [harr])
  rw [lastReceived_concat, reveals_iff (n := run.first)]
  exact readOn_arrival hb ht (fun l hl => lastReceived_lt hl) hn h

/-- The tracker of the subscription knows the last number received. -/
theorem lastSeq_readOn {xs rest : List Arrival} {c : Connected}
    (harr : run.arrivals = xs ++ rest)
    (h : readOn tickers (.new, s) (feed run.sid run.first xs) = some c) :
    (c.1 run.sid).lastSeq = (lastReceived run.first xs).map UInt64.ofNat := by
  induction xs using List.reverseRecOn generalizing c rest with
  | nil =>
    cases h
    rfl
  | append_singleton xs x ih =>
    rw [List.append_assoc] at harr
    obtain ⟨c₀, h₀, h⟩ := readOn_concat h
    exact (readOn_step harr (ih harr h₀) h).1

/-- What some arrivals of a run have sent marks a gap exactly when one of them reveals a hole. -/
theorem readOn_run {xs ys rest : List Arrival} {c c' : Connected}
    (harr : run.arrivals = xs ++ ys ++ rest)
    (h : readOn tickers (.new, s) (feed run.sid run.first xs) = some c)
    (h' : readOn tickers (.new, s) (feed run.sid run.first (xs ++ ys)) = some c') :
    ∃ out, c'.2.sent = c.2.sent ++ out ∧ ∀ A ∈ tickers, (∃ ev ∈ out, ev.marksGap ⟨A⟩) ↔
      Somewhere (fun pre y => Reveals (xs ++ pre) y) ys := by
  induction ys using List.reverseRecOn generalizing c' rest with
  | nil =>
    rw [List.append_nil, h] at h'
    cases h'
    exact ⟨[], (List.append_nil _).symm, by simp [Somewhere.nil]⟩
  | append_singleton ys y ih =>
    rw [← List.append_assoc] at h' harr
    obtain ⟨c₁, h₁, h₂⟩ := readOn_concat h'
    have harr' : run.arrivals = xs ++ ys ++ (y :: rest) := by simpa using harr
    obtain ⟨out, hsent, hout⟩ := ih harr' h₁
    obtain ⟨-, out', hsent', hsends⟩ := readOn_step harr' (lastSeq_readOn harr' h₁) h₂
    refine ⟨out ++ out', by rw [hsent', hsent, List.append_assoc], fun A hA => ?_⟩
    rw [Somewhere.concat, ← hout A hA, ← hsends.marks A hA]
    simp only [List.mem_append, or_and_right, exists_or]

/-- A consumer that stays is sent everything: no arrival of a run ends the connection. -/
theorem readOn_isSome (tickers : List String) (hroom : s.room = none) {xs rest : List Arrival}
    (harr : run.arrivals = xs ++ rest) :
    ∃ c, readOn tickers (.new, s) (feed run.sid run.first xs) = some c ∧ c.2.room = none := by
  induction xs using List.reverseRecOn generalizing rest with
  | nil => exact ⟨_, rfl, hroom⟩
  | append_singleton xs x ih =>
    rw [List.append_assoc] at harr
    obtain ⟨c, hc, hcroom⟩ := ih harr
    rw [feed_append, feed_singleton, readOn_append, hc, Option.bind_some]
    have htext (recvTs : Timestamp) (frame : DecodedFrame) :
        ∃ c', readOn tickers c [.text recvTs frame] = some c' ∧ c'.2.room = none := by
      obtain ⟨c', hc', hroom'⟩ := onText_open tickers recvTs frame hcroom
      exact ⟨c', by rw [readOn, onSocketEvent, hc']; rfl, hroom'⟩
    rcases x with ⟨recvTs, u, _ | _ | _⟩ | ev
    · exact htext recvTs _
    · exact ⟨c, rfl, hcroom⟩
    · exact htext recvTs _
    · have hb := run.bystanders ev (by simp [harr])
      rcases ev with _ | _ | _ | ⟨recvTs, frame⟩ | ponged | _ | _
      · cases hb
      · cases hb
      · cases hb
      · exact htext recvTs frame
      · obtain rfl : ponged = true := hb
        exact ⟨c, rfl, hcroom⟩
      · cases hb
      · exact ⟨c, rfl, hcroom⟩

end Run

theorem Hole.isReceived {A : Ticker} {before span : List Arrival} {x : Arrival}
    (h : Hole A before span x) : x.isReceived := by
  have hx := h.next.2
  rcases x with ⟨recvTs, u, _ | _ | _⟩ | ev
  · rfl
  · cases hx
  · cases hx
  · cases hx

/-- Every hole of a subscribed ticker is marked exactly when, between the hole and the ticker's next
delta, some delta of the subscription reveals a hole. -/
theorem holes_marked_iff (tickers : List String) (run : VenueRun) :
    HolesMarked tickers run ↔ HolesRevealed tickers run := by
  constructor
  · intro h A hA before span x after harr hhole
    have harr' : run.arrivals = before ++ (span ++ [x]) ++ after := by simpa using harr
    obtain ⟨c, hc, -⟩ := readOn_isSome (s := .start none) tickers rfl
      ((List.append_assoc _ _ _ ▸ harr' : run.arrivals = before ++ (span ++ [x] ++ after)))
    obtain ⟨c', hc', -⟩ := readOn_isSome (s := .start none) tickers rfl harr'
    rw [← List.append_assoc] at hc'
    obtain ⟨marks, ev, hsent, -, m, hm, hgap⟩ := h A hA before span x after harr hhole _ c c' hc hc'
    rw [List.append_assoc before] at hc'
    obtain ⟨out, hout, hiff⟩ := readOn_run harr' hc hc'
    refine (hiff A hA).1 ⟨m, ?_, hgap⟩
    rw [hout, List.append_assoc] at hsent
    rw [List.append_cancel_left hsent]
    exact List.mem_append_left _ hm
  · intro h A hA before span x after harr hhole s c c' hc hc'
    obtain ⟨c₁, hc₁, hx⟩ := readOn_concat hc'
    obtain ⟨out, hsent, hout⟩ := readOn_run harr hc hc₁
    obtain ⟨-, out', hsent', hsends⟩ := readOn_step harr (lastSeq_readOn harr hc₁) hx
    obtain ⟨marks, ev, rfl, hcarries, hown⟩ := hsends.own hhole.isReceived
    refine ⟨out ++ marks, ev, by rw [hsent', hsent]; simp, hcarries, ?_⟩
    -- the delta itself is no gap, so what reveals the hole has marked it before
    rcases Somewhere.concat.1 (h A hA before span x after harr hhole) with hspan | hlast
    · obtain ⟨m, hm, hgap⟩ := (hout A hA).2 hspan
      exact ⟨m, List.mem_append_left _ hm, hgap⟩
    · obtain ⟨m, hm, hgap⟩ := (hsends.marks A hA).2 hlast
      rcases List.mem_append.1 hm with hm | hm
      · exact ⟨m, List.mem_append_right _ hm, hgap⟩
      · exact absurd (List.mem_singleton.1 hm ▸ hgap) (hown ⟨A⟩)

/-! ## A snapshot of another ticker hides a hole -/

/-- An empty snapshot of `ticker`. -/
def emptySnapshot (ticker : String) : BookUpdate := .snapshot ⟨⟨ticker⟩, epoch, [], []⟩

/-- One contract more at fifty cents on the YES side of `ticker`. -/
def oneMore (ticker : String) : BookUpdate := .delta ⟨⟨ticker⟩, epoch, .yes, ⟨500000⟩, ⟨100⟩⟩

/-- Tickers `A` and `B` are subscribed.  The second delta of `A` is lost, and the next message is a
snapshot of `B`. -/
def hiddenHole : VenueRun where
  sid := 1
  first := 1
  arrivals := [.book epoch (emptySnapshot "A") .received, .book epoch (emptySnapshot "B") .received,
    .book epoch (oneMore "A") .received, .book epoch (oneMore "A") .lost,
    .book epoch (emptySnapshot "B") .received, .book epoch (oneMore "A") .received]
  inRange := by decide
  bystanders := by simp

/-- The event is a gap marker. -/
def CaptureEvent.isGap (ev : CaptureEvent) : Bool :=
  match ev.frame.outcome with
  | .data _ _ (.gap _) => true
  | _ => false

/-- Nothing marks the hole in the stream of `A`: the whole run sends no gap marker. -/
theorem hole_hidden : ¬ HolesMarked ["A", "B"] hiddenHole := by
  intro h
  have hhole : Hole ⟨"A"⟩ (hiddenHole.arrivals.take 3) ((hiddenHole.arrivals.drop 3).take 2)
      (.book epoch (oneMore "A") .received) := ⟨by decide, by decide, by decide, by decide⟩
  have hrun : (readOn ["A", "B"] (.new, .start none) (feed hiddenHole.sid hiddenHole.first
      (hiddenHole.arrivals.take 3 ++ (hiddenHole.arrivals.drop 3).take 2 ++
        [.book epoch (oneMore "A") .received]))).map (fun c => c.2.sent.any (·.isGap)) =
      some false := rfl
  obtain ⟨c, hc, -⟩ := readOn_isSome (s := .start none) ["A", "B"] rfl
    (List.take_append_drop 3 hiddenHole.arrivals).symm
  obtain ⟨c', hc', hnone⟩ := Option.map_eq_some_iff.1 hrun
  obtain ⟨marks, ev, hsent, -, m, hm, marker, hmarker⟩ := h "A" (by decide) _ _ _ [] rfl hhole _
    c c' hc hc'
  have hmem : m ∈ c'.2.sent := hsent ▸ List.mem_append_left _ (List.mem_append_right _ hm)
  have hgap : m.isGap := by rw [CaptureEvent.isGap, hmarker]
  exact absurd (List.any_eq_false.1 hnone m hmem) (not_not.2 hgap)

end Snapevent
