import Mathlib.Data.List.Induction
import Snapevent.Kalshi.Session

/-!
# Sequence continuity on one connection

What the consumer is handed for the frames of one connection, as a specification that knows nothing
of trackers: the last tracked sequence number of a subscription is read off the frames that came
before, and each frame is dropped, handed on, or marked as a jump by comparison with it.
-/

namespace Snapevent

/-! ## Frames of a subscription -/

namespace DecodedFrame

/-- The channel, the subscription and the number of a sequenced record that is no snapshot. -/
def sequenced (frame : DecodedFrame) : Option (Channel × Int64 × UInt64) :=
  match frame.outcome, frame.sid, frame.seq with
  | .data channel _ record, some sid, some seq =>
    if record.isSnapshot then none else some (channel, sid, seq)
  | _, _, _ => none

/-- The frame is a snapshot on subscription `sid`. -/
def isSnapshotOf (frame : DecodedFrame) (sid : Int64) : Bool :=
  match frame.outcome with
  | .data _ _ record => record.isSnapshot && frame.sid = some sid
  | _ => false

/-- The frame is a gap marker for subscription `sid`. -/
def isGapOf (frame : DecodedFrame) (sid : Int64) : Bool :=
  match frame.outcome with
  | .data _ _ (.gap _) => frame.sid = some sid
  | _ => false

/-- The last tracked number of `sid` after the frame. -/
def track (frame : DecodedFrame) (sid : Int64) (last : Option UInt64) : Option UInt64 :=
  match frame.sequenced with
  | some (_, sid', seq) => if sid' = sid then some seq else last
  | none => if frame.isSnapshotOf sid then frame.seq else last

end DecodedFrame

/-- The last tracked number of `sid` after some frames of a connection: that of the latest
sequenced record, or what the latest snapshot carried if it came after. -/
def lastTracked (sid : Int64) (frames : List CaptureEvent) : Option UInt64 :=
  frames.foldl (fun last x => x.frame.track sid last) none

theorem lastTracked_concat (sid : Int64) (frames : List CaptureEvent) (x : CaptureEvent) :
    lastTracked sid (frames ++ [x]) = x.frame.track sid (lastTracked sid frames) := by
  rw [lastTracked, List.foldl_append]
  rfl

/-! ## The specification -/

/-- What the consumer is handed for the frame `x` after the frames `before`. -/
inductive HandedFor (tickers : List String) (before : List CaptureEvent) (x : CaptureEvent) :
    List CaptureEvent → Prop
  | dropped {channel sid seq} : x.frame.sequenced = some (channel, sid, seq) →
      lastTracked sid before = some seq → HandedFor tickers before x []
  | inOrder : (∀ channel sid seq, x.frame.sequenced = some (channel, sid, seq) →
      ∀ last ∈ lastTracked sid before, seq = last + 1) → HandedFor tickers before x [x]
  | jumped {channel sid seq last} : x.frame.sequenced = some (channel, sid, seq) →
      lastTracked sid before = some last → seq ≠ last + 1 → seq ≠ last →
      HandedFor tickers before x
        (seqJumpEvents x.recvTs tickers channel sid (some last) seq ++ [x])

/-- What the consumer is handed for the frames of a connection, one after the other. -/
inductive Handed (tickers : List String) : List CaptureEvent → List CaptureEvent → Prop
  | nil : Handed tickers [] []
  | snoc {frames handed x events} : Handed tickers frames handed →
      HandedFor tickers frames x events → Handed tickers (frames ++ [x]) (handed ++ events)

/-- The event is neither a sequenced record nor a snapshot of `sid`, nor a gap marker for it. -/
def Quiet (sid : Int64) (z : CaptureEvent) : Prop :=
  (∀ channel seq, z.frame.sequenced ≠ some (channel, sid, seq)) ∧
    z.frame.isSnapshotOf sid = false ∧ z.frame.isGapOf sid = false

/-- Two sequenced records of `sid` in `handed` with no other one, no snapshot of `sid` and no gap
marker for `sid` in between have consecutive numbers. -/
def Consecutive (sid : Int64) (handed : List CaptureEvent) : Prop :=
  ∀ pre x between y post, handed = pre ++ x :: between ++ y :: post →
    (∀ z ∈ between, Quiet sid z) → ∀ cx cy m n, x.frame.sequenced = some (cx, sid, m) →
    y.frame.sequenced = some (cy, sid, n) → n.toNat = m.toNat + 1

/-! ## The trackers follow the specification -/

/-- The text frames among the events of a socket, with their receive times. -/
def texts (events : List SocketEvent) : List CaptureEvent :=
  events.filterMap fun
    | .text recvTs frame => some ⟨recvTs, frame⟩
    | _ => none

theorem classifySeq_track (frame : DecodedFrame) (trackers : Trackers) (sid : Int64) :
    ((classifySeq frame trackers).1 sid).lastSeq = frame.track sid (trackers sid).lastSeq := by
  rcases frame with ⟨_ | sid', _ | seq, ⟨channel, ticker, record⟩ | m | d | ⟨c, t, r⟩⟩
  case some.none.data =>
    cases hr : record.isSnapshot <;> by_cases hs : sid = sid' <;>
      simp [classifySeq, DecodedFrame.track, DecodedFrame.sequenced, DecodedFrame.isSnapshotOf,
        SeqTracker.onSnapshot, hr, hs, eq_comm]
  case some.some.data =>
    cases hr : record.isSnapshot with
    | true =>
      by_cases hs : sid = sid' <;>
        simp [classifySeq, DecodedFrame.track, DecodedFrame.sequenced, DecodedFrame.isSnapshotOf,
          SeqTracker.onSnapshot, hr, hs, eq_comm]
    | false =>
      by_cases hs : sid = sid'
      · subst hs
        simp only [classifySeq, DecodedFrame.track, DecodedFrame.sequenced, hr, Bool.false_eq_true,
          if_false, if_true, Function.update_self]
        rw [SeqTracker.onSequenced]
        split
        · rfl
        · split_ifs <;> simp_all
      · have hs' : ¬ sid' = sid := Ne.symm hs
        simp [classifySeq, DecodedFrame.track, DecodedFrame.sequenced, hr, hs, hs']
  all_goals simp [classifySeq, DecodedFrame.track, DecodedFrame.sequenced, DecodedFrame.isSnapshotOf]

theorem classifySeq_of_not_sequenced {frame : DecodedFrame} (h : frame.sequenced = none)
    (trackers : Trackers) : (classifySeq frame trackers).2 = .persist := by
  rcases frame with ⟨_ | sid, _ | seq, ⟨channel, ticker, record⟩ | m | d | ⟨c, t, r⟩⟩
  case some.none.data => cases hr : record.isSnapshot <;> simp [classifySeq, SeqTracker.onSnapshot, hr]
  case some.some.data =>
    cases hr : record.isSnapshot with
    | true => simp [classifySeq, SeqTracker.onSnapshot, hr]
    | false => simp [DecodedFrame.sequenced, hr] at h
  all_goals rfl

/-- A sequenced frame goes to the tracker of its subscription. -/
theorem classifySeq_of_sequenced {frame : DecodedFrame} {channel : Channel} {sid : Int64}
    {seq : UInt64} (h : frame.sequenced = some (channel, sid, seq)) (trackers : Trackers) :
    (classifySeq frame trackers).2 = match ((trackers sid).onSequenced seq).2 with
      | .accept => .persist
      | .duplicate => .duplicate
      | .gap lastSeq observedSeq => .gap channel sid lastSeq observedSeq := by
  rcases frame with ⟨_ | sid', _ | seq', ⟨channel', ticker, record⟩ | m | d | ⟨c, t, r⟩⟩
  case some.some.data =>
    rw [DecodedFrame.sequenced] at h
    dsimp only at h
    split_ifs at h with hr
    cases h
    cases hdecision : ((trackers sid).onSequenced seq).2 <;> simp [classifySeq, hr, hdecision]
  all_goals cases h

/-- What a text frame is turned into is what the specification hands on for it. -/
theorem textEvents_handedFor (tickers : List String) {trackers : Trackers}
    {before : List CaptureEvent} (h : ∀ sid, (trackers sid).lastSeq = lastTracked sid before)
    (x : CaptureEvent) :
    HandedFor tickers before x
      (textEvents tickers x.recvTs x.frame (classifySeq x.frame trackers).2) := by
  cases hseq : x.frame.sequenced with
  | none =>
    rw [classifySeq_of_not_sequenced hseq]
    exact .inOrder fun channel sid seq hsome => by simp [hseq] at hsome
  | some key =>
    obtain ⟨channel, sid, seq⟩ := key
    rw [classifySeq_of_sequenced hseq, SeqTracker.onSequenced]
    have hlast := h sid
    cases htracked : (trackers sid).lastSeq with
    | none =>
      refine .inOrder fun channel' sid' seq' hsome last hmem => ?_
      cases hseq.symm.trans hsome
      rw [← hlast, htracked] at hmem
      cases hmem
    | some last =>
      rw [htracked] at hlast
      dsimp only
      split_ifs with hnext hsame
      · refine .inOrder fun channel' sid' seq' hsome last' hmem => ?_
        cases hseq.symm.trans hsome
        rw [← hlast] at hmem
        cases hmem
        exact hnext
      · exact .dropped hseq (hsame ▸ hlast.symm)
      · exact .jumped hseq hlast.symm hnext hsame

theorem texts_concat (events : List SocketEvent) (ev : SocketEvent) :
    texts (events ++ [ev]) = texts events ++ texts [ev] := List.filterMap_append

/-- The connection's trackers and what it was handed, after the events the read loop went through. -/
theorem readOn_handed {tickers : List String} {s : Session} {events : List SocketEvent}
    {c : Connected} (h : readOn tickers (.new, s) events = some c) :
    (∀ sid, (c.1 sid).lastSeq = lastTracked sid (texts events)) ∧
      ∃ handed, c.2.sent = s.sent ++ handed ∧ Handed tickers (texts events) handed := by
  induction events using List.reverseRecOn generalizing c with
  | nil =>
    cases h
    exact ⟨fun _ => rfl, [], by simp, .nil⟩
  | append_singleton events ev ih =>
    rw [readOn_append] at h
    obtain ⟨d, hd, h⟩ := Option.bind_eq_some_iff.1 h
    obtain ⟨htrack, handed, hsent, hhanded⟩ := ih hd
    rw [texts_concat]
    rw [readOn] at h
    rcases ev with _ | _ | _ | ⟨recvTs, frame⟩ | ponged | _ | _
    case text =>
      rw [onSocketEvent] at h
      cases ht : onText tickers d recvTs frame with
      | error s => simp [ht] at h
      | ok c' =>
        rw [ht] at h
        cases h
        obtain ⟨hnext, hnew⟩ := onText_ok ht
        refine ⟨fun sid => ?_, _, ?_, hhanded.snoc (textEvents_handedFor tickers htrack ⟨recvTs, frame⟩)⟩
        · rw [hnext, classifySeq_track, htrack sid]
          exact (lastTracked_concat sid (texts events) ⟨recvTs, frame⟩).symm
        · rw [hnew, hsent, List.append_assoc]
    case ping =>
      cases ponged with
      | false => cases h
      | true =>
        cases h
        exact ⟨by simpa [texts] using htrack, handed, hsent, by simpa [texts] using hhanded⟩
    case other =>
      cases h
      exact ⟨by simpa [texts] using htrack, handed, hsent, by simpa [texts] using hhanded⟩
    all_goals cases h

/-! ## Consecutive numbers -/

section Consecutive

variable {tickers : List String} {sid : Int64} {m : UInt64} {x y : CaptureEvent}
  {frames handed events : List CaptureEvent}

/-- The latest thing handed on that concerns `sid` is a sequenced record with number `m`. -/
def LatestRecord (sid : Int64) (handed : List CaptureEvent) (m : UInt64) : Prop :=
  ∃ pre x between channel, handed = pre ++ x :: between ∧
    x.frame.sequenced = some (channel, sid, m) ∧ ∀ z ∈ between, Quiet sid z

theorem LatestRecord.of_concat (h : LatestRecord sid (handed ++ [y]) m) :
    (∃ channel, y.frame.sequenced = some (channel, sid, m)) ∨
      (Quiet sid y ∧ LatestRecord sid handed m) := by
  obtain ⟨pre, x, between, channel, hsplit, hx, hquiet⟩ := h
  rcases between.eq_nil_or_concat with rfl | ⟨between, z, rfl⟩
  · obtain ⟨-, hxy⟩ := List.append_inj' hsplit rfl
    cases hxy
    exact Or.inl ⟨channel, hx⟩
  · rw [List.concat_eq_append] at hsplit hquiet
    rw [← List.cons_append, ← List.append_assoc] at hsplit
    obtain ⟨rfl, hyz⟩ := List.append_inj' hsplit rfl
    cases hyz
    exact Or.inr ⟨hquiet y (by simp), pre, x, between, channel, rfl, hx,
      fun w hw => hquiet w (List.mem_append_left _ hw)⟩

theorem not_latestRecord_of_gap (hgap : y.frame.isGapOf sid = true)
    (hseq : y.frame.sequenced = none) : ¬ LatestRecord sid (handed ++ [y]) m := by
  intro h
  rcases h.of_concat with ⟨channel, hy⟩ | ⟨hquiet, -⟩
  · simp [hseq] at hy
  · exact absurd (hquiet.2.2.symm.trans hgap) Bool.false_ne_true

theorem Consecutive.concat (h : Consecutive sid handed)
    (hy : ∀ channel n, y.frame.sequenced = some (channel, sid, n) →
      ∀ m, LatestRecord sid handed m → n.toNat = m.toNat + 1) : Consecutive sid (handed ++ [y]) := by
  intro pre x between z post hsplit hquiet cx cz m n hx hz
  rcases post.eq_nil_or_concat with rfl | ⟨post, w, rfl⟩
  · obtain ⟨hhanded, hyz⟩ := List.append_inj' hsplit rfl
    cases hyz
    exact hy cz n hz m ⟨pre, x, between, cx, hhanded, hx, hquiet⟩
  · rw [List.concat_eq_append, ← List.cons_append, ← List.append_assoc] at hsplit
    obtain ⟨hhanded, -⟩ := List.append_inj' hsplit rfl
    exact h pre x between z post hhanded hquiet cx cz m n hx hz

/-- The markers of a jump carry no sequence number and are gap markers for its subscription. -/
theorem mem_seqJumpEvents {recvTs : Timestamp} {channel : Channel} {last : Option UInt64}
    {seq : UInt64} {z : CaptureEvent}
    (h : z ∈ seqJumpEvents recvTs tickers channel sid last seq) :
    z.frame.sequenced = none ∧ z.frame.isGapOf sid = true := by
  obtain ⟨ticker, -, rfl⟩ := List.mem_map.1 h
  exact ⟨rfl, by simp [DecodedFrame.isGapOf, gapCaptureEvent]⟩

theorem Consecutive.append (h : Consecutive sid handed)
    (hnone : ∀ z ∈ events, z.frame.sequenced = none) : Consecutive sid (handed ++ events) := by
  induction events using List.reverseRecOn with
  | nil => rwa [List.append_nil]
  | append_singleton events z ih =>
    rw [← List.append_assoc]
    refine (ih fun w hw => hnone w (List.mem_append_left _ hw)).concat fun channel n hz => ?_
    simp [hnone z (by simp)] at hz

theorem LatestRecord.of_append (hnone : ∀ z ∈ events, z.frame.sequenced = none)
    (h : LatestRecord sid (handed ++ events) m) : LatestRecord sid handed m := by
  induction events using List.reverseRecOn with
  | nil => rwa [List.append_nil] at h
  | append_singleton events z ih =>
    rw [← List.append_assoc] at h
    rcases h.of_concat with ⟨channel, hz⟩ | ⟨-, h⟩
    · simp [hnone z (by simp)] at hz
    · exact ih (fun w hw => hnone w (List.mem_append_left _ hw)) h

theorem track_of_quiet (h : Quiet sid x) (last : Option UInt64) : x.frame.track sid last = last := by
  rw [DecodedFrame.track]
  split
  · next channel sid' seq hseq =>
    rw [if_neg]
    rintro rfl
    exact h.1 channel seq hseq
  · rw [h.2.1]
    rfl

theorem seq_of_sequenced {channel : Channel} (h : x.frame.sequenced = some (channel, sid, m)) :
    x.frame.seq = some m := by
  rw [DecodedFrame.sequenced] at h
  split at h
  · next hseq =>
    split_ifs at h
    cases h
    exact hseq
  · cases h

theorem track_of_other {channel : Channel} {sid' : Int64}
    (h : x.frame.sequenced = some (channel, sid', m)) (hne : sid' ≠ sid) (last : Option UInt64) :
    x.frame.track sid last = last := by
  rw [DecodedFrame.track, h]
  exact if_neg hne

theorem track_of_sequenced {channel : Channel} (h : x.frame.sequenced = some (channel, sid, m))
    (last : Option UInt64) : x.frame.track sid last = some m := by
  rw [DecodedFrame.track, h]
  exact if_pos rfl

theorem track_eq (x : CaptureEvent) (sid : Int64) (last : Option UInt64) :
    x.frame.track sid last = last ∨ x.frame.track sid last = x.frame.seq := by
  rw [DecodedFrame.track]
  split
  · next hseq =>
    split_ifs
    · exact Or.inr (seq_of_sequenced hseq).symm
    · exact Or.inl rfl
  · split_ifs
    · exact Or.inr rfl
    · exact Or.inl rfl

theorem lastTracked_mem (h : lastTracked sid frames = some m) :
    ∃ x ∈ frames, x.frame.seq = some m := by
  induction frames using List.reverseRecOn with
  | nil => cases h
  | append_singleton frames x ih =>
    rw [lastTracked_concat] at h
    rcases track_eq x sid (lastTracked sid frames) with hkeep | hset
    · obtain ⟨y, hy, hseq⟩ := ih (hkeep ▸ h)
      exact ⟨y, List.mem_append_left _ hy, hseq⟩
    · exact ⟨x, by simp, hset ▸ h⟩

/-- Along what is handed on, numbers are consecutive, and the number of the latest record is the one
that is tracked. -/
theorem Handed.consecutive (htickers : tickers ≠ [])
    (hmax : ∀ x ∈ frames, ∀ seq ∈ x.frame.seq, seq.toNat < 2 ^ 64 - 1)
    (h : Handed tickers frames handed) :
    Consecutive sid handed ∧ ∀ m, LatestRecord sid handed m → lastTracked sid frames = some m := by
  induction h with
  | nil =>
    refine ⟨fun pre x between y post hsplit => ?_, fun m hlatest => ?_⟩
    · simp at hsplit
    · obtain ⟨pre, x, between, channel, hsplit, -⟩ := hlatest
      simp at hsplit
  | @snoc frames handed x events _ hx ih =>
    obtain ⟨hcons, hlatest⟩ := ih fun y hy => hmax y (List.mem_append_left _ hy)
    have hsucc (m : UInt64) (hm : lastTracked sid frames = some m) : (m + 1).toNat = m.toNat + 1 := by
      obtain ⟨y, hy, hseq⟩ := lastTracked_mem hm
      have hlt := hmax y (List.mem_append_left _ hy) m hseq
      rw [UInt64.toNat_add]
      exact Nat.mod_eq_of_lt (by simpa using by omega)
    rw [lastTracked_concat]
    cases hx with
    | @dropped channel sid' seq hseq hlast =>
      rw [List.append_nil]
      refine ⟨hcons, fun m hm => ?_⟩
      by_cases hs : sid' = sid
      · subst hs
        rw [track_of_sequenced hseq, ← hlast]
        exact hlatest m hm
      · rw [track_of_other hseq hs]
        exact hlatest m hm
    | inOrder horder =>
      constructor
      · refine hcons.concat fun channel n hn m hm => ?_
        rw [horder channel sid n hn m (hlatest m hm)]
        exact hsucc m (hlatest m hm)
      · intro m hm
        rcases hm.of_concat with ⟨channel, hxm⟩ | ⟨hquiet, hm⟩
        · exact track_of_sequenced hxm _
        · rw [track_of_quiet hquiet]
          exact hlatest m hm
    | @jumped channel sid' seq last hseq hlast hnext hsame =>
      have hmark (z) (hz : z ∈ seqJumpEvents x.recvTs tickers channel sid' (some last) seq) :=
        mem_seqJumpEvents hz
      rw [← List.append_assoc]
      constructor
      · refine (hcons.append fun z hz => (hmark z hz).1).concat fun channel' n hn m hm => ?_
        cases hseq.symm.trans hn
        -- the last marker stands between the record and the one before it
        rcases (seqJumpEvents x.recvTs tickers channel sid (some last) seq).eq_nil_or_concat with
          hnil | ⟨marks, mark, hmarks⟩
        · exact absurd (List.map_eq_nil_iff.1 hnil) htickers
        · rw [List.concat_eq_append] at hmarks
          rw [hmarks, ← List.append_assoc] at hm
          obtain ⟨hnone, hgap⟩ := hmark mark (by rw [hmarks]; simp)
          exact absurd hm (not_latestRecord_of_gap hgap hnone)
      · intro m hm
        rcases hm.of_concat with ⟨channel', hxm⟩ | ⟨hquiet, hm⟩
        · exact track_of_sequenced hxm _
        · rw [track_of_quiet hquiet]
          exact hlatest m (hm.of_append fun z hz => (hmark z hz).1)

end Consecutive

/-- Whatever a connection brings, its frames are handed on as specified: only a repeat of the last
tracked number is dropped, a jump is marked once for each ticker right before the frame that reveals
it, everything else is handed on once and in order.  So records of a subscription that follow each
other with nothing marked in between are numbered consecutively. -/
theorem sequence_continuity {tickers : List String} (htickers : tickers ≠ []) {s : Session}
    {events : List SocketEvent} {c : Connected}
    (hread : readOn tickers (.new, s) events = some c)
    (hmax : ∀ x ∈ texts events, ∀ seq ∈ x.frame.seq, seq.toNat < 2 ^ 64 - 1) (sid : Int64) :
    ∃ handed, c.2.sent = s.sent ++ handed ∧ Handed tickers (texts events) handed ∧
      Consecutive sid handed := by
  obtain ⟨-, handed, hsent, hhanded⟩ := readOn_handed hread
  exact ⟨handed, hsent, hhanded, (hhanded.consecutive htickers hmax).1⟩

/-- A trade print with sequence number `seq` on subscription 7. -/
def printNumbered (seq : UInt64) : SocketEvent :=
  .text epoch ⟨some 7, some seq, .data .trade ⟨"A"⟩ (.trade
    { ticker := ⟨"A"⟩, ts := epoch, price := ⟨500000⟩, count := ⟨100⟩, takerSide := .yes
      takerBookSide := none, tradeId := none })⟩

/-- A connection with a repeat, a jump forward and a regression. -/
theorem sequence_continuity_sample : ∃ c handed,
    readOn ["A"] (.new, .start none) [printNumbered 4, printNumbered 5, printNumbered 5,
      printNumbered 9, printNumbered 2] = some c ∧
    c.2.sent = [] ++ handed ∧ Handed ["A"] (texts [printNumbered 4, printNumbered 5,
      printNumbered 5, printNumbered 9, printNumbered 2]) handed ∧ Consecutive 7 handed := by
  obtain ⟨handed, h⟩ := sequence_continuity (show ["A"] ≠ [] by decide)
    (rfl : readOn ["A"] (.new, .start none) [printNumbered 4, printNumbered 5, printNumbered 5,
      printNumbered 9, printNumbered 2] = some _) (by simp [texts, printNumbered]) 7
  exact ⟨_, handed, rfl, h⟩

end Snapevent
