import Snapevent.Cli.Capture
import Snapevent.Core.Units

/-!
# The capture pipeline

The session and the verify sweep feed the writer task through two bounded queues (`capture.rs`).  A
step is a message that enters a queue, the end of a sender, or what the writer does next; the disk
answers every write.  What the queues have been given and what has been taken from them is kept
beside the state, as its history.
-/

namespace Snapevent

/-- Writes between two disk checks. -/
def DISK_CHECK_EVERY : ℕ := 500

/-- The slots of the verify queue. -/
def VERIFY_CAPACITY : ℕ := 64

/-- An observation of the verify sweep with the time it was made. -/
abbrev SweepObservation := RestOrderbookOutcome × Timestamp

/-- How envelopes are stored as lines. -/
structure Encoding where
  line : Envelope → Line
  stores : ∀ env, (line env).Stores env

/-- What the writer persists when it takes a record on `day`. -/
def Encoding.persisted (enc : Encoding) (incoming : Incoming) (day : String) : Persisted where
  incoming := incoming
  day := day
  line :=
    match incoming.target with
    | some t => enc.line t.2.2
    | none => .io ""
  stored := by
    intro t ht
    rw [ht]
    exact enc.stores t.2.2

/-- Where the writer task is. -/
inductive WriterPhase
  | looping
  | draining
  | ended
  deriving DecidableEq, Repr

/-- The answer of the disk to one write: the day it falls on, whether the append succeeds, and the
free space when that is asked for. -/
structure DiskReply where
  day : String
  append : Except String Unit
  check : Except String ℕ

/-- The two queues and the writer task, with the history of the queues. -/
structure Pipeline where
  sessionQueue : List CaptureEvent
  sessionClosed : Bool
  verifyQueue : List SweepObservation
  verifyClosed : Bool
  verifyOpen : Bool
  phase : WriterPhase
  writer : Writer
  writesSinceCheck : ℕ
  freeBytes : Option ℕ
  haltError : Option String
  sentEvents : List CaptureEvent
  sentVerify : List SweepObservation
  taken : List Persisted

namespace Pipeline

/-- The pipeline before anything was sent. -/
def start : Pipeline :=
  { sessionQueue := [], sessionClosed := false, verifyQueue := [], verifyClosed := false
    verifyOpen := true, phase := .looping, writer := { report := .default, tree := [] }
    writesSinceCheck := 0, freeBytes := none, haltError := none, sentEvents := []
    sentVerify := [], taken := [] }

/-- Stop with an error. -/
def halt (s : Pipeline) (error : String) : Pipeline :=
  { s with haltError := some error, phase := .ended }

/-- Count a record and append it to its stream; what is not persisted is only counted. -/
def write (enc : Encoding) (s : Pipeline) (incoming : Incoming) (reply : DiskReply) : Pipeline :=
  let p := enc.persisted incoming reply.day
  match s.writer.take incoming reply.day p.line with
  | .error (.unsafeKey key) => s.halt ("unsafe stream key " ++ debugText key)
  | .ok writer =>
    if incoming.target.isNone then { s with writer, taken := s.taken ++ [p] }
    else
      match reply.append with
      | .error e => { s with writer := { writer with tree := s.writer.tree } }.halt e
      | .ok () =>
        { s with writer, taken := s.taken ++ [p], writesSinceCheck := s.writesSinceCheck + 1 }

/-- Look at the free space every so many writes. -/
def checkDisk (s : Pipeline) (reply : DiskReply) : Pipeline :=
  if DISK_CHECK_EVERY ≤ s.writesSinceCheck then
    match reply.check with
    | .ok free => { s with freeBytes := some free, writesSinceCheck := 0 }
    | .error e => s.halt e
  else s

end Pipeline

/-- What happens next. -/
inductive PipelineAction
  | sendEvent (ev : CaptureEvent)
  | closeSession
  | sendVerify (o : SweepObservation)
  | closeVerify
  | recvEvent (reply : DiskReply)
  | sessionOver
  | recvVerify (reply : DiskReply)
  | verifyOver
  | drain (reply : DiskReply)
  | drained (free : Option ℕ)

/-- One step; `none` when it is not possible.  Either queue may be taken from first, and a verify
queue that is found closed is not waited for again. -/
def pipelineStep (enc : Encoding) (capacity : ℕ) (s : Pipeline) :
    PipelineAction → Option Pipeline
  | .sendEvent ev =>
    if s.sessionClosed = false ∧ s.sessionQueue.length < capacity ∧ s.phase ≠ .ended then
      some { s with sessionQueue := s.sessionQueue ++ [ev], sentEvents := s.sentEvents ++ [ev] }
    else none
  | .closeSession => some { s with sessionClosed := true }
  | .sendVerify o =>
    if s.verifyClosed = false ∧ s.verifyQueue.length < VERIFY_CAPACITY ∧ s.phase ≠ .ended then
      some { s with verifyQueue := s.verifyQueue ++ [o], sentVerify := s.sentVerify ++ [o] }
    else none
  | .closeVerify => some { s with verifyClosed := true }
  | .recvEvent reply =>
    match s.phase, s.sessionQueue with
    | .looping, ev :: queue =>
      let t := { s with sessionQueue := queue }.write enc (.event ev) reply
      -- a frame that is not persisted goes round the loop before the disk check
      some (if t.phase = .looping ∧ (Incoming.event ev).target.isSome then t.checkDisk reply else t)
    | _, _ => none
  | .sessionOver =>
    if s.phase = .looping ∧ s.sessionQueue = [] ∧ s.sessionClosed then
      some { s with phase := .draining }
    else none
  | .recvVerify reply =>
    match s.phase, s.verifyOpen, s.verifyQueue with
    | .looping, true, o :: queue =>
      let t := { s with verifyQueue := queue }.write enc (.verify o.1 o.2) reply
      some (if t.phase = .looping then t.checkDisk reply else t)
    | _, _, _ => none
  | .verifyOver =>
    if s.phase = .looping ∧ s.verifyOpen ∧ s.verifyQueue = [] ∧ s.verifyClosed then
      some { s with verifyOpen := false }
    else none
  | .drain reply =>
    match s.phase, s.verifyQueue with
    | .draining, o :: queue =>
      some ({ s with verifyQueue := queue }.write enc (.verify o.1 o.2) reply)
    | _, _ => none
  | .drained free =>
    if s.phase = .draining ∧ s.verifyQueue = [] then
      some { s with phase := .ended, freeBytes := free.orElse fun _ => s.freeBytes }
    else none

/-- A run. -/
def pipelineRun (enc : Encoding) (capacity : ℕ) (actions : List PipelineAction) (s : Pipeline) :
    Option Pipeline := actions.foldlM (pipelineStep enc capacity) s

/-! ## Lines and counts -/

/-- The observation of a record. -/
def Incoming.observation? : Incoming → Option SweepObservation
  | .event _ => none
  | .verify outcome now => some (outcome, now)

/-- The record belongs to this stream. -/
def Persisted.inStream (ticker channel : String) (p : Persisted) : Bool :=
  p.incoming.target.any fun t => (t.1, t.2.1) = (ticker, channel)

/-- The number of lines in the files of a stream. -/
def Tree.lineCount (ticker channel : String) (tree : Tree) : ℕ :=
  ((tree.filter fun f => f.ticker = ticker ∧ f.channel = channel).map fun f => f.lines.length).sum

theorem Tree.lineCount_cons (ticker channel : String) (f : StreamFile) (tree : Tree) :
    Tree.lineCount ticker channel (f :: tree) =
      (if f.ticker = ticker ∧ f.channel = channel then f.lines.length else 0) +
        Tree.lineCount ticker channel tree := by
  unfold lineCount
  rw [List.filter_cons]
  by_cases h : f.ticker = ticker ∧ f.channel = channel
  · simp [h]
  · simp [h]

/-- An append adds one line to its stream. -/
theorem Tree.lineCount_appendLine (ticker channel t c path : String) (line : Line) (tree : Tree) :
    Tree.lineCount ticker channel (tree.appendLine t c path line) =
      Tree.lineCount ticker channel tree + if (t, c) = (ticker, channel) then 1 else 0 := by
  induction tree with
  | nil =>
    rw [appendLine, lineCount_cons]
    by_cases h : t = ticker ∧ c = channel
    · simp [h, lineCount]
    · simp [h, lineCount]
  | cons f tree ih =>
    rw [appendLine]
    split_ifs with hf heq heq
    · rw [lineCount_cons, lineCount_cons]
      rw [Prod.mk.injEq] at heq
      simp only [hf, heq, and_self, if_true, List.length_append, List.length_singleton]
      omega
    · rw [lineCount_cons, lineCount_cons]
      rw [Prod.mk.injEq] at heq
      simp [hf, heq]
    · rw [lineCount_cons, lineCount_cons, ih, if_pos heq]
      omega
    · rw [lineCount_cons, lineCount_cons, ih, if_neg heq]
      omega

theorem Persisted.lineCount_store (ticker channel : String) (tree : Tree) (p : Persisted) :
    Tree.lineCount ticker channel (p.store tree) =
      Tree.lineCount ticker channel tree + if p.inStream ticker channel then 1 else 0 := by
  rw [store, inStream]
  cases p.incoming.target with
  | none => simp
  | some t =>
    dsimp only
    rw [Tree.lineCount_appendLine]
    simp

theorem CaptureReport.countWrite_perStream (r : CaptureReport) (t c ticker channel : String) :
    (r.countWrite t c).perStream (ticker, channel) =
      r.perStream (ticker, channel) + if (t, c) = (ticker, channel) then 1 else 0 := by
  rw [countWrite]
  by_cases h : (t, c) = (ticker, channel)
  · rw [h]
    simp
  · simp [Function.update_of_ne (Ne.symm h), h]

/-- The tally of a record's stream grows by one. -/
theorem Writer.take_perStream {w w' : Writer} {p : Persisted}
    (h : w.take p.incoming p.day p.line = .ok w') (ticker channel : String) :
    w'.report.perStream (ticker, channel) =
      w.report.perStream (ticker, channel) + if p.inStream ticker channel then 1 else 0 := by
  rw [Persisted.inStream]
  rcases hp : p.incoming with
    ⟨recvTs, sid, seq, ⟨c, t, record⟩ | m | d | ⟨c, t, r⟩⟩ | ⟨outcome, now⟩
  · rw [hp, take, classify] at h
    obtain ⟨tree, -, h⟩ := FoldM.bind_ok h
    cases h
    rw [CaptureReport.countWrite_perStream]
    cases record.isGap <;> simp [Incoming.target, classify]
  · rw [hp, take, classify] at h
    cases h
    simp [Incoming.target, classify]
  · rw [hp, take, classify] at h
    cases h
    simp [Incoming.target, classify]
  · rw [hp, take, classify] at h
    obtain ⟨tree, -, h⟩ := FoldM.bind_ok h
    cases h
    rw [CaptureReport.countWrite_perStream]
    simp [Incoming.target, classify]
  · rw [hp, take] at h
    obtain ⟨tree, -, h⟩ := FoldM.bind_ok h
    cases h
    rw [CaptureReport.countWrite_perStream]
    simp [Incoming.target]

/-- The tally of a stream is the number of lines appended to it. -/
theorem perStream_writerTask {records : List Persisted} {w : Writer}
    (h : writerTask records = .ok w) (ticker channel : String) :
    w.report.perStream (ticker, channel) = w.tree.lineCount ticker channel := by
  induction records using List.reverseRecOn generalizing w with
  | nil =>
    cases h
    rfl
  | append_singleton records p ih =>
    rw [writerTask, List.foldlM_append] at h
    obtain ⟨v, hv, h⟩ := FoldM.bind_ok h
    obtain ⟨u, hu, h⟩ := FoldM.cons_ok h
    cases h
    obtain ⟨report, htake⟩ := v.take_ok p
    have htree : w.tree = p.store v.tree := by
      rw [hu] at htake
      cases htake
      rfl
    rw [Writer.take_perStream hu, ih hv, htree, Persisted.lineCount_store]

/-! ## The invariant -/

/-- What the pipeline keeps as long as nothing has failed. -/
structure Pipeline.Inv (s : Pipeline) : Prop where
  events : s.sentEvents = s.taken.filterMap (·.incoming.event?) ++ s.sessionQueue
  verifies : s.sentVerify = s.taken.filterMap (·.incoming.observation?) ++ s.verifyQueue
  written : writerTask s.taken = .ok s.writer
  stopped : s.phase ≠ .looping → s.sessionQueue = [] ∧ s.sessionClosed = true
  drained : s.phase = .ended → s.verifyQueue = []

theorem writerTask_snoc {records : List Persisted} {w : Writer} {p : Persisted}
    (h : writerTask records = .ok w) :
    ∃ w', w.take p.incoming p.day p.line = .ok w' ∧ writerTask (records ++ [p]) = .ok w' := by
  obtain ⟨report, htake⟩ := w.take_ok p
  refine ⟨_, htake, ?_⟩
  rw [writerTask] at h ⊢
  rw [List.foldlM_append, h]
  show ([p].foldlM (fun w p => w.take p.incoming p.day p.line) w) = _
  rw [List.foldlM_cons, htake]
  rfl

section Write

variable {enc : Encoding} {s : Pipeline} {incoming : Incoming} {reply : DiskReply}

/-- A write fails and the writer halts, or the record has been taken and nothing else has
changed. -/
theorem Pipeline.write_cases (hwritten : writerTask s.taken = .ok s.writer)
    (enc : Encoding) (incoming : Incoming) (reply : DiskReply) :
    (s.write enc incoming reply).haltError ≠ none ∨
    ∃ writer writes, writerTask (s.taken ++ [enc.persisted incoming reply.day]) = .ok writer ∧
      s.write enc incoming reply = { s with
        writer, writesSinceCheck := writes, taken := s.taken ++ [enc.persisted incoming reply.day] } := by
  obtain ⟨writer, htake, hsnoc⟩ := writerTask_snoc (p := enc.persisted incoming reply.day) hwritten
  have htake' : s.writer.take incoming reply.day (enc.persisted incoming reply.day).line =
      .ok writer := htake
  cases htarget : incoming.target with
  | none =>
    right
    refine ⟨writer, s.writesSinceCheck, hsnoc, ?_⟩
    simp [write, htake', htarget]
  | some t =>
    cases happend : reply.append with
    | error e =>
      left
      simp [write, htake', htarget, happend, halt]
    | ok u =>
      right
      refine ⟨writer, s.writesSinceCheck + 1, hsnoc, ?_⟩
      simp [write, htake', htarget, happend]

/-- A disk check fails and the writer halts, or only the figures of the disk have changed. -/
theorem Pipeline.checkDisk_cases (s : Pipeline) (reply : DiskReply) :
    (s.checkDisk reply).haltError ≠ none ∨ ∃ free writes,
      s.checkDisk reply = { s with freeBytes := free, writesSinceCheck := writes } := by
  rw [checkDisk]
  split_ifs
  · cases reply.check with
    | error e =>
      left
      simp [halt]
    | ok free =>
      right
      exact ⟨_, _, rfl⟩
  · right
    exact ⟨_, _, rfl⟩

/-- A record of the loop is written and the disk perhaps checked; without a halt it has been taken
and nothing else has changed but the figures of the disk. -/
theorem Pipeline.looped (hwritten : writerTask s.taken = .ok s.writer) {checked : Prop}
    [Decidable checked] {t : Pipeline}
    (ht : t = if checked then (s.write enc incoming reply).checkDisk reply
      else s.write enc incoming reply)
    (hhalt : t.haltError = none) :
    ∃ writer writes free,
      writerTask (s.taken ++ [enc.persisted incoming reply.day]) = .ok writer ∧
      t = { s with
        writer, writesSinceCheck := writes, freeBytes := free
        taken := s.taken ++ [enc.persisted incoming reply.day] } := by
  cases s.write_cases hwritten enc incoming reply with
  | inl hfail =>
    exfalso
    split_ifs at ht with hchecked
    · cases (s.write enc incoming reply).checkDisk_cases reply with
      | inl hcheck => exact hcheck (ht ▸ hhalt)
      | inr hcheck =>
        obtain ⟨free, writes, hcheck⟩ := hcheck
        rw [ht, hcheck] at hhalt
        exact hfail hhalt
    · exact hfail (ht ▸ hhalt)
  | inr hwrite =>
    obtain ⟨writer, writes, hsnoc, hwrite⟩ := hwrite
    split_ifs at ht with hchecked
    · cases (s.write enc incoming reply).checkDisk_cases reply with
      | inl hcheck => exact absurd (ht ▸ hhalt) hcheck
      | inr hcheck =>
        obtain ⟨free, writes', hcheck⟩ := hcheck
        refine ⟨writer, writes', free, hsnoc, ?_⟩
        rw [ht, hcheck, hwrite]
    · exact ⟨writer, writes, s.freeBytes, hsnoc, ht.trans hwrite⟩

end Write

namespace Pipeline.Inv

variable {enc : Encoding} {capacity : ℕ} {s s' : Pipeline}

theorem start : Pipeline.start.Inv where
  events := rfl
  verifies := rfl
  written := rfl
  stopped := by simp [Pipeline.start]
  drained := by simp [Pipeline.start]

/-- A record of the session queue is taken. -/
theorem recvEvent (h : s.Inv) {ev : CaptureEvent} {queue : List CaptureEvent}
    (hqueue : s.sessionQueue = ev :: queue) (hphase : s.phase = .looping) {reply : DiskReply}
    {writer : Writer} {writes : ℕ} {free : Option ℕ}
    (hwritten : writerTask (s.taken ++ [enc.persisted (.event ev) reply.day]) = .ok writer) :
    Inv { s with
      sessionQueue := queue, writer, writesSinceCheck := writes, freeBytes := free
      taken := s.taken ++ [enc.persisted (.event ev) reply.day] } where
  events := by
    rw [h.events, hqueue, List.filterMap_append]
    simp [Encoding.persisted, Incoming.event?]
  verifies := by
    rw [h.verifies, List.filterMap_append]
    simp [Encoding.persisted, Incoming.observation?]
  written := hwritten
  stopped := fun hne => absurd hphase hne
  drained := by
    intro hended
    rw [hphase] at hended
    cases hended

/-- A record of the verify queue is taken, by the loop or by the drain. -/
theorem recvVerify (h : s.Inv) {o : SweepObservation} {queue : List SweepObservation}
    (hqueue : s.verifyQueue = o :: queue) (hphase : s.phase ≠ .ended) {reply : DiskReply}
    {writer : Writer} {writes : ℕ} {free : Option ℕ}
    (hwritten : writerTask (s.taken ++ [enc.persisted (.verify o.1 o.2) reply.day]) = .ok writer) :
    Inv { s with
      verifyQueue := queue, writer, writesSinceCheck := writes, freeBytes := free
      taken := s.taken ++ [enc.persisted (.verify o.1 o.2) reply.day] } where
  events := by
    rw [h.events, List.filterMap_append]
    simp [Encoding.persisted, Incoming.event?]
  verifies := by
    rw [h.verifies, hqueue, List.filterMap_append]
    simp [Encoding.persisted, Incoming.observation?]
  written := hwritten
  stopped := h.stopped
  drained := fun hended => absurd hended hphase

/-- One step that does not fail keeps the invariant. -/
theorem step (h : s.Inv) {action : PipelineAction}
    (hstep : pipelineStep enc capacity s action = some s') (hhalt : s'.haltError = none) :
    s'.Inv := by
  cases action with
  | sendEvent ev =>
    simp only [pipelineStep] at hstep
    split_ifs at hstep with hsend
    cases hstep
    have hlooping : s.phase = .looping := by
      by_contra hne
      rw [(h.stopped hne).2] at hsend
      cases hsend.1
    refine ⟨?_, h.verifies, h.written, fun hne => absurd hlooping hne, h.drained⟩
    show s.sentEvents ++ [ev] = _ ++ (s.sessionQueue ++ [ev])
    rw [h.events, List.append_assoc]
  | closeSession =>
    cases hstep
    exact ⟨h.events, h.verifies, h.written, fun hne => ⟨(h.stopped hne).1, rfl⟩, h.drained⟩
  | sendVerify o =>
    simp only [pipelineStep] at hstep
    split_ifs at hstep with hsend
    cases hstep
    refine ⟨h.events, ?_, h.written, h.stopped, fun hended => absurd hended hsend.2.2⟩
    show s.sentVerify ++ [o] = _ ++ (s.verifyQueue ++ [o])
    rw [h.verifies, List.append_assoc]
  | closeVerify =>
    cases hstep
    exact ⟨h.events, h.verifies, h.written, h.stopped, h.drained⟩
  | recvEvent reply =>
    simp only [pipelineStep] at hstep
    split at hstep
    · next ev queue hphase hqueue =>
      rw [Option.some.injEq] at hstep
      obtain ⟨writer, writes, free, hwritten, heq⟩ :=
        Pipeline.looped (s := { s with sessionQueue := queue }) h.written hstep.symm hhalt
      rw [heq]
      exact h.recvEvent hqueue hphase hwritten
    · cases hstep
  | sessionOver =>
    simp only [pipelineStep] at hstep
    split_ifs at hstep with hover
    cases hstep
    refine ⟨h.events, h.verifies, h.written, fun _ => hover.2, ?_⟩
    intro hended
    cases hended
  | recvVerify reply =>
    simp only [pipelineStep] at hstep
    split at hstep
    · next o queue hphase hopen hqueue =>
      rw [Option.some.injEq] at hstep
      obtain ⟨writer, writes, free, hwritten, heq⟩ :=
        Pipeline.looped (s := { s with verifyQueue := queue }) h.written hstep.symm hhalt
      have hne : s.phase ≠ .ended := by
        rw [hphase]
        decide
      rw [heq]
      exact h.recvVerify hqueue hne hwritten
    · cases hstep
  | verifyOver =>
    simp only [pipelineStep] at hstep
    split_ifs at hstep
    cases hstep
    exact ⟨h.events, h.verifies, h.written, h.stopped, h.drained⟩
  | drain reply =>
    simp only [pipelineStep] at hstep
    split at hstep
    · next o queue hphase hqueue =>
      rw [Option.some.injEq] at hstep
      have hne : s.phase ≠ .ended := by
        rw [hphase]
        decide
      cases Pipeline.write_cases (s := { s with verifyQueue := queue }) h.written enc
          (.verify o.1 o.2) reply with
      | inl hfail =>
        rw [hstep] at hfail
        exact absurd hhalt hfail
      | inr hwrite =>
        obtain ⟨writer, writes, hwritten, heq⟩ := hwrite
        rw [← hstep, heq]
        exact h.recvVerify hqueue hne hwritten
    · cases hstep
  | drained free =>
    simp only [pipelineStep] at hstep
    split_ifs at hstep with hdrained
    cases hstep
    have hne : s.phase ≠ .looping := by
      rw [hdrained.1]
      decide
    exact ⟨h.events, h.verifies, h.written, fun _ => h.stopped hne, fun _ => hdrained.2⟩

end Pipeline.Inv

/-! ## A halt is final -/

section Halted

variable {enc : Encoding} {capacity : ℕ} {s s' : Pipeline}

theorem Pipeline.write_halted (h : s.haltError ≠ none) (incoming : Incoming) (reply : DiskReply) :
    (s.write enc incoming reply).haltError ≠ none := by
  rw [write]
  cases s.writer.take incoming reply.day (enc.persisted incoming reply.day).line with
  | error e => simp [halt]
  | ok writer =>
    dsimp only
    split_ifs
    · exact h
    · cases reply.append with
      | error e => simp [halt]
      | ok u => exact h

theorem Pipeline.checkDisk_halted (h : s.haltError ≠ none) (reply : DiskReply) :
    (s.checkDisk reply).haltError ≠ none := by
  rw [checkDisk]
  split_ifs
  · cases reply.check with
    | error e => simp [halt]
    | ok free => exact h
  · exact h

theorem pipelineStep_halted {action : PipelineAction} (h : s.haltError ≠ none)
    (hstep : pipelineStep enc capacity s action = some s') : s'.haltError ≠ none := by
  cases action with
  | recvEvent reply | recvVerify reply =>
    simp only [pipelineStep] at hstep
    split at hstep
    · rw [Option.some.injEq] at hstep
      rw [← hstep]
      split_ifs
      · exact Pipeline.checkDisk_halted (Pipeline.write_halted (by exact h) _ _) _
      · exact Pipeline.write_halted (by exact h) _ _
    · cases hstep
  | drain reply =>
    simp only [pipelineStep] at hstep
    split at hstep
    · rw [Option.some.injEq] at hstep
      rw [← hstep]
      exact Pipeline.write_halted (by exact h) _ _
    · cases hstep
  | closeSession | closeVerify =>
    cases hstep
    exact h
  | sendEvent | sessionOver | sendVerify | verifyOver | drained =>
    simp only [pipelineStep] at hstep
    split_ifs at hstep
    cases hstep
    exact h

theorem pipelineRun_halted {actions : List PipelineAction} (h : s.haltError ≠ none)
    (hrun : pipelineRun enc capacity actions s = some s') : s'.haltError ≠ none := by
  induction actions generalizing s with
  | nil =>
    cases hrun
    exact h
  | cons action actions ih =>
    rw [pipelineRun, List.foldlM_cons] at hrun
    obtain ⟨t, ht, hrest⟩ := Option.bind_eq_some_iff.1 hrun
    exact ih (pipelineStep_halted h ht) hrest

/-- A run that has not halted keeps the invariant. -/
theorem Pipeline.Inv.run {actions : List PipelineAction} (h : s.Inv)
    (hrun : pipelineRun enc capacity actions s = some s') (hhalt : s'.haltError = none) :
    s'.Inv := by
  induction actions generalizing s with
  | nil =>
    cases hrun
    exact h
  | cons action actions ih =>
    rw [pipelineRun, List.foldlM_cons] at hrun
    obtain ⟨t, ht, hrest⟩ := Option.bind_eq_some_iff.1 hrun
    have hlive : t.haltError = none := by
      by_contra hne
      exact pipelineRun_halted hne hrest hhalt
    exact ih (h.step ht hlive) hrest

end Halted

/-! ## The lines of the files -/

/-- A record that is persisted stands in its file as the line of its envelope. -/
def Encoding.Encodes (enc : Encoding) (p : Persisted) : Prop :=
  ∀ t ∈ p.incoming.target, p.line = enc.line t.2.2

theorem Encoding.encodes_persisted (enc : Encoding) (incoming : Incoming) (day : String) :
    enc.Encodes (enc.persisted incoming day) := by
  intro t ht
  have ht : incoming.target = some t := ht
  show (match incoming.target with
    | some t => enc.line t.2.2
    | none => .io "") = enc.line t.2.2
  rw [ht]

/-- The lines of the envelopes that were filed under a key, in the order they were taken. -/
def Pipeline.filedLines (s : Pipeline) (enc : Encoding) (key : String × String × String) :
    List Line :=
  (s.taken.filter (·.filedIn key)).filterMap fun p => p.incoming.target.map fun t => enc.line t.2.2

section Encoded

variable {enc : Encoding} {capacity : ℕ} {s s' : Pipeline}

theorem Pipeline.map_line (h : ∀ p ∈ s.taken, enc.Encodes p) (key : String × String × String) :
    (s.taken.filter (·.filedIn key)).map (·.line) = s.filedLines enc key := by
  rw [filedLines, ← List.filterMap_eq_map]
  apply List.filterMap_congr
  intro p hp
  obtain ⟨hp, hfiled⟩ := List.mem_filter.1 hp
  cases ht : p.incoming.target with
  | none => simp [Persisted.filedIn, ht] at hfiled
  | some t => exact congrArg some (h p hp t ht)

theorem Pipeline.write_taken (s : Pipeline) (enc : Encoding) (incoming : Incoming)
    (reply : DiskReply) : (s.write enc incoming reply).taken = s.taken ∨
      (s.write enc incoming reply).taken = s.taken ++ [enc.persisted incoming reply.day] := by
  rw [write]
  cases s.writer.take incoming reply.day (enc.persisted incoming reply.day).line with
  | error e => exact Or.inl rfl
  | ok writer =>
    dsimp only
    split_ifs
    · exact Or.inr rfl
    · cases reply.append with
      | error e => exact Or.inl rfl
      | ok u => exact Or.inr rfl

theorem Pipeline.checkDisk_taken (s : Pipeline) (reply : DiskReply) :
    (s.checkDisk reply).taken = s.taken := by
  rw [checkDisk]
  split_ifs
  · cases reply.check <;> rfl
  · rfl

/-- A step takes at most one record, which it files as the line of its envelope. -/
theorem pipelineStep_taken {action : PipelineAction}
    (hstep : pipelineStep enc capacity s action = some s') :
    s'.taken = s.taken ∨ ∃ incoming day, s'.taken = s.taken ++ [enc.persisted incoming day] := by
  cases action with
  | recvEvent reply | recvVerify reply =>
    simp only [pipelineStep] at hstep
    split at hstep
    · rw [Option.some.injEq] at hstep
      rw [← hstep]
      split_ifs
      · rw [Pipeline.checkDisk_taken]
        exact (Pipeline.write_taken _ enc _ reply).imp_right fun h => ⟨_, _, h⟩
      · exact (Pipeline.write_taken _ enc _ reply).imp_right fun h => ⟨_, _, h⟩
    · cases hstep
  | drain reply =>
    simp only [pipelineStep] at hstep
    split at hstep
    · rw [Option.some.injEq] at hstep
      rw [← hstep]
      exact (Pipeline.write_taken _ enc _ reply).imp_right fun h => ⟨_, _, h⟩
    · cases hstep
  | closeSession | closeVerify =>
    cases hstep
    exact Or.inl rfl
  | sendEvent | sessionOver | sendVerify | verifyOver | drained =>
    simp only [pipelineStep] at hstep
    split_ifs at hstep
    cases hstep
    exact Or.inl rfl

theorem encodes_of_run {actions : List PipelineAction} (h : ∀ p ∈ s.taken, enc.Encodes p)
    (hrun : pipelineRun enc capacity actions s = some s') : ∀ p ∈ s'.taken, enc.Encodes p := by
  induction actions generalizing s with
  | nil =>
    cases hrun
    exact h
  | cons action actions ih =>
    rw [pipelineRun, List.foldlM_cons] at hrun
    obtain ⟨t, ht, hrest⟩ := Option.bind_eq_some_iff.1 hrun
    refine ih ?_ hrest
    rcases pipelineStep_taken ht with htaken | ⟨incoming, day, htaken⟩
    · rwa [htaken]
    · rw [htaken, List.forall_mem_append, List.forall_mem_singleton]
      exact ⟨h, enc.encodes_persisted incoming day⟩

end Encoded

/-! ## Nothing is dropped or reordered -/

/-- What a writer that has ended without a halt has made of the records its queues were given. -/
structure PersistsAll (enc : Encoding) (s : Pipeline) : Prop where
  /-- It has taken the events of the session queue, each once and in the order sent. -/
  events : s.taken.filterMap (·.incoming.event?) = s.sentEvents
  /-- It has taken the observations that entered the verify queue, each once. -/
  verifies : s.taken.filterMap (·.incoming.observation?) = s.sentVerify
  /-- There is one file for a stream and a day. -/
  files_nodup : (s.writer.tree.map Tree.key).Nodup
  /-- A file holds the lines of the envelopes filed in it, in the order they were taken. -/
  files : ∀ f ∈ s.writer.tree, f.lines = s.filedLines enc (Tree.key f)
  /-- Every record that is persisted has a file. -/
  filed : ∀ p ∈ s.taken, ∀ t ∈ p.incoming.target,
    ∃ f ∈ s.writer.tree, Tree.key f = (t.1, t.2.1, p.day ++ ".jsonl")
  /-- Only control and server-error frames are not persisted. -/
  unpersisted : ∀ p ∈ s.taken, p.incoming.target = none ↔ ∃ ev, p.incoming = .event ev ∧
    ((∃ m, ev.frame.outcome = .control m) ∨ ∃ d, ev.frame.outcome = .serverError d)
  /-- The tally of a stream is the number of lines appended to it. -/
  perStream : ∀ ticker channel,
    s.writer.report.perStream (ticker, channel) = s.writer.tree.lineCount ticker channel

theorem Incoming.target_eq_none_iff (incoming : Incoming) :
    incoming.target = none ↔ ∃ ev, incoming = .event ev ∧
      ((∃ m, ev.frame.outcome = .control m) ∨ ∃ d, ev.frame.outcome = .serverError d) := by
  rcases incoming with
    ⟨recvTs, sid, seq, ⟨c, t, record⟩ | m | d | ⟨c, t, r⟩⟩ | ⟨outcome, now⟩
  all_goals simp [target, classify]

/-- A record that is persisted has a file among those that were written. -/
theorem mem_store_of_taken {records : List Persisted} {p : Persisted} (hp : p ∈ records)
    {t : String × String × Envelope} (ht : t ∈ p.incoming.target) :
    ∃ f ∈ records.foldl Persisted.store [], Tree.key f = (t.1, t.2.1, p.day ++ ".jsonl") := by
  have hkeys : (t.1, t.2.1, p.day ++ ".jsonl") ∈
      (records.foldl Persisted.store []).map Tree.key := by
    induction records using List.reverseRecOn with
    | nil => cases hp
    | append_singleton records q ih =>
      rw [List.foldl_append, List.foldl_cons, List.foldl_nil, Persisted.store]
      cases List.mem_append.1 hp with
      | inl hp =>
        cases q.incoming.target with
        | none => exact ih hp
        | some u =>
          dsimp only
          rw [Tree.key_appendLine]
          split_ifs
          · exact ih hp
          · exact List.mem_append_left _ (ih hp)
      | inr hp =>
        rw [List.mem_singleton] at hp
        subst hp
        rw [Option.mem_def] at ht
        rw [ht]
        dsimp only
        rw [Tree.key_appendLine]
        split_ifs with hmem
        · exact hmem
        · exact List.mem_append_right _ (List.mem_singleton_self _)
  obtain ⟨f, hf, hkey⟩ := List.mem_map.1 hkeys
  exact ⟨f, hf, hkey⟩

/-- Over every schedule of the two queues, a writer that ends without a failed append or disk check
has persisted everything that was sent, once and in order. -/
theorem pipeline_persists_all (enc : Encoding) (capacity : ℕ) (actions : List PipelineAction)
    (s : Pipeline) (hrun : pipelineRun enc capacity actions .start = some s)
    (hended : s.phase = .ended) (hhalt : s.haltError = none) : PersistsAll enc s := by
  have hinv : s.Inv := Pipeline.Inv.start.run hrun hhalt
  have hne : s.phase ≠ .looping := by
    rw [hended]
    decide
  have htree : s.writer.tree = s.taken.foldl Persisted.store [] := by
    obtain ⟨report, hok⟩ := writerTask_ok s.taken
    have hwritten := hinv.written
    rw [hok, Except.ok.injEq] at hwritten
    rw [← hwritten]
  refine ⟨?_, ?_, ?_, ?_, ?_, ?_, ?_⟩
  · rw [hinv.events, (hinv.stopped hne).1, List.append_nil]
  · rw [hinv.verifies, hinv.drained hended, List.append_nil]
  · rw [htree]
    exact nodup_store s.taken
  · intro f hf
    rw [lines_of_writerTask hinv.written hf]
    exact Pipeline.map_line (encodes_of_run (by simp [Pipeline.start]) hrun) _
  · intro p hp t ht
    rw [htree]
    exact mem_store_of_taken hp ht
  · exact fun p _ => p.incoming.target_eq_none_iff
  · exact perStream_writerTask hinv.written

/-- A session that sends a trade and a subscription answer and ends, with one observation beside it
that only the final drain takes. -/
def pipelineSample : List PipelineAction :=
  let trade : Trade :=
    { ticker := ⟨"K"⟩, ts := { nanos := 5 }, price := ⟨450000⟩, count := ⟨100⟩, takerSide := .yes
      takerBookSide := none, tradeId := none }
  let reply : DiskReply := ⟨"2026-05-30", .ok (), .ok 0⟩
  [.sendEvent ⟨{ nanos := 5 }, ⟨some 1, some 1, .data .trade ⟨"K"⟩ (.trade trade)⟩⟩,
    .sendEvent ⟨{ nanos := 6 }, ⟨none, none, .control "subscribed"⟩⟩,
    .sendVerify (.book "K" [] [], { nanos := 7 }), .closeSession, .recvEvent reply,
    .recvEvent reply, .sessionOver, .drain reply, .drained (some 0)]

/-- Every envelope stored as it was written. -/
def Encoding.sample : Encoding where
  line env := .text "line" (.ok env)
  stores _ := .written (by decide)

theorem pipeline_persists_all_sample :
    ∃ s, pipelineRun Encoding.sample 1024 pipelineSample .start = some s ∧
      s.taken.length = 3 ∧ s.writer.tree.length = 2 ∧
        PersistsAll Encoding.sample s :=
  ⟨_, rfl, rfl, rfl, pipeline_persists_all Encoding.sample 1024 pipelineSample _ rfl rfl rfl⟩

end Snapevent
