import Mathlib.Algebra.Order.Ring.Int
import Mathlib.Order.Lattice
import Snapevent.Cli.Pipeline

/-!
# The pipeline when the disk fails

What a run of the capture pipeline leaves whatever the disk answers.  A halt loses the one record
whose append failed and leaves the rest in the queues, and only then does the tally say one more
than the files hold.  The free space is asked for often enough that fewer than `DISK_CHECK_EVERY`
records lie behind the last good answer.
-/

namespace Snapevent

namespace Pipeline

variable {enc : Encoding} {capacity : ℕ} {s s' : Pipeline} {incoming : Incoming} {reply : DiskReply}

/-- The tally after a record has been counted. -/
def Counted (s : Pipeline) (p : Persisted) (report : CaptureReport) : Prop :=
  ∀ ticker channel, report.perStream (ticker, channel) =
    s.writer.report.perStream (ticker, channel) + if p.inStream ticker channel then 1 else 0

/-- The append fails and the writer halts, or the record has been taken. -/
theorem write_eq (s : Pipeline) (enc : Encoding) (incoming : Incoming) (reply : DiskReply) :
    ∃ report, s.Counted (enc.persisted incoming reply.day) report ∧
      ((∃ e, reply.append = .error e ∧ s.write enc incoming reply = { s with
          writer := ⟨report, s.writer.tree⟩, haltError := some e, phase := .ended }) ∨
        s.write enc incoming reply = { s with
          writer := ⟨report, (enc.persisted incoming reply.day).store s.writer.tree⟩
          taken := s.taken ++ [enc.persisted incoming reply.day]
          writesSinceCheck := s.writesSinceCheck + if incoming.target.isSome then 1 else 0 }) := by
  obtain ⟨report, htake⟩ := s.writer.take_ok (enc.persisted incoming reply.day)
  have htake' : s.writer.take incoming reply.day (enc.persisted incoming reply.day).line = _ :=
    htake
  refine ⟨report, Writer.take_perStream htake, ?_⟩
  cases htarget : incoming.target with
  | none =>
    right
    simp [write, htake', htarget]
  | some t =>
    cases happend : reply.append with
    | error e =>
      left
      exact ⟨e, rfl, by simp [write, htake', htarget, happend, halt]⟩
    | ok u =>
      right
      simp [write, htake', htarget, happend]

/-! ## What a halt loses -/

/-- The records of both queues are accounted for: they were taken and stand in the files, in the
order sent, or failed to be written and halted the writer, or are still in the queues. -/
structure Accounts (s : Pipeline) (failed : List Persisted) : Prop where
  one : failed.length ≤ 1
  halted : failed ≠ [] → s.haltError ≠ none
  ended : s.haltError ≠ none → s.phase = .ended
  events : s.sentEvents = (s.taken ++ failed).filterMap (·.incoming.event?) ++ s.sessionQueue
  verifies :
    s.sentVerify = (s.taken ++ failed).filterMap (·.incoming.observation?) ++ s.verifyQueue
  tree : s.writer.tree = s.taken.foldl Persisted.store []
  perStream : ∀ ticker channel, s.writer.report.perStream (ticker, channel) =
    s.writer.tree.lineCount ticker channel + failed.countP (·.inStream ticker channel)

/-- A record has been taken from its queue and is not yet written. -/
structure InHand (s : Pipeline) (incoming : Incoming) : Prop where
  live : s.haltError = none
  events : s.sentEvents =
    s.taken.filterMap (·.incoming.event?) ++ (incoming.event?.toList ++ s.sessionQueue)
  verifies : s.sentVerify =
    s.taken.filterMap (·.incoming.observation?) ++ (incoming.observation?.toList ++ s.verifyQueue)
  tree : s.writer.tree = s.taken.foldl Persisted.store []
  perStream : ∀ ticker channel, s.writer.report.perStream (ticker, channel) =
    s.writer.tree.lineCount ticker channel

theorem filterMap_snoc {α β : Type} (f : α → Option β) (l : List α) (a : α) :
    (l ++ [a]).filterMap f = l.filterMap f ++ (f a).toList := by
  rw [List.filterMap_append]
  cases h : f a <;> simp [h]

theorem InHand.write (h : s.InHand incoming) (enc : Encoding) (reply : DiskReply) :
    ∃ failed, (s.write enc incoming reply).Accounts failed := by
  obtain ⟨report, hcounted, ⟨e, -, hwrite⟩ | hwrite⟩ := s.write_eq enc incoming reply
  · rw [hwrite]
    refine ⟨[enc.persisted incoming reply.day], ?_⟩
    exact
      { one := le_rfl
        halted := fun _ => Option.some_ne_none e
        ended := fun _ => rfl
        events := by rw [filterMap_snoc, List.append_assoc]; exact h.events
        verifies := by rw [filterMap_snoc, List.append_assoc]; exact h.verifies
        tree := h.tree
        perStream := fun ticker channel => by
          rw [hcounted, h.perStream, List.countP_singleton] }
  · rw [hwrite]
    refine ⟨[], ?_⟩
    exact
      { one := Nat.zero_le _
        halted := fun hne => absurd rfl hne
        ended := fun hne => absurd h.live hne
        events := by rw [List.append_nil, filterMap_snoc, List.append_assoc]; exact h.events
        verifies := by rw [List.append_nil, filterMap_snoc, List.append_assoc]; exact h.verifies
        tree := by rw [List.foldl_append, h.tree]; rfl
        perStream := fun ticker channel => by
          rw [hcounted, h.perStream, Persisted.lineCount_store]
          rfl }

namespace Accounts

variable {failed : List Persisted}

theorem live (h : s.Accounts failed) (hphase : s.phase ≠ .ended) : s.haltError = none := by
  by_contra hne
  exact hphase (h.ended hne)

theorem nil_of_phase (h : s.Accounts failed) (hphase : s.phase ≠ .ended) : failed = [] := by
  by_contra hne
  exact hphase (h.ended (h.halted hne))

theorem start : Pipeline.start.Accounts [] where
  one := Nat.zero_le _
  halted hne := absurd rfl hne
  ended hne := absurd rfl hne
  events := rfl
  verifies := rfl
  tree := rfl
  perStream _ _ := rfl

theorem checkDisk (h : s.Accounts failed) (reply : DiskReply) :
    (s.checkDisk reply).Accounts failed := by
  rw [Pipeline.checkDisk]
  split_ifs
  · cases reply.check with
    | error e =>
      exact ⟨h.one, fun _ => Option.some_ne_none e, fun _ => rfl, h.events, h.verifies, h.tree, h.perStream⟩
    | ok free => exact ⟨h.one, h.halted, h.ended, h.events, h.verifies, h.tree, h.perStream⟩
  · exact h

theorem inHand_event (h : s.Accounts failed) (hphase : s.phase ≠ .ended) {ev : CaptureEvent}
    {queue : List CaptureEvent} (hqueue : s.sessionQueue = ev :: queue) :
    InHand { s with sessionQueue := queue } (.event ev) := by
  obtain rfl := h.nil_of_phase hphase
  have hevents := h.events
  have hverifies := h.verifies
  rw [List.append_nil] at hevents hverifies
  rw [hqueue] at hevents
  exact ⟨h.live hphase, hevents, hverifies, h.tree, h.perStream⟩

theorem inHand_verify (h : s.Accounts failed) (hphase : s.phase ≠ .ended) {o : SweepObservation}
    {queue : List SweepObservation} (hqueue : s.verifyQueue = o :: queue) :
    InHand { s with verifyQueue := queue } (.verify o.1 o.2) := by
  obtain rfl := h.nil_of_phase hphase
  have hevents := h.events
  have hverifies := h.verifies
  rw [List.append_nil] at hevents hverifies
  rw [hqueue] at hverifies
  exact ⟨h.live hphase, hevents, hverifies, h.tree, h.perStream⟩

theorem step (h : s.Accounts failed) {action : PipelineAction}
    (hstep : pipelineStep enc capacity s action = some s') : ∃ failed, s'.Accounts failed := by
  cases action with
  | sendEvent ev =>
    simp only [pipelineStep] at hstep
    split_ifs at hstep with hsend
    cases hstep
    refine ⟨failed, h.one, h.halted, h.ended, ?_, h.verifies, h.tree, h.perStream⟩
    show s.sentEvents ++ [ev] = _ ++ (s.sessionQueue ++ [ev])
    rw [h.events, List.append_assoc]
  | sendVerify o =>
    simp only [pipelineStep] at hstep
    split_ifs at hstep with hsend
    cases hstep
    refine ⟨failed, h.one, h.halted, h.ended, h.events, ?_, h.tree, h.perStream⟩
    show s.sentVerify ++ [o] = _ ++ (s.verifyQueue ++ [o])
    rw [h.verifies, List.append_assoc]
  | closeSession | closeVerify =>
    cases hstep
    exact ⟨failed, h.one, h.halted, h.ended, h.events, h.verifies, h.tree, h.perStream⟩
  | recvEvent reply =>
    simp only [pipelineStep] at hstep
    split at hstep
    · next ev queue hphase hqueue =>
      cases hstep
      have hne : s.phase ≠ .ended := by
        rw [hphase]
        decide
      obtain ⟨failed, hwrite⟩ := (h.inHand_event hne hqueue).write enc reply
      refine ⟨failed, ?_⟩
      split_ifs
      · exact hwrite.checkDisk reply
      · exact hwrite
    · cases hstep
  | recvVerify reply =>
    simp only [pipelineStep] at hstep
    split at hstep
    · next o queue hphase hopen hqueue =>
      cases hstep
      have hne : s.phase ≠ .ended := by
        rw [hphase]
        decide
      obtain ⟨failed, hwrite⟩ := (h.inHand_verify hne hqueue).write enc reply
      refine ⟨failed, ?_⟩
      split_ifs
      · exact hwrite.checkDisk reply
      · exact hwrite
    · cases hstep
  | drain reply =>
    simp only [pipelineStep] at hstep
    split at hstep
    · next o queue hphase hqueue =>
      cases hstep
      have hne : s.phase ≠ .ended := by
        rw [hphase]
        decide
      exact (h.inHand_verify hne hqueue).write enc reply
    · cases hstep
  | sessionOver =>
    simp only [pipelineStep] at hstep
    split_ifs at hstep with hover
    cases hstep
    have hne : s.phase ≠ .ended := by
      rw [hover.1]
      decide
    exact ⟨failed, h.one, h.halted, fun hhalt => absurd (h.live hne) hhalt, h.events, h.verifies,
      h.tree, h.perStream⟩
  | verifyOver =>
    simp only [pipelineStep] at hstep
    split_ifs at hstep
    cases hstep
    exact ⟨failed, h.one, h.halted, h.ended, h.events, h.verifies, h.tree, h.perStream⟩
  | drained free =>
    simp only [pipelineStep] at hstep
    split_ifs at hstep
    cases hstep
    exact ⟨failed, h.one, h.halted, fun _ => rfl, h.events, h.verifies, h.tree, h.perStream⟩

theorem run (h : s.Accounts failed) {actions : List PipelineAction}
    (hrun : pipelineRun enc capacity actions s = some s') : ∃ failed, s'.Accounts failed := by
  induction actions generalizing s failed with
  | nil =>
    cases hrun
    exact ⟨failed, h⟩
  | cons action actions ih =>
    rw [pipelineRun, List.foldlM_cons] at hrun
    obtain ⟨t, ht, hrest⟩ := Option.bind_eq_some_iff.1 hrun
    obtain ⟨failed, ht⟩ := h.step ht
    exact ih ht hrest

end Accounts

end Pipeline

/-- A trade as the session sends it. -/
def sampleEvent (seq : UInt64) : CaptureEvent :=
  let trade : Trade :=
    { ticker := ⟨"K"⟩, ts := epoch, price := ⟨450000⟩, count := ⟨100⟩, takerSide := .yes
      takerBookSide := none, tradeId := none }
  ⟨epoch, ⟨some 1, some seq, .data .trade ⟨"K"⟩ (.trade trade)⟩⟩

/-- A session whose second record cannot be appended, with a third one behind it. -/
def haltedSample : List PipelineAction :=
  [.sendEvent (sampleEvent 1), .sendEvent (sampleEvent 2), .sendEvent (sampleEvent 3),
    .recvEvent ⟨"2026-05-30", .ok (), .ok 0⟩,
    .recvEvent ⟨"2026-05-30", .error "no space left", .ok 0⟩]

/-- The guard of a directory, with the free space it asks for. -/
structure DiskGuard where
  path : String
  minFreeBytes : ℕ

/-- The free space if there is enough. -/
def DiskGuard.check (guard : DiskGuard) (availableSpace : Except String ℕ) : Except String ℕ := do
  let available ← availableSpace.mapError ("store io error: " ++ ·)
  if available < guard.minFreeBytes then
    throw ("disk full: " ++ toString available ++ " bytes free at " ++ guard.path ++
      " is below the " ++ toString guard.minFreeBytes ++ "-byte floor")
  return available

theorem DiskGuard.le_of_check {guard : DiskGuard} {availableSpace : Except String ℕ} {free : ℕ}
    (h : guard.check availableSpace = .ok free) : guard.minFreeBytes ≤ free := by
  obtain ⟨available, -, h⟩ := FoldM.bind_ok h
  split_ifs at h with hlow
  · cases h
  · cases h
    exact not_lt.1 hlow

/-- What the disk answers in an action of the writer's loop. -/
def PipelineAction.reply? : PipelineAction → Option DiskReply
  | .recvEvent reply | .recvVerify reply => some reply
  | _ => none

namespace Pipeline

variable {enc : Encoding} {capacity : ℕ} {s s' : Pipeline} {incoming : Incoming} {reply : DiskReply}

/-- The records that have been written. -/
def persistedCount (s : Pipeline) : ℕ := s.taken.countP (·.incoming.target.isSome)

/-- A record that is written counts towards the next check. -/
theorem write_counts (h : (s.write enc incoming reply).phase = .looping) :
    s.phase = .looping ∧ (s.write enc incoming reply).writesSinceCheck + s.persistedCount =
      s.writesSinceCheck + (s.write enc incoming reply).persistedCount ∧
      (s.write enc incoming reply).writesSinceCheck =
        s.writesSinceCheck + if incoming.target.isSome then 1 else 0 := by
  obtain ⟨report, -, ⟨e, -, hwrite⟩ | hwrite⟩ := s.write_eq enc incoming reply
  · rw [hwrite] at h
    cases h
  · rw [hwrite] at h ⊢
    refine ⟨h, ?_, rfl⟩
    have hcount : persistedCount { s with
        writer := ⟨report, (enc.persisted incoming reply.day).store s.writer.tree⟩
        taken := s.taken ++ [enc.persisted incoming reply.day]
        writesSinceCheck := s.writesSinceCheck + if incoming.target.isSome then 1 else 0 } =
          s.persistedCount + if incoming.target.isSome then 1 else 0 := by
      rw [persistedCount, List.countP_append, List.countP_singleton]
      rfl
    rw [hcount]
    show (s.writesSinceCheck + _) + _ = _
    omega

/-- The loop has gone through a disk check that was passed, or the writes since are counted. -/
def Checked (s s' : Pipeline) (action : PipelineAction) : Prop :=
  (∃ reply free, action.reply? = some reply ∧ reply.check = .ok free) ∨
    s'.writesSinceCheck + s.persistedCount = s.writesSinceCheck + s'.persistedCount

theorem checkDisk_counts (h : (s.checkDisk reply).phase = .looping) :
    (s.checkDisk reply).writesSinceCheck < DISK_CHECK_EVERY ∧
      ((∃ free, reply.check = .ok free) ∨ s.checkDisk reply = s) := by
  rw [checkDisk] at h ⊢
  split_ifs at h ⊢ with hdue
  · cases hcheck : reply.check with
    | error e =>
      rw [hcheck] at h
      cases h
    | ok free => exact ⟨by simp [DISK_CHECK_EVERY], Or.inl ⟨free, rfl⟩⟩
  · exact ⟨not_le.1 hdue, Or.inr rfl⟩

variable (enc incoming reply) in
/-- A record is written in the loop, which then looks at the disk if it is time. -/
theorem looped_counts (hdue : s.writesSinceCheck < DISK_CHECK_EVERY)
    (hs' : s' = if (s.write enc incoming reply).phase = .looping ∧ incoming.target.isSome then
      (s.write enc incoming reply).checkDisk reply else s.write enc incoming reply)
    (hlooping : s'.phase = .looping) :
    s'.writesSinceCheck < DISK_CHECK_EVERY ∧ ((∃ free, reply.check = .ok free) ∨
      s'.writesSinceCheck + s.persistedCount = s.writesSinceCheck + s'.persistedCount) := by
  split_ifs at hs' with hcheck
  · have hcounts := (write_counts hcheck.1).2.1
    subst hs'
    obtain ⟨hlt, hfree | heq⟩ := checkDisk_counts hlooping
    · exact ⟨hlt, Or.inl hfree⟩
    · rw [heq] at hlt ⊢
      exact ⟨hlt, Or.inr hcounts⟩
  · subst hs'
    obtain ⟨-, hcounts, hwrites⟩ := write_counts hlooping
    rw [if_neg fun hsome => hcheck ⟨hlooping, hsome⟩] at hwrites
    exact ⟨hwrites ▸ hdue, Or.inr hcounts⟩

/-- A loop that was left is not entered again. -/
theorem looping_of_step {action : PipelineAction}
    (hstep : pipelineStep enc capacity s action = some s') (hlooping : s'.phase = .looping) :
    s.phase = .looping := by
  cases action with
  | recvEvent reply | recvVerify reply =>
    simp only [pipelineStep] at hstep
    split at hstep
    · assumption
    · cases hstep
  | drain reply =>
    simp only [pipelineStep] at hstep
    split at hstep
    · cases hstep
      exact (write_counts hlooping).1
    · cases hstep
  | closeSession | closeVerify =>
    cases hstep
    exact hlooping
  | sendEvent | sendVerify | verifyOver | sessionOver | drained =>
    simp only [pipelineStep] at hstep
    split_ifs at hstep
    cases hstep
    first
    | exact hlooping
    | cases hlooping

theorem looping_of_run {actions : List PipelineAction}
    (hrun : pipelineRun enc capacity actions s = some s') (hlooping : s'.phase = .looping) :
    s.phase = .looping := by
  induction actions generalizing s with
  | nil =>
    cases hrun
    exact hlooping
  | cons action actions ih =>
    rw [pipelineRun, List.foldlM_cons] at hrun
    obtain ⟨t, ht, hrest⟩ := Option.bind_eq_some_iff.1 hrun
    exact looping_of_step ht (ih hrest)

/-- While the loop goes on, fewer than `DISK_CHECK_EVERY` records lie behind the last check. -/
theorem step_counts {action : PipelineAction} (hdue : s.writesSinceCheck < DISK_CHECK_EVERY)
    (hstep : pipelineStep enc capacity s action = some s') (hlooping : s'.phase = .looping) :
    s'.writesSinceCheck < DISK_CHECK_EVERY ∧ s.Checked s' action := by
  cases action with
  | recvEvent reply =>
    simp only [pipelineStep] at hstep
    split at hstep
    · next ev queue hphase hqueue =>
      obtain ⟨hlt, hchecked⟩ := looped_counts enc (.event ev) reply
        (s := { s with sessionQueue := queue }) hdue (Option.some.inj hstep).symm hlooping
      refine ⟨hlt, hchecked.imp_left fun hfree => ?_⟩
      obtain ⟨free, hfree⟩ := hfree
      exact ⟨reply, free, rfl, hfree⟩
    · cases hstep
  | recvVerify reply =>
    simp only [pipelineStep] at hstep
    split at hstep
    · next o queue hphase hopen hqueue =>
      have htarget : (Incoming.verify o.1 o.2).target.isSome = true := rfl
      obtain ⟨hlt, hchecked⟩ := looped_counts enc (.verify o.1 o.2) reply
        (s := { s with verifyQueue := queue }) hdue
        (by simpa only [htarget, and_true] using (Option.some.inj hstep).symm) hlooping
      refine ⟨hlt, hchecked.imp_left fun hfree => ?_⟩
      obtain ⟨free, hfree⟩ := hfree
      exact ⟨reply, free, rfl, hfree⟩
    · cases hstep
  | drain reply =>
    simp only [pipelineStep] at hstep
    split at hstep
    · next o queue hphase hqueue =>
      cases hstep
      have hlooped := (write_counts hlooping).1
      rw [show ({ s with verifyQueue := queue } : Pipeline).phase = s.phase from rfl, hphase]
        at hlooped
      cases hlooped
    · cases hstep
  | closeSession | closeVerify =>
    cases hstep
    exact ⟨hdue, Or.inr rfl⟩
  | sendEvent | sendVerify | verifyOver =>
    simp only [pipelineStep] at hstep
    split_ifs at hstep
    cases hstep
    exact ⟨hdue, Or.inr rfl⟩
  | sessionOver | drained =>
    simp only [pipelineStep] at hstep
    split_ifs at hstep
    cases hstep
    cases hlooping

theorem run_counts {actions : List PipelineAction} (hdue : s.writesSinceCheck < DISK_CHECK_EVERY)
    (hrun : pipelineRun enc capacity actions s = some s') (hlooping : s'.phase = .looping) :
    s'.writesSinceCheck < DISK_CHECK_EVERY ∧
      ((∃ a ∈ actions, ∃ reply free, a.reply? = some reply ∧ reply.check = .ok free) ∨
        s'.writesSinceCheck + s.persistedCount = s.writesSinceCheck + s'.persistedCount) := by
  induction actions generalizing s with
  | nil =>
    cases hrun
    exact ⟨hdue, Or.inr rfl⟩
  | cons action actions ih =>
    rw [pipelineRun, List.foldlM_cons] at hrun
    obtain ⟨t, ht, hrest⟩ := Option.bind_eq_some_iff.1 hrun
    obtain ⟨hlt, hchecked⟩ := step_counts hdue ht (looping_of_run hrest hlooping)
    obtain ⟨hlt', hchecked'⟩ := ih hlt hrest
    refine ⟨hlt', ?_⟩
    rcases hchecked with ⟨reply, free, hreply, hfree⟩ | hcount
    · exact Or.inl ⟨action, List.mem_cons_self, reply, free, hreply, hfree⟩
    · rcases hchecked' with ⟨a, ha, hreply⟩ | hcount'
      · exact Or.inl ⟨a, List.mem_cons_of_mem _ ha, hreply⟩
      · exact Or.inr (by omega)

end Pipeline

/-! ## A disk that does not fail -/

namespace Pipeline

variable {enc : Encoding} {capacity : ℕ} {s : Pipeline} {incoming : Incoming} {reply : DiskReply}

/-- The loop has written so many records and waits with an open, empty queue. -/
structure Idle (s : Pipeline) (count : ℕ) : Prop where
  phase : s.phase = .looping
  isOpen : s.sessionClosed = false
  queue : s.sessionQueue = []
  count : s.persistedCount = count

variable (enc) in
theorem Idle.write {count : ℕ} (h : s.Idle count) (htarget : incoming.target.isSome)
    (happend : reply.append = .ok ()) : (s.write enc incoming reply).Idle (count + 1) := by
  obtain ⟨report, -, ⟨e, herror, -⟩ | hwrite⟩ := s.write_eq enc incoming reply
  · rw [happend] at herror
    cases herror
  · rw [hwrite]
    refine ⟨h.phase, h.isOpen, h.queue, ?_⟩
    rw [persistedCount, List.countP_append, List.countP_singleton]
    show s.persistedCount + (if incoming.target.isSome then 1 else 0) = _
    rw [if_pos htarget, h.count]

theorem Idle.checkDisk {count free : ℕ} (h : s.Idle count) (hcheck : reply.check = .ok free) :
    (s.checkDisk reply).Idle count := by
  rw [Pipeline.checkDisk, hcheck]
  split_ifs
  · exact ⟨h.phase, h.isOpen, h.queue, h.count⟩
  · exact h

variable (enc) in
/-- A record is sent, taken and written. -/
theorem Idle.next {count free : ℕ} (h : s.Idle count) (hcapacity : 0 < capacity) {ev : CaptureEvent}
    (hev : (Incoming.event ev).target.isSome) (happend : reply.append = .ok ())
    (hcheck : reply.check = .ok free) :
    ∃ s', pipelineRun enc capacity [.sendEvent ev, .recvEvent reply] s = some s' ∧
      s'.Idle (count + 1) := by
  let sent : Pipeline :=
    { s with sessionQueue := s.sessionQueue ++ [ev], sentEvents := s.sentEvents ++ [ev] }
  have hsend : pipelineStep enc capacity s (.sendEvent ev) = some sent :=
    if_pos ⟨h.isOpen, by simpa [h.queue] using hcapacity, by simp [h.phase]⟩
  have hidle : ({ sent with sessionQueue := [] } : Pipeline).Idle count :=
    ⟨h.phase, h.isOpen, rfl, h.count⟩
  have hwrite := hidle.write enc hev happend
  have hrecv : pipelineStep enc capacity sent (.recvEvent reply) =
      some (({ sent with sessionQueue := [] } : Pipeline).write enc (.event ev) reply |>.checkDisk
        reply) := by
    have hqueue : sent.sessionQueue = [ev] := by simp [sent, h.queue]
    simp only [pipelineStep]
    split
    · next ev' queue hlooping hhead =>
      rw [hqueue] at hhead
      cases hhead
      rw [if_pos ⟨hwrite.phase, hev⟩]
    · next hnone => exact (hnone ev [] h.phase hqueue).elim
  refine ⟨_, ?_, hwrite.checkDisk hcheck⟩
  rw [pipelineRun, List.foldlM_cons, hsend]
  exact (bind_pure _).trans hrecv

variable (enc) in
/-- Any number of records is written. -/
theorem Idle.many {count free : ℕ} (h : s.Idle count) (hcapacity : 0 < capacity) {ev : CaptureEvent}
    (hev : (Incoming.event ev).target.isSome) (happend : reply.append = .ok ())
    (hcheck : reply.check = .ok free) (n : ℕ) :
    ∃ s', pipelineRun enc capacity
        (List.replicate n [.sendEvent ev, .recvEvent reply]).flatten s = some s' ∧
      s'.Idle (count + n) := by
  induction n generalizing s count with
  | zero => exact ⟨s, rfl, h⟩
  | succ n ih =>
    obtain ⟨t, ht, hidle⟩ := h.next enc hcapacity hev happend hcheck
    obtain ⟨s', hrest, hs'⟩ := ih hidle
    refine ⟨s', ?_, by rwa [Nat.add_right_comm, Nat.add_assoc] at hs'⟩
    rw [List.replicate_succ, List.flatten_cons, pipelineRun, List.foldlM_append]
    exact Option.bind_eq_some_iff.2 ⟨t, ht, hrest⟩

end Pipeline

/-- Between any two points of a run that are `DISK_CHECK_EVERY` written records apart the guard was
asked and found enough free space. -/
theorem disk_checked {enc : Encoding} {capacity : ℕ} {before between : List PipelineAction}
    {s s' : Pipeline} {guard : DiskGuard}
    (hguard : ∀ a ∈ between, ∀ reply ∈ a.reply?, ∃ available, reply.check = guard.check available)
    (hbefore : pipelineRun enc capacity before .start = some s)
    (hbetween : pipelineRun enc capacity between s = some s') (hlooping : s'.phase = .looping)
    (hmany : s.persistedCount + DISK_CHECK_EVERY ≤ s'.persistedCount) :
    ∃ a ∈ between, ∃ reply ∈ a.reply?, ∃ free,
      reply.check = .ok free ∧ guard.minFreeBytes ≤ free := by
  have hlooped := Pipeline.looping_of_run hbetween hlooping
  have hdue := (Pipeline.run_counts (by decide) hbefore hlooped).1
  obtain ⟨hlt, ⟨a, ha, reply, free, hreply, hfree⟩ | hcount⟩ :=
    Pipeline.run_counts hdue hbetween hlooping
  · obtain ⟨available, hcheck⟩ := hguard a ha reply hreply
    exact ⟨a, ha, reply, hreply, free, hfree, DiskGuard.le_of_check (hcheck ▸ hfree)⟩
  · omega

theorem disk_checked_steady : ∃ between s',
    pipelineRun Encoding.sample 1024 between .start = some s' ∧
      ∃ a ∈ between, ∃ reply ∈ a.reply?, ∃ free,
        reply.check = .ok free ∧ 3 * 1024 ^ 3 ≤ free := by
  let reply : DiskReply := ⟨"2026-05-30", .ok (), .ok (4 * 1024 ^ 3)⟩
  have hstart : Pipeline.start.Idle 0 := ⟨rfl, rfl, rfl, rfl⟩
  have hevent : (Incoming.event (sampleEvent 1)).target.isSome := rfl
  have happend : reply.append = .ok () := rfl
  have hcheck : reply.check = .ok (4 * 1024 ^ 3) := rfl
  obtain ⟨s', hrun, hidle⟩ :=
    hstart.many Encoding.sample (by decide : 0 < 1024) hevent happend hcheck DISK_CHECK_EVERY
  have hguard : ∀ a ∈ (List.replicate DISK_CHECK_EVERY [.sendEvent (sampleEvent 1),
      PipelineAction.recvEvent reply]).flatten, ∀ r ∈ a.reply?,
        ∃ available, r.check = (DiskGuard.mk "data" (3 * 1024 ^ 3)).check available := by
    intro a ha r hr
    obtain ⟨pair, hpair, ha⟩ := List.mem_flatten.1 ha
    rw [List.eq_of_mem_replicate hpair] at ha
    rcases List.mem_pair.1 ha with rfl | rfl
    · cases hr
    · obtain rfl := Option.some.inj hr
      exact ⟨.ok (4 * 1024 ^ 3), by decide⟩
  have hbefore : pipelineRun Encoding.sample 1024 [] .start = some .start := rfl
  exact ⟨_, s', hrun, disk_checked hguard hbefore hrun hidle.phase (by rw [hidle.count]; decide)⟩

end Snapevent
