import Mathlib.Algebra.Order.Ring.Int
import Mathlib.Order.Lattice
import Snapevent.Cli.Supervisor
import Snapevent.Lib.Machine

/-!
# One unit of capture

A unit from its start to its archive (`run_capture_unit` in `supervisor.rs`).  The settlement
watcher polls the event of the unit and asks for the end of the capture when all its targets are
terminal, or when the time of the unit is up; a shutdown and the session itself end it too.  Times
are nanoseconds of a clock that is never set back.  What the unit leaves on the disk and starts is
kept in a log.
-/

namespace Snapevent

/-- The settings of a unit that its end depends on. -/
structure UnitCfg where
  graceSecs : ℕ
  pollSecs : ℕ
  maxSecs : ℕ
  archiveCmd : String
  checkpointCmd : String
  deriving DecidableEq, Repr

/-- A duration of whole seconds. -/
def fromSecs (secs : ℕ) : ℕ := secs * 10 ^ 9

/-- Why the watcher stops a capture. -/
inductive StopCause
  | settled
  | backstop
  deriving DecidableEq, Repr

/-- Where the settlement watcher is: a poll has been sent, it sleeps until the next one, it lets the
capture go on for a while after the settlement, or it has asked for the end. -/
inductive Watcher
  | polling (sentAt : ℕ)
  | resting (wakeAt : ℕ)
  | grace (wakeAt : ℕ)
  | stopped
  deriving DecidableEq, Repr

/-- What a unit leaves on the disk, and what it starts. -/
inductive Effect
  | remotePrefix (dir : String)
  | record
  | checkpoint (args : List String)
  | done
  | archive (args : List String)
  deriving DecidableEq, Repr

/-- Where the unit is. -/
inductive UnitStage
  | starting
  | capturing (watcher : Watcher)
  | captured
  | marked
  | finished
  deriving DecidableEq, Repr

/-- A unit with the clock, whether a shutdown was asked for, whether the session failed and whether
the checkpoint task has woken and not yet made its checkpoint.  As history stand when the capture
began, the answers to the polls and when they came, why and when the watcher stopped, and the log of
the effects. -/
structure UnitRun where
  now : ℕ
  phase : UnitStage
  shutdown : Bool
  failed : Bool
  checkpointing : Bool
  begun : ℕ
  polls : List (ℕ × Except String (List Market × Option String))
  stopped : Option (StopCause × ℕ)
  log : List Effect

/-- The arguments of the archive and of the checkpoint command. -/
def CaptureUnit.commandArgs (unit : CaptureUnit) : List String :=
  unit.session :: unit.remotePrefix.toList

def Effect.isCheckpoint : Effect → Bool
  | .checkpoint _ => true
  | _ => false

/-- The effects of a capture that goes on. -/
def Effect.OfCapture (unit : CaptureUnit) (cfg : UnitCfg) : Effect → Prop
  | .record => True
  | .checkpoint args => args = unit.commandArgs ∧ cfg.checkpointCmd ≠ ""
  | _ => False

namespace UnitRun

/-- When the time of the unit is up. -/
def deadline (cfg : UnitCfg) (s : UnitRun) : ℕ := s.begun + fromSecs cfg.maxSecs

/-- The head of the watcher's loop: the time is up, or the next poll is sent. -/
def loopHead (cfg : UnitCfg) (s : UnitRun) : UnitRun :=
  if s.deadline cfg ≤ s.now then
    { s with phase := .capturing .stopped, stopped := some (.backstop, s.now) }
  else { s with phase := .capturing (.polling s.now) }

theorem loopHead_of_lt {cfg : UnitCfg} {s : UnitRun} (h : s.now < s.deadline cfg) :
    s.loopHead cfg = { s with phase := .capturing (.polling s.now) } :=
  if_neg (not_le.2 h)

/-- The watcher after the answer to a poll. -/
def afterPoll (cfg : UnitCfg) (now : ℕ) : PollOutcome → Watcher
  | .settled => .grace (now + fromSecs cfg.graceSecs)
  | .notSettled | .failed => .resting (now + fromSecs cfg.pollSecs)

/-- The file that names the remote, if there is one to write and that succeeds. -/
def markRemote (unit : CaptureUnit) (written : Bool) : List Effect :=
  if written then (unit.remotePrefix.map Effect.remotePrefix).toList else []

/-- A command that is started, if there is one and that succeeds. -/
def spawn (cmd : String) (spawned : Bool) (effect : Effect) : List Effect :=
  if cmd ≠ "" ∧ spawned then [effect] else []

inductive Action
  | tick (t : ℕ)
  | start (written : Bool)
  | wake
  | answer (fetched : Except String (List Market × Option String))
  | record
  | wakeCheckpoint
  | checkpoint (spawned : Bool)
  | shutdown
  | stop
  | fail
  | mark (written : Bool)
  | archive (spawned : Bool)

/-- One step.  The end of the capture aborts the checkpoint task but does not wait for it: one that
has woken may still start its checkpoint. -/
inductive Step (unit : CaptureUnit) (cfg : UnitCfg) (s : UnitRun) : Action → UnitRun → Prop
  | tick (t : ℕ) (hle : s.now ≤ t) : Step unit cfg s (.tick t) { s with now := t }
  | start (written : Bool) (hphase : s.phase = .starting) :
    Step unit cfg s (.start written)
      (loopHead cfg { s with begun := s.now, log := s.log ++ markRemote unit written })
  | answer {sentAt} (fetched : Except String (List Market × Option String))
      (hphase : s.phase = .capturing (.polling sentAt)) :
    Step unit cfg s (.answer fetched) { s with
      phase := .capturing (afterPoll cfg s.now (pollOnce fetched unit.tickers))
      polls := s.polls ++ [(s.now, fetched)] }
  | wakeResting {wakeAt} (hphase : s.phase = .capturing (.resting wakeAt))
      (hwake : wakeAt ≤ s.now) :
    Step unit cfg s .wake (loopHead cfg s)
  | wakeGrace {wakeAt} (hphase : s.phase = .capturing (.grace wakeAt)) (hwake : wakeAt ≤ s.now) :
    Step unit cfg s .wake
      { s with phase := .capturing .stopped, stopped := some (.settled, s.now) }
  | record {watcher} (hphase : s.phase = .capturing watcher) :
    Step unit cfg s .record { s with log := s.log ++ [.record] }
  | wakeCheckpoint {watcher} (hphase : s.phase = .capturing watcher)
      (hcmd : cfg.checkpointCmd ≠ "") :
    Step unit cfg s .wakeCheckpoint { s with checkpointing := true }
  | checkpoint (spawned : Bool) (hwoken : s.checkpointing = true) :
    Step unit cfg s (.checkpoint spawned) { s with
      checkpointing := false
      log := s.log ++ spawn cfg.checkpointCmd spawned (.checkpoint unit.commandArgs) }
  | shutdown : Step unit cfg s .shutdown { s with shutdown := true }
  | stop {watcher} (hphase : s.phase = .capturing watcher)
      (hstop : s.shutdown = true ∨ watcher = .stopped) :
    Step unit cfg s .stop { s with phase := .captured }
  | fail {watcher} (hphase : s.phase = .capturing watcher) :
    Step unit cfg s .fail { s with phase := .captured, failed := true }
  | mark (written : Bool) (hphase : s.phase = .captured) :
    Step unit cfg s (.mark written) { s with
      phase := .marked, log := s.log ++ if written then [.done] else [] }
  | archive (spawned : Bool) (hphase : s.phase = .marked) :
    Step unit cfg s (.archive spawned) { s with
      phase := .finished
      log := s.log ++ spawn cfg.archiveCmd spawned (.archive unit.commandArgs) }

/-- A unit that starts when the clock reads `startedAt`. -/
def machine (unit : CaptureUnit) (cfg : UnitCfg) (startedAt : ℕ) : Machine UnitRun Action :=
  ⟨⟨startedAt, .starting, false, false, false, startedAt, [], none, []⟩, Step unit cfg⟩

variable {unit : CaptureUnit} {cfg : UnitCfg} {startedAt : ℕ} {s s' : UnitRun} {a : Action}
  {allowed : UnitRun → Action → Prop}

/-! ## What one poll says -/

/-- The answer shows the whole event, and every target of the unit is terminal. -/
def Settles (tickers : List String) (fetched : Except String (List Market × Option String)) :
    Prop :=
  ∃ markets, fetched = .ok (markets, none) ∧ markets ≠ [] ∧ allSettled tickers markets

theorem pollOnce_eq_settled {fetched : Except String (List Market × Option String)}
    {tickers : List String} : pollOnce fetched tickers = .settled ↔ Settles tickers fetched := by
  rcases fetched with e | ⟨markets, _ | cursor⟩
  · simp [pollOnce, Settles]
  · by_cases hempty : markets = [] <;> by_cases hsettled : allSettled tickers markets <;>
      simp [pollOnce, Settles, hempty, hsettled]
  · simp [pollOnce, Settles]

/-! ## Why a capture ends -/

/-- What the watcher knows when it stops: the last poll, and no other, settled the unit and the
grace is over, or the time is up and no poll has settled it. -/
def Justified (unit : CaptureUnit) (cfg : UnitCfg) (s : UnitRun) : StopCause → ℕ → Prop
  | .settled, t => ∃ before answeredAt fetched, s.polls = before ++ [(answeredAt, fetched)] ∧
      Settles unit.tickers fetched ∧ (∀ p ∈ before, ¬ Settles unit.tickers p.2) ∧
      answeredAt + fromSecs cfg.graceSecs ≤ t
  | .backstop, t => s.deadline cfg ≤ t ∧ ∀ p ∈ s.polls, ¬ Settles unit.tickers p.2

/-- What is known of the polls and of the end, by where the unit is. -/
def KnownAt (unit : CaptureUnit) (cfg : UnitCfg) (s : UnitRun) : UnitStage → Prop
  | .starting | .capturing (.polling _) | .capturing (.resting _) =>
    s.stopped = none ∧ ∀ p ∈ s.polls, ¬ Settles unit.tickers p.2
  | .capturing (.grace wakeAt) => s.stopped = none ∧ Justified unit cfg s .settled wakeAt
  | .capturing .stopped => s.stopped ≠ none
  | .captured | .marked | .finished => s.shutdown = true ∨ s.failed = true ∨ s.stopped ≠ none

variable (unit) (cfg) (s) in
/-- The watcher stopped with good reason, and the capture ended for one. -/
structure Watched : Prop where
  justified : ∀ cause t, s.stopped = some (cause, t) → Justified unit cfg s cause t
  known : KnownAt unit cfg s s.phase

namespace Watched

/-- A step that leaves the polls and the watcher's end alone. -/
theorem go (h : Watched unit cfg s) (hbegun : s'.begun = s.begun) (hpolls : s'.polls = s.polls)
    (hstopped : s'.stopped = s.stopped) (hknown : KnownAt unit cfg s' s'.phase) :
    Watched unit cfg s' where
  justified cause t hstop := by
    have hjustified := h.justified cause t (hstopped ▸ hstop)
    cases cause with
    | settled =>
      rw [Justified, hpolls]
      exact hjustified
    | backstop =>
      rw [Justified, deadline, hbegun, hpolls]
      exact hjustified
  known := hknown

theorem loopHead (hstopped : s.stopped = none)
    (hpolls : ∀ p ∈ s.polls, ¬ Settles unit.tickers p.2) :
    Watched unit cfg (s.loopHead cfg) := by
  rw [UnitRun.loopHead]
  split_ifs with hup
  · refine ⟨?_, nofun⟩
    rintro _ _ ⟨⟩
    exact ⟨hup, hpolls⟩
  · exact ⟨fun cause t hstop => absurd (hstopped.symm.trans hstop) nofun, hstopped, hpolls⟩

theorem step (h : Watched unit cfg s) (hs : Step unit cfg s a s') : Watched unit cfg s' := by
  have hknown := h.known
  cases hs with
  | tick t hle => exact h.go rfl rfl rfl hknown
  | start written hphase =>
    rw [hphase] at hknown
    exact loopHead hknown.1 hknown.2
  | answer fetched hphase =>
    rw [hphase] at hknown
    obtain ⟨hstopped, hpolls⟩ := hknown
    refine ⟨fun cause t hstop => absurd (hstopped.symm.trans hstop) nofun, ?_⟩
    by_cases hsettles : Settles unit.tickers fetched
    · rw [pollOnce_eq_settled.2 hsettles]
      exact ⟨hstopped, s.polls, s.now, fetched, rfl, hsettles, hpolls, le_rfl⟩
    · have hafter : ∃ wakeAt, afterPoll cfg s.now (pollOnce fetched unit.tickers) =
          .resting wakeAt := by
        cases houtcome : pollOnce fetched unit.tickers with
        | settled => exact absurd (pollOnce_eq_settled.1 houtcome) hsettles
        | notSettled | failed => exact ⟨_, rfl⟩
      obtain ⟨wakeAt, hafter⟩ := hafter
      rw [hafter]
      refine ⟨hstopped, fun p hp => ?_⟩
      rcases List.mem_append.1 hp with hp | hp
      · exact hpolls p hp
      · rw [List.mem_singleton.1 hp]
        exact hsettles
  | wakeResting hphase hwake =>
    rw [hphase] at hknown
    exact loopHead hknown.1 hknown.2
  | wakeGrace hphase hwake =>
    rw [hphase] at hknown
    refine ⟨?_, nofun⟩
    rintro _ _ ⟨⟩
    obtain ⟨before, answeredAt, fetched, hpolls, hsettles, hbefore, hle⟩ := hknown.2
    exact ⟨before, answeredAt, fetched, hpolls, hsettles, hbefore, hle.trans hwake⟩
  | record hphase | wakeCheckpoint hphase | checkpoint spawned => exact h.go rfl rfl rfl hknown
  | shutdown =>
    refine h.go rfl rfl rfl ?_
    cases hphase : s.phase with
    | starting =>
      rw [hphase] at hknown
      exact hknown
    | capturing watcher =>
      rw [hphase] at hknown
      cases watcher <;> exact hknown
    | captured | marked | finished => exact Or.inl rfl
  | stop hphase hstop =>
    rw [hphase] at hknown
    refine h.go rfl rfl rfl ?_
    rcases hstop with hdown | rfl
    · exact Or.inl hdown
    · exact Or.inr (Or.inr hknown)
  | fail hphase => exact h.go rfl rfl rfl (Or.inr (Or.inl rfl))
  | mark written hphase | archive spawned hphase =>
    rw [hphase] at hknown
    exact h.go rfl rfl rfl hknown

end Watched

theorem watched (h : (machine unit cfg startedAt).Reachable allowed s) : Watched unit cfg s := by
  have hwatched : Machine.Invariant (machine unit cfg startedAt) allowed (Watched unit cfg) :=
    { init := ⟨nofun, rfl, nofun⟩
      step := fun _ hP _ hs => hP.step hs }
  exact hwatched.holds h

/-! ## A capture ends in time -/

/-- How long the venue takes for an answer, how late the watcher goes on at most, and how long a
capture takes to end once it is asked to. -/
structure Prompt where
  request : ℕ
  slack : ℕ
  drain : ℕ

/-- When the watcher has gone on at the latest, or, once it has stopped, the capture has ended. -/
def due (prompt : Prompt) (s : UnitRun) : Watcher → Option ℕ
  | .polling sentAt => some (sentAt + prompt.request + prompt.slack)
  | .resting wakeAt | .grace wakeAt => some (wakeAt + prompt.slack)
  | .stopped => s.stopped.map (·.2 + prompt.drain)

/-- The clock does not go past what is due. -/
def OnTime (prompt : Prompt) (s : UnitRun) : Action → Prop
  | .tick t => ∀ watcher, s.phase = .capturing watcher → ∀ d ∈ due prompt s watcher, t ≤ d
  | _ => True

/-- When the watcher has stopped at the latest: the last request and the last sleep each end with a
slack. -/
def lastStop (cfg : UnitCfg) (prompt : Prompt) (s : UnitRun) : ℕ :=
  s.deadline cfg + prompt.request + prompt.slack +
    max (fromSecs cfg.graceSecs) (fromSecs cfg.pollSecs) + prompt.slack

/-- How late it is, by where the unit is. -/
def InTimeAt (cfg : UnitCfg) (prompt : Prompt) (s : UnitRun) : UnitStage → Prop
  | .capturing (.polling sentAt) =>
    sentAt < s.deadline cfg ∧ s.now ≤ sentAt + prompt.request + prompt.slack
  | .capturing (.resting wakeAt) | .capturing (.grace wakeAt) =>
    wakeAt + prompt.slack ≤ lastStop cfg prompt s ∧ s.now ≤ wakeAt + prompt.slack
  | .capturing .stopped => ∃ cause t, s.stopped = some (cause, t) ∧ s.now ≤ t + prompt.drain
  | _ => True

variable (cfg) in
/-- The watcher is on time, and so was its end. -/
structure InTime (prompt : Prompt) (s : UnitRun) : Prop where
  stopped : ∀ cause t, s.stopped = some (cause, t) → t ≤ lastStop cfg prompt s
  phase : InTimeAt cfg prompt s s.phase

namespace InTime

variable {prompt : Prompt}

theorem loopHead (hstopped : ∀ cause t, s.stopped = some (cause, t) → t ≤ lastStop cfg prompt s)
    (hnow : s.now ≤ lastStop cfg prompt s) : InTime cfg prompt (s.loopHead cfg) := by
  rw [UnitRun.loopHead]
  split_ifs with hup
  · refine ⟨?_, _, _, rfl, Nat.le_add_right _ _⟩
    rintro _ _ ⟨⟩
    exact hnow
  · refine ⟨hstopped, not_le.1 hup, ?_⟩
    show s.now ≤ s.now + prompt.request + prompt.slack
    omega

theorem afterPoll (outcome : PollOutcome) {sentAt : ℕ}
    (h : InTimeAt cfg prompt s (.capturing (.polling sentAt))) :
    InTimeAt cfg prompt s (.capturing (UnitRun.afterPoll cfg s.now outcome)) := by
  obtain ⟨hsent, hnow⟩ := h
  have hgrace := le_max_left (fromSecs cfg.graceSecs) (fromSecs cfg.pollSecs)
  have hpoll := le_max_right (fromSecs cfg.graceSecs) (fromSecs cfg.pollSecs)
  cases outcome with
  | settled =>
    show s.now + _ + _ ≤ lastStop cfg prompt s ∧ s.now ≤ s.now + _ + _
    rw [lastStop]
    omega
  | notSettled | failed =>
    show s.now + _ + _ ≤ lastStop cfg prompt s ∧ s.now ≤ s.now + _ + _
    rw [lastStop]
    omega

theorem tick {t : ℕ} (h : InTimeAt cfg prompt s s.phase) (honTime : OnTime prompt s (.tick t)) :
    InTimeAt cfg prompt { s with now := t } s.phase := by
  cases hphase : s.phase with
  | capturing watcher =>
    rw [hphase] at h
    cases watcher with
    | polling sentAt => exact ⟨h.1, honTime _ hphase _ rfl⟩
    | resting wakeAt | grace wakeAt => exact ⟨h.1, honTime _ hphase _ rfl⟩
    | stopped =>
      obtain ⟨cause, stoppedAt, hstopped, -⟩ := h
      have hdue := honTime _ hphase (stoppedAt + prompt.drain)
      exact ⟨cause, stoppedAt, hstopped, hdue (by rw [due, hstopped]; rfl)⟩
  | starting | captured | marked | finished => trivial

theorem step (h : InTime cfg prompt s) (hwatched : Watched unit cfg s) (honTime : OnTime prompt s a)
    (hs : Step unit cfg s a s') : InTime cfg prompt s' := by
  have hphases := h.phase
  cases hs with
  | tick t hle => exact ⟨h.stopped, tick hphases honTime⟩
  | start written hphase =>
    have hknown := hwatched.known
    rw [hphase] at hknown
    refine loopHead (fun cause t hstop => absurd (hknown.1.symm.trans hstop) nofun) ?_
    show s.now ≤ s.now + fromSecs cfg.maxSecs + prompt.request + prompt.slack + _ + prompt.slack
    omega
  | answer fetched hphase =>
    rw [hphase] at hphases
    exact ⟨h.stopped, afterPoll _ hphases⟩
  | wakeResting hphase hwake =>
    rw [hphase] at hphases
    exact loopHead h.stopped (hphases.2.trans hphases.1)
  | wakeGrace hphase hwake =>
    rw [hphase] at hphases
    refine ⟨?_, _, _, rfl, Nat.le_add_right _ _⟩
    rintro _ _ ⟨⟩
    exact hphases.2.trans hphases.1
  | record hphase | wakeCheckpoint hphase | checkpoint spawned | shutdown =>
    exact ⟨h.stopped, hphases⟩
  | stop hphase hstop | fail hphase | mark written hphase | archive spawned hphase =>
    exact ⟨h.stopped, trivial⟩

end InTime

/-! ## The order of the effects -/

/-- The effects of the end of a unit, in their order, as far as the unit has come. -/
def endEffects (unit : CaptureUnit) (cfg : UnitCfg) : UnitStage → List Effect
  | .starting | .capturing _ | .captured => []
  | .marked => [.done]
  | .finished => .done :: spawn cfg.archiveCmd true (.archive unit.commandArgs)

variable (unit) (cfg) (s) in
/-- The remote is named first, the capture has its effects, and those of the end come last, each at
most once, with at most one checkpoint that was under way. -/
structure InOrder (first during last : List Effect) : Prop where
  log : s.log = first ++ during ++ last
  remote : first.Sublist (markRemote unit true)
  capture : ∀ e ∈ during, e.OfCapture unit cfg
  ending : (last.filter (!·.isCheckpoint)).Sublist (endEffects unit cfg s.phase)
  late : (last.filter (·.isCheckpoint)).Sublist
    (spawn cfg.checkpointCmd (!s.checkpointing) (.checkpoint unit.commandArgs))
  capturing : ∀ watcher, s.phase = .capturing watcher → last = []
  starting : s.phase = .starting → s.log = [] ∧ s.checkpointing = false

theorem spawn_sublist (cmd : String) (spawned : Bool) (effect : Effect) :
    (spawn cmd spawned effect).Sublist (spawn cmd true effect) := by
  cases spawned with
  | false => simp [spawn]
  | true => exact List.Sublist.refl _

theorem markRemote_sublist (unit : CaptureUnit) (written : Bool) :
    (markRemote unit written).Sublist (markRemote unit true) := by
  cases written with
  | false => exact List.nil_sublist _
  | true => exact List.Sublist.refl _

theorem done_sublist (written : Bool) :
    (if written then [Effect.done] else []).Sublist [.done] := by
  cases written with
  | false => exact List.nil_sublist _
  | true => exact List.Sublist.refl _

theorem phase_loopHead (cfg : UnitCfg) (s : UnitRun) :
    ∃ watcher, (s.loopHead cfg).phase = .capturing watcher := by
  rw [loopHead]
  split_ifs <;> exact ⟨_, rfl⟩

theorem log_loopHead (cfg : UnitCfg) (s : UnitRun) : (s.loopHead cfg).log = s.log := by
  rw [loopHead]
  split_ifs <;> rfl

theorem checkpointing_loopHead (cfg : UnitCfg) (s : UnitRun) :
    (s.loopHead cfg).checkpointing = s.checkpointing := by
  rw [loopHead]
  split_ifs <;> rfl

theorem mem_spawn {cmd : String} {spawned : Bool} {effect e : Effect}
    (h : e ∈ spawn cmd spawned effect) :
    e = effect ∧ cmd ≠ "" := by
  rw [spawn] at h
  split_ifs at h with hcmd
  · exact ⟨List.mem_singleton.1 h, hcmd.1⟩
  · cases h

theorem filter_mark (written : Bool) :
    (if written then [Effect.done] else []).filter (!·.isCheckpoint) =
        (if written then [Effect.done] else []) ∧
      (if written then [Effect.done] else []).filter (·.isCheckpoint) = [] := by
  cases written <;> exact ⟨rfl, rfl⟩

theorem filter_spawn_archive (cmd : String) (spawned : Bool) (args : List String) :
    (spawn cmd spawned (.archive args)).filter (!·.isCheckpoint) =
        spawn cmd spawned (.archive args) ∧
      (spawn cmd spawned (.archive args)).filter (·.isCheckpoint) = [] := by
  rw [spawn]
  split_ifs <;> exact ⟨rfl, rfl⟩

theorem filter_spawn_checkpoint (cmd : String) (spawned : Bool) (args : List String) :
    (spawn cmd spawned (.checkpoint args)).filter (!·.isCheckpoint) = [] ∧
      (spawn cmd spawned (.checkpoint args)).filter (·.isCheckpoint) =
        spawn cmd spawned (.checkpoint args) := by
  rw [spawn]
  split_ifs <;> exact ⟨rfl, rfl⟩

theorem spawn_false (cmd : String) (effect : Effect) : spawn cmd false effect = [] :=
  if_neg fun h => nomatch h.2

namespace InOrder

variable {first during last : List Effect}

/-- A step without effects that is not a step back. -/
theorem go (h : InOrder unit cfg s first during last) (hlog : s'.log = s.log)
    (hcheckpointing : s'.checkpointing = s.checkpointing)
    (hlast : (endEffects unit cfg s.phase).Sublist (endEffects unit cfg s'.phase))
    (hcapturing : ∀ watcher, s'.phase = .capturing watcher → last = [])
    (hstarting : s'.phase = .starting → s.phase = .starting) :
    InOrder unit cfg s' first during last where
  log := hlog.trans h.log
  remote := h.remote
  capture := h.capture
  ending := h.ending.trans hlast
  late := hcheckpointing ▸ h.late
  capturing := hcapturing
  starting hphase := by
    rw [hlog, hcheckpointing]
    exact h.starting (hstarting hphase)

/-- The capture goes on with some of its effects. -/
theorem more (h : InOrder unit cfg s first during last) {watcher : Watcher} {effects : List Effect}
    (hphase : s.phase = .capturing watcher) (hphase' : s'.phase = .capturing watcher)
    (hlog : s'.log = s.log ++ effects) (heffects : ∀ e ∈ effects, e.OfCapture unit cfg) :
    InOrder unit cfg s' first (during ++ effects) [] where
  log := by
    obtain rfl := h.capturing _ hphase
    rw [hlog, h.log, List.append_nil, List.append_nil, List.append_assoc]
  remote := h.remote
  capture := List.forall_mem_append.2 ⟨h.capture, heffects⟩
  ending := List.nil_sublist _
  late := List.nil_sublist _
  capturing := fun _ _ => rfl
  starting hstart := absurd (hphase'.symm.trans hstart) nofun

/-- The end of the unit has one more effect, if that. -/
theorem finish (h : InOrder unit cfg s first during last) {effects ends : List Effect}
    (hlog : s'.log = s.log ++ effects) (hcheckpointing : s'.checkpointing = s.checkpointing)
    (hfilter : effects.filter (!·.isCheckpoint) = effects ∧ effects.filter (·.isCheckpoint) = [])
    (heffects : effects.Sublist ends)
    (hends : endEffects unit cfg s'.phase = endEffects unit cfg s.phase ++ ends)
    (hcapturing : ∀ watcher, s'.phase ≠ .capturing watcher) (hstarting : s'.phase ≠ .starting) :
    InOrder unit cfg s' first during (last ++ effects) where
  log := by rw [hlog, h.log, List.append_assoc]
  remote := h.remote
  capture := h.capture
  ending := by
    rw [hends, List.filter_append, hfilter.1]
    exact h.ending.append heffects
  late := by
    rw [List.filter_append, hfilter.2, List.append_nil, hcheckpointing]
    exact h.late
  capturing watcher hphase := absurd hphase (hcapturing watcher)
  starting hphase := absurd hphase hstarting

/-- The checkpoint that was under way at the end of the capture is started. -/
theorem straggle (h : InOrder unit cfg s first during last) (spawned : Bool)
    (hwoken : s.checkpointing = true) (hphase : s'.phase = s.phase)
    (hlog : s'.log = s.log ++ spawn cfg.checkpointCmd spawned (.checkpoint unit.commandArgs))
    (hcheckpointing : s'.checkpointing = false)
    (hcapturing : ∀ watcher, s.phase ≠ .capturing watcher) (hstarting : s.phase ≠ .starting) :
    InOrder unit cfg s' first during
      (last ++ spawn cfg.checkpointCmd spawned (.checkpoint unit.commandArgs)) where
  log := by rw [hlog, h.log, List.append_assoc]
  remote := h.remote
  capture := h.capture
  ending := by
    rw [List.filter_append, (filter_spawn_checkpoint _ spawned _).1, List.append_nil, hphase]
    exact h.ending
  late := by
    have hnone := h.late
    rw [hwoken, Bool.not_true, spawn_false, List.sublist_nil] at hnone
    rw [List.filter_append, hnone, List.nil_append, (filter_spawn_checkpoint _ spawned _).2,
      hcheckpointing]
    exact spawn_sublist _ spawned _
  capturing watcher hphase' := absurd (hphase.symm.trans hphase') (hcapturing watcher)
  starting hphase' := absurd (hphase.symm.trans hphase') hstarting

theorem step (h : InOrder unit cfg s first during last) (hs : Step unit cfg s a s') :
    ∃ first during last, InOrder unit cfg s' first during last := by
  cases hs with
  | tick t hle | shutdown =>
    exact ⟨_, _, _, h.go rfl rfl (List.Sublist.refl _) h.capturing id⟩
  | start written hphase =>
    obtain ⟨hempty, -⟩ := h.starting hphase
    obtain ⟨watcher, hcapturing⟩ := phase_loopHead cfg
      { s with begun := s.now, log := s.log ++ markRemote unit written }
    refine ⟨markRemote unit written, [], [], ?_, markRemote_sublist unit written, nofun,
      List.nil_sublist _, List.nil_sublist _, fun _ _ => rfl,
      fun hstart => absurd (hcapturing.symm.trans hstart) nofun⟩
    rw [log_loopHead, hempty]
    simp
  | answer fetched hphase =>
    exact ⟨_, _, _, h.go rfl rfl (by rw [hphase]; exact List.Sublist.refl _)
      (fun _ _ => h.capturing _ hphase) nofun⟩
  | wakeResting hphase hwake =>
    obtain ⟨watcher, hcapturing⟩ := phase_loopHead cfg s
    exact ⟨_, _, _, h.go (log_loopHead cfg s) (checkpointing_loopHead cfg s)
      (by rw [hphase, hcapturing]; exact List.Sublist.refl _) (fun _ _ => h.capturing _ hphase)
      (by rw [hcapturing]; nofun)⟩
  | wakeGrace hphase hwake =>
    exact ⟨_, _, _, h.go rfl rfl (by rw [hphase]; exact List.Sublist.refl _)
      (fun _ _ => h.capturing _ hphase) nofun⟩
  | record hphase =>
    exact ⟨_, _, _, h.more hphase hphase rfl (by simp [Effect.OfCapture])⟩
  | wakeCheckpoint hphase hcmd =>
    exact ⟨_, _, _, h.more hphase hphase (List.append_nil _).symm nofun⟩
  | checkpoint spawned hwoken =>
    cases hphase : s.phase with
    | starting =>
      rw [(h.starting hphase).2] at hwoken
      cases hwoken
    | capturing watcher =>
      refine ⟨_, _, _, h.more hphase rfl rfl fun e he => ?_⟩
      obtain ⟨rfl, hcmd⟩ := mem_spawn he
      exact ⟨rfl, hcmd⟩
    | captured | marked | finished =>
      exact ⟨_, _, _, h.straggle spawned hwoken hphase.symm rfl rfl (by rw [hphase]; nofun)
        (by rw [hphase]; nofun)⟩
  | stop hphase hstop | fail hphase =>
    exact ⟨_, _, _, h.go rfl rfl (by rw [hphase]; exact List.Sublist.refl _) nofun nofun⟩
  | mark written hphase =>
    exact ⟨_, _, _, h.finish rfl rfl (filter_mark written) (done_sublist written)
      (by rw [hphase]; rfl) nofun nofun⟩
  | archive spawned hphase =>
    exact ⟨_, _, _, h.finish rfl rfl (filter_spawn_archive _ spawned _) (spawn_sublist _ spawned _)
      (by rw [hphase]; rfl) nofun nofun⟩

end InOrder

/-! ## Every run -/

/-- A unit of one market that is archived under its own remote, with the settings of the hours. -/
def sampleUnit : CaptureUnit := ⟨"KXBTCD-26JUN0814", ["K-1"], "KXBTCD-26JUN0814", some "drive:btc"⟩

def sampleUnitCfg : UnitCfg :=
  ⟨180, 30, 7200, "/opt/kdp/bin/kdp-archive.sh", "/opt/kdp/bin/kdp-checkpoint.sh"⟩

/-- The answer to a poll that lists the one market. -/
def listed (status : String) : Except String (List Market × Option String) :=
  .ok ([⟨"K-1", some status, some "KXBTCD-26JUN0814", none, none, none⟩], none)

/-- Answers in ten seconds, sleeps that end up to a second late, and a minute for the end. -/
def samplePrompt : Prompt := ⟨10 * 10 ^ 9, 10 ^ 9, 60 * 10 ^ 9⟩

/-- The second poll settles the unit, and the watcher stops after the grace; five seconds later the
checkpoint task wakes. -/
theorem reachable_stopped : (machine sampleUnit sampleUnitCfg 0).Reachable (OnTime samplePrompt)
    ⟨215 * 10 ^ 9, .capturing .stopped, false, false, true, 0,
      [(0, listed "active"), (30 * 10 ^ 9, listed "finalized")], some (.settled, 210 * 10 ^ 9),
      [.remotePrefix "drive:btc", .record]⟩ := by
  let capturing (now : ℕ) (watcher : Watcher) (polls) (stopped) :=
    (machine sampleUnit sampleUnitCfg 0).Reachable (OnTime samplePrompt)
      ⟨now, .capturing watcher, false, false, false, 0, polls, stopped,
        [.remotePrefix "drive:btc", .record]⟩
  have h : (machine sampleUnit sampleUnitCfg 0).Reachable (OnTime samplePrompt) _ := .init
  have h := h.step (Step.start true rfl) trivial
  have h : capturing 0 (.polling 0) [] none := h.step (Step.record rfl) trivial
  have h : capturing 0 (.resting (30 * 10 ^ 9)) [(0, listed "active")] none :=
    h.step (Step.answer (listed "active") rfl) trivial
  have h : capturing (30 * 10 ^ 9) (.resting (30 * 10 ^ 9)) [(0, listed "active")] none :=
    h.step (Step.tick _ (Nat.zero_le _)) (by rintro _ ⟨⟩ _ ⟨⟩; decide)
  have h := h.step (Step.wakeResting rfl le_rfl) trivial
  rw [loopHead_of_lt (by decide)] at h
  have h : capturing (30 * 10 ^ 9) (.polling (30 * 10 ^ 9)) [(0, listed "active")] none := h
  let polls := [(0, listed "active"), (30 * 10 ^ 9, listed "finalized")]
  have h : capturing (30 * 10 ^ 9) (.grace (210 * 10 ^ 9)) polls none :=
    h.step (Step.answer (listed "finalized") rfl) trivial
  have h : capturing (210 * 10 ^ 9) (.grace (210 * 10 ^ 9)) polls none :=
    h.step (Step.tick _ (by decide)) (by rintro _ ⟨⟩ _ ⟨⟩; decide)
  have h : capturing (210 * 10 ^ 9) .stopped polls (some (.settled, 210 * 10 ^ 9)) :=
    h.step (Step.wakeGrace rfl le_rfl) trivial
  have h : capturing (215 * 10 ^ 9) .stopped polls (some (.settled, 210 * 10 ^ 9)) :=
    h.step (Step.tick _ (by decide)) (by rintro _ ⟨⟩ _ ⟨⟩; decide)
  exact h.step (Step.wakeCheckpoint rfl (by decide)) trivial

/-- The capture ends, is marked and archived, and the checkpoint comes last of all. -/
theorem exists_settled : ∃ s : UnitRun,
    (machine sampleUnit sampleUnitCfg 0).Reachable (OnTime samplePrompt) s ∧ s.phase = .finished ∧
      s.stopped = some (.settled, 210 * 10 ^ 9) ∧
      s.log = [.remotePrefix "drive:btc", .record, .done,
        .archive ["KXBTCD-26JUN0814", "drive:btc"],
        .checkpoint ["KXBTCD-26JUN0814", "drive:btc"]] := by
  have h := reachable_stopped.step (Step.stop rfl (Or.inr rfl)) trivial
  have h := h.step (Step.mark true rfl) trivial
  have h := h.step (Step.archive true rfl) trivial
  exact ⟨_, h.step (Step.checkpoint true rfl) trivial, rfl, rfl, rfl⟩

/-- The watcher has stopped only for a good reason, and a capture that has ended was ended by a
shutdown, by its session, or by the watcher. -/
theorem ended_for_cause (h : (machine unit cfg startedAt).Reachable allowed s) :
    (∀ cause t, s.stopped = some (cause, t) → Justified unit cfg s cause t) ∧
      (s.phase = .captured ∨ s.phase = .marked ∨ s.phase = .finished →
        s.shutdown = true ∨ s.failed = true ∨ s.stopped ≠ none) := by
  have hwatched := watched h
  refine ⟨hwatched.justified, fun hended => ?_⟩
  have hknown := hwatched.known
  rcases hended with hphase | hphase | hphase <;> rwa [hphase] at hknown

theorem ended_for_cause_settled : ∃ s : UnitRun, s.phase = .finished ∧
    s.stopped = some (.settled, 210 * 10 ^ 9) ∧
    Justified sampleUnit sampleUnitCfg s .settled (210 * 10 ^ 9) ∧
    (s.phase = .captured ∨ s.phase = .marked ∨ s.phase = .finished →
      s.shutdown = true ∨ s.failed = true ∨ s.stopped ≠ none) := by
  obtain ⟨s, h, hphase, hstopped, -⟩ := exists_settled
  obtain ⟨hjustified, hended⟩ := ended_for_cause h
  exact ⟨s, hphase, hstopped, hjustified _ _ hstopped, hended⟩

/-- While answers, sleeps and the end of the capture are on time, the watcher stops no later than
the time of the unit with one more request and one more sleep, and the capture goes on no longer
than it takes to end after that. -/
theorem stops_in_time {prompt : Prompt}
    (h : (machine unit cfg startedAt).Reachable (OnTime prompt) s) :
    (∀ cause t, s.stopped = some (cause, t) → t ≤ lastStop cfg prompt s) ∧
      ∀ watcher, s.phase = .capturing watcher → s.now ≤ lastStop cfg prompt s + prompt.drain := by
  have hinTime : Machine.Invariant (machine unit cfg startedAt) (OnTime prompt)
      (InTime cfg prompt) :=
    { init := ⟨nofun, trivial⟩
      step := fun hr hP ha hs => hP.step (watched hr) ha hs }
  obtain ⟨hstopped, hphases⟩ := hinTime.holds h
  refine ⟨hstopped, fun watcher hphase => ?_⟩
  rw [hphase] at hphases
  cases watcher with
  | polling sentAt =>
    obtain ⟨hsent, hnow⟩ := hphases
    rw [lastStop]
    omega
  | resting wakeAt | grace wakeAt =>
    exact (hphases.2.trans hphases.1).trans (Nat.le_add_right _ _)
  | stopped =>
    obtain ⟨cause, t, hstop, hnow⟩ := hphases
    exact hnow.trans (Nat.add_le_add_right (hstopped cause t hstop) _)

theorem stops_in_time_settled : ∃ s : UnitRun, s.phase = .capturing .stopped ∧
    s.now = 215 * 10 ^ 9 ∧ 210 * 10 ^ 9 ≤ lastStop sampleUnitCfg samplePrompt s ∧
    s.now ≤ lastStop sampleUnitCfg samplePrompt s + samplePrompt.drain := by
  obtain ⟨hstop, hcapture⟩ := stops_in_time reachable_stopped
  exact ⟨_, rfl, rfl, hstop _ _ rfl, hcapture _ rfl⟩

/-- The effects of a unit come in their order: the remote is named before anything else, then come
the records and checkpoints of the capture, and after `.done` nothing but the archive and at most
one checkpoint that was under way. -/
theorem effects_in_order (h : (machine unit cfg startedAt).Reachable allowed s) :
    ∃ first during last, InOrder unit cfg s first during last := by
  have hinv : Machine.Invariant (machine unit cfg startedAt) allowed
      (fun s => ∃ first during last, InOrder unit cfg s first during last) :=
    { init := ⟨[], [], [], rfl, List.nil_sublist _, nofun, List.nil_sublist _, List.nil_sublist _,
        fun _ _ => rfl, fun _ => ⟨rfl, rfl⟩⟩
      step := fun _ ⟨_, _, _, hP⟩ _ hs => hP.step hs }
  exact hinv.holds h

theorem effects_in_order_settled : ∃ s : UnitRun, s.log.length = 5 ∧ ∃ first during last,
    InOrder sampleUnit sampleUnitCfg s first during last := by
  obtain ⟨s, h, -, -, hlog⟩ := exists_settled
  exact ⟨s, by rw [hlog]; rfl, effects_in_order h⟩

end UnitRun

end Snapevent
