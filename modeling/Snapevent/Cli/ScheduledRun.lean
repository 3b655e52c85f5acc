import Snapevent.Cli.Schedule
import Snapevent.Lib.Machine
import Snapevent.Lib.Serial

/-!
# The scheduled supervisor

The loop that arms one capture for each entry of a schedule (`run_scheduled` in `scheduled.rs`),
over any number of processes: each reads the schedule as it is then, and ends at a shutdown or at
any point.  Entries are resolved one after the other, so an entry whose event is not listed holds up
those behind it until its grace is over.  Times are nanoseconds; the clock may be set, so each sleep
and each answer comes with what the clock says after it.  What the spawned captures do is not part
of it; a marker that is left in the directory of a session, and one that the nightly sweep removes,
is an action.
-/

namespace Snapevent

/-- The settings: the defaults of the entries, and how long and how often the listing is polled for
one. -/
structure ScheduledCfg extends SchedCfg where
  resolveGrace : ℤ
  pollSecs : ℤ

/-- What is done when the marker of a session was looked for: a capture is spawned if there was none.
-/
inductive SessionLook
  | armed (unit : CaptureUnit) (maxSecs : UInt64)
  | refused (session : String)
  deriving DecidableEq, Repr

/-- What happens to the sessions: a marker is looked for, left in a directory, or removed. -/
inductive SessionEvent (δ : Type)
  | look (look : SessionLook)
  | archived (dir : δ)
  | reaped (dir : δ)
  deriving DecidableEq, Repr

def SessionEvent.look? {δ : Type} : SessionEvent δ → Option SessionLook
  | .look l => some l
  | _ => none

/-- An entry the loop is done with: when its resolution began, if it came to that, what the passes
of the resolution met, and what was done when the marker of its session was looked for. -/
structure HandledEntry where
  entry : FullScheduleEntry
  began : Option ℤ
  polls : List ResolvePoll
  look : Option SessionLook

/-- Where the loop is; `down` when no process runs.  With an entry that is slept for stands how
long, with one in a resolution when that began and the passes so far, in `resting` also the pass
that is not over. -/
inductive SchedPhase
  | down
  | head
  | sleeping (entry : FullScheduleEntry) (wait : ℕ)
  | resolving (entry : FullScheduleEntry) (began : ℤ) (polls : List ResolvePoll)
  | polling (entry : FullScheduleEntry) (began : ℤ) (polls : List ResolvePoll)
  | resting (entry : FullScheduleEntry) (began : ℤ) (polls : List ResolvePoll) (poll : ResolvePoll)
  | parked

/-- The supervisor: the clock as it was last read, whether a shutdown was asked for, where the loop
is, the entries that are left and the directories with a marker.  As history, of the process that
runs: when it booted, the schedule it read, its order, the entries it is done with, how many
captures it spawned after a shutdown was asked for and how much had happened to the sessions before
it; and of all processes: what happened to the sessions. -/
structure SchedRun (δ : Type) where
  now : ℤ
  shutdown : Bool
  phase : SchedPhase
  pending : List FullScheduleEntry
  archived : List δ
  boot : Timestamp
  schedule : List FullScheduleEntry
  order : List FullScheduleEntry
  handled : List HandledEntry
  lateArmed : ℕ
  past : ℕ
  log : List (SessionEvent δ)

namespace SchedRun

/-- What happens in a step; `t` is what the clock says afterwards.  `crash` is the end of a process
at any point, a panic too. -/
inductive Action (δ : Type)
  | boot (now : Timestamp) (schedule : List FullScheduleEntry)
  | skip
  | take (t : ℤ)
  | wake (t : ℤ)
  | poll
  | answer (listing : Except String (List Market)) (t : ℤ)
  | rest (t : ℤ)
  | shutdown
  | interrupt
  | exhaust
  | exit
  | crash
  | archive (dir : δ)
  | reap (dir : δ)

variable {δ : Type}

/-- The entry is done with. -/
def finish (s : SchedRun δ) (h : HandledEntry) : SchedRun δ :=
  { s with
    phase := .head
    handled := s.handled ++ [h]
    log := s.log ++ h.look.toList.map .look }

/-- The entry is done with and its capture is spawned. -/
def arm (s : SchedRun δ) (h : HandledEntry) : SchedRun δ :=
  { s.finish h with lateArmed := s.lateArmed + if s.shutdown then 1 else 0 }

/-- How long is slept for the moment to arm; not at all when it is past. -/
def untilArm (armAt : Timestamp) (now : ℤ) : ℕ := (armAt.nanos - now).toNat

variable (toUppercase : String → String) (dirOf : String → δ) (cfg : ScheduledCfg)

/-- The pass of a resolution that began then, when the listing was answered. -/
def passAt (began : ℤ) (listing : Except String (List Market)) (t : ℤ) : ResolvePoll :=
  ⟨false, listing, decide (began + cfg.resolveGrace ≤ t), false⟩

section

variable [DecidableEq δ]

/-- The predicted session of the entry is archived. -/
def alreadyArchived (archived : List δ) (e : FullScheduleEntry) : Bool :=
  e.eventTicker.any (dirOf · ∈ archived)

/-- One step.  `dirOf` is the directory that a session below the data directory is looked for in,
wherever its path leads. -/
inductive Step (s : SchedRun δ) : Action δ → SchedRun δ → Prop
  | boot {order} (now : Timestamp) (schedule : List FullScheduleEntry) (hphase : s.phase = .down)
      (horder : armOrder cfg.toSchedCfg now schedule = some order) :
    Step s (.boot now schedule) { s with
      now := now.nanos, shutdown := false, phase := .head, pending := order, boot := now
      schedule := schedule, order := order, handled := [], lateArmed := 0, past := s.log.length }
  | skip {e rest event} (hphase : s.phase = .head) (hpending : s.pending = e :: rest)
      (hrun : s.shutdown = false) (hevent : e.eventTicker = some event)
      (harchived : alreadyArchived dirOf s.archived e = true) :
    Step s .skip { s.finish ⟨e, none, [], some (.refused event)⟩ with pending := rest }
  | take {e rest armAt} (t : ℤ) (hphase : s.phase = .head) (hpending : s.pending = e :: rest)
      (hrun : s.shutdown = false) (harchived : alreadyArchived dirOf s.archived e = false)
      (harm : e.armAt cfg.armLeadMin = some armAt) :
    Step s (.take t) { s with now := t, phase := .sleeping e (untilArm armAt t), pending := rest }
  | wake {e wait} (t : ℤ) (hphase : s.phase = .sleeping e wait)
      (hwindow : (discoveryWindow e.startUtc (e.hours cfg.toSchedCfg)).isSome) :
    Step s (.wake t) { s with now := t, phase := .resolving e t [] }
  | poll {e began polls} (hphase : s.phase = .resolving e began polls) (hrun : s.shutdown = false) :
    Step s .poll { s with phase := .polling e began polls }
  | answerArmed {e began polls unit} (listing : Except String (List Market)) (t : ℤ)
      (hphase : s.phase = .polling e began polls)
      (hunit : (passAt cfg began listing t).unit toUppercase e.toScheduleEntry = some unit)
      (hfresh : dirOf unit.session ∉ s.archived) :
    Step s (.answer listing t) (arm { s with now := t }
      ⟨e, some began, polls ++ [passAt cfg began listing t],
        some (.armed unit (e.maxSecs cfg.toSchedCfg))⟩)
  | answerArchived {e began polls unit} (listing : Except String (List Market)) (t : ℤ)
      (hphase : s.phase = .polling e began polls)
      (hunit : (passAt cfg began listing t).unit toUppercase e.toScheduleEntry = some unit)
      (harchived : dirOf unit.session ∈ s.archived) :
    Step s (.answer listing t) (finish { s with now := t }
      ⟨e, some began, polls ++ [passAt cfg began listing t], some (.refused unit.session)⟩)
  | answerTooLate {e began polls} (listing : Except String (List Market)) (t : ℤ)
      (hphase : s.phase = .polling e began polls)
      (hunit : (passAt cfg began listing t).unit toUppercase e.toScheduleEntry = none)
      (hlate : began + cfg.resolveGrace ≤ t) :
    Step s (.answer listing t) (finish { s with now := t }
      ⟨e, some began, polls ++ [passAt cfg began listing t], none⟩)
  | answerNothing {e began polls} (listing : Except String (List Market)) (t : ℤ)
      (hphase : s.phase = .polling e began polls)
      (hunit : (passAt cfg began listing t).unit toUppercase e.toScheduleEntry = none)
      (hearly : t < began + cfg.resolveGrace) :
    Step s (.answer listing t)
      { s with now := t, phase := .resting e began polls (passAt cfg began listing t) }
  | rest {e began polls poll} (t : ℤ) (hphase : s.phase = .resting e began polls poll) :
    Step s (.rest t) { s with now := t, phase := .resolving e began (polls ++ [poll]) }
  | shutdown (hphase : s.phase ≠ .down) : Step s .shutdown { s with shutdown := true }
  | interruptHead (hphase : s.phase = .head) (hdown : s.shutdown = true) :
    Step s .interrupt { s with phase := .parked }
  | interruptSleep {e wait} (hphase : s.phase = .sleeping e wait) (hsleep : wait ≠ 0)
      (hdown : s.shutdown = true) :
    Step s .interrupt { s.finish ⟨e, none, [], none⟩ with phase := .parked }
  | interruptResolve {e began polls} (hphase : s.phase = .resolving e began polls)
      (hdown : s.shutdown = true) :
    Step s .interrupt
      (s.finish ⟨e, some began, polls ++ [⟨true, .error "", false, false⟩], none⟩)
  | interruptRest {e began polls poll} (hphase : s.phase = .resting e began polls poll)
      (hdown : s.shutdown = true) :
    Step s .interrupt
      (s.finish ⟨e, some began, polls ++ [{ poll with interrupted := true }], none⟩)
  | exhaust (hphase : s.phase = .head) (hpending : s.pending = []) :
    Step s .exhaust { s with phase := .parked }
  | exit (hphase : s.phase = .parked) (hdown : s.shutdown = true) :
    Step s .exit { s with phase := .down }
  | crash : Step s .crash { s with phase := .down }
  | archive (dir : δ) :
    Step s (.archive dir) { s with
      archived := dir :: s.archived, log := s.log ++ [.archived dir] }
  | reap (dir : δ) :
    Step s (.reap dir) { s with
      archived := s.archived.filter (· ≠ dir), log := s.log ++ [.reaped dir] }

/-- No process has run. -/
def start : SchedRun δ where
  now := 0
  shutdown := false
  phase := .down
  pending := []
  archived := []
  boot := epoch
  schedule := []
  order := []
  handled := []
  lateArmed := 0
  past := 0
  log := []

def machine : Machine (SchedRun δ) (Action δ) := ⟨start, Step toUppercase dirOf cfg⟩

end

end SchedRun

/-! ## What becomes of the entries -/

section Entries

variable {toUppercase : String → String}

/-- The passes so far have not ended the resolution. -/
def Unresolved (toUppercase : String → String) (e : FullScheduleEntry) (polls : List ResolvePoll) :
    Prop :=
  ∀ more, resolveUnit toUppercase e.toScheduleEntry (polls ++ more) =
    resolveUnit toUppercase e.toScheduleEntry more

theorem unresolved_concat {e : FullScheduleEntry} {polls : List ResolvePoll} {poll : ResolvePoll}
    (h : Unresolved toUppercase e polls) (hrun : poll.shutdown = false)
    (hunit : poll.unit toUppercase e.toScheduleEntry = none) (hearly : poll.pastDeadline = false)
    (hslept : poll.interrupted = false) : Unresolved toUppercase e (polls ++ [poll]) := by
  intro more
  rw [List.append_assoc, h, List.singleton_append]
  simp [resolveUnit, hrun, hunit, hearly, hslept]

theorem resolveUnit_concat_eq_none {e : FullScheduleEntry} {polls : List ResolvePoll}
    {poll : ResolvePoll} (h : Unresolved toUppercase e polls)
    (hunit : poll.shutdown = true ∨ poll.unit toUppercase e.toScheduleEntry = none) :
    resolveUnit toUppercase e.toScheduleEntry (polls ++ [poll]) = none := by
  rw [h]
  cases hdown : poll.shutdown with
  | true => simp [resolveUnit, hdown]
  | false =>
    have hnone := hunit.resolve_left (by simp [hdown])
    simp [resolveUnit, hdown, hnone]

theorem resolveUnit_concat_eq_some {e : FullScheduleEntry} {polls : List ResolvePoll}
    {poll : ResolvePoll} {unit : CaptureUnit} (h : Unresolved toUppercase e polls)
    (hrun : poll.shutdown = false) (hunit : poll.unit toUppercase e.toScheduleEntry = some unit) :
    resolveUnit toUppercase e.toScheduleEntry (polls ++ [poll]) = some unit := by
  rw [h]
  simp [resolveUnit, hrun, hunit]

/-- The entry that is being seen to. -/
def SchedPhase.current : SchedPhase → List FullScheduleEntry
  | .down | .head | .parked => []
  | .sleeping e _ | .resolving e _ _ | .polling e _ _ | .resting e _ _ _ => [e]

/-- The resolution has not ended, and its pass that is not over has found nothing. -/
def ResolvingAt (toUppercase : String → String) : SchedPhase → Prop
  | .down | .head | .sleeping _ _ | .parked => True
  | .resolving e _ polls | .polling e _ polls => Unresolved toUppercase e polls
  | .resting e _ polls poll => Unresolved toUppercase e polls ∧ poll.shutdown = false ∧
      poll.unit toUppercase e.toScheduleEntry = none ∧ poll.pastDeadline = false ∧
      poll.interrupted = false

/-- The passes end the resolution, and the last one of them does. -/
def Resolution (toUppercase : String → String) (e : FullScheduleEntry) (polls : List ResolvePoll) :
    Prop :=
  ∃ earlier last, polls = earlier ++ [last] ∧ Unresolved toUppercase e earlier ∧
    (last.shutdown = true ∨ (last.unit toUppercase e.toScheduleEntry).isSome ∨
      last.pastDeadline = true ∨ last.interrupted = true)

/-- What became of an entry.  One that was not resolved was slept for when a shutdown was asked for,
or the marker of its predicted session was found; for the others the marker of the session they were
resolved to was looked for, if there was one. -/
def HandledEntry.Sound (toUppercase : String → String) (cfg : SchedCfg) (down : Bool)
    (h : HandledEntry) : Prop :=
  match h.began, h.look with
  | none, none => h.polls = [] ∧ down = true
  | none, some (.refused session) => h.polls = [] ∧ h.entry.eventTicker = some session
  | none, some (.armed _ _) => False
  | some _, none => Resolution toUppercase h.entry h.polls ∧
      resolveUnit toUppercase h.entry.toScheduleEntry h.polls = none
  | some _, some (.refused session) => Resolution toUppercase h.entry h.polls ∧
      ∃ unit, resolveUnit toUppercase h.entry.toScheduleEntry h.polls = some unit ∧
        unit.session = session
  | some _, some (.armed unit maxSecs) => Resolution toUppercase h.entry h.polls ∧
      resolveUnit toUppercase h.entry.toScheduleEntry h.polls = some unit ∧
      maxSecs = h.entry.maxSecs cfg

theorem HandledEntry.Sound.mono {cfg : SchedCfg} {down down' : Bool} {h : HandledEntry}
    (hsound : h.Sound toUppercase cfg down) (hdown : down = true → down' = true) :
    h.Sound toUppercase cfg down' := by
  unfold Sound at hsound ⊢
  split at hsound
  · exact ⟨hsound.1, hdown hsound.2⟩
  all_goals exact hsound

section

variable {cfg : SchedCfg} {down : Bool} {e : FullScheduleEntry} {began : ℤ}
variable {earlier : List ResolvePoll} {last : ResolvePoll} {unit : CaptureUnit}

theorem HandledEntry.sound_skipped {event : String} (h : e.eventTicker = some event) :
    (⟨e, none, [], some (.refused event)⟩ : HandledEntry).Sound toUppercase cfg down :=
  ⟨rfl, h⟩

theorem HandledEntry.sound_slept (h : down = true) :
    (⟨e, none, [], none⟩ : HandledEntry).Sound toUppercase cfg down :=
  ⟨rfl, h⟩

theorem HandledEntry.sound_unresolved (h : Unresolved toUppercase e earlier)
    (hlast : last.shutdown = true ∨ last.unit toUppercase e.toScheduleEntry = none ∧
      (last.pastDeadline = true ∨ last.interrupted = true)) :
    (⟨e, some began, earlier ++ [last], none⟩ : HandledEntry).Sound toUppercase cfg down :=
  ⟨⟨earlier, last, rfl, h, hlast.imp_right fun hnone => .inr hnone.2⟩,
    resolveUnit_concat_eq_none h (hlast.imp_right And.left)⟩

theorem HandledEntry.sound_refused (h : Unresolved toUppercase e earlier)
    (hrun : last.shutdown = false) (hunit : last.unit toUppercase e.toScheduleEntry = some unit) :
    (⟨e, some began, earlier ++ [last], some (.refused unit.session)⟩ : HandledEntry).Sound
      toUppercase cfg down :=
  ⟨⟨earlier, last, rfl, h, .inr (.inl (by simp [hunit]))⟩, unit,
    resolveUnit_concat_eq_some h hrun hunit, rfl⟩

theorem HandledEntry.sound_armed (h : Unresolved toUppercase e earlier)
    (hrun : last.shutdown = false) (hunit : last.unit toUppercase e.toScheduleEntry = some unit) :
    (⟨e, some began, earlier ++ [last], some (.armed unit (e.maxSecs cfg))⟩ : HandledEntry).Sound
      toUppercase cfg down :=
  ⟨⟨earlier, last, rfl, h, .inr (.inl (by simp [hunit]))⟩,
    resolveUnit_concat_eq_some h hrun hunit, rfl⟩

end

end Entries

namespace SchedRun

variable {δ : Type} [DecidableEq δ] {toUppercase : String → String} {dirOf : String → δ}
variable {cfg : ScheduledCfg} {s s' : SchedRun δ} {a : Action δ}
variable {allowed : SchedRun δ → Action δ → Prop}

variable (toUppercase cfg) in
/-- The entries of the order are done with, being seen to and left, in this order, and those that
are done with were resolved by what was polled. -/
structure InOrder (s : SchedRun δ) : Prop where
  ordered : s.phase ≠ .down → armOrder cfg.toSchedCfg s.boot s.schedule = some s.order
  parts : s.phase ≠ .down → s.handled.map (·.entry) ++ (s.phase.current ++ s.pending) = s.order
  resolving : ResolvingAt toUppercase s.phase
  sound : ∀ h ∈ s.handled, h.Sound toUppercase cfg.toSchedCfg s.shutdown

namespace InOrder

omit [DecidableEq δ] in
/-- A step within the work on an entry. -/
theorem go (h : InOrder toUppercase cfg s) (hdown : s.phase ≠ .down) (hboot : s'.boot = s.boot)
    (hschedule : s'.schedule = s.schedule) (horder : s'.order = s.order)
    (hhandled : s'.handled = s.handled) (hshutdown : s.shutdown = true → s'.shutdown = true)
    (hparts : s'.phase.current ++ s'.pending = s.phase.current ++ s.pending)
    (hresolving : ResolvingAt toUppercase s'.phase) : InOrder toUppercase cfg s' where
  ordered _ := by rw [hboot, hschedule, horder]; exact h.ordered hdown
  parts _ := by rw [hhandled, hparts, horder]; exact h.parts hdown
  resolving := hresolving
  sound := by
    rw [hhandled]
    exact fun e he => (h.sound e he).mono hshutdown

omit [DecidableEq δ] in
/-- A step that is done with an entry. -/
theorem done (h : InOrder toUppercase cfg s) (hdown : s.phase ≠ .down) {e : HandledEntry}
    (he : e.Sound toUppercase cfg.toSchedCfg s.shutdown) (hboot : s'.boot = s.boot)
    (hschedule : s'.schedule = s.schedule) (horder : s'.order = s.order)
    (hhandled : s'.handled = s.handled ++ [e]) (hshutdown : s'.shutdown = s.shutdown)
    (hparts : s.phase.current ++ s.pending = e.entry :: s'.pending)
    (hphase : s'.phase = .head ∨ s'.phase = .parked) : InOrder toUppercase cfg s' where
  ordered _ := by rw [hboot, hschedule, horder]; exact h.ordered hdown
  parts _ := by
    have hcurrent : s'.phase.current = [] := by
      rcases hphase with hphase | hphase <;> rw [hphase] <;> rfl
    rw [hhandled, hcurrent, horder, ← h.parts hdown, hparts]
    simp
  resolving := by
    rcases hphase with hphase | hphase <;> rw [hphase] <;> trivial
  sound := by
    rw [hhandled, hshutdown]
    intro h' hmem
    rcases List.mem_append.1 hmem with hold | heq
    · exact h.sound h' hold
    · rw [List.mem_singleton.1 heq]
      exact he

theorem step (h : InOrder toUppercase cfg s) (hs : Step toUppercase dirOf cfg s a s') :
    InOrder toUppercase cfg s' := by
  have hresolving := h.resolving
  cases hs with
  | boot now schedule hphase horder =>
    exact ⟨fun _ => horder, fun _ => rfl, trivial, by rintro _ ⟨⟩⟩
  | skip hphase hpending _ hevent =>
    exact h.done (by simp [hphase]) (HandledEntry.sound_skipped hevent) rfl rfl rfl rfl rfl
      (by simp [hphase, hpending, SchedPhase.current]) (.inl rfl)
  | take t hphase hpending =>
    exact h.go (by simp [hphase]) rfl rfl rfl rfl id
      (by simp [hphase, hpending, SchedPhase.current]) trivial
  | wake t hphase =>
    exact h.go (by simp [hphase]) rfl rfl rfl rfl id (by simp [hphase, SchedPhase.current])
      fun _ => rfl
  | poll hphase =>
    rw [hphase] at hresolving
    exact h.go (by simp [hphase]) rfl rfl rfl rfl id (by simp [hphase, SchedPhase.current])
      hresolving
  | answerArmed listing t hphase hunit =>
    rw [hphase] at hresolving
    exact h.done (by simp [hphase]) (HandledEntry.sound_armed hresolving rfl hunit) rfl rfl rfl rfl
      rfl (by simp [hphase, SchedPhase.current]; rfl) (.inl rfl)
  | answerArchived listing t hphase hunit =>
    rw [hphase] at hresolving
    exact h.done (by simp [hphase]) (HandledEntry.sound_refused hresolving rfl hunit) rfl rfl rfl
      rfl rfl (by simp [hphase, SchedPhase.current]; rfl) (.inl rfl)
  | @answerTooLate e began polls listing t hphase hunit hlate =>
    rw [hphase] at hresolving
    have hsound : HandledEntry.Sound toUppercase cfg.toSchedCfg s.shutdown
        ⟨e, some began, polls ++ [passAt cfg began listing t], none⟩ :=
      HandledEntry.sound_unresolved hresolving (.inr ⟨hunit, .inl (decide_eq_true hlate)⟩)
    exact h.done (by simp [hphase]) hsound rfl rfl rfl rfl rfl
      (by simp [hphase, SchedPhase.current]; rfl) (.inl rfl)
  | answerNothing listing t hphase hunit hearly =>
    rw [hphase] at hresolving
    exact h.go (by simp [hphase]) rfl rfl rfl rfl id (by simp [hphase, SchedPhase.current])
      ⟨hresolving, rfl, hunit, by simpa [passAt] using hearly, rfl⟩
  | rest t hphase =>
    rw [hphase] at hresolving
    obtain ⟨hbefore, hrun, hunit, hearly, hslept⟩ := hresolving
    exact h.go (by simp [hphase]) rfl rfl rfl rfl id (by simp [hphase, SchedPhase.current])
      (unresolved_concat hbefore hrun hunit hearly hslept)
  | shutdown hphase => exact h.go hphase rfl rfl rfl rfl (fun _ => rfl) rfl hresolving
  | interruptHead hphase =>
    exact h.go (by simp [hphase]) rfl rfl rfl rfl id (by simp [hphase, SchedPhase.current]) trivial
  | interruptSleep hphase _ hdown =>
    exact h.done (by simp [hphase]) (HandledEntry.sound_slept hdown) rfl rfl rfl rfl rfl
      (by simp [hphase, SchedPhase.current]; rfl) (.inr rfl)
  | interruptResolve hphase =>
    rw [hphase] at hresolving
    exact h.done (by simp [hphase]) (HandledEntry.sound_unresolved hresolving (.inl rfl)) rfl rfl
      rfl rfl rfl (by simp [hphase, SchedPhase.current]; rfl) (.inl rfl)
  | @interruptRest e began polls poll hphase =>
    rw [hphase] at hresolving
    obtain ⟨hbefore, -, hunit, -, -⟩ := hresolving
    have hsound : HandledEntry.Sound toUppercase cfg.toSchedCfg s.shutdown
        ⟨e, some began, polls ++ [{ poll with interrupted := true }], none⟩ :=
      HandledEntry.sound_unresolved hbefore (.inr ⟨hunit, .inr rfl⟩)
    exact h.done (by simp [hphase]) hsound rfl rfl rfl rfl rfl
      (by simp [hphase, SchedPhase.current]; rfl) (.inl rfl)
  | exhaust hphase hpending =>
    exact h.go (by simp [hphase]) rfl rfl rfl rfl id (by simp [hphase, SchedPhase.current]) trivial
  | exit | crash => exact ⟨fun hne => absurd rfl hne, fun hne => absurd rfl hne, trivial, h.sound⟩
  | archive | reap => exact ⟨h.ordered, h.parts, hresolving, h.sound⟩

end InOrder

/-! ## What happens to the sessions -/

section Sessions

variable {log : List (SessionEvent δ)} {d : δ} {x : SessionEvent δ}

/-- A marker was left in the directory, and none was removed from it since. -/
def Standing (log : List (SessionEvent δ)) (d : δ) : Prop :=
  ∃ before after, log = before ++ .archived d :: after ∧ .reaped d ∉ after

omit [DecidableEq δ] in
theorem standing_concat :
    Standing (log ++ [x]) d ↔ x = .archived d ∨ (Standing log d ∧ x ≠ .reaped d) := by
  constructor
  · rintro ⟨before, after, heq, hafter⟩
    rcases List.eq_nil_or_concat' after with rfl | ⟨after', y, rfl⟩
    · exact .inl (List.append_singleton_inj.1 heq).2
    · rw [← List.cons_append, ← List.append_assoc, List.append_singleton_inj] at heq
      obtain ⟨rfl, rfl⟩ := heq
      rw [List.mem_append, not_or, List.mem_singleton] at hafter
      exact .inr ⟨⟨before, after', rfl, hafter.1⟩, Ne.symm hafter.2⟩
  · rintro (rfl | ⟨⟨before, after, rfl, hafter⟩, hx⟩)
    · exact ⟨log, [], rfl, List.not_mem_nil⟩
    · refine ⟨before, after ++ [x], by simp, ?_⟩
      rw [List.mem_append, not_or, List.mem_singleton]
      exact ⟨hafter, Ne.symm hx⟩

variable (dirOf) in
/-- What was done is right when so much had happened before: the capture is of a session without a
marker, the one that was refused has one. -/
def RightLook (before : List (SessionEvent δ)) : SessionLook → Prop
  | .armed unit _ => ¬ Standing before (dirOf unit.session)
  | .refused session => Standing before (dirOf session)

variable (dirOf) in
/-- Whenever the marker of a session was looked for, what was done is right. -/
def LookedRight (log : List (SessionEvent δ)) : Prop :=
  ∀ before look after, log = before ++ .look look :: after → RightLook dirOf before look

omit [DecidableEq δ] in
theorem lookedRight_concat (h : LookedRight dirOf log)
    (hx : ∀ look, x = .look look → RightLook dirOf log look) : LookedRight dirOf (log ++ [x]) := by
  intro before look after heq
  rcases List.eq_nil_or_concat' after with rfl | ⟨after', y, rfl⟩
  · obtain ⟨rfl, hlook⟩ := List.append_singleton_inj.1 heq
    exact hx look hlook
  · rw [← List.cons_append, ← List.append_assoc, List.append_singleton_inj] at heq
    exact h before look after' heq.1

end Sessions

variable (dirOf) in
/-- The markers are those that stand by the log, in which the process that runs has looked for those
of the entries it is done with, in their order, and rightly; and at most one capture was spawned
after a shutdown was asked for. -/
structure Logged (s : SchedRun δ) : Prop where
  standing : ∀ d, d ∈ s.archived ↔ Standing s.log d
  past : s.past ≤ s.log.length
  looks : (s.log.drop s.past).filterMap SessionEvent.look? = s.handled.filterMap (·.look)
  right : LookedRight dirOf s.log
  late : s.lateArmed ≤ 1
  stopping : s.lateArmed ≠ 0 → s.shutdown = true ∧ s.phase.current = []

namespace Logged

omit [DecidableEq δ] in
/-- A step that is done with no entry. -/
theorem go (h : Logged dirOf s) (harchived : s'.archived = s.archived) (hlog : s'.log = s.log)
    (hpast : s'.past = s.past) (hhandled : s'.handled = s.handled)
    (hlate : s'.lateArmed = s.lateArmed)
    (hstopping : s.lateArmed ≠ 0 → s'.shutdown = true ∧ s'.phase.current = []) :
    Logged dirOf s' where
  standing := by rw [harchived, hlog]; exact h.standing
  past := by rw [hpast, hlog]; exact h.past
  looks := by rw [hpast, hlog, hhandled]; exact h.looks
  right := by rw [hlog]; exact h.right
  late := by rw [hlate]; exact h.late
  stopping := by rw [hlate]; exact hstopping

omit [DecidableEq δ] in
/-- A step that is done with an entry. -/
theorem done (h : Logged dirOf s) {e : HandledEntry} (harchived : s'.archived = s.archived)
    (hlog : s'.log = s.log ++ e.look.toList.map .look) (hpast : s'.past = s.past)
    (hhandled : s'.handled = s.handled ++ [e])
    (hright : ∀ look ∈ e.look, RightLook dirOf s.log look) (hlate : s'.lateArmed ≤ 1)
    (hstopping : s'.lateArmed ≠ 0 → s'.shutdown = true ∧ s'.phase.current = []) :
    Logged dirOf s' := by
  have hlooks : (s.log ++ e.look.toList.map SessionEvent.look).drop s.past =
      s.log.drop s.past ++ e.look.toList.map SessionEvent.look := List.drop_append_of_le_length h.past
  refine ⟨?_, ?_, ?_, ?_, hlate, hstopping⟩
  · intro d
    rw [harchived, hlog, h.standing]
    cases e.look with
    | none => simp
    | some look =>
      show _ ↔ Standing (s.log ++ [.look look]) d
      simp [standing_concat]
  · rw [hpast, hlog, List.length_append]
    exact h.past.trans (Nat.le_add_right _ _)
  · rw [hpast, hlog, hhandled, hlooks, List.filterMap_append, List.filterMap_append, h.looks]
    cases hlook : e.look <;> simp [hlook, SessionEvent.look?]
  · rw [hlog]
    cases hlook : e.look with
    | none => simpa using h.right
    | some look =>
      refine lookedRight_concat h.right ?_
      rintro _ ⟨⟩
      exact hright look hlook

omit [DecidableEq δ] in
theorem lateArmed_eq (h : Logged dirOf s) (hcurrent : s.phase.current ≠ []) : s.lateArmed = 0 := by
  by_contra hne
  exact hcurrent (h.stopping hne).2

theorem step (h : Logged dirOf s) (hs : Step toUppercase dirOf cfg s a s') : Logged dirOf s' := by
  cases hs with
  | boot =>
    exact ⟨h.standing, le_rfl, by simp, h.right, Nat.zero_le _, fun hne => absurd rfl hne⟩
  | @skip e _ event _ _ hrun hevent harchived =>
    refine h.done rfl rfl rfl rfl ?_ h.late fun hne => absurd (h.stopping hne).1 (by simp [hrun])
    rintro _ ⟨⟩
    have hmem : dirOf event ∈ s.archived := by simpa [alreadyArchived, hevent] using harchived
    exact (h.standing _).1 hmem
  | take _ _ _ hrun =>
    exact h.go rfl rfl rfl rfl rfl fun hne => absurd (h.stopping hne).1 (by simp [hrun])
  | wake _ hphase | poll hphase | answerNothing _ _ hphase | rest _ hphase =>
    have hzero := h.lateArmed_eq (by simp [hphase, SchedPhase.current])
    exact h.go rfl rfl rfl rfl rfl fun hne => absurd hzero hne
  | answerArmed _ _ hphase _ hfresh =>
    have hzero := h.lateArmed_eq (by simp [hphase, SchedPhase.current])
    refine h.done rfl rfl rfl rfl ?_ ?_ ?_
    · rintro _ ⟨⟩
      exact fun hstands => hfresh ((h.standing _).2 hstands)
    · show s.lateArmed + _ ≤ 1
      rw [hzero]
      split_ifs <;> simp
    · intro hne
      have hdown : s.shutdown = true := by simpa [arm, finish, hzero] using hne
      exact ⟨hdown, rfl⟩
  | answerArchived _ _ hphase _ harchived =>
    have hzero := h.lateArmed_eq (by simp [hphase, SchedPhase.current])
    refine h.done rfl rfl rfl rfl ?_ h.late fun hne => absurd hzero hne
    rintro _ ⟨⟩
    exact (h.standing _).1 harchived
  | answerTooLate _ _ hphase | interruptSleep hphase | interruptResolve hphase
  | interruptRest hphase =>
    have hzero := h.lateArmed_eq (by simp [hphase, SchedPhase.current])
    exact h.done rfl rfl rfl rfl (by simp) h.late fun hne => absurd hzero hne
  | shutdown => exact h.go rfl rfl rfl rfl rfl fun hne => ⟨rfl, (h.stopping hne).2⟩
  | interruptHead _ hdown | exit _ hdown => exact h.go rfl rfl rfl rfl rfl fun _ => ⟨hdown, rfl⟩
  | exhaust | crash => exact h.go rfl rfl rfl rfl rfl fun hne => ⟨(h.stopping hne).1, rfl⟩
  | archive dir | reap dir =>
    refine ⟨fun d => ?_, ?_, ?_, lookedRight_concat h.right (by simp), h.late, h.stopping⟩
    · simp [standing_concat, h.standing, @eq_comm _ d dir]
    · exact h.past.trans (by simp)
    · rw [List.drop_append_of_le_length h.past, List.filterMap_append, h.looks]
      exact List.append_nil _

end Logged

/-! ## When an entry is resolved -/

/-- How long a request takes at most, and how late a sleep ends at most. -/
structure Pace where
  request : ℤ
  slack : ℤ

variable (cfg) in
/-- Answers come in time, sleeps take their time and end in time, nothing else takes any, and the
clock is not set. -/
def Punctual (pace : Pace) (s : SchedRun δ) : Action δ → Prop
  | .take t => t = s.now
  | .wake t => ∀ e wait, s.phase = .sleeping e wait →
      s.now + wait ≤ t ∧ t ≤ s.now + wait + if wait = 0 then 0 else pace.slack
  | .answer _ t => t ≤ s.now + pace.request
  | .rest t => t ≤ s.now + cfg.pollSecs + pace.slack
  | _ => True

variable (cfg) in
/-- How long an entry holds up the others at most. -/
def turnTime (pace : Pace) : ℤ := cfg.resolveGrace + cfg.pollSecs + pace.slack + pace.request

variable (cfg) in
/-- No duration is negative. -/
structure Pace.Proper (pace : Pace) : Prop where
  request : 0 ≤ pace.request
  slack : 0 ≤ pace.slack
  grace : 0 ≤ cfg.resolveGrace
  poll : 0 ≤ cfg.pollSecs

variable (cfg) in
/-- When an entry is released: at the moment to arm it, late by a sleep; at the start if it has no
such moment. -/
def release (pace : Pace) (start : ℤ) (e : FullScheduleEntry) : ℤ :=
  match e.armAt cfg.armLeadMin with
  | some arm => arm.nanos + pace.slack
  | none => start

variable (cfg) in
/-- When the entries that are done with are done with at the latest. -/
def headBy (pace : Pace) (start : ℤ) (handled : List HandledEntry) : ℤ :=
  Serial.doneBy (turnTime cfg pace) start (handled.map fun h => release cfg pace start h.entry)

variable (cfg) in
/-- The resolution of an entry behind these begins in time, and not before the moment to arm it. -/
structure BegunInTime (pace : Pace) (start : ℤ) (handled : List HandledEntry)
    (e : FullScheduleEntry) (began : ℤ) : Prop where
  early : ∀ arm, e.armAt cfg.armLeadMin = some arm → arm.nanos ≤ began
  late : began ≤ max (headBy cfg pace start handled) (release cfg pace start e)

theorem headBy_concat (pace : Pace) (start : ℤ) (handled : List HandledEntry) (e : HandledEntry) :
    headBy cfg pace start (handled ++ [e]) =
      max (headBy cfg pace start handled) (release cfg pace start e.entry) + turnTime cfg pace := by
  rw [headBy, List.map_append]
  exact Serial.doneBy_concat

theorem Pace.Proper.turnTime_nonneg {pace : Pace} (h : pace.Proper cfg) :
    0 ≤ turnTime cfg pace := by
  obtain ⟨hrequest, hslack, hgrace, hpoll⟩ := h
  unfold turnTime
  omega

theorem headBy_le_concat {pace : Pace} (h : pace.Proper cfg) (start : ℤ)
    (handled : List HandledEntry) (e : HandledEntry) :
    headBy cfg pace start handled ≤ headBy cfg pace start (handled ++ [e]) := by
  rw [headBy, headBy, List.map_append]
  exact Serial.doneBy_le_concat h.turnTime_nonneg _

/-- A turn after it was begun, an entry is done with in time. -/
theorem BegunInTime.le_headBy {pace : Pace} {start began t : ℤ} {handled : List HandledEntry}
    {e : HandledEntry} (h : BegunInTime cfg pace start handled e.entry began)
    (ht : t ≤ began + turnTime cfg pace) : t ≤ headBy cfg pace start (handled ++ [e]) := by
  rw [headBy_concat]
  have hlate := h.late
  omega

variable (cfg) in
/-- How late it is, by where the loop is. -/
def InTimeAt (pace : Pace) (s : SchedRun δ) : SchedPhase → Prop
  | .down | .parked => True
  | .head => s.now ≤ headBy cfg pace s.boot.nanos s.handled
  | .sleeping e wait => s.now ≤ headBy cfg pace s.boot.nanos s.handled ∧
      ∃ arm, e.armAt cfg.armLeadMin = some arm ∧ wait = untilArm arm s.now
  | .resolving e began _ | .polling e began _ =>
    BegunInTime cfg pace s.boot.nanos s.handled e began ∧
      s.now ≤ began + cfg.resolveGrace + cfg.pollSecs + pace.slack
  | .resting e began _ _ =>
    BegunInTime cfg pace s.boot.nanos s.handled e began ∧ s.now ≤ began + cfg.resolveGrace

variable (cfg) in
/-- The resolutions began in time, and the loop is on time. -/
structure InTime (pace : Pace) (s : SchedRun δ) : Prop where
  begun : ∀ i h b, s.handled[i]? = some h → h.began = some b →
    BegunInTime cfg pace s.boot.nanos (s.handled.take i) h.entry b
  now : InTimeAt cfg pace s s.phase

namespace InTime

variable {pace : Pace}

omit [DecidableEq δ] in
/-- A step within the work on an entry. -/
theorem go (h : InTime cfg pace s) (hboot : s'.boot = s.boot) (hhandled : s'.handled = s.handled)
    (hnow : InTimeAt cfg pace s' s'.phase) : InTime cfg pace s' where
  begun := by rw [hboot, hhandled]; exact h.begun
  now := hnow

omit [DecidableEq δ] in
/-- A step that is done with an entry. -/
theorem done (h : InTime cfg pace s) {e : HandledEntry} (hboot : s'.boot = s.boot)
    (hhandled : s'.handled = s.handled ++ [e])
    (hbegun : ∀ b, e.began = some b → BegunInTime cfg pace s.boot.nanos s.handled e.entry b)
    (hnow : s'.phase = .parked ∨
      s'.phase = .head ∧ s'.now ≤ headBy cfg pace s.boot.nanos (s.handled ++ [e])) :
    InTime cfg pace s' where
  begun := by
    intro i h' b hget hb
    rw [hhandled] at hget ⊢
    rw [hboot]
    have hlt := (List.getElem?_eq_some_iff.1 hget).1
    rw [List.length_append, List.length_singleton] at hlt
    rcases Nat.lt_succ_iff_lt_or_eq.1 hlt with hold | rfl
    · rw [List.getElem?_append_left hold] at hget
      rw [List.take_append_of_le_length hold.le]
      exact h.begun i h' b hget hb
    · rw [List.getElem?_concat_length] at hget
      cases hget
      rw [List.take_left]
      exact hbegun b hb
  now := by
    rcases hnow with hphase | ⟨hphase, hnow⟩
    · rw [hphase]
      trivial
    · rw [hphase]
      show s'.now ≤ headBy cfg pace s'.boot.nanos s'.handled
      rw [hboot, hhandled]
      exact hnow

theorem step (hpace : pace.Proper cfg) (h : InTime cfg pace s) (hpunctual : Punctual cfg pace s a)
    (hs : Step toUppercase dirOf cfg s a s') : InTime cfg pace s' := by
  have hnow := h.now
  obtain ⟨hrequest, hslack, hgrace, hpoll⟩ := id hpace
  cases hs with
  | boot now => exact ⟨by rintro _ _ _ ⟨⟩, (le_refl now.nanos : _)⟩
  | skip hphase =>
    rw [hphase] at hnow
    exact h.done rfl rfl (by rintro _ ⟨⟩) (.inr ⟨rfl, hnow.trans (headBy_le_concat hpace _ _ _)⟩)
  | take t hphase _ _ _ harm =>
    rw [hphase] at hnow
    have ht : t = s.now := hpunctual
    exact h.go rfl rfl ⟨(ht.le.trans hnow : _), _, harm, rfl⟩
  | @wake e wait t hphase =>
    rw [hphase] at hnow
    obtain ⟨hnow, arm, harm, huntil⟩ := hnow
    obtain ⟨hearly, hlate⟩ := hpunctual e wait hphase
    -- a sleep of no length ends where the moment to arm is past
    have hbounds : arm.nanos ≤ t ∧ t ≤ max s.now (arm.nanos + pace.slack) := by
      unfold untilArm at huntil
      split_ifs at hlate <;> omega
    obtain ⟨hearly, hlate⟩ := hbounds
    have hbegun : BegunInTime cfg pace s.boot.nanos s.handled e t :=
      { early := by
          intro arm' harm'
          rw [harm] at harm'
          cases harm'
          exact hearly
        late := by
          rw [release, harm]
          exact hlate.trans (max_le_max_right _ hnow) }
    refine h.go rfl rfl ⟨hbegun, ?_⟩
    show t ≤ t + cfg.resolveGrace + cfg.pollSecs + pace.slack
    omega
  | poll hphase =>
    rw [hphase] at hnow
    exact h.go rfl rfl hnow
  | @answerArmed e began _ _ _ t hphase | @answerArchived e began _ _ _ t hphase
  | @answerTooLate e began _ _ t hphase =>
    rw [hphase] at hnow
    have ht : t ≤ s.now + pace.request := hpunctual
    have hturn : t ≤ began + turnTime cfg pace := by
      have hle := hnow.2
      unfold turnTime
      omega
    refine h.done rfl rfl ?_ (.inr ⟨rfl, hnow.1.le_headBy hturn⟩)
    rintro _ ⟨⟩
    exact hnow.1
  | answerNothing listing t hphase _ hearly =>
    rw [hphase] at hnow
    exact h.go rfl rfl ⟨hnow.1, hearly.le⟩
  | @rest e began _ _ t hphase =>
    rw [hphase] at hnow
    have ht : t ≤ s.now + cfg.pollSecs + pace.slack := hpunctual
    refine h.go rfl rfl ⟨hnow.1, ?_⟩
    have hle := hnow.2
    show t ≤ began + cfg.resolveGrace + cfg.pollSecs + pace.slack
    omega
  | shutdown => exact h.go rfl rfl hnow
  | interruptHead | exhaust | exit | crash => exact h.go rfl rfl trivial
  | interruptSleep => exact h.done rfl rfl (by rintro _ ⟨⟩) (.inl rfl)
  | @interruptResolve e began _ hphase | @interruptRest e began _ _ hphase =>
    rw [hphase] at hnow
    have hturn : s.now ≤ began + turnTime cfg pace := by
      have hle := hnow.2
      unfold turnTime
      omega
    refine h.done rfl rfl ?_ (.inr ⟨rfl, hnow.1.le_headBy hturn⟩)
    rintro _ ⟨⟩
    exact hnow.1
  | archive | reap => exact h.go rfl rfl hnow

end InTime

/-! ## Every run -/

/-- Ten seconds of grace, and a poll each thirty. -/
def sampleCfg : ScheduledCfg := ⟨⟨60, 8⟩, 10 * 10 ^ 9, 30 * 10 ^ 9⟩

def samplePace : Pace := ⟨10 ^ 9, 10 ^ 9⟩

def sampleDir (session : String) : String := "/var/lib/kdp/data/" ++ session

def sampleEntry (event : String) (startUtc : Timestamp) : FullScheduleEntry :=
  ⟨⟨event, some event, [], none⟩, "", "S", startUtc, none, none⟩

/-- An entry whose moment to arm is past. -/
def unlisted : FullScheduleEntry := sampleEntry "NONE" epoch

/-- An entry that is armed a hundred seconds after the epoch. -/
def listed : FullScheduleEntry := sampleEntry "EV" ⟨3700 * 10 ^ 9, by decide⟩

def listedUnit : CaptureUnit := ⟨"EV", ["EV-A"], "EV", none⟩

theorem armAt_unlisted : ∃ arm, unlisted.armAt sampleCfg.armLeadMin = some arm ∧
    untilArm arm 0 = 0 := by
  have harm : (unlisted.armAt sampleCfg.armLeadMin).map (untilArm · 0) = some 0 := by decide
  exact Option.map_eq_some_iff.1 harm

theorem armAt_listed : ∃ arm, listed.armAt sampleCfg.armLeadMin = some arm ∧
    arm.nanos = 100 * 10 ^ 9 := by
  have harm : (listed.armAt sampleCfg.armLeadMin).map (·.nanos) = some (100 * 10 ^ 9) := by decide
  exact Option.map_eq_some_iff.1 harm

/-- The run of the samples, with time as it passes. -/
def sampleReached : SchedRun String → Prop :=
  (machine id sampleDir sampleCfg).Reachable (Punctual sampleCfg samplePace)

/-- The entry is slept for and captured, unless its session has a marker. -/
theorem exists_armed {s : SchedRun String} (h : sampleReached s) (hphase : s.phase = .head)
    (hpending : s.pending = [listed]) (hrun : s.shutdown = false)
    (hfree : sampleDir "EV" ∉ s.archived) (hnow : s.now < 100 * 10 ^ 9) :
    ∃ s' e, sampleReached s' ∧ s'.phase = .head ∧ s'.boot = s.boot ∧ s'.archived = s.archived ∧
      s'.handled = s.handled ++ [e] ∧ e.began = some (100 * 10 ^ 9) ∧
      s'.log = s.log ++ [.look (.armed listedUnit 28800)] := by
  obtain ⟨arm, harm, hnanos⟩ := armAt_listed
  have hwait : ((untilArm arm s.now : ℕ) : ℤ) = 100 * 10 ^ 9 - s.now := by
    unfold untilArm
    omega
  let reached (now : ℤ) (phase : SchedPhase) :=
    sampleReached { s with now := now, phase := phase, pending := [] }
  have hout : alreadyArchived sampleDir s.archived listed = false := by
    simpa [alreadyArchived, listed, sampleEntry] using hfree
  have h : reached s.now (.sleeping listed (untilArm arm s.now)) :=
    h.step (Step.take s.now hphase hpending hrun hout harm) rfl
  have h : reached (100 * 10 ^ 9) (.resolving listed (100 * 10 ^ 9) []) := by
    refine h.step (Step.wake _ rfl rfl) ?_
    rintro _ _ ⟨⟩
    show s.now + (untilArm arm s.now : ℕ) ≤ _ ∧ _ ≤ s.now + (untilArm arm s.now : ℕ) + _
    rw [hwait]
    split_ifs <;> simp [samplePace]
  have h : reached (100 * 10 ^ 9) (.polling listed (100 * 10 ^ 9) []) :=
    h.step (Step.poll rfl hrun) trivial
  have hunit : (passAt sampleCfg (100 * 10 ^ 9) (.ok [sideOfEvent "EV" "A"]) (101 * 10 ^ 9)).unit id
      listed.toScheduleEntry = some listedUnit := by
    decide
  have htime : (101 * 10 ^ 9 : ℤ) ≤ 100 * 10 ^ 9 + samplePace.request := by decide
  have h := h.step (Step.answerArmed _ _ rfl hunit hfree) htime
  exact ⟨_, _, h, rfl, rfl, rfl, rfl, rfl, rfl⟩

/-- The event of the first entry is not listed; that of the second is captured. -/
theorem exists_second_armed : ∃ s, sampleReached s ∧ s.phase = .head ∧ s.boot = epoch ∧
    s.archived = [] ∧ s.log = [.look (.armed listedUnit 28800)] ∧
    ∃ first second, s.handled = [first, second] ∧ second.began = some (100 * 10 ^ 9) := by
  obtain ⟨arm, harm, hwait⟩ := armAt_unlisted
  let reached (now : ℤ) (phase : SchedPhase) (pending : List FullScheduleEntry)
      (handled : List HandledEntry) :=
    sampleReached ⟨now * 10 ^ 9, false, phase, pending, [], epoch, [listed, unlisted],
      [unlisted, listed], handled, 0, 0, []⟩
  have horder : armOrder sampleCfg.toSchedCfg epoch [listed, unlisted] =
      some [unlisted, listed] := by
    decide +kernel
  have h : sampleReached start := .init
  have h : reached 0 .head [unlisted, listed] [] := h.step (Step.boot epoch _ rfl horder) trivial
  have h : reached 0 (.sleeping unlisted 0) [listed] [] :=
    hwait ▸ h.step (Step.take 0 rfl rfl rfl rfl harm) rfl
  have h : reached 0 (.resolving unlisted 0 []) [listed] [] := by
    refine h.step (Step.wake 0 rfl rfl) ?_
    rintro _ _ ⟨⟩
    decide
  have h : reached 0 (.polling unlisted 0 []) [listed] [] := h.step (Step.poll rfl rfl) trivial
  have h : reached 1 (.resting unlisted 0 [] (passAt sampleCfg 0 (.ok []) (10 ^ 9))) [listed] [] :=
    h.step (Step.answerNothing (.ok []) _ rfl rfl (by decide)) (by show (_ : ℤ) ≤ _; decide)
  have h : reached 31 (.resolving unlisted 0 _) [listed] [] :=
    h.step (Step.rest _ rfl) (by show (_ : ℤ) ≤ _; decide)
  have h : reached 31 (.polling unlisted 0 _) [listed] [] := h.step (Step.poll rfl rfl) trivial
  have h : reached 32 .head [listed] [_] :=
    h.step (Step.answerTooLate (.ok []) _ rfl rfl (by decide)) (by show (_ : ℤ) ≤ _; decide)
  obtain ⟨s, e, h, hphase, hboot, harchived, hhandled, hbegan, hlog⟩ :=
    exists_armed h rfl rfl rfl (by simp) (by decide)
  exact ⟨s, h, hphase, hboot, harchived, hlog, _, e, hhandled, hbegan⟩

/-- The second process does not capture the session again, as its marker stands; the third does,
when the marker was removed. -/
theorem exists_recaptured : ∃ s, sampleReached s ∧ s.phase = .head ∧ s.log =
    [.look (.armed listedUnit 28800), .archived (sampleDir "EV"), .look (.refused "EV"),
      .reaped (sampleDir "EV"), .look (.armed listedUnit 28800)] := by
  obtain ⟨s, h, -, -, harchived, hlog, -⟩ := exists_second_armed
  have horder : armOrder sampleCfg.toSchedCfg epoch [listed] = some [listed] := by
    decide +kernel
  have h := h.step (Step.archive (sampleDir "EV")) trivial
  have h := h.step Step.crash trivial
  have h := h.step (Step.boot epoch _ rfl horder) trivial
  have h := h.step (Step.skip rfl rfl rfl rfl (by simp [alreadyArchived, listed, sampleEntry]))
    trivial
  have h := h.step (Step.reap (sampleDir "EV")) trivial
  have h := h.step Step.crash trivial
  have h := h.step (Step.boot epoch _ rfl horder) trivial
  obtain ⟨s', e, h, hphase, -, -, -, -, hlog'⟩ :=
    exists_armed h rfl rfl rfl (by simp [finish]) (show epoch.nanos < _ by decide)
  refine ⟨s', h, hphase, ?_⟩
  rw [hlog']
  simp [finish, hlog]

/-- In every process the entries of its order are done with one after the other, each after a whole
resolution unless a shutdown or the marker of its session came before, and the marker of the session
it was resolved to is looked for: without one the capture is spawned, with one it is not.  At most
one is spawned after a shutdown was asked for.  Whichever process looks for a marker, it is right
about it, so no session is captured while its marker stands. -/
theorem entries_accounted (h : (machine toUppercase dirOf cfg).Reachable allowed s) :
    (s.phase ≠ .down → armOrder cfg.toSchedCfg s.boot s.schedule = some s.order ∧
      s.handled.map (·.entry) ++ (s.phase.current ++ s.pending) = s.order) ∧
    (∀ e ∈ s.handled, e.Sound toUppercase cfg.toSchedCfg s.shutdown) ∧
    (s.log.drop s.past).filterMap SessionEvent.look? = s.handled.filterMap (·.look) ∧
    s.lateArmed ≤ 1 ∧ LookedRight dirOf s.log := by
  have horder : Machine.Invariant (machine toUppercase dirOf cfg) allowed
      (InOrder toUppercase cfg) :=
    { init := ⟨fun hne => absurd rfl hne, fun hne => absurd rfl hne, trivial, by rintro _ ⟨⟩⟩
      step := fun _ hP _ hs => hP.step hs }
  have hlogged : Machine.Invariant (machine toUppercase dirOf cfg) allowed (Logged dirOf) :=
    { init :=
        { standing := fun d => by simp [machine, start, Standing]
          past := le_rfl
          looks := rfl
          right := fun before look after heq => by simp [machine, start] at heq
          late := Nat.zero_le _
          stopping := fun hne => absurd rfl hne }
      step := fun _ hP _ hs => hP.step hs }
  have ho := horder.holds h
  have hl := hlogged.holds h
  exact ⟨fun hup => ⟨ho.ordered hup, ho.parts hup⟩, ho.sound, hl.looks, hl.late, hl.right⟩

theorem entries_accounted_recaptured : ∃ s : SchedRun String, s.phase = .head ∧ s.log =
    [.look (.armed listedUnit 28800), .archived (sampleDir "EV"), .look (.refused "EV"),
      .reaped (sampleDir "EV"), .look (.armed listedUnit 28800)] ∧
    (∀ e ∈ s.handled, e.Sound id sampleCfg.toSchedCfg s.shutdown) ∧
    (s.log.drop s.past).filterMap SessionEvent.look? = s.handled.filterMap (·.look) ∧
    s.lateArmed ≤ 1 ∧ LookedRight sampleDir s.log := by
  obtain ⟨s, h, hphase, hlog⟩ := exists_recaptured
  exact ⟨s, hphase, hlog, (entries_accounted h).2⟩

/-- While answers come and sleeps end in time, the resolution of an entry begins no earlier than its
moment to arm, and no later than whole turns after the process booted or after the moment to arm of
an entry up to it, one turn for each entry between them. -/
theorem begun_in_time {pace : Pace} (hpace : pace.Proper cfg)
    (h : (machine toUppercase dirOf cfg).Reachable (Punctual cfg pace) s) {i : ℕ} {e : HandledEntry}
    (he : s.handled[i]? = some e) {b : ℤ} (hb : e.began = some b) :
    (∀ arm, e.entry.armAt cfg.armLeadMin = some arm → arm.nanos ≤ b) ∧
      (b ≤ s.boot.nanos + i * turnTime cfg pace ∨
        ∃ j ≤ i, ∃ e' arm, s.handled[j]? = some e' ∧ e'.entry.armAt cfg.armLeadMin = some arm ∧
          b ≤ arm.nanos + pace.slack + (i - j) * turnTime cfg pace) := by
  have hinv : Machine.Invariant (machine toUppercase dirOf cfg) (Punctual cfg pace)
      (InTime cfg pace) :=
    { init := ⟨by rintro _ _ _ ⟨⟩, trivial⟩
      step := fun _ hP ha hs => hP.step hpace ha hs }
  obtain ⟨hearly, hlate⟩ := (hinv.holds h).begun i e b he hb
  have hlt := (List.getElem?_eq_some_iff.1 he).1
  have hturn := hpace.turnTime_nonneg
  have hlen : ((s.handled.take i).map fun h =>
      release cfg pace s.boot.nanos h.entry).length = i := by
    rw [List.length_map, List.length_take, min_eq_left hlt.le]
  refine ⟨hearly, ?_⟩
  rcases Serial.begun_le hlate with hstart | ⟨j, r, hj, hr⟩
  · left
    rwa [hlen, nsmul_eq_mul] at hstart
  · have htake : (s.handled.take i).map (fun h => release cfg pace s.boot.nanos h.entry) ++
        [release cfg pace s.boot.nanos e.entry] =
          (s.handled.take (i + 1)).map fun h => release cfg pace s.boot.nanos h.entry := by
      rw [List.take_add_one, he, List.map_append]
      rfl
    rw [htake, List.getElem?_map] at hj
    obtain ⟨e', he', hrelease⟩ := Option.map_eq_some_iff.1 hj
    have hji : j < i + 1 := by
      by_contra hge
      rw [List.getElem?_take_eq_none (not_lt.1 hge)] at he'
      cases he'
    rw [List.getElem?_take_of_lt hji] at he'
    rw [hlen, nsmul_eq_mul, Nat.cast_sub (Nat.lt_succ_iff.1 hji)] at hr
    cases harm : e'.entry.armAt cfg.armLeadMin with
    | some arm =>
      right
      rw [release, harm] at hrelease
      change arm.nanos + pace.slack = r at hrelease
      exact ⟨j, Nat.lt_succ_iff.1 hji, e', arm, he', harm, hrelease ▸ hr⟩
    | none =>
      left
      rw [release, harm] at hrelease
      change s.boot.nanos = r at hrelease
      have hle : ((i : ℤ) - j) * turnTime cfg pace ≤ i * turnTime cfg pace :=
        mul_le_mul_of_nonneg_right (by omega) hturn
      rw [← hrelease] at hr
      exact hr.trans (add_le_add le_rfl hle)

theorem begun_in_time_second : ∃ s : SchedRun String, s.boot = epoch ∧
    ∃ e, s.handled[1]? = some e ∧ e.began = some (100 * 10 ^ 9) ∧
      (∀ arm, e.entry.armAt sampleCfg.armLeadMin = some arm → arm.nanos ≤ 100 * 10 ^ 9) ∧
      ((100 * 10 ^ 9 : ℤ) ≤ s.boot.nanos + (1 : ℕ) * turnTime sampleCfg samplePace ∨
        ∃ j ≤ (1 : ℕ), ∃ e' arm, s.handled[j]? = some e' ∧
          e'.entry.armAt sampleCfg.armLeadMin = some arm ∧
          100 * 10 ^ 9 ≤ arm.nanos + samplePace.slack +
            ((1 : ℕ) - j) * turnTime sampleCfg samplePace) := by
  obtain ⟨s, h, -, hboot, -, -, first, second, hhandled, hbegan⟩ := exists_second_armed
  have hpace : samplePace.Proper sampleCfg := by constructor <;> decide
  have hsecond : s.handled[1]? = some second := by rw [hhandled]; rfl
  exact ⟨s, hboot, second, hsecond, hbegan, begun_in_time hpace h hsecond hbegan⟩

end SchedRun

end Snapevent
