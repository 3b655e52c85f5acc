import Snapevent.Cli.Universe

/-!
# The universe capture

The sweep loop with the units it has armed (`universe.rs`, `supervisor.rs`): a unit captures, writes
its done marker and ends while the loop lists, plans and arms, one event at a time.  The loop looks
for the markers of an event under `Path::join` of the data directory, a unit writes them under the
two joined by a slash; which directory a path names is the file system's, and stays a parameter.
-/

namespace Snapevent

/-! ## Directories -/

/-- `Path::join`: an absolute path replaces the base. -/
def pathJoin (base path : String) : String :=
  if path.toList.head? = some '/' then path
  else if base.toList.getLast?.all (· = '/') then base ++ path
  else base ++ "/" ++ path

/-- The parameters of a universe capture. -/
structure UniverseCfg (Dir : Type) where
  maxUnits : ℕ
  dataDir : String
  resolve : String → Dir
  parseRfc3339 : String → Option Timestamp
  enough : Option String → Bool

namespace UniverseCfg

variable {Dir : Type} (cfg : UniverseCfg Dir)

/-- The directory planning looks for the markers of an event in. -/
def planDir (event : String) : Dir := cfg.resolve (pathJoin cfg.dataDir event)

/-- The directory the unit of a session writes. -/
def unitDir (session : String) : Dir := cfg.resolve (cfg.dataDir ++ "/" ++ session)

end UniverseCfg

/-! ## The state -/

/-- How far a unit in flight has come. -/
inductive UnitPhase
  | capturing
  | marked
  | finished
  deriving DecidableEq, Repr

/-- A unit in flight. -/
structure InFlight where
  unit : CaptureUnit
  phase : UnitPhase
  deriving DecidableEq, Repr

/-- Where the sweep loop is. -/
inductive SweepPhase
  | top
  | discovering
  | planning (inFlight : List String) (rest : List (String × Cohort)) (gate : GateCfg)
      (p : Planning)
  | arming (rest : List (String × Cohort))
  deriving DecidableEq, Repr

/-- The loop, the units it holds, and the directories that carry a marker. -/
structure UniverseState (Dir : Type) where
  phase : SweepPhase
  inflight : List InFlight
  done : List Dir
  archived : List Dir
  deriving DecidableEq, Repr

/-- What happens next: a unit writes its marker, a unit ends, an archive completes, or the loop goes
on. -/
inductive UniverseAction
  | mark (i : ℕ)
  | finish (i : ℕ)
  | archive (session : String)
  | reap
  | discover (listings : List SeriesListing) (gate : GateCfg)
  | plan
  | arm

section Step

variable {Dir : Type} (cfg : UniverseCfg Dir)

/-- A capture that starts over a data directory. -/
def UniverseState.init (done archived : List Dir) : UniverseState Dir :=
  { phase := .top, inflight := [], done, archived }

/-- The unit an event is armed as. -/
def armedUnit (event : String) (cohort : Cohort) : CaptureUnit :=
  { session := event, tickers := cohort.tickers, event, remotePrefix := none }

/-- One step; `none` when it is not possible. -/
def universeStep [DecidableEq Dir] (s : UniverseState Dir) : UniverseAction → Option (UniverseState Dir)
  | .mark i =>
    match s.inflight[i]? with
    | some ⟨unit, .capturing⟩ =>
      some { s with
        inflight := s.inflight.modify i fun u => { u with phase := .marked }
        done := cfg.unitDir unit.session :: s.done }
    | _ => none
  | .finish i =>
    match s.inflight[i]? with
    | some ⟨_, .marked⟩ =>
      some { s with inflight := s.inflight.modify i fun u => { u with phase := .finished } }
    | _ => none
  | .archive session =>
    if cfg.unitDir session ∈ s.done then
      some { s with archived := cfg.unitDir session :: s.archived }
    else none
  | .reap =>
    match s.phase with
    | .top =>
      some { s with
        phase := .discovering, inflight := s.inflight.filter fun u => u.phase ≠ .finished }
    | _ => none
  | .discover listings gate =>
    match s.phase with
    | .discovering =>
      let inFlight := s.inflight.map (·.unit.session)
      some { s with
        phase := .planning inFlight (sweepGroups cfg.parseRfc3339 cfg.enough listings) gate
          (.start cfg.maxUnits inFlight) }
    | _ => none
  | .plan =>
    match s.phase with
    | .planning inFlight ((event, cohort) :: rest) gate p =>
      let captured := cfg.planDir event ∈ s.done ∨ cfg.planDir event ∈ s.archived
      some { s with
        phase := .planning inFlight rest gate (planEvent gate inFlight captured p event cohort) }
    | .planning _ [] _ p => some { s with phase := .arming p.plan.arm }
    | _ => none
  | .arm =>
    match s.phase with
    | .arming ((event, cohort) :: rest) =>
      some { s with
        phase := .arming rest
        inflight := s.inflight ++ [InFlight.mk (armedUnit event cohort) .capturing] }
    | .arming [] => some { s with phase := .top }
    | _ => none

/-- A run. -/
def universeRun [DecidableEq Dir] (actions : List UniverseAction) (s : UniverseState Dir) :
    Option (UniverseState Dir) :=
  actions.foldlM (universeStep cfg) s

/-! ## What is claimed -/

/-- No session is in flight twice, no unit subscribes a ticker twice, there are not too many units,
and the session that is armed next has neither a unit nor a marker. -/
structure CapturesOnce (s : UniverseState Dir) : Prop where
  sessions : (s.inflight.map (·.unit.session)).Nodup
  tickers : ∀ u ∈ s.inflight, u.unit.tickers.Nodup
  bound : s.inflight.length ≤ cfg.maxUnits
  arms : ∀ session cohort rest, s.phase = .arming ((session, cohort) :: rest) →
    (∀ u ∈ s.inflight, u.unit.session ≠ session) ∧
      cfg.unitDir session ∉ s.done ∧ cfg.unitDir session ∉ s.archived

/-- The event is one of those a sweep of the run lists. -/
def Listed (actions : List UniverseAction) (event : String) : Prop :=
  ∃ listings gate, .discover listings gate ∈ actions ∧
    event ∈ (sweepGroups cfg.parseRfc3339 cfg.enough listings).map (·.1)

/-- The listed events have directories of their own, and planning looks where the units write. -/
structure OwnDirectories (actions : List UniverseAction) : Prop where
  same : ∀ event, Listed cfg actions event → cfg.planDir event = cfg.unitDir event
  own : ∀ event event', Listed cfg actions event → Listed cfg actions event' →
    cfg.unitDir event = cfg.unitDir event' → event = event'

/-! ## The invariant -/

/-- The cohorts that are to be armed. -/
def SweepPhase.toArm : SweepPhase → List (String × Cohort)
  | .planning _ _ _ p => p.plan.arm
  | .arming rest => rest
  | _ => []

/-- The cohorts that are still to be planned. -/
def SweepPhase.toPlan : SweepPhase → List (String × Cohort)
  | .planning _ rest _ _ => rest
  | _ => []

/-- The units that may still be added to the plan. -/
def SweepPhase.budget : SweepPhase → ℕ
  | .planning _ _ _ p => p.budget
  | _ => 0

/-- What every reachable state keeps, over the events of a run. -/
structure UniverseInv (listed : String → Prop) (s : UniverseState Dir) : Prop where
  sessions : (s.inflight.map (·.unit.session)).Nodup
  tickers : ∀ u ∈ s.inflight, u.unit.tickers.Nodup
  named : ∀ u ∈ s.inflight, listed u.unit.session
  names : ∀ inFlight rest gate p, s.phase = .planning inFlight rest gate p →
    inFlight = s.inflight.map (·.unit.session)
  known : ∀ e ∈ s.phase.toArm ++ s.phase.toPlan, listed e.1 ∧ e.2.tickers.Nodup
  distinct : ((s.phase.toArm ++ s.phase.toPlan).map (·.1)).Nodup
  fresh : ∀ e ∈ s.phase.toArm, e.1 ∉ s.inflight.map (·.unit.session) ∧
    cfg.unitDir e.1 ∉ s.done ∧ cfg.unitDir e.1 ∉ s.archived
  bound : s.inflight.length + s.phase.toArm.length + s.phase.budget ≤ cfg.maxUnits

variable {cfg} {listed : String → Prop} {s s' : UniverseState Dir}

theorem universeInv_init (done archived : List Dir) :
    UniverseInv cfg listed (.init done archived) where
  sessions := List.nodup_nil
  tickers := by simp [UniverseState.init]
  named := by simp [UniverseState.init]
  names := by simp [UniverseState.init]
  known := by simp [UniverseState.init, SweepPhase.toArm, SweepPhase.toPlan]
  distinct := List.nodup_nil
  fresh := by simp [UniverseState.init, SweepPhase.toArm]
  bound := by simp [UniverseState.init, SweepPhase.toArm, SweepPhase.budget]

theorem UniverseInv.capturesOnce (h : UniverseInv cfg listed s) : CapturesOnce cfg s where
  sessions := h.sessions
  tickers := h.tickers
  bound := by
    have := h.bound
    omega
  arms := by
    intro session cohort rest hphase
    have hmem : (session, cohort) ∈ s.phase.toArm := by
      rw [hphase]
      exact List.mem_cons_self
    obtain ⟨hnew, hdone, harchived⟩ := h.fresh _ hmem
    refine ⟨fun u hu heq => hnew ?_, hdone, harchived⟩
    rw [← heq]
    exact List.mem_map_of_mem hu

theorem modify_map {α β : Type} {f : α → α} {g : α → β} (h : ∀ a, g (f a) = g a) (i : ℕ)
    (l : List α) : (l.modify i f).map g = l.map g := by
  induction l generalizing i with
  | nil => rw [List.modify_nil]
  | cons a l ih =>
    cases i with
    | zero => simp [h]
    | succ i => simp [ih]

theorem mem_modify {α : Type} {f : α → α} {i : ℕ} {l : List α} {a : α} (h : a ∈ l.modify i f) :
    a ∈ l ∨ ∃ b ∈ l, a = f b := by
  induction l generalizing i with
  | nil => simp at h
  | cons b l ih =>
    cases i with
    | zero =>
      rw [List.modify_zero_cons] at h
      cases List.mem_cons.1 h with
      | inl ha => exact Or.inr ⟨b, List.mem_cons_self, ha⟩
      | inr ha => exact Or.inl (List.mem_cons_of_mem _ ha)
    | succ i =>
      rw [List.modify_succ_cons] at h
      cases List.mem_cons.1 h with
      | inl ha => exact Or.inl (by simp [ha])
      | inr ha =>
        refine (ih ha).imp (List.mem_cons_of_mem _) ?_
        rintro ⟨c, hc, hac⟩
        exact ⟨c, List.mem_cons_of_mem _ hc, hac⟩

/-- A unit that only changes its phase changes nothing the invariant speaks of. -/
theorem UniverseInv.setPhase (h : UniverseInv cfg listed s) (i : ℕ) (phase : UnitPhase) :
    UniverseInv cfg listed
      { s with inflight := s.inflight.modify i fun u => { u with phase } } := by
  have hsessions : (s.inflight.modify i fun u => { u with phase }).map (·.unit.session) =
      s.inflight.map (·.unit.session) :=
    modify_map (f := fun u : InFlight => { u with phase }) (fun _ => rfl) i s.inflight
  have hmem (P : CaptureUnit → Prop) (hP : ∀ u ∈ s.inflight, P u.unit) :
      ∀ u ∈ s.inflight.modify i fun u => { u with phase }, P u.unit := by
    intro u hu
    rcases mem_modify hu with hu | ⟨v, hv, rfl⟩
    · exact hP u hu
    · exact hP v hv
  constructor
  · exact hsessions ▸ h.sessions
  · exact hmem (fun unit => unit.tickers.Nodup) h.tickers
  · exact hmem (fun unit => listed unit.session) h.named
  · intro inFlight rest gate p hphase
    show inFlight = (s.inflight.modify i fun u => { u with phase }).map (·.unit.session)
    rw [hsessions]
    exact h.names inFlight rest gate p hphase
  · exact h.known
  · exact h.distinct
  · intro e he
    show e.1 ∉ (s.inflight.modify i fun u => { u with phase }).map (·.unit.session) ∧ _
    rw [hsessions]
    exact h.fresh e he
  · have := h.bound
    simpa using this

/-- A unit in flight may write its marker: no cohort that is to be armed has its directory. -/
theorem UniverseInv.mark (h : UniverseInv cfg listed s)
    (hown : ∀ e e', listed e → listed e' → cfg.unitDir e = cfg.unitDir e' → e = e')
    {u : InFlight} (hu : u ∈ s.inflight) :
    UniverseInv cfg listed { s with done := cfg.unitDir u.unit.session :: s.done } := by
  refine ⟨h.sessions, h.tickers, h.named, h.names, h.known, h.distinct, fun e he => ?_, h.bound⟩
  obtain ⟨hnew, hdone, harchived⟩ := h.fresh e he
  refine ⟨hnew, ?_, harchived⟩
  intro hmem
  cases List.mem_cons.1 hmem with
  | inl heq =>
    have hsession : e.1 = u.unit.session :=
      hown _ _ (h.known e (List.mem_append_left _ he)).1 (h.named u hu) heq
    apply hnew
    rw [hsession]
    exact List.mem_map_of_mem hu
  | inr hmem => exact hdone hmem

section Sweep

variable {inflight : List InFlight} {done archived : List Dir} {inFlight : List String}
  {event : String} {cohort : Cohort} {rest : List (String × Cohort)} {gate : GateCfg}
  {p : Planning}

theorem UniverseInv.archive (h : UniverseInv cfg listed s) {dir : Dir} (hdir : dir ∈ s.done) :
    UniverseInv cfg listed { s with archived := dir :: s.archived } := by
  refine ⟨h.sessions, h.tickers, h.named, h.names, h.known, h.distinct, fun e he => ?_, h.bound⟩
  obtain ⟨hnew, hdone, harchived⟩ := h.fresh e he
  refine ⟨hnew, hdone, ?_⟩
  intro hmem
  cases List.mem_cons.1 hmem with
  | inl heq =>
    apply hdone
    rw [heq]
    exact hdir
  | inr hmem => exact harchived hmem

theorem UniverseInv.reap (h : UniverseInv cfg listed ⟨.top, inflight, done, archived⟩) :
    UniverseInv cfg listed
      ⟨.discovering, inflight.filter fun u => u.phase ≠ .finished, done, archived⟩ := by
  have hsub : (inflight.filter fun u => u.phase ≠ .finished).Sublist inflight :=
    List.filter_sublist
  refine ⟨h.sessions.sublist (hsub.map _), fun u hu => h.tickers u (hsub.subset hu),
    fun u hu => h.named u (hsub.subset hu), ?_, h.known, h.distinct, ?_, ?_⟩
  · intro inFlight rest gate p hp
    cases hp
  · intro e he
    cases he
  · have hbound : inflight.length + 0 + 0 ≤ cfg.maxUnits := h.bound
    have hlength := hsub.length_le
    show (inflight.filter fun u => u.phase ≠ .finished).length + 0 + 0 ≤ cfg.maxUnits
    omega

theorem UniverseInv.discover (h : UniverseInv cfg listed ⟨.discovering, inflight, done, archived⟩)
    {listings : List SeriesListing}
    (hlisted : ∀ e ∈ sweepGroups cfg.parseRfc3339 cfg.enough listings, listed e.1)
    (gate : GateCfg) :
    UniverseInv cfg listed
      ⟨.planning (inflight.map (·.unit.session))
        (sweepGroups cfg.parseRfc3339 cfg.enough listings) gate
        (.start cfg.maxUnits (inflight.map (·.unit.session))), inflight, done, archived⟩ := by
  have hgroups : SortedMap.Sorted (sweepGroups cfg.parseRfc3339 cfg.enough listings) ∧
      ∀ e ∈ sweepGroups cfg.parseRfc3339 cfg.enough listings, e.2.tickers.Nodup :=
    sweepGroups_keeps cfg.enough listings
  refine ⟨h.sessions, h.tickers, h.named, ?_, fun e he => ⟨hlisted e he, hgroups.2 e he⟩,
    hgroups.1.nodup_keys, ?_, ?_⟩
  · intro inFlight rest gate' p hp
    cases hp
    rfl
  · intro e he
    cases he
  · have hbound : inflight.length + 0 + 0 ≤ cfg.maxUnits := h.bound
    have hdedup : (inflight.map (·.unit.session)).dedup.length = inflight.length := by
      have hnodup : (inflight.map (·.unit.session)).Nodup := h.sessions
      rw [hnodup.dedup, List.length_map]
    show inflight.length + 0 +
      (cfg.maxUnits - (inflight.map (·.unit.session)).dedup.length) ≤ cfg.maxUnits
    omega

/-- An event that planning passes over. -/
theorem UniverseInv.pass
    (h : UniverseInv cfg listed
      ⟨.planning inFlight ((event, cohort) :: rest) gate p, inflight, done, archived⟩)
    {q : Planning} (harm : q.plan.arm = p.plan.arm) (hbudget : q.budget = p.budget) :
    UniverseInv cfg listed ⟨.planning inFlight rest gate q, inflight, done, archived⟩ := by
  have hsub : (q.plan.arm ++ rest).Sublist (p.plan.arm ++ (event, cohort) :: rest) := by
    rw [harm]
    exact (List.sublist_cons_self _ _).append_left _
  refine ⟨h.sessions, h.tickers, h.named, ?_, fun e he => h.known e (hsub.subset he),
    h.distinct.sublist (hsub.map _), ?_, ?_⟩
  · intro inFlight' rest' gate' p' hp
    cases hp
    exact h.names _ _ _ _ rfl
  · intro e he
    apply h.fresh e
    show e ∈ p.plan.arm
    rw [← harm]
    exact he
  · show inflight.length + q.plan.arm.length + q.budget ≤ cfg.maxUnits
    rw [harm, hbudget]
    exact h.bound

/-- An event that joins the arm list. -/
theorem UniverseInv.join
    (h : UniverseInv cfg listed
      ⟨.planning inFlight ((event, cohort) :: rest) gate p, inflight, done, archived⟩)
    {q : Planning} (hnew : event ∉ inFlight)
    (hmarkers : cfg.unitDir event ∉ done ∧ cfg.unitDir event ∉ archived)
    (harm : q.plan.arm = p.plan.arm ++ [(event, cohort)]) (hbudget : q.budget + 1 = p.budget) :
    UniverseInv cfg listed ⟨.planning inFlight rest gate q, inflight, done, archived⟩ := by
  have hnames : inFlight = inflight.map (·.unit.session) := h.names _ _ _ _ rfl
  have happend : q.plan.arm ++ rest = p.plan.arm ++ (event, cohort) :: rest := by
    rw [harm, List.append_assoc, List.singleton_append]
  refine ⟨h.sessions, h.tickers, h.named, ?_, ?_, ?_, ?_, ?_⟩
  · intro inFlight' rest' gate' p' hp
    cases hp
    exact hnames
  · show ∀ e ∈ q.plan.arm ++ rest, _
    rw [happend]
    exact h.known
  · show ((q.plan.arm ++ rest).map (·.1)).Nodup
    rw [happend]
    exact h.distinct
  · show ∀ e ∈ q.plan.arm, _
    rw [harm]
    intro e he
    cases List.mem_append.1 he with
    | inl he => exact h.fresh e he
    | inr he =>
      rw [List.mem_singleton] at he
      subst he
      rw [hnames] at hnew
      exact ⟨hnew, hmarkers⟩
  · have hbound : inflight.length + p.plan.arm.length + p.budget ≤ cfg.maxUnits := h.bound
    show inflight.length + q.plan.arm.length + q.budget ≤ cfg.maxUnits
    rw [harm, List.length_append, List.length_singleton]
    omega

theorem UniverseInv.planned
    (h : UniverseInv cfg listed ⟨.planning inFlight [] gate p, inflight, done, archived⟩) :
    UniverseInv cfg listed ⟨.arming p.plan.arm, inflight, done, archived⟩ := by
  refine ⟨h.sessions, h.tickers, h.named, ?_, h.known, h.distinct, h.fresh, ?_⟩
  · intro inFlight' rest' gate' p' hp
    cases hp
  · have hbound : inflight.length + p.plan.arm.length + p.budget ≤ cfg.maxUnits := h.bound
    show inflight.length + p.plan.arm.length + 0 ≤ cfg.maxUnits
    omega

/-- The next cohort of the arm list becomes a unit in flight. -/
theorem UniverseInv.arm
    (h : UniverseInv cfg listed ⟨.arming ((event, cohort) :: rest), inflight, done, archived⟩) :
    UniverseInv cfg listed
      ⟨.arming rest, inflight ++ [InFlight.mk (armedUnit event cohort) .capturing], done, archived⟩ := by
  have hknown : ∀ e ∈ (event, cohort) :: rest, listed e.1 ∧ e.2.tickers.Nodup := by
    simpa [SweepPhase.toArm, SweepPhase.toPlan] using h.known
  have hdistinct : event ∉ rest.map Prod.fst ∧ (rest.map Prod.fst).Nodup := by
    simpa [SweepPhase.toArm, SweepPhase.toPlan] using h.distinct
  have hnew : event ∉ inflight.map (·.unit.session) := (h.fresh _ List.mem_cons_self).1
  have hsessions : (inflight ++ [InFlight.mk (armedUnit event cohort) .capturing]).map (·.unit.session) =
      inflight.map (·.unit.session) ++ [event] := by
    rw [List.map_append]
    rfl
  have hunits (P : CaptureUnit → Prop) (hold : ∀ u ∈ inflight, P u.unit)
      (hnew : P (armedUnit event cohort)) :
      ∀ u ∈ inflight ++ [InFlight.mk (armedUnit event cohort) .capturing], P u.unit := by
    intro u hu
    cases List.mem_append.1 hu with
    | inl hu => exact hold u hu
    | inr hu =>
      rw [List.mem_singleton] at hu
      rw [hu]
      exact hnew
  refine ⟨?_, hunits (fun unit => unit.tickers.Nodup) h.tickers (hknown _ List.mem_cons_self).2,
    hunits (fun unit => listed unit.session) h.named (hknown _ List.mem_cons_self).1, ?_, ?_, ?_,
    ?_, ?_⟩
  · show ((inflight ++ [InFlight.mk (armedUnit event cohort) .capturing]).map (·.unit.session)).Nodup
    rw [hsessions, ← List.concat_eq_append, List.nodup_concat]
    exact ⟨hnew, h.sessions⟩
  · intro inFlight' rest' gate' p' hp
    cases hp
  · show ∀ e ∈ rest ++ [], _
    rw [List.append_nil]
    exact fun e he => hknown e (List.mem_cons_of_mem _ he)
  · show ((rest ++ []).map Prod.fst).Nodup
    rw [List.append_nil]
    exact hdistinct.2
  · intro e he
    obtain ⟨hnewe, hmarkers⟩ := h.fresh e (List.mem_cons_of_mem _ he)
    refine ⟨?_, hmarkers⟩
    show e.1 ∉ (inflight ++ [InFlight.mk (armedUnit event cohort) .capturing]).map (·.unit.session)
    rw [hsessions, List.mem_append, List.mem_singleton, not_or]
    refine ⟨hnewe, ?_⟩
    intro heq
    apply hdistinct.1
    rw [← heq]
    exact List.mem_map_of_mem he
  · have hbound : inflight.length + (rest.length + 1) + 0 ≤ cfg.maxUnits := h.bound
    show (inflight ++ [InFlight.mk (armedUnit event cohort) .capturing]).length + rest.length + 0 ≤ cfg.maxUnits
    rw [List.length_append, List.length_singleton]
    omega

theorem UniverseInv.armed (h : UniverseInv cfg listed ⟨.arming [], inflight, done, archived⟩) :
    UniverseInv cfg listed ⟨.top, inflight, done, archived⟩ := by
  refine ⟨h.sessions, h.tickers, h.named, ?_, h.known, h.distinct, h.fresh, h.bound⟩
  intro inFlight' rest' gate' p' hp
  cases hp

end Sweep

/-- One step keeps the invariant, when the events it lists have directories of their own. -/
theorem UniverseInv.step [DecidableEq Dir] (h : UniverseInv cfg listed s)
    (hsame : ∀ e, listed e → cfg.planDir e = cfg.unitDir e)
    (hown : ∀ e e', listed e → listed e' → cfg.unitDir e = cfg.unitDir e' → e = e')
    {action : UniverseAction}
    (hlisted : ∀ listings gate, action = .discover listings gate →
      ∀ e ∈ sweepGroups cfg.parseRfc3339 cfg.enough listings, listed e.1)
    (hstep : universeStep cfg s action = some s') : UniverseInv cfg listed s' := by
  obtain ⟨phase, inflight, done, archived⟩ := s
  cases action with
  | mark i =>
    simp only [universeStep] at hstep
    split at hstep
    · next unit hi =>
      cases hstep
      exact (h.mark hown (List.mem_of_getElem? hi)).setPhase i .marked
    · cases hstep
  | finish i =>
    simp only [universeStep] at hstep
    split at hstep
    · cases hstep
      exact h.setPhase i .finished
    · cases hstep
  | archive session =>
    simp only [universeStep] at hstep
    split_ifs at hstep with hdone
    cases hstep
    exact h.archive hdone
  | reap =>
    cases phase with
    | top =>
      cases hstep
      exact h.reap
    | discovering => cases hstep
    | planning => cases hstep
    | arming => cases hstep
  | discover listings gate =>
    cases phase with
    | discovering =>
      cases hstep
      exact h.discover (hlisted listings gate rfl) gate
    | top => cases hstep
    | planning => cases hstep
    | arming => cases hstep
  | plan =>
    cases phase with
    | planning inFlight rest gate p =>
      cases rest with
      | nil =>
        cases hstep
        exact h.planned
      | cons e rest =>
        cases hstep
        cases planEvent_cases gate inFlight
            (decide (cfg.planDir e.1 ∈ done ∨ cfg.planDir e.1 ∈ archived)) p e.1 e.2 with
        | inl hpass => exact h.pass hpass.1 hpass.2
        | inr hjoin =>
          obtain ⟨hnew, hcaptured, harm, hbudget⟩ := hjoin
          have hlistedEvent : listed e.1 :=
            (h.known e (List.mem_append_right _ List.mem_cons_self)).1
          rw [decide_eq_false_iff_not, hsame e.1 hlistedEvent, not_or] at hcaptured
          exact h.join hnew hcaptured harm hbudget
    | top => cases hstep
    | discovering => cases hstep
    | arming => cases hstep
  | arm =>
    cases phase with
    | arming rest =>
      cases rest with
      | nil =>
        cases hstep
        exact h.armed
      | cons e rest =>
        cases hstep
        exact h.arm
    | top => cases hstep
    | discovering => cases hstep
    | planning => cases hstep

/-- A run keeps the invariant. -/
theorem UniverseInv.run [DecidableEq Dir] (h : UniverseInv cfg listed s)
    (hsame : ∀ e, listed e → cfg.planDir e = cfg.unitDir e)
    (hown : ∀ e e', listed e → listed e' → cfg.unitDir e = cfg.unitDir e' → e = e')
    {actions : List UniverseAction}
    (hlisted : ∀ e, Listed cfg actions e → listed e)
    (hrun : universeRun cfg actions s = some s') : UniverseInv cfg listed s' := by
  induction actions generalizing s with
  | nil =>
    cases hrun
    exact h
  | cons action actions ih =>
    rw [universeRun, List.foldlM_cons] at hrun
    obtain ⟨t, ht, hrest⟩ := Option.bind_eq_some_iff.1 hrun
    refine ih (h.step hsame hown ?_ ht) ?_ hrest
    · rintro listings gate rfl e he
      exact hlisted _ ⟨listings, gate, List.mem_cons_self, List.mem_map_of_mem he⟩
    · rintro e ⟨listings, gate, hmem, he⟩
      exact hlisted _ ⟨listings, gate, List.mem_cons_of_mem _ hmem, he⟩

end Step

/-- Over any listings and any interleaving, no session is captured twice, no ticker is subscribed
twice by a unit and there are not too many units, when the listed events have directories of their
own in which planning and the units agree. -/
theorem universe_captures_once {Dir : Type} [DecidableEq Dir] (cfg : UniverseCfg Dir)
    (done archived : List Dir) (actions : List UniverseAction) (s : UniverseState Dir)
    (hown : OwnDirectories cfg actions)
    (hrun : universeRun cfg actions (.init done archived) = some s) : CapturesOnce cfg s :=
  (UniverseInv.run (universeInv_init done archived) hown.same hown.own (fun _ h => h)
    hrun).capturesOnce

/-! ## Two runs -/

/-- A capture of one unit at a time over relative paths. -/
def singleUnit : UniverseCfg String :=
  { maxUnits := 1, dataDir := "data", resolve := id, parseRfc3339 := fun _ => none
    enough := fun _ => true }

/-- A gate that admits what has no times. -/
def openGate : GateCfg := { now := epoch, armLead := 0, clashSub := true, hasBound := false }

/-- One open market of an event. -/
def openMarket (event : String) : Market :=
  { ticker := event ++ "-A", status := some "active", eventTicker := some event, openTime := none
    closeTime := none, volumeFp := none }

/-- The listing of one market. -/
def oneMarket (event : String) : List SeriesListing := [⟨"K", [("open", .ok [openMarket event])]⟩]

/-- Sweep the listing, arm its event, let the unit complete, and sweep again up to the arming. -/
def captureTwice (event : String) : List UniverseAction :=
  [.reap, .discover (oneMarket event) openGate, .plan, .plan, .arm, .arm, .mark 0, .finish 0,
    .reap, .discover (oneMarket event) openGate, .plan, .plan]

theorem listed_captureTwice {event e : String} (h : Listed singleUnit (captureTwice event) e) :
    e ∈ (sweepGroups singleUnit.parseRfc3339 singleUnit.enough (oneMarket event)).map (·.1) := by
  obtain ⟨listings, gate, hmem, he⟩ := h
  simp only [captureTwice, List.mem_cons, List.not_mem_nil, or_false, reduceCtorEq, false_or,
    UniverseAction.discover.injEq, or_self] at hmem
  rw [← hmem.1]
  exact he

/-- An event with a directory of its own is armed once. -/
theorem universe_captures_once_sample :
    ∃ s, universeRun singleUnit (captureTwice "K-1") (.init [] []) = some s ∧
      CapturesOnce singleUnit s := by
  have hlisted (e : String) (h : Listed singleUnit (captureTwice "K-1") e) : e = "K-1" := by
    have he := listed_captureTwice h
    rw [show sweepGroups singleUnit.parseRfc3339 singleUnit.enough (oneMarket "K-1") =
      [("K-1", ⟨"K", ["K-1-A"], none, none, none⟩)] by decide] at he
    simpa using he
  have hown : OwnDirectories singleUnit (captureTwice "K-1") := by
    constructor
    · intro e he
      rw [hlisted e he]
      decide
    · intro e e' he he' _
      rw [hlisted e he, hlisted e' he']
  have hrun : universeRun singleUnit (captureTwice "K-1") (.init [] []) =
      some ⟨.arming [], [], ["data/K-1"], []⟩ := by decide
  exact ⟨_, hrun, universe_captures_once singleUnit [] [] (captureTwice "K-1") _ hown hrun⟩

/-- An event ticker that is an absolute path is armed again although its unit has written its done
marker. -/
theorem absolute_event_captured_twice :
    ∃ s, universeRun singleUnit (captureTwice "/K") (.init [] []) = some s ∧
      ¬ CapturesOnce singleUnit s := by
  have hrun : universeRun singleUnit (captureTwice "/K") (.init [] []) =
      some ⟨.arming [("/K", ⟨"K", ["/K-A"], none, none, none⟩)], [], ["data//K"], []⟩ := by decide
  refine ⟨_, hrun, fun h => ?_⟩
  have hdone := (h.arms "/K" _ [] rfl).2.1
  revert hdone
  decide

end Snapevent
