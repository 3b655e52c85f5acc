import Snapevent.Deploy.Removal

/-!
# The raw backup

Raw files are removed only behind a stored tar whose digest is that of a tar with everything that was
captured, so every captured record is on the disk or stored.  A daily checkpoint that has finished
keeps what it found stored for good, in the checkpoint directory or in such a tar.
-/

namespace Snapevent

/-- A tar of the raw files has been made. -/
def ArchivePhase.hasTar (phase : ArchivePhase) : Bool := phase.backsUp && phase ≠ .tarring

/-- The digest of the stored tar has been compared. -/
def ArchivePhase.compared (phase : ArchivePhase) : Bool := phase.hasTar && phase ≠ .comparing

namespace ArchivedSession

variable {δ : Type} {env : ArchiveEnv} {md5 : List RawLine → δ} {s s' : ArchivedSession}
  {a : Action} {i j : ℕ} {run run' : ArchiveRun}

/-- What the safety of the raw files is about. -/
structure RawView where
  captured : List RawLine
  raw : List RawLine
  isSealed : Bool
  stored : String → Option (List RawLine)
  archives : ℕ → Option ArchiveRun

/-- The part of a session the safety of its raw files is about. -/
def view (s : ArchivedSession) : RawView :=
  ⟨s.captured, s.raw, s.sealed, fun p => (s.remote p).raw, s.archives⟩

/-- The tar that is stored under the prefix has the digest of one with all of the lines. -/
def StoredUnder (md5 : List RawLine → δ) (stored : String → Option (List RawLine)) (p : String)
    (lines : List RawLine) : Prop :=
  ∃ r tar, stored p = some r ∧ md5 r = md5 tar ∧ lines ⊆ tar

/-- What a run of the archive has done for the lines that were captured. -/
structure RunSafe (md5 : List RawLine → δ) (captured : List RawLine) (isSealed : Bool)
    (stored : String → Option (List RawLine)) (run : ArchiveRun) : Prop where
  read : run.phase = .tarring → ∀ x ∈ captured, x.ticker ∈ run.todo ∨ x ∈ run.tar
  taken : run.phase.hasTar = true → captured ⊆ run.tar
  compared : run.phase.compared = true →
    ∃ r, stored run.remotePrefix = some r ∧ md5 r = md5 run.tar
  marked : run.phase.backsUp = true → (isSealed = true ↔ run.phase = .pruning)

/-- The session is on the disk until it is marked, and stored from then on; one run at a time makes
a tar. -/
structure RawSafe (md5 : List RawLine → δ) (v : RawView) : Prop where
  kept : v.isSealed = false → v.captured ⊆ v.raw
  durable : v.isSealed = true → ∃ p, StoredUnder md5 v.stored p v.captured
  alone : ∀ {i j run run'}, v.archives i = some run → v.archives j = some run' →
    run.phase.backsUp = true → run'.phase.backsUp = true → i = j
  runs : ∀ {i run}, v.archives i = some run → RunSafe md5 v.captured v.isSealed v.stored run

/-! ## One step -/

section OneStep

variable {v : RawView} {captured : List RawLine} {isSealed : Bool}
  {stored : String → Option (List RawLine)}

theorem RunSafe.of_not_backsUp (h : run.phase.backsUp = false) :
    RunSafe md5 captured isSealed stored run := by
  cases hphase : run.phase <;> rw [hphase] at h <;> cases h
  all_goals constructor <;> simp [hphase, ArchivePhase.hasTar, ArchivePhase.compared,
    ArchivePhase.backsUp]

/-- Once the digest has been compared, a run has only to mark the session. -/
theorem RunSafe.goOn (h : RunSafe md5 captured isSealed stored run)
    (hphase : run.phase.compared = true) (hphase' : run'.phase.compared = true)
    (hremote : run'.remotePrefix = run.remotePrefix) (htar : run'.tar = run.tar)
    (hpruning : run.phase ≠ .pruning) (hpruning' : run'.phase ≠ .pruning) :
    RunSafe md5 captured isSealed stored run' := by
  have hpast : ∀ {phase : ArchivePhase}, phase.compared = true →
      phase ≠ .tarring ∧ phase.hasTar = true ∧ phase.backsUp = true := by
    intro phase hphase
    simp only [ArchivePhase.compared, ArchivePhase.hasTar, Bool.and_eq_true,
      decide_eq_true_eq] at hphase ⊢
    exact ⟨hphase.1.2, hphase.1, hphase.1.1⟩
  obtain ⟨-, hhas, hback⟩ := hpast hphase
  obtain ⟨hne', -, -⟩ := hpast hphase'
  refine ⟨fun h' => absurd h' hne', fun _ => htar ▸ h.taken hhas, fun _ => ?_, fun _ => ?_⟩
  · rw [hremote, htar]
    exact h.compared hphase
  · rw [h.marked hback]
    exact iff_of_false hpruning hpruning'

namespace RawSafe

/-- A run of the archive starts or goes on. -/
theorem setArchive (h : RawSafe md5 v) (i : ℕ)
    (hsafe : RunSafe md5 v.captured v.isSealed v.stored run')
    (halone : run'.phase.backsUp = true →
      ∀ {k r}, v.archives k = some r → r.phase.backsUp = true → k = i) :
    RawSafe md5 { v with archives := Function.update v.archives i (some run') } where
  kept := h.kept
  durable := h.durable
  alone := by
    intro k l r r' hr hr' hb hb'
    rcases Machine.update_some_eq_some.1 hr with ⟨rfl, rfl⟩ | ⟨-, hold⟩ <;>
      rcases Machine.update_some_eq_some.1 hr' with ⟨rfl, rfl⟩ | ⟨-, hold'⟩
    · rfl
    · exact (halone hb hold' hb').symm
    · exact halone hb' hold hb
    · exact h.alone hold hold' hb hb'
  runs := by
    intro k r hr
    rcases Machine.update_some_eq_some.1 hr with ⟨-, rfl⟩ | ⟨-, hr⟩
    · exact hsafe
    · exact h.runs hr

theorem endArchive (h : RawSafe md5 v) (i : ℕ) :
    RawSafe md5 { v with archives := Function.update v.archives i none } where
  kept := h.kept
  durable := h.durable
  alone := fun hr hr' =>
    h.alone (Machine.update_none_eq_some.1 hr).2 (Machine.update_none_eq_some.1 hr').2
  runs := fun hr => h.runs (Machine.update_none_eq_some.1 hr).2

/-- A record is captured while no run makes a tar. -/
theorem capture (h : RawSafe md5 v) (x : RawLine) (hsealed : v.isSealed = false)
    (hnone : NoneBacksUp v.archives) :
    RawSafe md5 { v with captured := v.captured ++ [x], raw := v.raw ++ [x] } where
  kept := fun hs => List.append_subset.2 ⟨List.subset_append_of_subset_left _ (h.kept hs),
    List.subset_append_right _ _⟩
  durable := fun hs => absurd hs (by simp [hsealed])
  alone := h.alone
  runs := fun hr => .of_not_backsUp (hnone _ _ hr)

/-- A run begins its tar while no other one makes one. -/
theorem check (h : RawSafe md5 v) (i : ℕ) (hsealed : v.isSealed = false)
    (hnone : NoneBacksUp v.archives) (hphase : run'.phase = .tarring)
    (htodo : ∀ x ∈ v.raw, x.ticker ∈ run'.todo) :
    RawSafe md5 { v with archives := Function.update v.archives i (some run') } := by
  refine h.setArchive i ⟨fun _ x hx => .inl (htodo x (h.kept hsealed hx)), ?_, ?_, ?_⟩
    fun _ k r hr hb => ?_
  · simp [hphase, ArchivePhase.hasTar]
  · simp [hphase, ArchivePhase.compared, ArchivePhase.hasTar]
  · simp [hphase, hsealed]
  · rw [hnone k r hr] at hb
    cases hb

/-- A run reads the next ticker into its tar. -/
theorem tarTicker (h : RawSafe md5 v) {t : String} {rest : List String}
    (hrun : v.archives i = some run) (hphase : run.phase = .tarring) (htodo : run.todo = t :: rest) :
    RawSafe md5 { v with archives := Function.update v.archives i (some { run with
      todo := rest, tar := run.tar ++ v.raw.filter (·.ticker = t) }) } := by
  have hsafe := h.runs hrun
  have hmarked := hsafe.marked (by rw [hphase]; rfl)
  have hsealed : v.isSealed = false := by
    rw [← Bool.not_eq_true, hmarked, hphase]
    nofun
  refine h.setArchive i ⟨fun _ x hx => ?_, ?_, ?_, fun _ => hmarked⟩
    fun _ k r hr hb => h.alone hr hrun hb (by rw [hphase]; rfl)
  · rcases hsafe.read hphase x hx with hx' | hx'
    · rw [htodo, List.mem_cons] at hx'
      rcases hx' with rfl | hx'
      · have hraw : x ∈ v.raw.filter (·.ticker = x.ticker) :=
          List.mem_filter.2 ⟨h.kept hsealed hx, decide_eq_true rfl⟩
        exact .inr (List.mem_append_right _ hraw)
      · exact .inl hx'
    · exact .inr (List.mem_append_left _ hx')
  · simp [hphase, ArchivePhase.hasTar]
  · simp [hphase, ArchivePhase.compared, ArchivePhase.hasTar]

/-- A run has stored something in the place of its tar. -/
theorem copyto (h : RawSafe md5 v) (r : List RawLine) (hrun : v.archives i = some run)
    (hphase : run.phase = .tarring) (htodo : run.todo = []) :
    RawSafe md5 { v with
      stored := Function.update v.stored run.remotePrefix (some r)
      archives := Function.update v.archives i (some { run with phase := .comparing }) } := by
  have hsafe := h.runs hrun
  have hmarked := hsafe.marked (by rw [hphase]; rfl)
  have hsealed : v.isSealed = false := by
    rw [← Bool.not_eq_true, hmarked, hphase]
    nofun
  have halone : ∀ {k r}, v.archives k = some r → r.phase.backsUp = true → k = i :=
    fun hr hb => h.alone hr hrun hb (by rw [hphase]; rfl)
  have hother : RawSafe md5
      { v with archives := Function.update v.archives i (some { run with phase := .comparing }) } := by
    refine h.setArchive i ⟨nofun, fun _ x hx => ?_, nofun, fun _ => ?_⟩ fun _ _ _ => halone
    · exact (hsafe.read hphase x hx).resolve_left (by simp [htodo])
    · simp [hsealed]
  refine ⟨hother.kept, fun hs => absurd hs (by simp [hsealed]), hother.alone, fun {k r'} hr => ?_⟩
  have hr' := hother.runs hr
  rcases Machine.update_some_eq_some.1 hr with ⟨-, rfl⟩ | ⟨hk, hr⟩
  · exact ⟨hr'.read, hr'.taken, nofun, hr'.marked⟩
  · refine .of_not_backsUp ?_
    by_contra hb
    exact hk (halone hr (by simpa using hb))

/-- A run has found the digest of its tar. -/
theorem compare (h : RawSafe md5 v) {r : List RawLine} (hrun : v.archives i = some run)
    (hphase : run.phase = .comparing) (hstored : v.stored run.remotePrefix = some r)
    (hmd5 : md5 r = md5 run.tar) :
    RawSafe md5 { v with
      archives := Function.update v.archives i (some { run with phase := .waiting }) } := by
  have hsafe := h.runs hrun
  have hmarked := hsafe.marked (by rw [hphase]; rfl)
  refine h.setArchive i ⟨nofun, fun _ => hsafe.taken (by rw [hphase]; rfl), fun _ => ⟨r, hstored, hmd5⟩,
    fun _ => ?_⟩ fun _ k r hr hb => h.alone hr hrun hb (by rw [hphase]; rfl)
  rw [hmarked, hphase]
  simp

/-- Behind the comparison a run goes on to its mark. -/
theorem goOn (h : RawSafe md5 v) (hrun : v.archives i = some run)
    (hphase : run.phase.compared = true) (hphase' : run'.phase.compared = true)
    (hremote : run'.remotePrefix = run.remotePrefix) (htar : run'.tar = run.tar)
    (hpruning : run.phase ≠ .pruning) (hpruning' : run'.phase ≠ .pruning) :
    RawSafe md5 { v with archives := Function.update v.archives i (some run') } := by
  have hback : run.phase.backsUp = true := by
    simp only [ArchivePhase.compared, ArchivePhase.hasTar, Bool.and_eq_true] at hphase
    exact hphase.1.1
  exact h.setArchive i ((h.runs hrun).goOn hphase hphase' hremote htar hpruning hpruning')
    fun _ k r hr hb => h.alone hr hrun hb hback

/-- A run marks the session. -/
theorem mark (h : RawSafe md5 v) (hrun : v.archives i = some run) (hphase : run.phase = .marking) :
    RawSafe md5 { v with
      isSealed := true
      archives := Function.update v.archives i (some { run with phase := .pruning }) } := by
  have hsafe := h.runs hrun
  have htaken := hsafe.taken (by rw [hphase]; rfl)
  obtain ⟨r, hr, hmd5⟩ := hsafe.compared (by rw [hphase]; rfl)
  have halone : ∀ {k r}, v.archives k = some r → r.phase.backsUp = true → k = i :=
    fun hr hb => h.alone hr hrun hb (by rw [hphase]; rfl)
  refine ⟨nofun, fun _ => ⟨run.remotePrefix, r, run.tar, hr, hmd5, htaken⟩, ?_, ?_⟩
  · intro k l r r' hk hl hb hb'
    have honly : ∀ {k r}, Function.update v.archives i (some { run with phase := .pruning }) k =
        some r → r.phase.backsUp = true → k = i := by
      intro k r hk hb
      rcases Machine.update_some_eq_some.1 hk with ⟨rfl, -⟩ | ⟨-, hk⟩
      · rfl
      · exact halone hk hb
    exact (honly hk hb).trans (honly hl hb').symm
  · intro k r' hk
    rcases Machine.update_some_eq_some.1 hk with ⟨-, rfl⟩ | ⟨hne, hk⟩
    · exact ⟨nofun, fun _ => htaken, fun _ => ⟨r, hr, hmd5⟩, fun _ => by simp⟩
    · refine .of_not_backsUp ?_
      by_contra hb
      exact hne (halone hk (by simpa using hb))

theorem prune (h : RawSafe md5 v) (raw : List RawLine) (hrun : v.archives i = some run)
    (hphase : run.phase = .pruning) : RawSafe md5 { v with raw := raw } where
  kept := by
    intro hs
    have hmarked := ((h.runs hrun).marked (by rw [hphase]; rfl)).2 hphase
    exact absurd hmarked (by simpa using hs)
  durable := h.durable
  alone := h.alone
  runs := h.runs

end RawSafe

end OneStep

/-! ## Every run -/

theorem mem_tickers {x : RawLine} (hx : x ∈ s.raw) : x.ticker ∈ s.tickers :=
  List.mem_dedup.2 (List.mem_map_of_mem hx)

/-- What changes remotely besides the tar does not matter. -/
theorem RawSafe.withRemote {p : String} {r : RemoteSession} (h : RawSafe md5 s.view)
    (hr : r.raw = (s.remote p).raw) :
    RawSafe md5 ⟨s.captured, s.raw, s.sealed, fun q => (Function.update s.remote p r q).raw,
      s.archives⟩ := by
  have hstored : (fun q => (Function.update s.remote p r q).raw) = fun q => (s.remote q).raw := by
    funext q
    by_cases hq : q = p
    · subst hq
      simp [hr]
    · simp [hq]
  rw [hstored]
  exact h

theorem stored_withRemote (p : String) (r : List RawLine) :
    (fun q => ((s.withRemote p fun remote => { remote with raw := some r }).remote q).raw) =
      Function.update (fun q => (s.remote q).raw) p (some r) := by
  funext q
  by_cases hq : q = p
  · subst hq
    simp [withRemote]
  · simp [withRemote, hq]

theorem RawSafe.step (hbackup : env.backupRaw = true) (h : RawSafe md5 s.view)
    (ha : Orderly s a) (hs : Step env md5 s a s') : RawSafe md5 s'.view := by
  cases hs with
  | capture x => exact h.capture x ha.1 ha.2
  | quiet | unit | markPrefix | markDone | checkpoint | checkpointDone | dieCheckpoint | expire
  | reap => exact h
  | start i => exact h.setArchive i (.of_not_backsUp rfl) nofun
  | process i _ hrun | count i hrun | curate i hrun =>
    exact h.setArchive i (.of_not_backsUp rfl) nofun
  | skipEmpty i | finish i | dieArchive i => exact h.endArchive i
  | upload i _ _ hrun => exact h.withRemote rfl
  | copyTicker j hrun => exact h.withRemote rfl
  | check i hrun hphase =>
    rw [if_pos hbackup]
    exact h.check i ha.1 ha.2 rfl fun x hx => mem_tickers hx
  | tarTicker i hrun hphase htodo => exact h.tarTicker hrun hphase htodo
  | copyto i stored hrun hphase htodo =>
    have hcopied := h.copyto stored hrun hphase htodo
    simp only [view, stored_withRemote] at hcopied ⊢
    exact hcopied
  | compare i hrun hphase hstored hmd5 => exact h.compare hrun hphase hstored hmd5
  | lock i hrun hphase | timeout i hrun hphase =>
    exact h.goOn hrun (by rw [hphase]; rfl) rfl rfl rfl (by simp [hphase]) nofun
  | @purge run i left hrun hphase =>
    have hmarking : RawSafe md5 (s.withArchive i { run with phase := .marking }).view :=
      h.goOn hrun (by rw [hphase]; rfl) rfl rfl rfl (by simp [hphase]) nofun
    exact hmarking.withRemote rfl
  | skipPurge i hrun hphase =>
    exact h.goOn hrun (by rw [hphase]; rfl) rfl rfl rfl (by simp [hphase]) nofun
  | mark i written hrun hphase =>
    obtain rfl : written = true := ha
    have hmarked := h.mark hrun hphase
    simp only [view, Bool.or_true] at hmarked ⊢
    exact hmarked
  | prune i gone hrun hphase => exact h.prune _ hrun hphase

theorem RawSafe.invariant (hbackup : env.backupRaw = true) :
    Machine.Invariant (machine env md5) Orderly fun s => RawSafe md5 s.view where
  init :=
    { kept := fun _ => List.Subset.refl _
      durable := nofun
      alone := nofun
      runs := nofun }
  step _ h ha hs := h.step hbackup ha hs

/-- Two runs of the archive that overlap further lose a record: the second makes its tar of what the
first has left, and stores it over the tar of the first. -/
theorem overlapping_archives_lose : ∃ s x,
    (machine ⟨"remote:kdp", true, true⟩ id).Reachable Machine.always s ∧ x ∈ s.captured ∧ x ∉ s.raw ∧
      ∀ p, ¬ StoredUnder id (fun p => (s.remote p).raw) p s.captured := by
  have h : (machine ⟨"remote:kdp", true, true⟩ id).Reachable Machine.always .empty := .init
  have h := h.step (Step.capture ⟨"K", "1"⟩) trivial
  have h := h.step (Step.start 0 .explicit "" rfl rfl rfl rfl nofun) trivial
  have h := h.step (Step.start 1 .explicit "" rfl rfl rfl rfl nofun) trivial
  have h := h.step (Step.process 0 [("K", ⟨some true, some true⟩)] rfl rfl) trivial
  have h := h.step (Step.process 1 [("K", ⟨some true, some true⟩)] rfl rfl) trivial
  have h := h.step (Step.count 0 rfl rfl (by decide)) trivial
  have h := h.step (Step.count 1 rfl rfl (by decide)) trivial
  have h := h.step (Step.curate 0 rfl rfl) trivial
  have h := h.step (Step.curate 1 rfl rfl) trivial
  have h := h.step (Step.upload 0 "K" ⟨some true, some true⟩ rfl rfl (by decide)) trivial
  have h := h.step (Step.check 0 rfl rfl (by decide)) trivial
  have h := h.step (Step.tarTicker 0 rfl rfl rfl) trivial
  have h := h.step (Step.copyto 0 [⟨"K", "1"⟩] rfl rfl rfl) trivial
  have h := h.step (Step.compare 0 rfl rfl rfl rfl) trivial
  have h := h.step (Step.lock 0 rfl rfl rfl) trivial
  have h := h.step (Step.purge 0 [] rfl rfl rfl rfl (by decide)) trivial
  have h := h.step (Step.mark 0 true rfl rfl) trivial
  have h := h.step (Step.prune 0 [⟨"K", "1"⟩] rfl rfl rfl) trivial
  have h := h.step (Step.check 1 rfl rfl (by decide)) trivial
  have h := h.step (Step.copyto 1 [] rfl rfl rfl) trivial
  refine ⟨_, ⟨"K", "1"⟩, h, by decide, by decide, fun p hstored => ?_⟩
  obtain ⟨r, tar, hr, rfl, hsub⟩ := hstored
  by_cases hp : p = "remote:kdp"
  · subst hp
    cases hr
    exact List.not_mem_nil (hsub List.mem_cons_self)
  · have hremote : (⟨"remote:kdp", true, true⟩ : ArchiveEnv).archivePrefix "" none = "remote:kdp" := by
      decide
    simp [withRemote, withArchive, empty, hremote, hp] at hr

/-! ## Daily checkpoints -/

/-- A finished checkpoint has copied all that it found, and one under way has copied it but for the
tickers that are left. -/
structure Copies (s : ArchivedSession) : Prop where
  captured : s.raw ⊆ s.captured
  found : ∀ {j c}, s.checkpoints j = some c → c.found ⊆ s.raw
  copying : ∀ {j c}, s.checkpoints j = some c → ∀ x ∈ c.found,
    x.ticker ∈ c.todo ∨ (c.remotePrefix, x) ∈ s.copied
  copied : ∀ e ∈ s.copied, e.2 ∈ s.captured
  finished : ∀ e ∈ s.checkpointed, ∀ x ∈ e.2, (e.1, x) ∈ s.copied

theorem Copies.step (h : Copies s) (hlock : LockHeld s.holder s.archives s.checkpoints)
    (hs : Step env md5 s a s') : Copies s' := by
  cases hs with
  | capture x =>
    exact
      { captured := List.append_subset.2 ⟨List.subset_append_of_subset_left _ h.captured,
          List.subset_append_right _ _⟩
        found := fun hc => List.subset_append_of_subset_left _ (h.found hc)
        copying := h.copying
        copied := fun e he => List.mem_append_left _ (h.copied e he)
        finished := h.finished }
  | prune i gone hrun hphase hprune =>
    simp only [ArchiveRun.prunes, Bool.and_eq_true] at hprune
    have hholder := hlock.archive hrun hprune.2
    exact
      { captured := fun x hx => h.captured (List.mem_filter.1 hx).1
        found := fun hc => by
          have hother := hlock.checkpoint hc
          rw [hholder] at hother
          cases hother
        copying := h.copying
        copied := h.copied
        finished := h.finished }
  | checkpoint j arg =>
    exact
      { captured := h.captured
        found := fun hc => by
          rcases Machine.update_some_eq_some.1 hc with ⟨-, rfl⟩ | ⟨-, hc⟩
          · exact List.Subset.refl _
          · exact h.found hc
        copying := fun hc x hx => by
          rcases Machine.update_some_eq_some.1 hc with ⟨-, rfl⟩ | ⟨-, hc⟩
          · exact .inl (mem_tickers hx)
          · exact h.copying hc x hx
        copied := h.copied
        finished := h.finished }
  | @copyTicker run t rest j hrun htodo =>
    exact
      { captured := h.captured
        found := fun hc => by
          rcases Machine.update_some_eq_some.1 hc with ⟨-, rfl⟩ | ⟨-, hc⟩
          · have hfound := h.found hrun
            exact hfound
          · exact h.found hc
        copying := fun hc x hx => by
          rcases Machine.update_some_eq_some.1 hc with ⟨-, rfl⟩ | ⟨-, hc⟩
          · rcases h.copying hrun x hx with hleft | hcopied
            · rw [htodo, List.mem_cons] at hleft
              rcases hleft with rfl | hleft
              · have hline : x ∈ s.linesOf x.ticker :=
                  List.mem_filter.2 ⟨h.found hrun hx, decide_eq_true rfl⟩
                exact .inr (List.mem_append_right _ (List.mem_map_of_mem hline))
              · exact .inl hleft
            · exact .inr (List.mem_append_left _ hcopied)
          · exact (h.copying hc x hx).imp_right (List.mem_append_left _)
        copied := fun e he => by
          rcases List.mem_append.1 he with he | he
          · exact h.copied e he
          · obtain ⟨x, hx, rfl⟩ := List.mem_map.1 he
            exact h.captured (List.mem_filter.1 hx).1
        finished := fun e he x hx => List.mem_append_left _ (h.finished e he x hx) }
  | @checkpointDone run j hrun htodo =>
    exact
      { captured := h.captured
        found := fun hc => h.found (Machine.update_none_eq_some.1 hc).2
        copying := fun hc => h.copying (Machine.update_none_eq_some.1 hc).2
        copied := h.copied
        finished := fun e he x hx => by
          rcases List.mem_append.1 he with he | he
          · exact h.finished e he x hx
          · rw [List.mem_singleton.1 he] at hx ⊢
            exact (h.copying hrun x hx).resolve_left (by simp [htodo]) }
  | dieCheckpoint j =>
    exact
      { captured := h.captured
        found := fun hc => h.found (Machine.update_none_eq_some.1 hc).2
        copying := fun hc => h.copying (Machine.update_none_eq_some.1 hc).2
        copied := h.copied
        finished := h.finished }
  | _ => exact ⟨h.captured, h.found, h.copying, h.copied, h.finished⟩

/-- A line is stored: in the checkpoint directory, or in a tar whose digest is that of the stored
one. -/
def RemoteSession.Has (md5 : List RawLine → δ) (r : RemoteSession) (x : RawLine) : Prop :=
  x ∈ r.inflight ∨ ∃ stored tar, r.raw = some stored ∧ md5 stored = md5 tar ∧ x ∈ tar

/-- Every line a checkpoint has copied is stored. -/
def CopiedStored (md5 : List RawLine → δ) (copied : List (String × RawLine))
    (remote : String → RemoteSession) : Prop :=
  ∀ e ∈ copied, RemoteSession.Has md5 (remote e.1) e.2

theorem CopiedStored.update {copied : List (String × RawLine)} {remote : String → RemoteSession}
    (h : CopiedStored md5 copied remote) {p : String} {r : RemoteSession}
    (hr : ∀ x, (p, x) ∈ copied → RemoteSession.Has md5 r x) :
    CopiedStored md5 copied (Function.update remote p r) := by
  rintro ⟨q, x⟩ he
  by_cases hq : q = p
  · subst hq
    rw [Function.update_self]
    exact hr x he
  · rw [Function.update_of_ne hq]
    exact h _ he

theorem CopiedStored.step (h : CopiedStored md5 s.copied s.remote) (hsafe : RawSafe md5 s.view)
    (hcopies : Copies s) (ha : Whole s a) (hs : Step env md5 s a s') :
    CopiedStored md5 s'.copied s'.remote := by
  cases hs with
  | upload => exact h.update fun x hx => h _ hx
  | copyto i stored hrun hphase htodo =>
    refine h.update fun x hx => .inr ⟨stored, stored, rfl, rfl, ?_⟩
    rw [ha _ hrun]
    exact ((hsafe.runs hrun).read hphase x (hcopies.copied _ hx)).resolve_left (by simp [htodo])
  | purge i left hrun hphase =>
    have hrunsafe := hsafe.runs hrun
    obtain ⟨r, hr, hmd5⟩ := hrunsafe.compared (by rw [hphase]; rfl)
    have htaken := hrunsafe.taken (by rw [hphase]; rfl)
    exact h.update fun x hx => .inr ⟨r, _, hr, hmd5, htaken (hcopies.copied _ hx)⟩
  | @copyTicker run t rest j hrun =>
    have hmore : CopiedStored md5 s.copied (Function.update s.remote run.remotePrefix
        { s.remote run.remotePrefix with
          inflight := (s.remote run.remotePrefix).inflight ++ s.linesOf t }) :=
      h.update fun x hx => (h _ hx).imp_left (List.mem_append_left _)
    intro e he
    rcases List.mem_append.1 he with he | he
    · exact hmore e he
    · obtain ⟨x, hx, rfl⟩ := List.mem_map.1 he
      simp only [RemoteSession.Has, withRemote, Function.update_self]
      exact .inl (List.mem_append_right _ hx)
  | _ => exact h

end ArchivedSession

end Snapevent
