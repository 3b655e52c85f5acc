import Mathlib.Data.List.Dedup
import Mathlib.Logic.Function.Basic
import Snapevent.Core.Ids
import Snapevent.Lib.Machine

/-!
# The archive of a session

What `kdp-archive.sh` and `kdp-checkpoint.sh` do with one session of captured records.  Any number
of runs of either script are interleaved with the capture, and each may end at any point.  A run of
the archive processes the capture, uploads the curated output and a tar of the raw files, compares
the digest of the stored tar, and only then removes the daily checkpoints and the raw files, under a
lock that the checkpoints share.
-/

namespace Snapevent

/-- A line of a capture file, with the ticker directory the file is in. -/
structure RawLine where
  ticker : String
  line : String
  deriving DecidableEq, Repr

/-- The fields of a `manifest.json` the archive reads. -/
structure ManifestFlags where
  complete : Option Bool
  twoSided : Option Bool
  deriving DecidableEq, Repr

/-- The ticker counts as incomplete. -/
def ManifestFlags.incomplete (m : ManifestFlags) : Bool := m.complete.getD false ≠ true

/-- The ticker is kept in the curated set; only an explicit `false` drops it. -/
def ManifestFlags.kept (m : ManifestFlags) : Bool := m.twoSided ≠ some false

/-- The settings of the scripts. -/
structure ArchiveEnv where
  rcloneRemote : String
  backupRaw : Bool
  prune : Bool
  deriving DecidableEq, Repr

/-- The first line of a text, as `head -n1` gives it. -/
def firstLine (s : String) : String := String.ofList (s.toList.takeWhile (· ≠ '\n'))

/-- Where a run of the archive uploads to: its argument, else what the marker file of the session
says, else the setting. -/
def ArchiveEnv.archivePrefix (env : ArchiveEnv) (arg : String) (marker : Option String) : String :=
  if arg ≠ "" then arg
  else
    let marked := (marker.map firstLine).getD ""
    if marked ≠ "" then marked else env.rcloneRemote

/-- Where a checkpoint copies to: its argument, else the setting. -/
def ArchiveEnv.checkpointPrefix (env : ArchiveEnv) (arg : String) : String :=
  if arg ≠ "" then arg else env.rcloneRemote

/-- How an archive is asked for. -/
inductive ArchiveMode
  | explicit
  | sweep
  deriving DecidableEq, Repr

/-- Where a run of the archive is. -/
inductive ArchivePhase
  | processing
  | counting
  | curating
  | uploading
  | tarring
  | comparing
  | waiting
  | purging
  | marking
  | pruning
  deriving DecidableEq, Repr

/-- The run is reading the raw files for its tar, or has read them. -/
def ArchivePhase.backsUp : ArchivePhase → Bool
  | .processing | .counting | .curating | .uploading => false
  | .tarring | .comparing | .waiting | .purging | .marking | .pruning => true

/-- A run of the archive: where it uploads to and its variables.  `todo` are the ticker directories
the tar has still to read. -/
structure ArchiveRun where
  remotePrefix : String
  phase : ArchivePhase
  incomplete : ℕ
  todo : List String
  tar : List RawLine
  locked : Bool
  deriving DecidableEq, Repr

/-- The raw files are removed.  A run whose raw backup failed has ended before. -/
def ArchiveRun.prunes (env : ArchiveEnv) (run : ArchiveRun) : Bool :=
  env.prune && run.incomplete = 0 && run.locked

/-- A run of the checkpoint: where it copies to, the ticker directories it has still to copy, and,
as history, the lines that were there when it began. -/
structure CheckpointRun where
  remotePrefix : String
  todo : List String
  found : List RawLine
  deriving DecidableEq, Repr

/-- Who holds the checkpoint lock of the session. -/
inductive LockHolder
  | archive (i : ℕ)
  | checkpoint (j : ℕ)
  deriving DecidableEq, Repr

/-- What is stored remotely of a session under one prefix. -/
structure RemoteSession where
  processed : List (String × ManifestFlags)
  raw : Option (List RawLine)
  inflight : List RawLine
  deriving DecidableEq, Repr

/-- A session: its local files, what is stored remotely, the lock and the runs.  As history, the
records that were captured, whether the session has been marked as archived, the lines checkpoints
have copied, and what each finished checkpoint had found. -/
structure ArchivedSession where
  dir : Bool
  raw : List RawLine
  done : Bool
  archived : Bool
  marker : Option String
  recentWrites : Bool
  unitActive : Bool
  processed : List (String × ManifestFlags)
  remote : String → RemoteSession
  holder : Option LockHolder
  archives : ℕ → Option ArchiveRun
  checkpoints : ℕ → Option CheckpointRun
  captured : List RawLine
  sealed : Bool
  copied : List (String × RawLine)
  checkpointed : List (String × List RawLine)

namespace ArchivedSession

/-- Before anything has been captured. -/
def empty : ArchivedSession where
  dir := false
  raw := []
  done := false
  archived := false
  marker := none
  recentWrites := false
  unitActive := false
  processed := []
  remote := fun _ => ⟨[], none, []⟩
  holder := none
  archives := fun _ => none
  checkpoints := fun _ => none
  captured := []
  sealed := false
  copied := []
  checkpointed := []

variable (s : ArchivedSession)

/-- The ticker directories. -/
def tickers : List String := (s.raw.map (·.ticker)).dedup

/-- The lines of a ticker directory. -/
def linesOf (t : String) : List RawLine := s.raw.filter (·.ticker = t)

/-- The archive run `i` goes on as `run`. -/
def withArchive (i : ℕ) (run : ArchiveRun) : ArchivedSession :=
  { s with archives := Function.update s.archives i (some run) }

/-- Something changes remotely under a prefix. -/
def withRemote (p : String) (f : RemoteSession → RemoteSession) : ArchivedSession :=
  { s with remote := Function.update s.remote p (f (s.remote p)) }

/-- The lock as it is when a holder is gone. -/
def released (h : LockHolder) : Option LockHolder := if s.holder = some h then none else s.holder

/-- The archive run `i` is gone, and its lock with it. -/
def endArchive (i : ℕ) : ArchivedSession :=
  { s with archives := Function.update s.archives i none, holder := s.released (.archive i) }

/-- The checkpoint run `j` is gone, and its lock with it. -/
def endCheckpoint (j : ℕ) : ArchivedSession :=
  { s with
    checkpoints := Function.update s.checkpoints j none, holder := s.released (.checkpoint j) }

/-- What happens in a step.  The numbers name the runs; `process` comes with what the processing has
written, `copyto` with what is stored, `purge` with what it leaves, `mark` with whether the marker
could be written and `prune` with what has been removed so far. -/
inductive Action
  | capture (x : RawLine)
  | quiet
  | unit (active : Bool)
  | markPrefix (p : String)
  | markDone
  | start (i : ℕ) (mode : ArchiveMode) (arg : String)
  | process (i : ℕ) (out : List (String × ManifestFlags))
  | skipEmpty (i : ℕ)
  | count (i : ℕ)
  | curate (i : ℕ)
  | upload (i : ℕ) (ticker : String) (m : ManifestFlags)
  | check (i : ℕ)
  | tarTicker (i : ℕ)
  | copyto (i : ℕ) (stored : List RawLine)
  | compare (i : ℕ)
  | lock (i : ℕ)
  | timeout (i : ℕ)
  | purge (i : ℕ) (left : List RawLine)
  | skipPurge (i : ℕ)
  | mark (i : ℕ) (written : Bool)
  | prune (i : ℕ) (gone : List RawLine)
  | finish (i : ℕ)
  | dieArchive (i : ℕ)
  | checkpoint (j : ℕ) (arg : String)
  | copyTicker (j : ℕ)
  | checkpointDone (j : ℕ)
  | dieCheckpoint (j : ℕ)
  | expire
  | reap
  deriving DecidableEq, Repr

/-- One step.  A run that fails or is killed makes the step `dieArchive` or `dieCheckpoint`, whatever
its phase. -/
inductive Step {δ : Type} (env : ArchiveEnv) (md5 : List RawLine → δ) (s : ArchivedSession) :
    Action → ArchivedSession → Prop
  | capture (x : RawLine) :
    Step env md5 s (.capture x) { s with
      dir := true, raw := s.raw ++ [x], recentWrites := true, captured := s.captured ++ [x] }
  | quiet : Step env md5 s .quiet { s with recentWrites := false }
  | unit (active : Bool) : Step env md5 s (.unit active) { s with unitActive := active }
  | markPrefix (p : String) :
    Step env md5 s (.markPrefix p) { s with dir := true, marker := some p }
  | markDone (hdir : s.dir = true) : Step env md5 s .markDone { s with done := true }
  | start (i : ℕ) (mode : ArchiveMode) (arg : String) (hfree : s.archives i = none)
      (hdir : s.dir = true) (harchived : s.archived = false) (hunit : s.unitActive = false)
      (hsweep : mode = .sweep → s.done = true ∧ s.recentWrites = false) :
    Step env md5 s (.start i mode arg)
      (s.withArchive i ⟨env.archivePrefix arg s.marker, .processing, 0, [], [], false⟩)
  | process {run} (i : ℕ) (out : List (String × ManifestFlags)) (hrun : s.archives i = some run)
      (hphase : run.phase = .processing) :
    Step env md5 s (.process i out)
      { s.withArchive i { run with phase := .counting } with
        processed := out ++ s.processed.filter (fun e => e.1 ∉ out.map Prod.fst) }
  | skipEmpty {run} (i : ℕ) (hrun : s.archives i = some run) (hphase : run.phase = .counting)
      (hnone : s.processed = []) : Step env md5 s (.skipEmpty i) (s.endArchive i)
  | count {run} (i : ℕ) (hrun : s.archives i = some run) (hphase : run.phase = .counting)
      (hsome : s.processed ≠ []) :
    Step env md5 s (.count i) (s.withArchive i { run with
      phase := .curating, incomplete := s.processed.countP (·.2.incomplete) })
  | curate {run} (i : ℕ) (hrun : s.archives i = some run) (hphase : run.phase = .curating) :
    Step env md5 s (.curate i)
      { s.withArchive i { run with phase := .uploading } with
        processed := s.processed.filter (·.2.kept) }
  | upload {run} (i : ℕ) (ticker : String) (m : ManifestFlags) (hrun : s.archives i = some run)
      (hphase : run.phase = .uploading) (hmem : (ticker, m) ∈ s.processed) :
    Step env md5 s (.upload i ticker m) (s.withRemote run.remotePrefix fun r =>
      { r with processed := (ticker, m) :: r.processed.filter (·.1 ≠ ticker) })
  | check {run} (i : ℕ) (hrun : s.archives i = some run) (hphase : run.phase = .uploading)
      (hsame : ∀ e ∈ s.processed, e ∈ (s.remote run.remotePrefix).processed) :
    Step env md5 s (.check i) (s.withArchive i
      (if env.backupRaw then { run with phase := .tarring, todo := s.tickers }
      else { run with phase := .waiting }))
  | tarTicker {run t rest} (i : ℕ) (hrun : s.archives i = some run) (hphase : run.phase = .tarring)
      (htodo : run.todo = t :: rest) :
    Step env md5 s (.tarTicker i)
      (s.withArchive i { run with todo := rest, tar := run.tar ++ s.linesOf t })
  | copyto {run} (i : ℕ) (stored : List RawLine) (hrun : s.archives i = some run)
      (hphase : run.phase = .tarring) (htodo : run.todo = []) :
    Step env md5 s (.copyto i stored)
      ((s.withArchive i { run with phase := .comparing }).withRemote run.remotePrefix fun r =>
        { r with raw := some stored })
  | compare {run stored} (i : ℕ) (hrun : s.archives i = some run) (hphase : run.phase = .comparing)
      (hstored : (s.remote run.remotePrefix).raw = some stored) (hmd5 : md5 stored = md5 run.tar) :
    Step env md5 s (.compare i) (s.withArchive i { run with phase := .waiting })
  | lock {run} (i : ℕ) (hrun : s.archives i = some run) (hphase : run.phase = .waiting)
      (hfree : s.holder = none) :
    Step env md5 s (.lock i) { s.withArchive i { run with phase := .purging, locked := true } with
      holder := some (.archive i) }
  | timeout {run} (i : ℕ) (hrun : s.archives i = some run) (hphase : run.phase = .waiting) :
    Step env md5 s (.timeout i) (s.withArchive i { run with phase := .purging })
  | purge {run} (i : ℕ) (left : List RawLine) (hrun : s.archives i = some run)
      (hphase : run.phase = .purging) (hbackup : env.backupRaw = true) (hlocked : run.locked = true)
      (hleft : left ⊆ (s.remote run.remotePrefix).inflight) :
    Step env md5 s (.purge i left)
      ((s.withArchive i { run with phase := .marking }).withRemote run.remotePrefix fun r =>
        { r with inflight := left })
  | skipPurge {run} (i : ℕ) (hrun : s.archives i = some run) (hphase : run.phase = .purging)
      (hskip : ¬ (env.backupRaw = true ∧ run.locked = true)) :
    Step env md5 s (.skipPurge i) (s.withArchive i { run with phase := .marking })
  | mark {run} (i : ℕ) (written : Bool) (hrun : s.archives i = some run)
      (hphase : run.phase = .marking) :
    Step env md5 s (.mark i written)
      { s.withArchive i { run with phase := .pruning } with
        archived := s.archived || written, sealed := s.sealed || written }
  | prune {run} (i : ℕ) (gone : List RawLine) (hrun : s.archives i = some run)
      (hphase : run.phase = .pruning) (hprune : run.prunes env = true) :
    Step env md5 s (.prune i gone) { s with raw := s.raw.filter (· ∉ gone) }
  | finish {run} (i : ℕ) (hrun : s.archives i = some run) (hphase : run.phase = .pruning) :
    Step env md5 s (.finish i) (s.endArchive i)
  | dieArchive {run} (i : ℕ) (hrun : s.archives i = some run) :
    Step env md5 s (.dieArchive i) (s.endArchive i)
  | checkpoint (j : ℕ) (arg : String) (hfree : s.checkpoints j = none) (hdir : s.dir = true)
      (hlock : s.holder = none) :
    Step env md5 s (.checkpoint j arg) { s with
      checkpoints := Function.update s.checkpoints j
        (some ⟨env.checkpointPrefix arg, s.tickers, s.raw⟩)
      holder := some (.checkpoint j) }
  | copyTicker {run t rest} (j : ℕ) (hrun : s.checkpoints j = some run)
      (htodo : run.todo = t :: rest) :
    Step env md5 s (.copyTicker j)
      { s.withRemote run.remotePrefix fun r => { r with inflight := r.inflight ++ s.linesOf t } with
        checkpoints := Function.update s.checkpoints j (some { run with todo := rest })
        copied := s.copied ++ (s.linesOf t).map (run.remotePrefix, ·) }
  | checkpointDone {run} (j : ℕ) (hrun : s.checkpoints j = some run) (htodo : run.todo = []) :
    Step env md5 s (.checkpointDone j) { s.endCheckpoint j with
      checkpointed := s.checkpointed ++ [(run.remotePrefix, run.found)] }
  | dieCheckpoint {run} (j : ℕ) (hrun : s.checkpoints j = some run) :
    Step env md5 s (.dieCheckpoint j) (s.endCheckpoint j)
  | expire : Step env md5 s .expire { s with processed := [] }
  | reap (harchived : s.archived = true) (hempty : s.raw = []) :
    Step env md5 s .reap { s with dir := false, done := false, archived := false, marker := none }

/-- The scripts at work on a session. -/
def machine {δ : Type} (env : ArchiveEnv) (md5 : List RawLine → δ) :
    Machine ArchivedSession Action :=
  ⟨.empty, Step env md5⟩

/-- No run of the archive is past its upload of the output. -/
def NoneBacksUp (archives : ℕ → Option ArchiveRun) : Prop :=
  ∀ i run, archives i = some run → run.phase.backsUp = false

/-- What the scripts rely on: nothing is captured, and no run begins its tar, once the session has
been archived or while some run is past that point; and the marker can be written. -/
def Orderly (s : ArchivedSession) : Action → Prop
  | .capture _ | .check _ => s.sealed = false ∧ NoneBacksUp s.archives
  | .mark _ written => written = true
  | _ => True

/-- What is stored is the whole of the tar. -/
def Whole (s : ArchivedSession) : Action → Prop
  | .copyto i stored => ∀ run, s.archives i = some run → stored = run.tar
  | _ => True

theorem NoneBacksUp.update {archives : ℕ → Option ArchiveRun} (h : NoneBacksUp archives) (i : ℕ)
    {run : ArchiveRun} (hphase : run.phase.backsUp = false) :
    NoneBacksUp (Function.update archives i (some run)) := by
  intro k r hr
  rcases Machine.update_some_eq_some.1 hr with ⟨-, rfl⟩ | ⟨-, hr⟩
  · exact hphase
  · exact h k r hr

/-! ## A whole run -/

/-- A session in which one record was captured and a run of the archive has come to its prune. -/
theorem exists_pruning : ∃ s s', ∃ x : RawLine,
    (machine ⟨"remote:kdp", true, true⟩ id).Reachable (fun s a => Orderly s a ∧ Whole s a) s ∧
    (machine ⟨"remote:kdp", true, true⟩ id).Step s (.prune 0 [x]) s' ∧
    s.captured = [x] ∧ s.raw = [x] ∧ s'.raw = [] ∧ s.sealed = true := by
  have hnone : NoneBacksUp empty.archives := nofun
  have h : (machine ⟨"remote:kdp", true, true⟩ id).Reachable (fun s a => Orderly s a ∧ Whole s a)
      .empty := .init
  have h := h.step (Step.capture ⟨"K", "1"⟩) ⟨⟨rfl, hnone⟩, trivial⟩
  have h := h.step (Step.start 0 .explicit "" rfl rfl rfl rfl nofun) ⟨trivial, trivial⟩
  have h := h.step (Step.process 0 [("K", ⟨some true, some true⟩)] rfl rfl) ⟨trivial, trivial⟩
  have h := h.step (Step.count 0 rfl rfl (by decide)) ⟨trivial, trivial⟩
  have h := h.step (Step.curate 0 rfl rfl) ⟨trivial, trivial⟩
  have h := h.step (Step.upload 0 "K" ⟨some true, some true⟩ rfl rfl (by decide)) ⟨trivial, trivial⟩
  have h := h.step (Step.check 0 rfl rfl (by decide))
    ⟨⟨rfl, (((hnone.update 0 rfl).update 0 rfl).update 0 rfl).update 0 rfl⟩, trivial⟩
  have h := h.step (Step.tarTicker 0 rfl rfl rfl) ⟨trivial, trivial⟩
  have h := h.step (Step.copyto 0 [⟨"K", "1"⟩] rfl rfl rfl) ⟨trivial, by rintro run ⟨⟩; rfl⟩
  have h := h.step (Step.compare 0 rfl rfl rfl rfl) ⟨trivial, trivial⟩
  have h := h.step (Step.lock 0 rfl rfl rfl) ⟨trivial, trivial⟩
  have h := h.step (Step.purge 0 [] rfl rfl rfl rfl (by decide)) ⟨trivial, trivial⟩
  have h := h.step (Step.mark 0 true rfl rfl) ⟨rfl, trivial⟩
  exact ⟨_, _, _, h, Step.prune 0 _ rfl rfl rfl, rfl, rfl, rfl, rfl⟩

end ArchivedSession

end Snapevent
