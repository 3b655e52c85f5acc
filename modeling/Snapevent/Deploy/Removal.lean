import Snapevent.Deploy.Archive

/-!
# What the archive removes

A run of the archive removes daily checkpoints and raw files only while it holds the lock that
checkpoints take, so never under a checkpoint that is copying them; and it removes raw files only
when every ticker that was processed is complete.
-/

namespace Snapevent.ArchivedSession

variable {δ : Type} {env : ArchiveEnv} {md5 : List RawLine → δ} {s s' : ArchivedSession}
  {a : Action} {i j : ℕ} {run run' : ArchiveRun}

/-! ## The lock -/

/-- A run that has the lock is its holder. -/
structure LockHeld (holder : Option LockHolder) (archives : ℕ → Option ArchiveRun)
    (checkpoints : ℕ → Option CheckpointRun) : Prop where
  archive : ∀ {i run}, archives i = some run → run.locked = true → holder = some (.archive i)
  checkpoint : ∀ {j c}, checkpoints j = some c → holder = some (.checkpoint j)

namespace LockHeld

variable {holder : Option LockHolder} {archives : ℕ → Option ArchiveRun}
  {checkpoints : ℕ → Option CheckpointRun}

/-- A run of the archive starts or goes on, with the lock only if it is the holder. -/
theorem setArchive (h : LockHeld holder archives checkpoints)
    (hlocked : run'.locked = true → holder = some (.archive i)) :
    LockHeld holder (Function.update archives i (some run')) checkpoints where
  archive := by
    intro k r hr hl
    rcases Machine.update_some_eq_some.1 hr with ⟨rfl, rfl⟩ | ⟨-, hr⟩
    · exact hlocked hl
    · exact h.archive hr hl
  checkpoint := h.checkpoint

/-- A run of the archive that is gone leaves the lock to the others. -/
theorem endArchive (h : LockHeld s.holder s.archives s.checkpoints) (i : ℕ) :
    LockHeld (s.endArchive i).holder (s.endArchive i).archives (s.endArchive i).checkpoints where
  archive := by
    intro k r hr hl
    obtain ⟨hk, hr⟩ := Machine.update_none_eq_some.1 hr
    simp [ArchivedSession.endArchive, released, h.archive hr hl, hk]
  checkpoint := by
    intro k c hc
    have hholder := h.checkpoint (show s.checkpoints k = some c from hc)
    simp [ArchivedSession.endArchive, released, hholder]

/-- A checkpoint that is gone leaves the lock to the others. -/
theorem endCheckpoint (h : LockHeld s.holder s.archives s.checkpoints) (j : ℕ) :
    LockHeld (s.endCheckpoint j).holder (s.endCheckpoint j).archives
      (s.endCheckpoint j).checkpoints where
  archive := by
    intro k r hr hl
    have hholder := h.archive (show s.archives k = some r from hr) hl
    simp [ArchivedSession.endCheckpoint, released, hholder]
  checkpoint := by
    intro k c hc
    obtain ⟨hk, hc⟩ := Machine.update_none_eq_some.1 hc
    simp [ArchivedSession.endCheckpoint, released, h.checkpoint hc, hk]

/-- A free lock goes to a run of the archive. -/
theorem takeArchive (h : LockHeld none archives checkpoints) (i : ℕ) (run' : ArchiveRun) :
    LockHeld (some (.archive i)) (Function.update archives i (some run')) checkpoints where
  archive := by
    intro k r hr hl
    rcases Machine.update_some_eq_some.1 hr with ⟨rfl, -⟩ | ⟨-, hr⟩
    · rfl
    · cases h.archive hr hl
  checkpoint := fun hc => by cases h.checkpoint hc

/-- A checkpoint goes on, as the holder of the lock. -/
theorem setCheckpoint (h : LockHeld holder archives checkpoints) {c : CheckpointRun}
    (hholder : holder = some (.checkpoint j)) :
    LockHeld holder archives (Function.update checkpoints j (some c)) where
  archive := h.archive
  checkpoint := by
    intro k c' hc
    rcases Machine.update_some_eq_some.1 hc with ⟨rfl, -⟩ | ⟨-, hc⟩
    · exact hholder
    · exact h.checkpoint hc

/-- A free lock goes to a checkpoint. -/
theorem takeCheckpoint (h : LockHeld none archives checkpoints) (j : ℕ) (c : CheckpointRun) :
    LockHeld (some (.checkpoint j)) archives (Function.update checkpoints j (some c)) where
  archive := fun hr hl => by cases h.archive hr hl
  checkpoint := by
    intro k c' hc
    rcases Machine.update_some_eq_some.1 hc with ⟨rfl, -⟩ | ⟨-, hc⟩
    · rfl
    · cases h.checkpoint hc

theorem step (h : LockHeld s.holder s.archives s.checkpoints) (hs : Step env md5 s a s') :
    LockHeld s'.holder s'.archives s'.checkpoints := by
  cases hs with
  | capture | quiet | unit | markPrefix | markDone | upload | prune | expire | reap => exact h
  | start i => exact h.setArchive (by simp)
  | process i _ hrun | count i hrun | curate i hrun | tarTicker i hrun | compare i hrun
  | timeout i hrun | skipPurge i hrun | mark i _ hrun | copyto i _ hrun | purge i _ hrun =>
    exact h.setArchive fun hl => h.archive hrun hl
  | check i hrun =>
    refine h.setArchive fun hl => h.archive hrun ?_
    split_ifs at hl <;> exact hl
  | skipEmpty i | finish i | dieArchive i => exact h.endArchive i
  | lock i hrun hphase hfree => exact (hfree ▸ h).takeArchive i _
  | checkpoint j arg hnone hdir hlock => exact (hlock ▸ h).takeCheckpoint j _
  | copyTicker j hrun => exact h.setCheckpoint (h.checkpoint hrun)
  | checkpointDone j hrun | dieCheckpoint j hrun => exact h.endCheckpoint j

theorem invariant (env : ArchiveEnv) (md5 : List RawLine → δ)
    (allowed : ArchivedSession → Action → Prop) :
    Machine.Invariant (machine env md5) allowed
      fun s => LockHeld s.holder s.archives s.checkpoints where
  init :=
    { archive := fun h => nomatch h
      checkpoint := fun h => nomatch h }
  step _ h _ hs := h.step hs

end LockHeld

/-! ## Removal -/

/-- Neither a raw file nor a daily checkpoint loses a line. -/
def Keeps (s s' : ArchivedSession) : Prop :=
  s.raw ⊆ s'.raw ∧ ∀ p, (s.remote p).inflight ⊆ (s'.remote p).inflight

theorem Keeps.withRemote {p : String} {r : RemoteSession} (hraw : s'.raw = s.raw)
    (hremote : s'.remote = Function.update s.remote p r)
    (hr : (s.remote p).inflight ⊆ r.inflight) : Keeps s s' := by
  refine ⟨hraw ▸ List.Subset.refl _, fun q => ?_⟩
  rw [hremote]
  by_cases hq : q = p
  · rw [hq, Function.update_self]
    exact hr
  · rw [Function.update_of_ne hq]
    exact List.Subset.refl _

/-- The run of the archive that makes the step. -/
def Action.archiveRun : Action → Option ℕ
  | .start i _ _ | .process i _ | .skipEmpty i | .count i | .curate i | .upload i _ _ | .check i
  | .tarTicker i | .copyto i _ | .compare i | .lock i | .timeout i | .purge i _ | .skipPurge i
  | .mark i _ | .prune i _ | .finish i | .dieArchive i => some i
  | .capture _ | .quiet | .unit _ | .markPrefix _ | .markDone | .checkpoint _ _ | .copyTicker _
  | .checkpointDone _ | .dieCheckpoint _ | .expire | .reap => none

theorem Step.keeps_or_locked (hs : Step env md5 s a s') :
    Keeps s s' ∨ ∃ i run, a.archiveRun = some i ∧ s.archives i = some run ∧ run.locked = true := by
  cases hs with
  | capture => exact .inl ⟨List.subset_append_left _ _, fun _ => List.Subset.refl _⟩
  | upload | copyto => exact .inl (.withRemote rfl rfl (List.Subset.refl _))
  | copyTicker => exact .inl (.withRemote rfl rfl (List.subset_append_left _ _))
  | purge i _ hrun hphase hbackup hlocked => exact .inr ⟨i, _, rfl, hrun, hlocked⟩
  | prune i _ hrun hphase hprune =>
    simp only [ArchiveRun.prunes, Bool.and_eq_true] at hprune
    exact .inr ⟨i, _, rfl, hrun, hprune.2⟩
  | _ => exact .inl ⟨List.Subset.refl _, fun _ => List.Subset.refl _⟩

/-- Archive runs of the session do not overlap, its output is not expired under one, and every
processing reports some ticker as incomplete. -/
def ReportsIncomplete (s : ArchivedSession) : Action → Prop
  | .start _ _ _ => ∀ k, s.archives k = none
  | .expire => ∀ k, s.archives k = none
  | .process _ out => ∃ e ∈ out, e.2.incomplete = true
  | _ => True

/-- What a run knows of an incomplete ticker: it is in the output, or it has been counted. -/
def Warned (processed : List (String × ManifestFlags)) (run : ArchiveRun) : Prop :=
  match run.phase with
  | .processing => True
  | .counting => ∃ e ∈ processed, e.2.incomplete = true
  | _ => 0 < run.incomplete

/-- At most one run is under way, and it knows of an incomplete ticker. -/
structure OneWarned (processed : List (String × ManifestFlags))
    (archives : ℕ → Option ArchiveRun) : Prop where
  one : ∀ {i j run run'}, archives i = some run → archives j = some run' → i = j
  warned : ∀ {i run}, archives i = some run → Warned processed run

namespace OneWarned

variable {processed processed' : List (String × ManifestFlags)}
  {archives : ℕ → Option ArchiveRun}

/-- The only run there is starts or goes on. -/
theorem setArchive (hone : ∀ k r, archives k = some r → k = i)
    (hwarned : Warned processed' run') :
    OneWarned processed' (Function.update archives i (some run')) where
  one := by
    intro k l r r' hk hl
    have honly : ∀ {k r}, Function.update archives i (some run') k = some r → k = i := by
      intro k r h
      rcases Machine.update_some_eq_some.1 h with ⟨rfl, -⟩ | ⟨-, h⟩
      · rfl
      · exact hone k r h
    exact (honly hk).trans (honly hl).symm
  warned := by
    intro k r hr
    rcases Machine.update_some_eq_some.1 hr with ⟨-, rfl⟩ | ⟨hk, hr⟩
    · exact hwarned
    · exact absurd (hone k r hr) hk

/-- The only run there is goes on. -/
theorem goOn (h : OneWarned processed archives) (hrun : archives i = some run)
    (hwarned : Warned processed' run') :
    OneWarned processed' (Function.update archives i (some run')) :=
  setArchive (fun _ _ hk => h.one hk hrun) hwarned

theorem endArchive (h : OneWarned s.processed s.archives) (i : ℕ) :
    OneWarned (s.endArchive i).processed (s.endArchive i).archives where
  one := fun hk hl =>
    h.one (Machine.update_none_eq_some.1 hk).2 (Machine.update_none_eq_some.1 hl).2
  warned := fun hk => h.warned (Machine.update_none_eq_some.1 hk).2

theorem counted (h : OneWarned processed archives) (hrun : archives i = some run)
    (hphase : run.phase ≠ .processing) (hcounting : run.phase ≠ .counting) : 0 < run.incomplete := by
  have hwarned := h.warned hrun
  unfold Warned at hwarned
  split at hwarned
  · contradiction
  · contradiction
  · exact hwarned

theorem step (h : OneWarned s.processed s.archives) (ha : ReportsIncomplete s a)
    (hs : Step env md5 s a s') : OneWarned s'.processed s'.archives := by
  cases hs with
  | start i => exact setArchive (fun k r hr => by rw [ha k] at hr; cases hr) trivial
  | process i out hrun hphase =>
    obtain ⟨e, he, hincomplete⟩ := ha
    exact h.goOn hrun ⟨e, List.mem_append_left _ he, hincomplete⟩
  | count i hrun hphase =>
    have hwarned := h.warned hrun
    rw [Warned, hphase] at hwarned
    exact h.goOn hrun (List.countP_pos_iff.2 hwarned)
  | curate i hrun hphase | tarTicker i hrun hphase | copyto i _ hrun hphase
  | compare i hrun hphase | lock i hrun hphase | timeout i hrun hphase | purge i _ hrun hphase
  | skipPurge i hrun hphase | mark i _ hrun hphase =>
    have hcounted := h.counted hrun (by simp [hphase]) (by simp [hphase])
    exact h.goOn hrun (by simpa [Warned, hphase] using hcounted)
  | check i hrun hphase =>
    have hcounted := h.counted hrun (by simp [hphase]) (by simp [hphase])
    refine h.goOn hrun ?_
    split_ifs <;> exact hcounted
  | skipEmpty i | finish i | dieArchive i => exact h.endArchive i
  | expire =>
    exact ⟨h.one, fun {k} r hk => by rw [ha k] at hk; cases hk⟩
  | _ => exact h

end OneWarned

end Snapevent.ArchivedSession
