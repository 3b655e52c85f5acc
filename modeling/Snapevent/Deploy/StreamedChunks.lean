import Mathlib.Data.List.Nodup
import Snapevent.Deploy.StreamBackfill

/-!
# What a streamed range leaves

A chunk is recorded only when all that its markets had to answer is in the tarball that was uploaded,
however often runs were ended and begun again.  A run that goes to its end has every instant of the
range in exactly one recorded chunk of each tier, and at no time are there local files of more than
one chunk of a tier.
-/

namespace Snapevent.StreamBackfill

variable {cfg : StreamSettings} {s s' : StreamBackfill} {a : Action} {k k' : ChunkName}

/-! ## Recorded chunks -/

/-- All that the markets of a chunk had is stored. -/
def Stored (s : StreamBackfill) (k : ChunkName) : Prop :=
  ∃ answers, s.answers k = some answers ∧ ((∀ d ∈ answers, d.2 = []) ∨
    ∃ tar, s.remote k = some tar ∧ ∀ d ∈ answers, d.2 ≠ [] → d ∈ tar)

/-- How far a run has come with a chunk. -/
def ChunkOk (s : StreamBackfill) (k : ChunkName) : ChunkPhase → Prop
  | .backfilling => True
  | .fetching todo => ∃ answers, (s.files k).capture = some (answers.filter (·.2 ≠ [])) ∧
      s.answers k = some answers ∧ (answers.map (·.1) ++ todo).Nodup
  | .processing todo => ∃ answers, s.answers k = some answers ∧ (answers.map (·.1)).Nodup ∧
      todo ⊆ answers ∧ ∀ d ∈ answers, d.2 ≠ [] → d ∈ todo ∨ d ∈ (s.files k).processed
  | .uploading => ∃ answers tar, s.answers k = some answers ∧ (s.files k).tar = some tar ∧
      ∀ d ∈ answers, d.2 ≠ [] → d ∈ tar
  | .verifying | .removing | .recording => s.Stored k

/-- Recorded chunks are stored, and the chunk of a run is not recorded. -/
structure Safe (s : StreamBackfill) : Prop where
  done : ∀ k ∈ s.done, s.Stored k
  run : ∀ tier lo phase, s.run = some (.chunk tier lo phase) →
    (tier, dayLabel lo) ∉ s.done ∧ s.ChunkOk (tier, dayLabel lo) phase

theorem Stored.congr (h : s.Stored k) (hanswers : s'.answers k = s.answers k)
    (hremote : s'.remote k = s.remote k) : s'.Stored k := by
  rw [Stored, hanswers, hremote]
  exact h

theorem mem_put {dirs : MarketDirs} {d e : String × List String} :
    e ∈ dirs.put d ↔ (e ∈ dirs ∧ e.1 ≠ d.1) ∨ e = d := by
  simp [MarketDirs.put]

namespace Safe

/-- A step that leaves the recorded chunks, the answers and the remote files alone. -/
theorem go (h : Safe s) (hdone : s'.done = s.done) (hanswers : s'.answers = s.answers)
    (hremote : s'.remote = s.remote)
    (hrun : ∀ tier lo phase, s'.run = some (.chunk tier lo phase) →
      (tier, dayLabel lo) ∉ s.done ∧ s'.ChunkOk (tier, dayLabel lo) phase) : Safe s' where
  done k hk := by
    rw [hdone] at hk
    exact (h.done k hk).congr (by rw [hanswers]) (by rw [hremote])
  run tier lo phase hphase := by
    rw [hdone]
    exact hrun tier lo phase hphase

/-- A run that works on a chunk changes nothing of the recorded ones. -/
theorem work {tier : Tier} {lo : ℤ} {phase phase' : ChunkPhase} (h : Safe s)
    (hrun : s.run = some (.chunk tier lo phase)) (hrun' : s'.run = some (.chunk tier lo phase'))
    (hdone : s'.done = s.done)
    (hanswers : ∀ k, k ≠ (tier, dayLabel lo) → s'.answers k = s.answers k)
    (hremote : ∀ k, k ≠ (tier, dayLabel lo) → s'.remote k = s.remote k)
    (hok : s.ChunkOk (tier, dayLabel lo) phase → s'.ChunkOk (tier, dayLabel lo) phase') :
    Safe s' where
  done k hk := by
    rw [hdone] at hk
    have hne : k ≠ (tier, dayLabel lo) := fun heq => (h.run _ _ _ hrun).1 (heq ▸ hk)
    exact (h.done k hk).congr (hanswers k hne) (hremote k hne)
  run tier' lo' phase'' hphase := by
    rw [hrun'] at hphase
    cases hphase
    obtain ⟨hnot, hchunk⟩ := h.run _ _ _ hrun
    rw [hdone]
    exact ⟨hnot, hok hchunk⟩

theorem step (h : Safe s) (hs : Step cfg s a s') : Safe s' := by
  cases hs with
  | enumerate | start | writeMeta | enumerated | skipArchive | enter | skip | nextTier | finish
  | die => exact h.go rfl rfl rfl (by rintro _ _ _ ⟨⟩)
  | @clear tier lo hrun hlt hdone =>
    refine h.go rfl rfl rfl ?_
    rintro _ _ _ ⟨⟩
    exact ⟨hdone, trivial⟩
  | @list tier lo tickers hrun hnodup =>
    refine h.work hrun rfl rfl (fun k hk => Function.update_of_ne hk _ _) (fun _ _ => rfl)
      fun _ => ⟨[], ?_, ?_, by simpa using hnodup⟩
    · simp [withFiles]
    · simp
  | @fetch tier lo t todo capture answers trades hrun hcapture hanswers =>
    refine h.work hrun rfl rfl (fun k hk => Function.update_of_ne hk _ _) (fun _ _ => rfl) ?_
    rintro ⟨answers', hcapture', hanswers', hnodup⟩
    obtain rfl : answers = answers' := Option.some.inj (hanswers.symm.trans hanswers')
    obtain rfl := Option.some.inj (hcapture.symm.trans hcapture')
    refine ⟨answers ++ [(t, trades)], ?_, by simp, by simpa using hnodup⟩
    by_cases htrades : trades = [] <;> simp [withFiles, htrades]
  | @fetched tier lo capture hrun hcapture =>
    refine h.work hrun rfl rfl (fun _ _ => rfl) (fun _ _ => rfl) ?_
    rintro ⟨answers, hcapture', hanswers, hnodup⟩
    obtain rfl := Option.some.inj (hcapture.symm.trans hcapture')
    split_ifs with hempty
    · refine ⟨answers, hanswers, Or.inl fun d hd => ?_⟩
      simpa using List.filter_eq_nil_iff.1 hempty d hd
    · refine ⟨answers, hanswers, by simpa using hnodup, fun _ => List.mem_of_mem_filter,
        fun d hd hne => ?_⟩
      exact Or.inl (List.mem_filter.2 ⟨hd, by simpa using hne⟩)
  | @process tier lo d todo hrun =>
    refine h.work hrun rfl rfl (fun _ _ => rfl) (fun _ _ => rfl) ?_
    rintro ⟨answers, hanswers, hnodup, htodo, hall⟩
    refine ⟨answers, hanswers, hnodup, fun e he => htodo (List.mem_cons_of_mem _ he),
      fun e he hne => ?_⟩
    simp only [withFiles, goto, Function.update_self, mem_put]
    rcases hall e he hne with hmem | hmem
    · rcases List.mem_cons.1 hmem with rfl | hmem
      · exact Or.inr (Or.inr rfl)
      · exact Or.inl hmem
    · by_cases hkey : e.1 = d.1
      · have heq : e = d := List.inj_on_of_nodup_map hnodup he (htodo List.mem_cons_self) hkey
        exact Or.inr (Or.inr heq)
      · exact Or.inr (Or.inl ⟨hmem, hkey⟩)
  | @tar tier lo hrun =>
    refine h.work hrun rfl rfl (fun _ _ => rfl) (fun _ _ => rfl) ?_
    rintro ⟨answers, hanswers, -, -, hall⟩
    refine ⟨answers, (s.files (tier, dayLabel lo)).processed, hanswers, by simp [withFiles],
      fun d hd hne => ?_⟩
    exact (hall d hd hne).resolve_left (by simp)
  | @upload tier lo tarball hrun htar =>
    refine h.work hrun rfl rfl (fun _ _ => rfl) (fun k hk => Function.update_of_ne hk _ _) ?_
    rintro ⟨answers, tar, hanswers, htar', hall⟩
    obtain rfl := Option.some.inj (htar.symm.trans htar')
    exact ⟨answers, hanswers, Or.inr ⟨tarball, by simp, hall⟩⟩
  | @verify tier lo hrun =>
    exact h.work hrun rfl rfl (fun _ _ => rfl) (fun _ _ => rfl) id
  | @remove tier lo left hrun =>
    exact h.work hrun hrun rfl (fun _ _ => rfl) (fun _ _ => rfl) id
  | @removed tier lo hrun =>
    exact h.work hrun rfl rfl (fun _ _ => rfl) (fun _ _ => rfl) id
  | @record tier lo hrun =>
    obtain ⟨-, hstored⟩ := h.run _ _ _ hrun
    constructor
    · intro k hk
      rcases List.mem_append.1 hk with hk | hk
      · exact h.done k hk
      · rw [List.mem_singleton.1 hk]
        exact hstored
    · rintro _ _ _ ⟨⟩

end Safe

/-- In every history of runs that are ended anywhere and begun again, a chunk is recorded as done
only when nothing its markets had is left out of the tarball that is stored for it. -/
theorem done_stored {allowed : StreamBackfill → Action → Prop}
    (h : (machine cfg).Reachable allowed s) (hk : k ∈ s.done) : s.Stored k := by
  have hsafe : Machine.Invariant (machine cfg) allowed Safe :=
    { init := ⟨fun k hk => absurd hk List.not_mem_nil, by rintro _ _ _ ⟨⟩⟩
      step := fun _ hP _ hs => hP.step hs }
  exact (hsafe.holds h).done k hk

theorem done_stored_days : ∃ s : StreamBackfill,
    ∀ k ∈ [(Tier.archive, 0), (Tier.archive, 1)], s.Stored k := by
  obtain ⟨-, -, s, -, -, -, -, -, -, -, h, -, hdone, -⟩ := exists_streamed
  exact ⟨s, fun k hk => done_stored h (hdone hk)⟩

/-! ## The walk -/

section Walk

variable (cfg)

/-- Where the chunks start. -/
def chunkStart (i : ℕ) : ℤ := stride cfg.minClose cfg.maxClose cfg.step i

/-- The name of a chunk of a tier. -/
def chunkName (tier : Tier) (i : ℕ) : ChunkName := (tier, dayLabel (chunkStart cfg i))

/-- The settings are of a range in chunks of whole days. -/
structure WellSet : Prop where
  days : 0 < cfg.chunkDays
  range : cfg.minClose ≤ cfg.maxClose

variable {cfg}

theorem WellSet.step_le (hcfg : WellSet cfg) : 86400 ≤ cfg.step := by
  have hdays := hcfg.days
  rw [StreamSettings.step]
  omega

theorem chunkEnd_chunkStart (hcfg : WellSet cfg) (i : ℕ) :
    cfg.chunkEnd (chunkStart cfg i) = chunkStart cfg (i + 1) :=
  stride_succ (by have := hcfg.step_le; omega) i

/-- Chunks of one tier start on different days. -/
theorem dayLabel_inj (hcfg : WellSet cfg) {i j : ℕ} (hi : chunkStart cfg i < cfg.maxClose)
    (hj : chunkStart cfg j < cfg.maxClose)
    (h : dayLabel (chunkStart cfg i) = dayLabel (chunkStart cfg j)) : i = j := by
  have hstep := hcfg.step_le
  rw [dayLabel, dayLabel] at h
  rcases Nat.lt_trichotomy i j with hlt | heq | hgt
  · have hle := stride_add_le (by omega) hlt hj
    rw [← chunkStart, ← chunkStart] at hle
    omega
  · exact heq
  · have hle := stride_add_le (by omega) hgt hi
    rw [← chunkStart, ← chunkStart] at hle
    omega

variable (cfg) (s)

/-- The chunks before one are recorded. -/
def DoneBefore (tier : Tier) (i : ℕ) : Prop := ∀ j < i, chunkName cfg tier j ∈ s.done

/-- Every chunk of the range is recorded. -/
def TierDone (tier : Tier) : Prop :=
  ∀ i, chunkStart cfg i < cfg.maxClose → chunkName cfg tier i ∈ s.done

/-- The first chunk that is not recorded. -/
structure FirstOpen (tier : Tier) (i : ℕ) : Prop where
  lt : chunkStart cfg i < cfg.maxClose
  before : DoneBefore cfg s tier i
  notMem : chunkName cfg tier i ∉ s.done

/-- The archive needs no walk any more. -/
def ArchivePassed : Prop := s.metaThere = false ∨ TierDone cfg s .archive

/-- What has to stand before a tier is walked. -/
def MayWalk : Tier → Prop
  | .archive => s.metaThere = true
  | .live => ArchivePassed cfg s

/-- What holds where a run is. -/
def At : StreamPhase → Prop
  | .enumerating _ => ∀ label, (Tier.archive, label) ∉ s.done
  | .entering .archive => True
  | .entering .live => ArchivePassed cfg s
  | .looping tier lo => MayWalk cfg s tier ∧ ∃ i, lo = chunkStart cfg i ∧ DoneBefore cfg s tier i
  | .chunk tier lo _ => MayWalk cfg s tier ∧ ∃ i, lo = chunkStart cfg i ∧ FirstOpen cfg s tier i

/-- The walk goes through the chunks in order, and only the first open chunk of a tier has files. -/
structure Walked : Prop where
  run : ∀ p, s.run = some p → At cfg s p
  archive : ∀ label, (Tier.archive, label) ∈ s.done → s.metaThere = true
  files : ∀ k, s.files k ≠ .none → ∃ i, k = chunkName cfg k.1 i ∧ FirstOpen cfg s k.1 i
  recording : ∀ tier lo, s.run = some (.chunk tier lo .recording) →
    s.files (tier, dayLabel lo) = .none

variable {cfg s}

theorem FirstOpen.unique {tier : Tier} {i j : ℕ} (hi : FirstOpen cfg s tier i)
    (hj : FirstOpen cfg s tier j) : i = j := by
  rcases Nat.lt_trichotomy i j with hlt | heq | hgt
  · exact absurd (hj.before i hlt) hi.notMem
  · exact heq
  · exact absurd (hi.before j hgt) hj.notMem

theorem FirstOpen.congr {tier : Tier} {i : ℕ} (h : FirstOpen cfg s tier i)
    (hdone : s'.done = s.done) : FirstOpen cfg s' tier i :=
  ⟨h.lt, fun j hj => hdone ▸ h.before j hj, hdone ▸ h.notMem⟩

theorem MayWalk.mono {tier : Tier} (h : MayWalk cfg s tier) (hmeta : s'.metaThere = s.metaThere)
    (hdone : s.done ⊆ s'.done) : MayWalk cfg s' tier := by
  cases tier with
  | archive => exact hmeta.trans h
  | live => exact h.imp hmeta.trans fun h i hi => hdone (h i hi)

/-- A walk that has come to the end of the range has recorded every chunk. -/
theorem DoneBefore.tierDone {tier : Tier} {i : ℕ} (hcfg : WellSet cfg)
    (h : DoneBefore cfg s tier i) (hend : cfg.maxClose ≤ chunkStart cfg i) :
    TierDone cfg s tier := by
  intro j hj
  refine h j ?_
  by_contra hle
  have hmono := stride_mono cfg.minClose cfg.maxClose
    (by have := hcfg.step_le; omega : 0 ≤ cfg.step) (not_lt.1 hle)
  rw [← chunkStart, ← chunkStart] at hmono
  omega

namespace Walked

/-- A step that leaves the recorded chunks alone. -/
theorem go (h : Walked cfg s) (hdone : s'.done = s.done)
    (hmeta : s.metaThere = true → s'.metaThere = true) (hrun : ∀ p, s'.run = some p → At cfg s' p)
    (hfiles : ∀ k, s'.files k ≠ .none → ∃ i, k = chunkName cfg k.1 i ∧ FirstOpen cfg s k.1 i)
    (hrecording : ∀ tier lo, s'.run = some (.chunk tier lo .recording) →
      s'.files (tier, dayLabel lo) = .none) : Walked cfg s' where
  run := hrun
  archive label hlabel := hmeta (h.archive label (hdone ▸ hlabel))
  files k hk := by
    obtain ⟨i, hname, hfirst⟩ := hfiles k hk
    exact ⟨i, hname, hfirst.congr hdone⟩
  recording := hrecording

/-- A run that works on a chunk. -/
theorem work {tier : Tier} {lo : ℤ} {phase phase' : ChunkPhase} (h : Walked cfg s)
    (hrun : s.run = some (.chunk tier lo phase)) (hrun' : s'.run = some (.chunk tier lo phase'))
    (hdone : s'.done = s.done) (hmeta : s'.metaThere = s.metaThere)
    (hfiles : ∀ k, k ≠ (tier, dayLabel lo) → s'.files k = s.files k)
    (hrecording : phase' = .recording → s'.files (tier, dayLabel lo) = .none) : Walked cfg s' := by
  obtain ⟨hmay, i, hlo, hfirst⟩ := h.run _ hrun
  refine h.go hdone (fun ht => hmeta.trans ht) ?_ ?_ ?_
  · rw [hrun']
    rintro _ ⟨⟩
    exact ⟨hmay.mono hmeta (by rw [hdone]; exact List.Subset.refl _), i, hlo, hfirst.congr hdone⟩
  · intro k hk
    by_cases hkey : k = (tier, dayLabel lo)
    · subst hkey
      exact ⟨i, by rw [chunkName, hlo], hfirst⟩
    · rw [hfiles k hkey] at hk
      exact h.files k hk
  · rw [hrun']
    rintro _ _ ⟨⟩
    exact hrecording rfl

theorem step (hcfg : WellSet cfg) (h : Walked cfg s) (hs : Step cfg s a s') : Walked cfg s' := by
  cases hs with
  | enumerate lines hrun hmeta =>
    refine h.go rfl id ?_ h.files (by rintro _ _ ⟨⟩)
    rintro _ ⟨⟩ label hlabel
    rw [h.archive label hlabel] at hmeta
    cases hmeta
  | start | enumerated =>
    refine h.go rfl id ?_ h.files (by rintro _ _ ⟨⟩)
    rintro _ ⟨⟩
    trivial
  | writeMeta hrun =>
    refine h.go rfl (fun _ => by simp [metaThere]) ?_ h.files (by rintro _ _ ⟨⟩)
    rintro _ ⟨⟩
    exact h.run _ hrun
  | skipArchive hrun hmeta =>
    refine h.go rfl id ?_ h.files (by rintro _ _ ⟨⟩)
    rintro _ ⟨⟩
    exact Or.inl hmeta
  | @enter tier hrun hmeta =>
    refine h.go rfl id ?_ h.files (by rintro _ _ ⟨⟩)
    rintro _ ⟨⟩
    refine ⟨?_, 0, (stride_zero hcfg.range).symm, by rintro _ ⟨⟩⟩
    cases tier with
    | archive => exact hmeta rfl
    | live => exact h.run _ hrun
  | @skip tier lo hrun hlt hdone =>
    obtain ⟨hmay, i, rfl, hbefore⟩ := h.run _ hrun
    refine h.go rfl id ?_ h.files (by rintro _ _ ⟨⟩)
    rintro _ ⟨⟩
    refine ⟨hmay, i + 1, chunkEnd_chunkStart hcfg i, fun j hj => ?_⟩
    rcases Nat.lt_succ_iff_lt_or_eq.1 hj with hj | rfl
    · exact hbefore j hj
    · exact hdone
  | @clear tier lo hrun hlt hdone =>
    obtain ⟨hmay, i, rfl, hbefore⟩ := h.run _ hrun
    have hfirst : FirstOpen cfg s tier i := ⟨hlt, hbefore, hdone⟩
    refine h.go rfl id ?_ ?_ (by rintro _ _ ⟨⟩)
    · rintro _ ⟨⟩
      exact ⟨hmay.mono rfl (List.Subset.refl _), i, rfl, hfirst.congr rfl⟩
    · intro k hk
      by_cases hkey : k = chunkName cfg tier i
      · subst hkey
        exact ⟨i, rfl, hfirst⟩
      · exact h.files k fun hnone => hk ((Function.update_of_ne hkey _ _).trans hnone)
  | list _ hrun | fetch _ hrun | process hrun | tar hrun =>
    exact h.work hrun rfl rfl rfl (fun k hk => Function.update_of_ne hk _ _) (by rintro ⟨⟩)
  | fetched hrun =>
    exact h.work hrun rfl rfl rfl (fun _ _ => rfl) (by split_ifs <;> rintro ⟨⟩)
  | upload hrun | verify hrun =>
    exact h.work hrun rfl rfl rfl (fun _ _ => rfl) (by rintro ⟨⟩)
  | remove left hrun =>
    exact h.work hrun hrun rfl rfl (fun k hk => Function.update_of_ne hk _ _) (by rintro ⟨⟩)
  | removed hrun =>
    exact h.work hrun rfl rfl rfl (fun k hk => Function.update_of_ne hk _ _)
      fun _ => Function.update_self _ _ _
  | @record tier lo hrun =>
    obtain ⟨hmay, i, rfl, hfirst⟩ := h.run _ hrun
    have hnew : s.done ⊆ s.done ++ [chunkName cfg tier i] := List.subset_append_left _ _
    refine ⟨?_, fun label hlabel => ?_, fun k hk => ?_, by rintro _ _ ⟨⟩⟩
    · rintro _ ⟨⟩
      refine ⟨hmay.mono rfl hnew, i + 1, chunkEnd_chunkStart hcfg i, fun j hj => ?_⟩
      rcases Nat.lt_succ_iff_lt_or_eq.1 hj with hj | rfl
      · exact hnew (hfirst.before j hj)
      · exact List.mem_append_right _ (List.mem_singleton_self _)
    · rcases List.mem_append.1 hlabel with hold | heq
      · exact h.archive label hold
      · obtain ⟨rfl, -⟩ := Prod.mk.inj (List.mem_singleton.1 heq)
        exact hmay
    · obtain ⟨j, hname, hj⟩ := h.files k hk
      have hother : k.1 ≠ tier := by
        rintro rfl
        rw [hj.unique hfirst] at hname
        exact hk (hname ▸ h.recording _ _ hrun)
      refine ⟨j, hname, hj.lt, fun m hm => hnew (hj.before m hm), fun hmem => ?_⟩
      rcases List.mem_append.1 hmem with hold | heq
      · exact hj.notMem hold
      · exact hother (Prod.mk.inj (List.mem_singleton.1 heq)).1
  | nextTier hrun hend =>
    obtain ⟨-, i, rfl, hbefore⟩ := h.run _ hrun
    refine h.go rfl id ?_ h.files (by rintro _ _ ⟨⟩)
    rintro _ ⟨⟩
    exact Or.inr (hbefore.tierDone hcfg hend)
  | finish => exact h.go rfl id (by rintro _ ⟨⟩) h.files (by rintro _ _ ⟨⟩)
  | die =>
    refine h.go rfl (fun ht => ?_) (by rintro _ ⟨⟩) h.files (by rintro _ _ ⟨⟩)
    rw [metaThere, Bool.or_eq_true] at ht ⊢
    exact ht.imp_left fun ht => Bool.or_eq_true_iff.2 (Or.inl ht)

end Walked

theorem walked (hcfg : WellSet cfg) {allowed : StreamBackfill → Action → Prop}
    (h : (machine cfg).Reachable allowed s) : Walked cfg s := by
  have hwalked : Machine.Invariant (machine cfg) allowed (Walked cfg) :=
    { init := ⟨by rintro _ ⟨⟩, fun _ h => absurd h List.not_mem_nil, fun _ hk => absurd rfl hk,
        by rintro _ _ ⟨⟩⟩
      step := fun _ hP _ hs => hP.step hcfg hs }
  exact hwalked.holds h

/-- Where a chunk of a tier has local files no other chunk of the tier has any. -/
theorem one_chunk_local (hcfg : WellSet cfg) {allowed : StreamBackfill → Action → Prop}
    (h : (machine cfg).Reachable allowed s) (hk : s.files k ≠ .none) (htier : k.1 = k'.1)
    (hne : k ≠ k') : s.files k' = .none := by
  by_contra hk'
  obtain ⟨i, hname, hi⟩ := (walked hcfg h).files k hk
  obtain ⟨j, hname', hj⟩ := (walked hcfg h).files k' hk'
  rw [htier] at hi hname
  rw [hi.unique hj] at hname
  exact hne (hname.trans hname'.symm)

theorem wellSet_streamDays : WellSet streamDays := ⟨by decide, by decide⟩

/-- After the run that has died, and while the next one is at the second day. -/
theorem one_chunk_local_days : ∃ s₀ s₁ : StreamBackfill,
    (s₀.run = none ∧ s₀.files (.archive, 0) ≠ .none ∧ s₀.files (.archive, 1) = .none) ∧
      s₁.files (.archive, 1) ≠ .none ∧ s₁.files (.archive, 0) = .none := by
  obtain ⟨s₀, s₁, -, -, h₀, hrun, hfiles, h₁, -, hfiles', -⟩ := exists_streamed
  exact ⟨s₀, s₁,
    ⟨hrun, hfiles, one_chunk_local wellSet_streamDays h₀ hfiles rfl (by decide)⟩,
    hfiles', one_chunk_local wellSet_streamDays h₁ hfiles' rfl (by decide)⟩

/-! ## The archived markets -/

variable (cfg) (s) in
/-- How far the markets of a chunk of the archive have been asked. -/
def AskedSoFar (lo : ℤ) : ChunkPhase → Prop
  | .backfilling => True
  | .fetching todo => ∃ answers, s.answers (.archive, dayLabel lo) = some answers ∧
      answers.map (·.1) ++ todo = s.archived lo (cfg.chunkEnd lo)
  | _ => ∃ answers, s.answers (.archive, dayLabel lo) = some answers ∧
      answers.map (·.1) = s.archived lo (cfg.chunkEnd lo)

variable (cfg) (s) in
/-- In the recorded chunks of the archive all that the enumeration lists was asked. -/
structure Asked : Prop where
  done : ∀ i, chunkStart cfg i < cfg.maxClose → chunkName cfg .archive i ∈ s.done →
    ∃ answers, s.answers (chunkName cfg .archive i) = some answers ∧
      answers.map (·.1) = s.archived (chunkStart cfg i) (cfg.chunkEnd (chunkStart cfg i))
  run : ∀ lo phase, s.run = some (.chunk .archive lo phase) → AskedSoFar cfg s lo phase

namespace Asked

/-- A step that leaves the recorded chunks, the answers and the enumeration alone. -/
theorem go (h : Asked cfg s) (hdone : s'.done = s.done) (hanswers : s'.answers = s.answers)
    (hmeta : s'.metaFile = s.metaFile)
    (hrun : ∀ lo phase, s'.run = some (.chunk .archive lo phase) → AskedSoFar cfg s' lo phase) :
    Asked cfg s' where
  done i hi hmem := by
    rw [hdone] at hmem
    rw [hanswers, archived, hmeta]
    exact h.done i hi hmem
  run := hrun

/-- A run that works on a chunk. -/
theorem work {tier : Tier} {lo : ℤ} {phase phase' : ChunkPhase} (h : Asked cfg s)
    (hw : Walked cfg s) (hrun : s.run = some (.chunk tier lo phase))
    (hrun' : s'.run = some (.chunk tier lo phase')) (hdone : s'.done = s.done)
    (hanswers : ∀ k, k ≠ (tier, dayLabel lo) → s'.answers k = s.answers k)
    (hmeta : s'.metaFile = s.metaFile)
    (hasked : tier = .archive → AskedSoFar cfg s lo phase → AskedSoFar cfg s' lo phase') :
    Asked cfg s' where
  done i hi hmem := by
    obtain ⟨-, j, rfl, hfirst⟩ := hw.run _ hrun
    rw [hdone] at hmem
    have hne : chunkName cfg .archive i ≠ (tier, dayLabel (chunkStart cfg j)) := by
      intro heq
      rw [heq] at hmem
      exact hfirst.notMem hmem
    rw [hanswers _ hne, archived, hmeta]
    exact h.done i hi hmem
  run lo' phase'' hphase := by
    rw [hrun'] at hphase
    cases hphase
    exact hasked rfl (h.run _ _ hrun)

theorem step (hcfg : WellSet cfg) (h : Asked cfg s) (hw : Walked cfg s) (hs : Step cfg s a s') :
    Asked cfg s' := by
  cases hs with
  | enumerate | start | enumerated | skipArchive | enter | skip | nextTier | finish | die =>
    exact h.go rfl rfl rfl (by rintro _ _ ⟨⟩)
  | writeMeta hrun =>
    refine ⟨fun i _ hmem => ?_, by rintro _ _ ⟨⟩⟩
    exact absurd hmem (hw.run _ hrun _)
  | clear =>
    refine h.go rfl rfl rfl ?_
    rintro _ _ ⟨⟩
    trivial
  | @list tier lo tickers hrun hnodup harchive =>
    refine h.work hw hrun rfl rfl (fun k hk => Function.update_of_ne hk _ _) rfl ?_
    rintro rfl -
    exact ⟨[], Function.update_self _ _ _, (harchive rfl).2⟩
  | @fetch tier lo t todo capture answers trades hrun hcapture hanswers =>
    refine h.work hw hrun rfl rfl (fun k hk => Function.update_of_ne hk _ _) rfl ?_
    rintro rfl ⟨answers', hanswers', hasked⟩
    obtain rfl := Option.some.inj (hanswers.symm.trans hanswers')
    refine ⟨_, Function.update_self _ _ _, ?_⟩
    rw [List.map_append, List.append_assoc]
    exact hasked
  | @fetched tier lo capture hrun =>
    refine h.work hw hrun rfl rfl (fun _ _ => rfl) rfl ?_
    rintro rfl ⟨answers, hanswers, hasked⟩
    rw [List.append_nil] at hasked
    split_ifs
    · exact ⟨answers, hanswers, hasked⟩
    · exact ⟨answers, hanswers, hasked⟩
  | process hrun | tar hrun | upload hrun | verify hrun | removed hrun =>
    exact h.work hw hrun rfl rfl (fun _ _ => rfl) rfl fun _ hasked => hasked
  | remove left hrun =>
    exact h.work hw hrun hrun rfl (fun _ _ => rfl) rfl fun _ hasked => hasked
  | @record tier lo hrun =>
    refine ⟨fun i hi hmem => ?_, by rintro _ _ ⟨⟩⟩
    rcases List.mem_append.1 hmem with hold | heq
    · exact h.done i hi hold
    · obtain ⟨-, j, rfl, hfirst⟩ := hw.run _ hrun
      obtain ⟨rfl, hlabel⟩ := Prod.mk.inj (List.mem_singleton.1 heq)
      rw [dayLabel_inj hcfg hi hfirst.lt hlabel]
      exact h.run _ _ hrun

end Asked

/-- What a run has still to write of the enumeration. -/
def pendingMeta : Option StreamPhase → List MarketLine
  | some (.enumerating todo) => todo
  | _ => []

/-- What the enumeration has listed is in its file, or is still to be written. -/
def Listed (s : StreamBackfill) : Prop := s.listed = s.metaFile ++ pendingMeta s.run

theorem Listed.go (h : Listed s) (hlisted : s'.listed = s.listed) (hmeta : s'.metaFile = s.metaFile)
    (hrun : pendingMeta s'.run = pendingMeta s.run) : Listed s' := by
  rw [Listed, hlisted, hmeta, hrun]
  exact h

theorem Listed.step (h : Listed s) (ha : Undisturbed s a) (hs : Step cfg s a s') : Listed s' := by
  cases hs with
  | enumerate lines hrun hmeta =>
    have hempty : s.metaFile = [] := by
      rw [metaThere, Bool.or_eq_false_iff, Bool.not_eq_false', List.isEmpty_iff] at hmeta
      exact hmeta.2
    show lines = s.metaFile ++ lines
    rw [hempty, List.nil_append]
  | @writeMeta m todo hrun =>
    rw [Listed, hrun] at h
    show s.listed = s.metaFile ++ [m] ++ todo
    rw [h, List.append_assoc]
    rfl
  | @die p torn hrun =>
    refine h.go rfl rfl ?_
    rw [hrun]
    cases p with
    | enumerating todo => exact absurd hrun (ha todo)
    | _ => rfl
  | remove => exact h.go rfl rfl rfl
  | start _ hrun | enumerated hrun | skipArchive hrun | enter hrun | skip hrun | clear hrun
  | list _ hrun | fetch _ hrun | fetched hrun | process hrun | tar hrun | upload hrun | verify hrun
  | removed hrun | record hrun | nextTier hrun | finish hrun =>
    refine h.go rfl rfl ?_
    rw [hrun]
    rfl

theorem asked (hcfg : WellSet cfg) {allowed : StreamBackfill → Action → Prop}
    (h : (machine cfg).Reachable allowed s) : Asked cfg s := by
  have hasked : Machine.Invariant (machine cfg) allowed (Asked cfg) :=
    { init := ⟨fun _ _ h => absurd h List.not_mem_nil, by rintro _ _ ⟨⟩⟩
      step := fun hr hP _ hs => hP.step hcfg (walked hcfg hr) hs }
  exact hasked.holds h

theorem listed_of_reachable (h : (machine cfg).Reachable Undisturbed s) : Listed s := by
  have hlisted : Machine.Invariant (machine cfg) Undisturbed Listed :=
    { init := rfl
      step := fun _ hP ha hs => hP.step ha hs }
  exact hlisted.holds h

/-- When a run goes to its end every instant of the range is in exactly one chunk, which is recorded
for the live tier; and every market the enumeration had listed that closes then and was traded has
been asked in the chunk of that name of the archive, which is recorded and stored. -/
theorem finish_covers (hcfg : WellSet cfg) (h : (machine cfg).Reachable Undisturbed s)
    (hs : Step cfg s .finish s') {t : ℤ} (hlo : cfg.minClose ≤ t) (hhi : t < cfg.maxClose) :
    ∃ i, (∀ j, (chunkStart cfg j ≤ t ∧ t < cfg.chunkEnd (chunkStart cfg j)) ↔ j = i) ∧
      chunkName cfg .live i ∈ s'.done ∧
      ∀ m ∈ s'.listed, m.closeTime = some t → m.traded = true →
        chunkName cfg .archive i ∈ s'.done ∧ s'.Stored (chunkName cfg .archive i) ∧
        ∃ answers, s'.answers (chunkName cfg .archive i) = some answers ∧
          m.ticker ∈ answers.map (·.1) := by
  have hstep : 0 < cfg.step := by
    have := hcfg.step_le
    omega
  have hwalked := walked hcfg h
  have hasked := asked hcfg h
  have hlisted := listed_of_reachable h
  obtain ⟨i, hi, hi'⟩ := exists_stride hstep hlo hhi
  have hlt : chunkStart cfg i < cfg.maxClose := hi.trans_lt hhi
  cases hs with
  | @finish lo hrun hend =>
    obtain ⟨hpassed, n, rfl, hbefore⟩ := hwalked.run _ hrun
    refine ⟨i, fun j => ?_, hbefore.tierDone hcfg hend i hlt, fun m hm hclose htraded => ?_⟩
    · rw [chunkEnd_chunkStart hcfg]
      refine ⟨fun hj => stride_unique hstep.le hj.1 hj.2 hi hi', ?_⟩
      rintro rfl
      exact ⟨hi, hi'⟩
    · have hmem : m ∈ s.metaFile := by
        rw [Listed, hrun] at hlisted
        exact (List.append_nil s.metaFile).symm ▸ hlisted ▸ hm
      have harchive : TierDone cfg s .archive := by
        refine hpassed.resolve_left fun hmeta => ?_
        rw [metaThere, Bool.or_eq_false_iff, Bool.not_eq_false', List.isEmpty_iff] at hmeta
        rw [hmeta.2] at hmem
        exact absurd hmem List.not_mem_nil
      have hdone := harchive i hlt
      obtain ⟨answers, hanswers, htickers⟩ := hasked.done i hlt hdone
      refine ⟨hdone, (done_stored h hdone).congr rfl rfl, answers, hanswers, ?_⟩
      rw [htickers, archived]
      refine List.mem_map_of_mem (List.mem_filter.2 ⟨hmem, ?_⟩)
      rw [chunkEnd_chunkStart hcfg, hclose, htraded]
      have hwindow : chunkStart cfg i ≤ t ∧ t < chunkStart cfg (i + 1) := ⟨hi, hi'⟩
      simp [marketCloseInWindow, hwindow]

theorem finish_covers_days : ∃ s : StreamBackfill, ∀ m ∈ streamMarkets, ∃ i,
    chunkName streamDays .live i ∈ s.done ∧ chunkName streamDays .archive i ∈ s.done ∧
    s.Stored (chunkName streamDays .archive i) := by
  obtain ⟨-, -, s, s', -, -, -, -, -, -, h, hs, -, hlisted⟩ := exists_streamed
  have hrange : ∀ m ∈ streamMarkets, ∃ t, m.closeTime = some t ∧ streamDays.minClose ≤ t ∧
      t < streamDays.maxClose ∧ m.traded = true := by
    simp [streamMarkets, streamDays]
  refine ⟨s', fun m hm => ?_⟩
  obtain ⟨t, hclose, hlo, hhi, htraded⟩ := hrange m hm
  obtain ⟨i, -, hlive, harchive⟩ := finish_covers wellSet_streamDays h hs hlo hhi
  obtain ⟨hdone, hstored, -⟩ := harchive m (by rwa [hlisted]) hclose htraded
  exact ⟨i, hlive, hdone, hstored⟩

end Walk

end Snapevent.StreamBackfill
