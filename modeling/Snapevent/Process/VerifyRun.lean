import Mathlib.Data.List.Induction
import Mathlib.Data.List.Infix
import Snapevent.Lib.Somewhere
import Snapevent.Process.Display

/-!
# Runs of the verify engine

A run is a list of calls.  The row of an observation is a function of the engine that received it
and of the calls that follow (`rowFor`); every statement about verdicts starts from that function.
-/

namespace Snapevent

/-- One call of the engine. -/
inductive EngineCall
  | bookEvent (recvTsUs : ℤ) (book : Book) (isSnapshot : Bool)
  | gap
  | verify (recvTsUs : ℤ) (restYes restNo : List PriceLevel) (book : Book)

namespace EngineCall

/-- The timestamp a call is given. -/
def ts? : EngineCall → Option ℤ
  | bookEvent ts _ _ => some ts
  | gap => none
  | verify ts _ _ _ => some ts

/-- The call feeds a snapshot. -/
def isSnapshot : EngineCall → Bool
  | bookEvent _ _ isSnapshot => isSnapshot
  | _ => false

/-- What a verify call observes. -/
def observation? : EngineCall → Option Observation
  | verify ts yes no _ => some (restObservation ts yes no)
  | _ => none

end EngineCall

/-- The observations of a run. -/
def observed (calls : List EngineCall) : List Observation := calls.filterMap (·.observation?)

/-- A gap was fed, and no snapshot since. -/
def GapUnresolved (calls : List EngineCall) : Prop :=
  ∃ before after, calls = before ++ .gap :: after ∧ ∀ c ∈ after, c.isSnapshot = false

namespace VerifyEngine

/-- Make one call. -/
def step (en : VerifyEngine) : EngineCall → VerifyEngine
  | .bookEvent ts book isSnapshot => en.onBookEvent ts book isSnapshot
  | .gap => en.onGap
  | .verify ts yes no book => en.onVerify ts yes no book

/-- The engine after some calls. -/
def run (calls : List EngineCall) : VerifyEngine := calls.foldl step new

theorem run_concat (calls : List EngineCall) (c : EngineCall) :
    run (calls ++ [c]) = (run calls).step c :=
  List.foldl_concat step new c calls

/-! ## Rows and observations -/

theorem step_observations (en : VerifyEngine) (c : EngineCall) :
    (en.step c).observations = en.observations ++ c.observation?.toList := by
  cases c with
  | bookEvent ts book isSnapshot =>
    exact (en.onBookEvent_observations ts book isSnapshot).trans (List.append_nil _).symm
  | gap => exact en.onGap_observations.trans (List.append_nil _).symm
  | verify ts yes no book => exact en.onVerify_observations ts yes no book

theorem run_observations (calls : List EngineCall) : (run calls).observations = observed calls := by
  induction calls using List.reverseRecOn with
  | nil => rfl
  | append_singleton calls c ih =>
    rw [run_concat, step_observations, ih, observed, observed, List.filterMap_append]
    cases c <;> rfl

/-- The rows a book event adds: at most the verdict of the check that was pending. -/
theorem onBookEvent_rows (en : VerifyEngine) (ts : ℤ) (book : Book) (isSnapshot : Bool) :
    (en.onBookEvent ts book isSnapshot).rows = en.rows ++ match en.pending with
      | none => []
      | some p =>
        if p.deadline < ts then [p.resolveMismatch]
        else if canonicalizeBook book = p.restState then [p.resolveMatched (ts - p.verifyTs)]
        else [] := by
  unfold onBookEvent
  cases hp : en.pending with
  | none => exact (List.append_nil _).symm
  | some p =>
    dsimp only
    split_ifs
    · rfl
    · rfl
    · exact (List.append_nil _).symm

/-- The check that is pending after a book event. -/
theorem onBookEvent_pending (en : VerifyEngine) (ts : ℤ) (book : Book) (isSnapshot : Bool) :
    (en.onBookEvent ts book isSnapshot).pending = match en.pending with
      | none => none
      | some p =>
        if p.deadline < ts then none
        else if canonicalizeBook book = p.restState then none
        else some p := by
  unfold onBookEvent
  cases hp : en.pending with
  | none => exact hp
  | some p =>
    dsimp only
    split_ifs
    · rfl
    · rfl
    · exact hp

theorem onBookEvent_gapPending (en : VerifyEngine) (ts : ℤ) (book : Book) (isSnapshot : Bool) :
    (en.onBookEvent ts book isSnapshot).gapPending =
      if isSnapshot then false else en.gapPending := by
  unfold onBookEvent
  cases en.pending with
  | none => rfl
  | some p =>
    dsimp only
    split_ifs <;> rfl

theorem onBookEvent_window (en : VerifyEngine) (ts : ℤ) (book : Book) (isSnapshot : Bool) :
    (en.onBookEvent ts book isSnapshot).window =
      prune (ts - VERIFY_WINDOW_US) (en.window ++ [(ts, canonicalizeBook book)]) := by
  unfold onBookEvent
  cases en.pending with
  | none => rfl
  | some p =>
    dsimp only
    split_ifs <;> rfl

/-- The check of an observation. -/
def check (ts : ℤ) (yes no : List PriceLevel) (book : Book) : PendingCheck :=
  { verifyTs := ts, deadline := ts + VERIFY_WINDOW_US, restState := canonicalizeRest yes no
    bookStateAtVerify := canonicalizeBook book
    yesLevelsJson := levelsJson (canonicalizeRest yes no).1
    noLevelsJson := levelsJson (canonicalizeRest yes no).2 }

/-- The rows of the check that is pending when an observation comes. -/
def overdue (en : VerifyEngine) : List VerifyOutcomeRow :=
  en.pending.toList.map fun p => if en.gapPending then p.resolveSkippedGap else p.resolveMismatch

/-- What an observation is decided to at once: its row, or nothing yet. -/
def decided (en : VerifyEngine) (p : PendingCheck) : Option VerifyOutcomeRow :=
  if en.gapPending then
    some (p.resolve .skippedGap none "book state is suspect since the last unresolved gap")
  else if p.bookStateAtVerify = p.restState then some (p.resolveMatched 0)
  else (backwardMatch p.restState (p.verifyTs - VERIFY_WINDOW_US) en.window.reverse).map fun ts =>
    p.resolveMatched (max ts (p.verifyTs - VERIFY_WINDOW_US) - p.verifyTs)

theorem onVerify_eq (en : VerifyEngine) (ts : ℤ) (yes no : List PriceLevel) (book : Book) :
    en.onVerify ts yes no book = match en.decided (check ts yes no book) with
      | some row => { en with pending := none, rows := en.rows ++ en.overdue ++ [row] }
      | none =>
        { en with pending := some (check ts yes no book), rows := en.rows ++ en.overdue } := by
  unfold onVerify decided overdue
  dsimp only [check]
  cases en.gapPending with
  | true => rfl
  | false =>
    simp only [Bool.false_eq_true, if_false]
    by_cases heq : canonicalizeBook book = canonicalizeRest yes no
    · simp [heq]
    · simp only [heq, if_false]
      cases backwardMatch (canonicalizeRest yes no) (ts - VERIFY_WINDOW_US) en.window.reverse <;>
        rfl

/-! ## The row of an observation -/

/-- How a pending check ends: by a gap, by the next observation, by a book event past the deadline
or equal to it, or at the end of the stream. -/
def await (p : PendingCheck) : List EngineCall → VerifyOutcomeRow
  | [] => p.resolveTruncated
  | .gap :: _ => p.resolveSkippedGap
  | .verify .. :: _ => p.resolveMismatch
  | .bookEvent ts book _ :: calls =>
    if p.deadline < ts then p.resolveMismatch
    else if canonicalizeBook book = p.restState then p.resolveMatched (ts - p.verifyTs)
    else await p calls

/-- The row of an observation that the engine `en` receives, followed by the calls `after`. -/
def rowFor (en : VerifyEngine) (p : PendingCheck) (after : List EngineCall) : VerifyOutcomeRow :=
  (en.decided p).getD (await p after)

theorem rows_isPrefix_finish (en : VerifyEngine) (calls : List EngineCall) :
    en.rows <+: (calls.foldl step en).finish := by
  induction calls generalizing en with
  | nil => exact List.prefix_append _ _
  | cons c calls ih =>
    have hstep : en.rows <+: (en.step c).rows := by
      cases c with
      | bookEvent ts book isSnapshot =>
        rw [step, onBookEvent_rows]
        exact List.prefix_append _ _
      | gap => exact List.prefix_append _ _
      | verify ts yes no book =>
        rw [step, onVerify_eq]
        cases en.decided (check ts yes no book) with
        | none => exact List.prefix_append _ _
        | some row =>
          dsimp only
          rw [List.append_assoc]
          exact List.prefix_append _ _
    exact hstep.trans (ih (en.step c))

theorem await_isPrefix_finish {en : VerifyEngine} {p : PendingCheck} (hp : en.pending = some p)
    (hgap : en.gapPending = false) (calls : List EngineCall) :
    en.rows ++ [await p calls] <+: (calls.foldl step en).finish := by
  induction calls generalizing en with
  | nil =>
    rw [List.foldl_nil, finish, hp]
    exact List.prefix_rfl
  | cons c calls ih =>
    have hdone {row : VerifyOutcomeRow} (hrow : en.rows ++ [row] <+: (en.step c).rows) :
        en.rows ++ [row] <+: ((c :: calls).foldl step en).finish :=
      hrow.trans (rows_isPrefix_finish (en.step c) calls)
    cases c with
    | gap =>
      apply hdone
      rw [step, onGap, hp]
      exact List.prefix_rfl
    | verify ts yes no book =>
      apply hdone
      rw [step, onVerify_eq, overdue, hp, hgap]
      cases en.decided (check ts yes no book) with
      | none => exact List.prefix_rfl
      | some row => exact List.prefix_append _ _
    | bookEvent ts book isSnapshot =>
      have hrows := onBookEvent_rows en ts book isSnapshot
      have hpending := onBookEvent_pending en ts book isSnapshot
      rw [hp] at hrows hpending
      rw [await]
      dsimp only at hrows hpending
      split_ifs at hrows hpending ⊢ with hlate heq
      · apply hdone
        rw [step, hrows]
      · apply hdone
        rw [step, hrows]
      · rw [List.append_nil] at hrows
        rw [List.foldl_cons, ← hrows]
        apply ih hpending
        rw [onBookEvent_gapPending, hgap, ite_self]

/-- The row of an observation stands where the observation stands among all observations. -/
theorem row_of_observation (before after : List EngineCall) (ts : ℤ) (yes no : List PriceLevel)
    (book : Book) :
    (run (before ++ .verify ts yes no book :: after)).finish[(observed before).length]? =
      some (rowFor (run before) (check ts yes no book) after) := by
  set en := run before with hen
  have hlen : (en.rows ++ en.overdue).length = (observed before).length := by
    rw [← run_observations, observations, overdue, ← hen]
    simp
  have hrow : en.rows ++ en.overdue ++ [rowFor en (check ts yes no book) after] <+:
      (run (before ++ .verify ts yes no book :: after)).finish := by
    rw [run, List.foldl_append, List.foldl_cons]
    show _ <+: (after.foldl step (en.onVerify ts yes no book)).finish
    rw [onVerify_eq, rowFor]
    cases hd : en.decided (check ts yes no book) with
    | some row =>
      exact rows_isPrefix_finish
        { en with pending := none, rows := en.rows ++ en.overdue ++ [row] } after
    | none =>
      -- an observation is only left open while no gap is unresolved
      have hgap : en.gapPending = false := by
        cases hgap : en.gapPending with
        | false => rfl
        | true => simp [decided, hgap] at hd
      let waiting : VerifyEngine :=
        { en with pending := some (check ts yes no book), rows := en.rows ++ en.overdue }
      have hpending : waiting.pending = some (check ts yes no book) := rfl
      exact await_isPrefix_finish hpending hgap after
  obtain ⟨tail, htail⟩ := hrow
  rw [← htail, ← hlen, List.append_assoc, List.getElem?_append_right le_rfl, Nat.sub_self]
  rfl

/-! ## Unresolved gaps -/

theorem gapUnresolved_concat {calls : List EngineCall} {c : EngineCall} :
    GapUnresolved (calls ++ [c]) ↔
      c = .gap ∨ c.isSnapshot = false ∧ GapUnresolved calls := by
  constructor
  · rintro ⟨before, after, h, hafter⟩
    rcases after.eq_nil_or_concat with rfl | ⟨after, d, rfl⟩
    · obtain ⟨-, hc⟩ := List.append_inj' h rfl
      exact Or.inl (List.cons.inj hc).1
    · rw [List.concat_eq_append] at h hafter
      rw [← List.cons_append, ← List.append_assoc] at h
      obtain ⟨hcalls, hc⟩ := List.append_inj' h rfl
      obtain rfl := (List.cons.inj hc).1
      refine Or.inr ⟨hafter c (by simp), before, after, hcalls, fun d hd => ?_⟩
      exact hafter d (List.mem_append_left _ hd)
  · rintro (rfl | ⟨hc, before, after, rfl, hafter⟩)
    · exact ⟨calls, [], rfl, by simp⟩
    · refine ⟨before, after ++ [c], by simp, fun d hd => ?_⟩
      rcases List.mem_append.1 hd with hd | hd
      · exact hafter d hd
      · rwa [List.mem_singleton.1 hd]

theorem run_gapPending (calls : List EngineCall) :
    (run calls).gapPending = true ↔ GapUnresolved calls := by
  induction calls using List.reverseRecOn with
  | nil =>
    refine ⟨fun h => (Bool.false_ne_true h).elim, ?_⟩
    rintro ⟨before, after, h, -⟩
    simp at h
  | append_singleton calls c ih =>
    rw [run_concat, gapUnresolved_concat, ← ih]
    cases c with
    | bookEvent ts book isSnapshot =>
      rw [step, onBookEvent_gapPending]
      cases isSnapshot <;> simp [EngineCall.isSnapshot]
    | gap => simp [step, onGap]
    | verify ts yes no book =>
      have hgap : ((run calls).onVerify ts yes no book).gapPending = (run calls).gapPending := by
        rw [onVerify_eq]
        cases (run calls).decided (check ts yes no book) <;> rfl
      rw [step, hgap]
      simp [EngineCall.isSnapshot]

theorem run_pending {calls : List EngineCall} {p : PendingCheck}
    (hp : (run calls).pending = some p) : (run calls).gapPending = false := by
  induction calls using List.reverseRecOn generalizing p with
  | nil => cases hp
  | append_singleton calls c ih =>
    rw [run_concat] at hp ⊢
    cases c with
    | bookEvent ts book isSnapshot =>
      rw [step, onBookEvent_pending] at hp
      cases hq : (run calls).pending with
      | none =>
        rw [hq] at hp
        cases hp
      | some q => rw [step, onBookEvent_gapPending, ih hq, ite_self]
    | gap => cases hp
    | verify ts yes no book =>
      rw [step, onVerify_eq] at hp ⊢
      cases hd : (run calls).decided (check ts yes no book) with
      | some row =>
        rw [hd] at hp
        cases hp
      | none =>
        dsimp only
        cases hgap : (run calls).gapPending with
        | false => rfl
        | true => simp [decided, hgap] at hd

/-! ## The verdicts -/

theorem finish_observed (calls : List EngineCall) :
    (run calls).finish.map (·.observation) = observed calls :=
  (run calls).finish_observations.trans (run_observations calls)

/-- Every row is the row of an observation. -/
theorem exists_observation {calls : List EngineCall} {n : ℕ} {row : VerifyOutcomeRow}
    (h : (run calls).finish[n]? = some row) : ∃ before ts yes no book after,
      calls = before ++ .verify ts yes no book :: after ∧ (observed before).length = n ∧
        row = rowFor (run before) (check ts yes no book) after := by
  have hobs : (observed calls)[n]? = some row.observation := by
    rw [← finish_observed, List.getElem?_map, h]
    rfl
  obtain ⟨earlier, later, hsplit, hn⟩ := List.split_of_getElem? hobs
  obtain ⟨before, c, after, rfl, hbefore, hc, -⟩ := List.exists_split_of_filterMap hsplit
  have hlen : (observed before).length = n := by
    rw [observed, hbefore, hn]
  cases c with
  | bookEvent ts book isSnapshot => cases hc
  | gap => cases hc
  | verify ts yes no book =>
    refine ⟨before, ts, yes, no, book, after, rfl, hlen, ?_⟩
    rw [← hlen, row_of_observation] at h
    exact (Option.some_inj.1 h).symm

/-- A check that is decided at once is matched, with a lag, or skipped. -/
theorem decided_outcome {en : VerifyEngine} {p : PendingCheck} {row : VerifyOutcomeRow}
    (h : en.decided p = some row) :
    (row.outcome = .matched ∧ row.matchLagUs.isSome) ∨
      (row.outcome = .skippedGap ∧ row.matchLagUs = none) := by
  rw [decided] at h
  split_ifs at h
  · cases h
    exact Or.inr ⟨rfl, rfl⟩
  · cases h
    exact Or.inl ⟨rfl, rfl⟩
  · obtain ⟨ts, -, rfl⟩ := Option.map_eq_some_iff.1 h
    exact Or.inl ⟨rfl, rfl⟩

theorem await_outcome (p : PendingCheck) (calls : List EngineCall) :
    ((await p calls).matchLagUs.isSome ↔ (await p calls).outcome = .matched) ∧
      ((await p calls).outcome = .truncated → observed calls = []) := by
  induction calls with
  | nil => exact ⟨by simp [await, PendingCheck.resolveTruncated, PendingCheck.resolve],
      fun _ => rfl⟩
  | cons c calls ih =>
    cases c with
    | gap => simp [await, PendingCheck.resolveSkippedGap, PendingCheck.resolve]
    | verify ts yes no book => simp [await, PendingCheck.resolveMismatch, PendingCheck.resolve]
    | bookEvent ts book isSnapshot =>
      rw [await]
      split_ifs
      · simp [PendingCheck.resolveMismatch, PendingCheck.resolve]
      · simp [PendingCheck.resolveMatched, PendingCheck.resolve]
      · exact ih

/-- While a gap is unresolved before or after a call, the call only skips checks. -/
theorem step_issues (calls : List EngineCall) (c : EngineCall) :
    ∃ issued, (run (calls ++ [c])).rows = (run calls).rows ++ issued ∧
      (GapUnresolved calls ∨ GapUnresolved (calls ++ [c]) →
        ∀ row ∈ issued, row.outcome = .skippedGap) := by
  rw [run_concat, ← run_gapPending]
  have hnone (hgap : (run calls).gapPending = true) : (run calls).pending = none := by
    cases hp : (run calls).pending with
    | none => rfl
    | some p => exact (Bool.false_ne_true ((run_pending hp).symm.trans hgap)).elim
  have hbefore {c : EngineCall} (hc : c ≠ .gap) (h : (run calls).gapPending = true ∨
      GapUnresolved (calls ++ [c])) : (run calls).gapPending = true := by
    rcases h with h | h
    · exact h
    · rw [run_gapPending]
      exact ((gapUnresolved_concat.1 h).resolve_left hc).2
  cases c with
  | bookEvent ts book isSnapshot =>
    refine ⟨_, onBookEvent_rows _ _ _ _, fun h => ?_⟩
    rw [hnone (hbefore (by simp) h)]
    simp
  | gap =>
    refine ⟨_, rfl, fun _ row hrow => ?_⟩
    obtain ⟨p, -, rfl⟩ := List.mem_map.1 hrow
    rfl
  | verify ts yes no book =>
    rw [step, onVerify_eq]
    cases hd : (run calls).decided (check ts yes no book) with
    | none =>
      refine ⟨_, rfl, fun h => ?_⟩
      simp [overdue, hnone (hbefore (by simp) h)]
    | some row =>
      refine ⟨_, List.append_assoc _ _ _, fun h => ?_⟩
      have hgap := hbefore (by simp) h
      rw [decided, if_pos hgap] at hd
      cases hd
      simp [overdue, hnone hgap, PendingCheck.resolve]

/-- Every observation gets one row, in order, with the texts of its levels, which tell the levels;
only matched rows carry a lag, only the last row can be truncated, and no check is pending and no
verdict is rendered while a gap is unresolved. -/
theorem every_observation_accounted_once (calls : List EngineCall) :
    ((run calls).finish.map (·.observation) = observed calls ∧ Function.Injective levelsJson) ∧
    (∀ row ∈ (run calls).finish, row.matchLagUs.isSome ↔ row.outcome = .matched) ∧
    (∀ (n : ℕ) row, (run calls).finish[n]? = some row → row.outcome = .truncated →
      n + 1 = (run calls).finish.length) ∧
    ((run calls).pending.isSome → ¬ GapUnresolved calls) ∧
    ∀ c, ∃ issued, (run (calls ++ [c])).rows = (run calls).rows ++ issued ∧
      (GapUnresolved calls ∨ GapUnresolved (calls ++ [c]) →
        ∀ row ∈ issued, row.outcome ≠ .matched ∧ row.outcome ≠ .mismatch) := by
  refine ⟨⟨finish_observed calls, injective_levelsJson⟩, ?_, ?_, ?_, ?_⟩
  · intro row hrow
    obtain ⟨n, hn⟩ := List.mem_iff_getElem?.1 hrow
    obtain ⟨before, ts, yes, no, book, after, -, -, rfl⟩ := exists_observation hn
    rw [rowFor]
    cases hd : (run before).decided (check ts yes no book) with
    | none => exact (await_outcome _ after).1
    | some row =>
      rcases decided_outcome hd with ⟨ho, hl⟩ | ⟨ho, hl⟩
      · simp [ho, hl]
      · simp [ho, hl]
  · intro n row hn htruncated
    obtain ⟨before, ts, yes, no, book, after, rfl, hlen, rfl⟩ := exists_observation hn
    have hafter : observed after = [] := by
      rw [rowFor] at htruncated
      cases hd : (run before).decided (check ts yes no book) with
      | none =>
        rw [hd] at htruncated
        exact (await_outcome _ after).2 htruncated
      | some row =>
        rw [hd] at htruncated
        rcases decided_outcome hd with ⟨ho, -⟩ | ⟨ho, -⟩ <;> cases ho.symm.trans htruncated
    have htotal := congrArg List.length
      (finish_observed (before ++ .verify ts yes no book :: after))
    rw [observed, List.filterMap_append, List.filterMap_cons] at htotal
    change _ = (observed before ++ restObservation ts yes no :: observed after).length at htotal
    rw [hafter, List.length_map, List.length_append, hlen] at htotal
    exact htotal.symm
  · intro hp
    obtain ⟨p, hp⟩ := Option.isSome_iff_exists.1 hp
    rw [← run_gapPending, run_pending hp]
    exact Bool.false_ne_true
  · intro c
    obtain ⟨issued, hrows, hskipped⟩ := step_issues calls c
    refine ⟨issued, hrows, fun h row hrow => ?_⟩
    rw [hskipped h row hrow]
    decide

end VerifyEngine

end Snapevent
