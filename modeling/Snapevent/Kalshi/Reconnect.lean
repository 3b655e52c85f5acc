import Mathlib.Data.List.DropRight
import Mathlib.Data.List.Induction
import Snapevent.Kalshi.Backoff
import Snapevent.Kalshi.Session

/-!
# The waits of a session

The outer loop of the session with the backoff it drives: the delay advances when a connect is
refused and when a connection ends, and starts over as soon as a connect succeeds, before any frame
is received.  Cycles that receive nothing therefore wait long enough exactly when no two of them in
a row end with an accepted connection, and the outage stays short of the lost bits of the backoff.
-/

namespace Snapevent

/-! ## Cycles -/

/-- What became of a connect attempt: refused, or connected and ended after some text frames. -/
inductive CycleOutcome
  | refused
  | connected (frames : ℕ)
  deriving DecidableEq, Repr

/-- The text frames received in a cycle. -/
def CycleOutcome.frames : CycleOutcome → ℕ
  | .refused => 0
  | .connected frames => frames

/-- A connection cycle, with the wait before the next connect attempt. -/
structure Cycle where
  outcome : CycleOutcome
  wait : ℚ

/-- The base and the cap of the session's backoff, in milliseconds. -/
def BACKOFF_BASE_MS : UInt64 := 500

def BACKOFF_MAX_MS : UInt64 := 30000

/-- The outer loop with its backoff: the session it leaves, and the cycles that were followed by a
wait and another connect attempt.  The `n`-th wait draws `jitter n`. -/
def backoffLoop (tickers : List String) (first : Bool) (s : Session) (b : Backoff)
    (jitter : ℕ → ℚ) : List Turn → Session × List Cycle
  | [] => (s, [])
  | .shutdown :: _ => (s.finish .shutdown, [])
  | .refused stop :: turns =>
    let (b, wait) := b.next (jitter 0)
    if stop then (s.finish .shutdown, [])
    else
      let (s, cycles) := backoffLoop tickers first s b (fun n => jitter (n + 1)) turns
      (s, ⟨.refused, wait⟩ :: cycles)
  | .connected status recvTs events stop :: turns =>
    let s := { s with stats := { s.stats with
      status := some status, connects := s.stats.connects + 1 } }
    let b := b.reset
    match if first then .ok s else emitReconnectGaps s recvTs tickers with
    | .error s => (s.finish .sinkClosed, [])
    | .ok s =>
      let before := s.stats.frames
      let (s, reconnect) := readLoop tickers (.new, s) events
      if !reconnect then (s, [])
      else
        let (b, wait) := b.next (jitter 0)
        let frames := s.stats.frames - before
        if stop then (s.finish .shutdown, [])
        else
          let (s, cycles) := backoffLoop tickers false s b (fun n => jitter (n + 1)) turns
          (s, ⟨.connected frames, wait⟩ :: cycles)

/-- The cycles of a run of the session. -/
def sessionCycles (tickers : List String) (room : Option ℕ) (jitter : ℕ → ℚ) (turns : List Turn) :
    List Cycle :=
  (backoffLoop tickers true (.start room) (.new BACKOFF_BASE_MS BACKOFF_MAX_MS) jitter turns).2

/-- The outcomes of the cycles; the waits have no say in them. -/
def outcomes (tickers : List String) (first : Bool) (s : Session) : List Turn → List CycleOutcome
  | [] => []
  | .shutdown :: _ => []
  | .refused stop :: turns => if stop then [] else .refused :: outcomes tickers first s turns
  | .connected status recvTs events stop :: turns =>
    let s := { s with stats := { s.stats with
      status := some status, connects := s.stats.connects + 1 } }
    match if first then .ok s else emitReconnectGaps s recvTs tickers with
    | .error _ => []
    | .ok s =>
      let before := s.stats.frames
      let (s, reconnect) := readLoop tickers (.new, s) events
      if !reconnect then []
      else if stop then []
      else .connected (s.stats.frames - before) :: outcomes tickers false s turns

/-- A cycle and the backoff after it. -/
def cycleOf (b : Backoff) (jitter : ℚ) : CycleOutcome → Backoff × Cycle
  | .refused => ((b.next jitter).1, ⟨.refused, (b.next jitter).2⟩)
  | .connected frames =>
    ((b.reset.next jitter).1, ⟨.connected frames, (b.reset.next jitter).2⟩)

/-- The cycles of given outcomes. -/
def cyclesOf (b : Backoff) (jitter : ℕ → ℚ) : List CycleOutcome → List Cycle
  | [] => []
  | o :: os => (cycleOf b (jitter 0) o).2 ::
      cyclesOf (cycleOf b (jitter 0) o).1 (fun n => jitter (n + 1)) os

/-- The backoff changes nothing else about the session, and the session nothing else about the
waits. -/
theorem backoffLoop_eq (tickers : List String) (first : Bool) (s : Session) (b : Backoff)
    (jitter : ℕ → ℚ) (turns : List Turn) : backoffLoop tickers first s b jitter turns =
      (sessionLoop tickers first s turns, cyclesOf b jitter (outcomes tickers first s turns)) := by
  induction turns generalizing first s b jitter with
  | nil => rfl
  | cons turn turns ih =>
    cases turn with
    | shutdown => rfl
    | refused stop =>
      cases stop with
      | true => rfl
      | false =>
        rw [backoffLoop]
        dsimp only
        rw [if_neg Bool.false_ne_true, ih]
        rfl
    | connected status recvTs events stop =>
      rw [backoffLoop, sessionLoop, outcomes]
      dsimp only
      generalize (if first = true then (Except.ok _ : Except Session Session) else _) = started
      cases started with
      | error s => rfl
      | ok s =>
        dsimp only
        split_ifs with hreconnect hstop
        · rfl
        · rfl
        · rw [ih]
          rfl

/-! ## Streaks -/

/-- The cycles without a frame at the end of a run. -/
def streak (os : List CycleOutcome) : ℕ := (os.rtakeWhile (·.frames = 0)).length

/-- The delays handed out since the last connection was made, its own included. -/
def delaysSince : List CycleOutcome → ℕ :=
  List.foldl (fun n o => match o with | .refused => n + 1 | .connected _ => 1) 0

theorem streak_concat (os : List CycleOutcome) (o : CycleOutcome) :
    streak (os ++ [o]) = if o.frames = 0 then streak os + 1 else 0 := by
  rw [streak, List.rtakeWhile_concat]
  by_cases h : o.frames = 0
  · simp [h, streak]
  · simp [h]

theorem delaysSince_concat (os : List CycleOutcome) (o : CycleOutcome) :
    delaysSince (os ++ [o]) =
      match o with
      | .refused => delaysSince os + 1
      | .connected _ => 1 :=
  List.foldl_concat ..

theorem length_le_streak (os last : List CycleOutcome) (h : ∀ o ∈ last, o.frames = 0) :
    last.length ≤ streak (os ++ last) := by
  induction last using List.reverseRecOn with
  | nil => exact Nat.zero_le _
  | append_singleton last o ih =>
    have ho : o.frames = 0 := h o (List.mem_concat_self ..)
    have hle := ih fun o h' => h o (List.mem_append_left _ h')
    rw [← List.append_assoc, streak_concat, if_pos ho, List.length_append, List.length_singleton]
    omega

theorem exists_streak (os : List CycleOutcome) :
    ∃ before last, os = before ++ last ∧ (∀ o ∈ last, o.frames = 0) ∧ last.length = streak os := by
  refine ⟨_, _, (List.rdropWhile_append_rtakeWhile (p := fun o => o.frames = 0)).symm, ?_, rfl⟩
  intro o ho
  have hdec : decide (o.frames = 0) = true :=
    List.mem_rtakeWhile_imp (p := fun o : CycleOutcome => decide (o.frames = 0)) ho
  exact of_decide_eq_true hdec

/-! ## The backoff along a run -/

/-- The attempt the delay of a cycle is drawn at. -/
def attemptAt (os : List CycleOutcome) : CycleOutcome → ℕ
  | .refused => delaysSince os
  | .connected _ => 0

/-- The backoff after a run. -/
def backoffAfter (b : Backoff) (jitter : ℕ → ℚ) : List CycleOutcome → Backoff
  | [] => b
  | o :: os => backoffAfter (cycleOf b (jitter 0) o).1 (fun n => jitter (n + 1)) os

theorem cyclesOf_append (b : Backoff) (jitter : ℕ → ℚ) (os os' : List CycleOutcome) :
    cyclesOf b jitter (os ++ os') = cyclesOf b jitter os ++
      cyclesOf (backoffAfter b jitter os) (fun n => jitter (n + os.length)) os' := by
  induction os generalizing b jitter with
  | nil => rfl
  | cons o os ih =>
    rw [List.cons_append, cyclesOf, cyclesOf, ih, List.cons_append, backoffAfter]
    rfl

theorem backoffAfter_concat (b : Backoff) (jitter : ℕ → ℚ) (os : List CycleOutcome)
    (o : CycleOutcome) : backoffAfter b jitter (os ++ [o]) =
      (cycleOf (backoffAfter b jitter os) (jitter os.length) o).1 := by
  induction os generalizing b jitter with
  | nil => rfl
  | cons o' os ih =>
    rw [List.cons_append, backoffAfter, ih, backoffAfter]
    rfl

/-- The schedule of the session, at some attempt. -/
structure AtAttempt (b : Backoff) (n : ℕ) : Prop where
  base : b.baseMs = BACKOFF_BASE_MS
  max : b.maxMs = BACKOFF_MAX_MS
  attempt : b.attempt.toNat = min n (2 ^ 32 - 1)

theorem AtAttempt.advance {b : Backoff} {n : ℕ} (h : AtAttempt b n) :
    AtAttempt b.advance (n + 1) := by
  refine ⟨h.base, h.max, ?_⟩
  rw [Backoff.toNat_advance, h.attempt]
  omega

theorem AtAttempt.reset {b : Backoff} {n : ℕ} (h : AtAttempt b n) : AtAttempt b.reset 0 :=
  ⟨h.base, h.max, rfl⟩

theorem atAttempt_backoffAfter (jitter : ℕ → ℚ) (os : List CycleOutcome) :
    AtAttempt (backoffAfter (.new BACKOFF_BASE_MS BACKOFF_MAX_MS) jitter os) (delaysSince os) := by
  induction os using List.reverseRecOn with
  | nil => exact ⟨rfl, rfl, rfl⟩
  | append_singleton os o ih =>
    rw [backoffAfter_concat, delaysSince_concat]
    cases o with
    | refused => exact ih.advance
    | connected frames => exact ih.reset.advance

/-- The wait after a cycle is the delay of a schedule at the cycle's attempt. -/
theorem cycleOf_wait {b : Backoff} {os : List CycleOutcome} (h : AtAttempt b (delaysSince os))
    (jitter : ℚ) (o : CycleOutcome) :
    ∃ b', AtAttempt b' (attemptAt os o) ∧ (cycleOf b jitter o).2 = ⟨o, (b'.next jitter).2⟩ := by
  cases o with
  | refused => exact ⟨b, h, rfl⟩
  | connected frames => exact ⟨b.reset, h.reset, rfl⟩

/-! ## The bound -/

/-- Whenever the last cycles, `k` of them, all ended without a frame, the wait that follows is at
least half the cap after `k - 1` attempts. -/
def NotHammered (cycles : List Cycle) : Prop :=
  ∀ before last c, before ++ (last ++ [c]) <+: cycles →
    (∀ x ∈ last ++ [c], x.outcome.frames = 0) →
    (Backoff.exactCap BACKOFF_BASE_MS BACKOFF_MAX_MS ((last ++ [c]).length - 1) : ℚ) / 2 ≤ c.wait

/-- The machine cap at an attempt. -/
def capAt (n : ℕ) : ℕ := if n < 64 then min (500 * 2 ^ n % 2 ^ 64) 30000 else 30000

theorem AtAttempt.capped {b : Backoff} {n : ℕ} (h : AtAttempt b n) :
    b.capped.toNat = capAt n := by
  have hlt : b.attempt.toNat < 64 ↔ n < 64 := by
    rw [h.attempt]
    omega
  rw [Backoff.toNat_capped, h.base, h.max, capAt]
  by_cases hn : n < 64
  · have hsame : b.attempt.toNat = n := by
      rw [h.attempt]
      omega
    rw [if_pos (hlt.2 hn), if_pos hn, hsame]
    rfl
  · rw [if_neg (mt hlt.1 hn), if_neg hn]
    rfl

theorem map_outcome_cyclesOf (b : Backoff) (jitter : ℕ → ℚ) (os : List CycleOutcome) :
    (cyclesOf b jitter os).map (·.outcome) = os := by
  induction os generalizing b jitter with
  | nil => rfl
  | cons o os ih =>
    rw [cyclesOf, List.map_cons, ih]
    cases o <;> rfl

/-- A cycle of a run, with the cycles before it. -/
theorem prefix_cyclesOf {b : Backoff} {jitter : ℕ → ℚ} {os : List CycleOutcome}
    {before : List Cycle} {c : Cycle} (h : before ++ [c] <+: cyclesOf b jitter os) :
    ∃ pre o post, os = pre ++ o :: post ∧ before = cyclesOf b jitter pre ∧
      c = (cycleOf (backoffAfter b jitter pre) (jitter pre.length) o).2 := by
  induction before generalizing b jitter os with
  | nil =>
    cases os with
    | nil => exact absurd (List.prefix_nil.1 h) (by simp)
    | cons o os =>
      obtain ⟨rfl, -⟩ := List.cons_prefix_cons.1 h
      exact ⟨[], o, os, rfl, rfl, rfl⟩
  | cons x before ih =>
    cases os with
    | nil => exact absurd (List.prefix_nil.1 h) (by simp)
    | cons o os =>
      obtain ⟨rfl, hrest⟩ := List.cons_prefix_cons.1 h
      obtain ⟨pre, o', post, rfl, rfl, rfl⟩ := ih hrest
      exact ⟨o :: pre, o', post, rfl, rfl, rfl⟩

/-- Whatever the jitter, no cycle is followed too soon if and only if at every frameless cycle the
machine cap reaches the exact cap of the streak before it. -/
theorem notHammered_cyclesOf_iff (os : List CycleOutcome) :
    (∀ jitter : ℕ → ℚ, (∀ n, 0 ≤ jitter n ∧ jitter n ≤ 1) →
      NotHammered (cyclesOf (.new BACKOFF_BASE_MS BACKOFF_MAX_MS) jitter os)) ↔
    ∀ pre o post, os = pre ++ o :: post → o.frames = 0 →
      Backoff.exactCap BACKOFF_BASE_MS BACKOFF_MAX_MS (streak pre) ≤ capAt (attemptAt pre o) := by
  constructor
  · rintro h pre o post rfl ho
    obtain ⟨first, last, hpre, hlast, hlen⟩ := exists_streak pre
    have hzero : ∀ n : ℕ, (0 : ℚ) ≤ (fun _ : ℕ => (0 : ℚ)) n ∧ (fun _ : ℕ => (0 : ℚ)) n ≤ 1 :=
      fun _ => ⟨le_refl 0, zero_le_one⟩
    obtain ⟨b', hb', hcycle⟩ := cycleOf_wait
      (atAttempt_backoffAfter (fun _ => 0) pre) 0 o
    have hsplit : cyclesOf (.new BACKOFF_BASE_MS BACKOFF_MAX_MS) (fun _ => 0) (pre ++ o :: post) =
        cyclesOf (.new BACKOFF_BASE_MS BACKOFF_MAX_MS) (fun _ => 0) first ++
          (cyclesOf (backoffAfter (.new BACKOFF_BASE_MS BACKOFF_MAX_MS) (fun _ => 0) first)
            (fun _ => 0) last ++ [⟨o, (b'.next 0).2⟩]) ++
          cyclesOf (cycleOf (backoffAfter (.new BACKOFF_BASE_MS BACKOFF_MAX_MS) (fun _ => 0) pre)
            0 o).1 (fun _ => 0) post := by
      rw [cyclesOf_append, cyclesOf, hcycle, hpre, cyclesOf_append]
      simp only [List.append_assoc, List.singleton_append]
    have hbound := h (fun _ => 0) hzero _ _ _ (by rw [hsplit]; exact List.prefix_append _ _) ?_
    · have hcount : (cyclesOf (backoffAfter (.new BACKOFF_BASE_MS BACKOFF_MAX_MS) (fun _ => 0)
          first) (fun _ => 0) last).length = streak pre := by
        rw [← hlen, ← congrArg List.length (map_outcome_cyclesOf _ (fun _ => 0) last),
          List.length_map]
      rw [List.length_append, List.length_singleton, Nat.add_sub_cancel, hcount,
        Backoff.next_snd_mem b' (le_refl 0) zero_le_one, hb'.capped] at hbound
      have hcap : (Backoff.exactCap BACKOFF_BASE_MS BACKOFF_MAX_MS (streak pre) : ℚ) ≤
          capAt (attemptAt pre o) := by linarith
      exact_mod_cast hcap
    · intro x hx
      rcases List.mem_append.1 hx with hx | hx
      · apply hlast
        rw [← map_outcome_cyclesOf (backoffAfter (.new BACKOFF_BASE_MS BACKOFF_MAX_MS)
          (fun _ => 0) first) (fun _ => 0) last]
        exact List.mem_map_of_mem hx
      · rw [List.mem_singleton.1 hx]
        exact ho
  · intro h jitter hjitter before last c hpre hframes
    rw [← List.append_assoc] at hpre
    obtain ⟨pre, o, post, rfl, hcycles, rfl⟩ := prefix_cyclesOf hpre
    obtain ⟨b', hb', hcycle⟩ := cycleOf_wait (atAttempt_backoffAfter jitter pre)
      (jitter pre.length) o
    rw [hcycle] at hframes ⊢
    have ho : o.frames = 0 := hframes _ (List.mem_concat_self ..)
    have houtcomes : pre = before.map (·.outcome) ++ last.map (·.outcome) := by
      rw [← List.map_append, hcycles, map_outcome_cyclesOf]
    have hlen : last.length ≤ streak pre := by
      rw [houtcomes, ← List.length_map (f := fun c : Cycle => c.outcome)]
      apply length_le_streak
      intro o' ho'
      obtain ⟨x, hx, rfl⟩ := List.mem_map.1 ho'
      exact hframes x (List.mem_append_left _ hx)
    have hcap : (Backoff.exactCap BACKOFF_BASE_MS BACKOFF_MAX_MS last.length : ℚ) ≤
        capAt (attemptAt pre o) := by
      exact_mod_cast (Backoff.exactCap_le_exactCap _ _ hlen).trans (h pre o post rfl ho)
    obtain ⟨h0, h1⟩ := hjitter pre.length
    rw [List.length_append, List.length_singleton, Nat.add_sub_cancel,
      Backoff.next_snd_mem b' h0 h1, hb'.capped]
    nlinarith

/-! ## When the bound holds -/

/-- Every accepted connection that ends without a frame is the first cycle or follows one that
received a frame, and every refusal comes within 62 delays of the last connection. -/
structure Calm (os : List CycleOutcome) : Prop where
  follows : ∀ pre post, os = pre ++ .connected 0 :: post →
    pre = [] ∨ ∃ pre' n, pre = pre' ++ [.connected (n + 1)]
  within : ∀ pre post, os = pre ++ .refused :: post → delaysSince pre < 62

theorem exactCap_le_capAt : ∀ n < 62,
    Backoff.exactCap BACKOFF_BASE_MS BACKOFF_MAX_MS n ≤ capAt n := by decide

theorem capAt_lost {n : ℕ} (h : n = 62 ∨ n = 63) : capAt n = 0 := by
  rcases h with rfl | rfl
  · decide
  · decide

theorem exactCap_le_base_iff (n : ℕ) :
    Backoff.exactCap BACKOFF_BASE_MS BACKOFF_MAX_MS n ≤ capAt 0 ↔ n = 0 := by
  have hzero : capAt 0 = 500 := rfl
  have hexact : Backoff.exactCap BACKOFF_BASE_MS BACKOFF_MAX_MS n = min 30000 (500 * 2 ^ n) := rfl
  rw [hzero, hexact]
  cases n with
  | zero => decide
  | succ n =>
    have hpow : 1 ≤ 2 ^ n := Nat.one_le_two_pow
    rw [Nat.pow_succ]
    omega

theorem streak_eq_zero_iff (os : List CycleOutcome) :
    streak os = 0 ↔ os = [] ∨ ∃ os' n, os = os' ++ [.connected (n + 1)] := by
  cases os using List.reverseRecOn with
  | nil => exact iff_of_true rfl (Or.inl rfl)
  | append_singleton os o =>
    rw [streak_concat]
    constructor
    · intro h
      rcases o with _ | n
      · simp [CycleOutcome.frames] at h
      · cases n with
        | zero => simp [CycleOutcome.frames] at h
        | succ n => exact Or.inr ⟨os, n, rfl⟩
    · rintro (h | ⟨os', n, h⟩)
      · simp at h
      · have ho : o = .connected (n + 1) := List.singleton_inj.1 (List.append_inj' h rfl).2
        rw [ho]
        exact if_neg (Nat.succ_ne_zero n)

/-- In a calm run no streak is longer than the delays handed out since the last connection. -/
theorem streak_le_delaysSince {os : List CycleOutcome}
    (h : ∀ pre post, os = pre ++ .connected 0 :: post → streak pre = 0) :
    streak os ≤ delaysSince os := by
  induction os using List.reverseRecOn with
  | nil => exact Nat.le_refl _
  | append_singleton os o ih =>
    have hle : streak os ≤ delaysSince os := by
      apply ih
      rintro pre post rfl
      exact h pre (post ++ [o]) (by rw [List.append_assoc, List.cons_append])
    rw [streak_concat, delaysSince_concat]
    rcases o with _ | n
    · rw [if_pos (show CycleOutcome.refused.frames = 0 from rfl)]
      exact Nat.succ_le_succ hle
    · cases n with
      | zero =>
        rw [if_pos (show (CycleOutcome.connected 0).frames = 0 from rfl), h os [] rfl]
      | succ n =>
        rw [if_neg (show (CycleOutcome.connected (n + 1)).frames ≠ 0 from Nat.succ_ne_zero n)]
        exact Nat.zero_le _

theorem calm_iff (os : List CycleOutcome) : Calm os ↔
    ∀ pre o post, os = pre ++ o :: post → o.frames = 0 →
      Backoff.exactCap BACKOFF_BASE_MS BACKOFF_MAX_MS (streak pre) ≤ capAt (attemptAt pre o) := by
  constructor
  · rintro h pre o post rfl ho
    rcases o with _ | n
    · have hlt := h.within pre post rfl
      have hle : streak pre ≤ delaysSince pre := by
        apply streak_le_delaysSince
        rintro pre' post' rfl
        rw [streak_eq_zero_iff]
        exact h.follows pre' (post' ++ .refused :: post)
          (by rw [List.append_assoc, List.cons_append])
      exact (Backoff.exactCap_le_exactCap _ _ hle).trans (exactCap_le_capAt _ hlt)
    · obtain rfl : n = 0 := ho
      exact (exactCap_le_base_iff _).2 ((streak_eq_zero_iff pre).2 (h.follows pre post rfl))
  · intro h
    refine ⟨fun pre post hos => ?_, fun pre post hos => ?_⟩
    · rw [← streak_eq_zero_iff, ← exactCap_le_base_iff]
      exact h pre (.connected 0) post hos rfl
    · -- the delays grow by one at a time, so a run that goes further passes a lost cap
      induction pre using List.reverseRecOn generalizing post with
      | nil => decide
      | append_singleton pre o ih =>
        have hcap := h _ .refused post hos rfl
        have hpos : 0 < Backoff.exactCap BACKOFF_BASE_MS BACKOFF_MAX_MS (streak (pre ++ [o])) :=
          Backoff.exactCap_pos (by decide) (by decide) _
        have hne : ¬ (delaysSince (pre ++ [o]) = 62 ∨ delaysSince (pre ++ [o]) = 63) := by
          intro hlost
          rw [attemptAt, capAt_lost hlost] at hcap
          omega
        rw [delaysSince_concat] at hne ⊢
        cases o with
        | refused =>
          have hlt := ih (.refused :: post) (by rw [hos, List.append_assoc]; rfl)
          dsimp only at hne ⊢
          omega
        | connected frames =>
          show 1 < 62
          decide

/-- In every run, whatever the jitter, no frameless streak is followed too soon, if and only if the
run is calm. -/
theorem not_hammered_iff (tickers : List String) (room : Option ℕ) (turns : List Turn) :
    (∀ jitter : ℕ → ℚ, (∀ n, 0 ≤ jitter n ∧ jitter n ≤ 1) →
      NotHammered (sessionCycles tickers room jitter turns)) ↔
    Calm (outcomes tickers true (.start room) turns) := by
  rw [calm_iff, ← notHammered_cyclesOf_iff]
  apply forall_congr'
  intro jitter
  rw [sessionCycles, backoffLoop_eq]

/-- Two connections in a row that are accepted and closed at once. -/
def flapping : List Turn :=
  [.connected 101 epoch [.close] false, .connected 101 epoch [.close] false]

/-- The second wait is 250 ms without jitter, half of the base and not of its double. -/
theorem flapping_hammers : (∀ x ∈ sessionCycles ["A"] none (fun _ => 0) flapping,
      x.outcome.frames = 0 ∧ x.wait = 250) ∧
    ¬ NotHammered (sessionCycles ["A"] none (fun _ => 0) flapping) := by
  have hcycles : sessionCycles ["A"] none (fun _ => 0) flapping =
      [⟨.connected 0, 250⟩, ⟨.connected 0, 250⟩] := by
    have hdelay (b : Backoff) (hcap : b.capped.toNat = 500) : (b.next 0).2 = 250 := by
      rw [Backoff.next_snd_mem b (le_refl 0) zero_le_one, hcap]
      norm_num
    have houtcomes : outcomes ["A"] true (.start none) flapping =
        [.connected 0, .connected 0] := rfl
    rw [sessionCycles, backoffLoop_eq, houtcomes]
    simp only [cyclesOf, cycleOf]
    rw [hdelay _ (by decide), hdelay _ (by decide)]
  rw [hcycles]
  constructor
  · intro x hx
    simp only [List.mem_cons, List.not_mem_nil, or_false, or_self] at hx
    rw [hx]
    exact ⟨rfl, rfl⟩
  · intro h
    have hbound := h [] [⟨.connected 0, 250⟩] ⟨.connected 0, 250⟩ (List.prefix_refl _) (by
      intro x hx
      simp only [List.singleton_append, List.mem_cons, List.not_mem_nil, or_false, or_self] at hx
      rw [hx]
      rfl)
    have hcap : Backoff.exactCap BACKOFF_BASE_MS BACKOFF_MAX_MS 1 = 1000 := by decide
    simp only [List.singleton_append, List.length_cons, List.length_nil] at hbound
    norm_num [hcap] at hbound

end Snapevent
