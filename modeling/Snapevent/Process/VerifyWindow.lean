import Mathlib.Data.Int.ConditionallyCompleteOrder
import Mathlib.Order.ConditionallyCompleteLattice.Basic
import Mathlib.Order.WithBot
import Snapevent.Process.VerifyRun

/-!
# The window and the verdicts

The engine compares an observation with the states of a pruned window.  As long as timestamps do not
decrease, the window holds every book state that was in force within the tolerance, so that a
verdict speaks of the whole history: a mismatch differs from every state of the window's time span,
and a match equals one.
-/

namespace Snapevent

namespace EngineCall

/-- The book state a call feeds, with its time. -/
def fed? : EngineCall → Option (ℤ × State)
  | bookEvent ts book _ => some (ts, canonicalizeBook book)
  | gap => none
  | verify .. => none

end EngineCall

/-- The book states a run feeds, with their times. -/
def recorded (calls : List EngineCall) : List (ℤ × State) := calls.filterMap (·.fed?)

/-- The book of a run: the last state fed, empty before any. -/
def lastState (calls : List EngineCall) : State :=
  ((recorded calls).getLast?.map (·.2)).getD (canonicalizeBook .default)

/-- The time of the first book event of some calls, if there is one. -/
def superseded (calls : List EngineCall) : WithTop ℤ :=
  ((recorded calls).head?.map fun x => (x.1 : WithTop ℤ)).getD ⊤

/-- A book state of a run, from when it is established until it is superseded: the empty book at the
start, and every state fed. -/
inductive Reign (calls : List EngineCall) : WithBot ℤ → State → WithTop ℤ → Prop
  | initial : Reign calls ⊥ (canonicalizeBook .default) (superseded calls)
  | fed {pre : List EngineCall} {ts : ℤ} {book : Book} {isSnapshot : Bool}
      {post : List EngineCall} : calls = pre ++ .bookEvent ts book isSnapshot :: post →
      Reign calls ts (canonicalizeBook book) (superseded post)

/-- The timestamps of a run do not decrease. -/
def TimeOrdered (calls : List EngineCall) : Prop :=
  (calls.filterMap (·.ts?)).Pairwise (· ≤ ·)

/-- Every observation comes with the book of the run. -/
def BooksAgree (calls : List EngineCall) : Prop :=
  ∀ before ts yes no book after, calls = before ++ .verify ts yes no book :: after →
    canonicalizeBook book = lastState before

/-- Successive observations are more than the window apart. -/
def ObservationsSpaced (calls : List EngineCall) : Prop :=
  ((observed calls).map (·.1)).IsChain fun v v' => v + VERIFY_WINDOW_US < v'

namespace VerifyEngine

/-! ## Pruning -/

/-- Pruning keeps the newest states, from the last one not past the cutoff on. -/
theorem prune_spec (cutoff : ℤ) (window : List (ℤ × State)) : ∃ old,
    window = old ++ prune cutoff window ∧
      (old ≠ [] → ∃ x ∈ (prune cutoff window).head?, x.1 ≤ cutoff) ∧
      ∀ y, (prune cutoff window)[1]? = some y → cutoff < y.1 := by
  induction window with
  | nil => exact ⟨[], rfl, by simp, by simp [prune]⟩
  | cons first rest ih =>
    cases rest with
    | nil => exact ⟨[], rfl, by simp, by simp [prune]⟩
    | cons second rest =>
      rw [prune]
      split_ifs with hle
      · obtain ⟨old, hsplit, hhead, hnext⟩ := ih
        refine ⟨first :: old, congrArg (first :: ·) hsplit, fun _ => ?_, hnext⟩
        cases old with
        | nil =>
          rw [List.nil_append] at hsplit
          exact ⟨second, by rw [← hsplit]; rfl, hle⟩
        | cons x old => exact hhead (by simp)
      · refine ⟨[], rfl, by simp, fun y hy => ?_⟩
        obtain rfl : second = y := by simpa using hy
        exact lt_of_not_ge hle

/-- The window of a history: its newest states, what is dropped having been superseded when the
newest state was fed. -/
structure Remembers (history window : List (ℤ × State)) : Prop where
  split : ∃ old, history = old ++ window ∧ (old ≠ [] →
    ∃ first ∈ window.head?, ∃ last ∈ history.getLast?, first.1 ≤ last.1 - VERIFY_WINDOW_US)
  tight : ∀ second last, window[1]? = some second → history.getLast? = some last →
    last.1 - VERIFY_WINDOW_US < second.1

theorem Remembers.feed {history window : List (ℤ × State)} (h : Remembers history window)
    {x : ℤ × State} (hx : ∀ y ∈ history, y.1 ≤ x.1) :
    Remembers (history ++ [x]) (prune (x.1 - VERIFY_WINDOW_US) (window ++ [x])) := by
  obtain ⟨old, hold, hfirst⟩ := h.split
  obtain ⟨old', hold', hfirst', hnext⟩ := prune_spec (x.1 - VERIFY_WINDOW_US) (window ++ [x])
  generalize prune (x.1 - VERIFY_WINDOW_US) (window ++ [x]) = kept at hold' hfirst' hnext
  have hlast : (history ++ [x]).getLast? = some x := List.getLast?_concat
  refine ⟨⟨old ++ old', ?_, fun hne => ?_⟩, fun second last hsecond hlast' => ?_⟩
  · rw [hold, List.append_assoc, hold', List.append_assoc]
  · cases old' with
    | cons y old' =>
      obtain ⟨first, hhead, hle⟩ := hfirst' (by simp)
      exact ⟨first, hhead, x, hlast, hle⟩
    | nil =>
      -- nothing more was dropped: the first state is still that of the old window
      rw [List.append_nil] at hne
      obtain ⟨first, hhead, last, hmem, hle⟩ := hfirst hne
      have hlx := hx last (List.mem_of_getLast? hmem)
      refine ⟨first, ?_, x, hlast, by omega⟩
      rw [← List.nil_append kept, ← hold', List.head?_append, hhead]
      rfl
  · cases hlast.symm.trans hlast'
    exact hnext second hsecond

/-- A state with a successor is only kept while it was in force within the window. -/
theorem Remembers.lt_succ {history window older newer : List (ℤ × State)} {x y last : ℤ × State}
    (h : Remembers history window) (hsorted : history.Pairwise fun x y => x.1 ≤ y.1)
    (hwindow : window = older ++ x :: y :: newer) (hlast : history.getLast? = some last) :
    last.1 - VERIFY_WINDOW_US < y.1 := by
  obtain ⟨old, hold, -⟩ := h.split
  rw [hold] at hsorted
  have hkept := (List.pairwise_append.1 hsorted).2.1
  rw [hwindow] at hkept
  cases older with
  | nil => exact h.tight y last (by rw [hwindow]; rfl) hlast
  | cons z older =>
    have hrest := (List.pairwise_cons.1 hkept).2
    cases older with
    | nil =>
      have hxy := (List.pairwise_cons.1 hrest).1 y List.mem_cons_self
      have := h.tight x last (by rw [hwindow]; rfl) hlast
      omega
    | cons w older =>
      have hwy := (List.pairwise_cons.1 hrest).1 y (by simp)
      have := h.tight w last (by rw [hwindow]; rfl) hlast
      omega

theorem recorded_concat (calls : List EngineCall) (c : EngineCall) :
    recorded (calls ++ [c]) = recorded calls ++ c.fed?.toList := by
  rw [recorded, List.filterMap_append]
  cases c <;> rfl

/-- While the times of book events do not decrease, the engine remembers their states. -/
theorem run_remembers {calls : List EngineCall}
    (h : (recorded calls).Pairwise fun x y => x.1 ≤ y.1) :
    Remembers (recorded calls) (run calls).window := by
  induction calls using List.reverseRecOn with
  | nil => exact ⟨⟨[], rfl, by simp⟩, by simp [run, new]⟩
  | append_singleton calls c ih =>
    rw [recorded_concat] at h ⊢
    obtain ⟨hcalls, -, hlast⟩ := List.pairwise_append.1 h
    have hkept := ih hcalls
    rw [run_concat]
    cases c with
    | bookEvent ts book isSnapshot =>
      rw [step, onBookEvent_window]
      exact hkept.feed fun y hy => hlast y hy (ts, canonicalizeBook book) (by simp [EngineCall.fed?])
    | gap =>
      rw [EngineCall.fed?, Option.toList_none, List.append_nil]
      exact hkept
    | verify ts yes no book =>
      rw [EngineCall.fed?, Option.toList_none, List.append_nil, step, onVerify_eq]
      cases (run calls).decided (check ts yes no book) <;> exact hkept

/-! ## Scanning -/

/-- The number of the state at which the backward scan stops, counted from the newest. -/
def backwardIndex (rest : State) (threshold : ℤ) : List (ℤ × State) → Option ℕ
  | [] => none
  | (ts, state) :: older =>
    if state = rest then some 0
    else if ts < threshold then none
    else (backwardIndex rest threshold older).map (· + 1)

theorem backwardMatch_eq (rest : State) (threshold : ℤ) (newest : List (ℤ × State)) :
    backwardMatch rest threshold newest =
      (backwardIndex rest threshold newest).bind fun i => newest[i]?.map (·.1) := by
  induction newest with
  | nil => rfl
  | cons x older ih =>
    obtain ⟨ts, state⟩ := x
    unfold backwardMatch backwardIndex
    split_ifs with heq hlt
    · rfl
    · rfl
    · rw [ih]
      cases backwardIndex rest threshold older <;> rfl

/-- The scan stops at the first state equal to the observation, unless a state older than the
threshold comes before. -/
theorem backwardIndex_eq_some {rest : State} {threshold : ℤ} {newest : List (ℤ × State)} {i : ℕ} :
    backwardIndex rest threshold newest = some i ↔
      ∃ newer ts older, newest = newer ++ (ts, rest) :: older ∧ newer.length = i ∧
        ∀ y ∈ newer, y.2 ≠ rest ∧ threshold ≤ y.1 := by
  induction newest generalizing i with
  | nil => simp [backwardIndex]
  | cons x newest ih =>
    obtain ⟨ts, state⟩ := x
    unfold backwardIndex
    constructor
    · intro h
      split_ifs at h with heq hlt
      · cases h
        exact ⟨[], ts, newest, by rw [heq, List.nil_append], rfl, by simp⟩
      · obtain ⟨j, hj, rfl⟩ := Option.map_eq_some_iff.1 h
        obtain ⟨newer, ts', older, rfl, rfl, hnewer⟩ := ih.1 hj
        refine ⟨(ts, state) :: newer, ts', older, rfl, rfl, ?_⟩
        exact List.forall_mem_cons.2 ⟨⟨heq, not_lt.1 hlt⟩, hnewer⟩
    · rintro ⟨newer, ts', older, hsplit, rfl, hnewer⟩
      cases newer with
      | nil =>
        cases hsplit
        exact if_pos rfl
      | cons y newer =>
        obtain ⟨rfl, rfl⟩ := List.cons.inj hsplit
        obtain ⟨⟨hne, hle⟩, hnewer⟩ := List.forall_mem_cons.1 hnewer
        rw [if_neg hne, if_neg (not_lt.2 hle), ih.2 ⟨newer, ts', older, rfl, rfl, hnewer⟩]
        rfl

theorem backwardIndex_reverse {rest : State} {threshold : ℤ} {window : List (ℤ × State)} {i : ℕ} :
    backwardIndex rest threshold window.reverse = some i ↔
      ∃ older ts newer, window = older ++ (ts, rest) :: newer ∧ newer.length = i ∧
        ∀ y ∈ newer, y.2 ≠ rest ∧ threshold ≤ y.1 := by
  rw [backwardIndex_eq_some]
  constructor
  · rintro ⟨newer, ts, older, hsplit, hlen, hnewer⟩
    refine ⟨older.reverse, ts, newer.reverse, ?_, by rw [List.length_reverse, hlen], ?_⟩
    · rw [← List.reverse_reverse window, hsplit]
      simp
    · intro y hy
      exact hnewer y (List.mem_reverse.1 hy)
  · rintro ⟨older, ts, newer, rfl, hlen, hnewer⟩
    refine ⟨newer.reverse, ts, older.reverse, by simp, by rw [List.length_reverse, hlen], ?_⟩
    intro y hy
    exact hnewer y (List.mem_reverse.1 hy)

/-- The backward scan finds the newest state equal to the observation, unless a state older than the
threshold stands before it. -/
theorem backwardMatch_reverse {rest : State} {threshold ts : ℤ} {window : List (ℤ × State)} :
    backwardMatch rest threshold window.reverse = some ts ↔
      ∃ older newer, window = older ++ (ts, rest) :: newer ∧
        ∀ y ∈ newer, y.2 ≠ rest ∧ threshold ≤ y.1 := by
  have hget (older newer : List (ℤ × State)) (x : ℤ × State) :
      (older ++ x :: newer).reverse[newer.length]?.map (·.1) = some x.1 := by
    simp
  rw [backwardMatch_eq, Option.bind_eq_some_iff]
  constructor
  · rintro ⟨i, hi, hts⟩
    obtain ⟨older, ts', newer, rfl, rfl, hnewer⟩ := backwardIndex_reverse.1 hi
    cases (hget older newer _).symm.trans hts
    exact ⟨older, newer, rfl, hnewer⟩
  · rintro ⟨older, newer, rfl, hnewer⟩
    exact ⟨newer.length, backwardIndex_reverse.2 ⟨older, ts, newer, rfl, rfl, hnewer⟩,
      hget older newer _⟩

/-- When the scan finds nothing, every state is different that is not older than a state before the
threshold. -/
theorem ne_of_backwardMatch_none {rest : State} {threshold : ℤ} {older newer : List (ℤ × State)}
    {x : ℤ × State} (h : backwardMatch rest threshold (older ++ x :: newer).reverse = none)
    (hnewer : ∀ y ∈ newer, threshold ≤ y.1) : x.2 ≠ rest := by
  intro heq
  obtain ⟨ts, state⟩ := x
  induction newer using List.reverseRecOn with
  | nil =>
    rw [List.reverse_append, List.reverse_singleton, List.singleton_append, backwardMatch,
      if_pos heq] at h
    cases h
  | append_singleton newer y ih =>
    obtain ⟨ts', state'⟩ := y
    rw [← List.cons_append, ← List.append_assoc, List.reverse_append, List.reverse_singleton,
      List.singleton_append, backwardMatch] at h
    split_ifs at h with heq' hlt
    · exact absurd hlt (not_lt.2 (hnewer (ts', state') (by simp)))
    · exact ih (fun y hy => hnewer y (List.mem_append_left _ hy)) h

end VerifyEngine

/-! ## Reigns -/

theorem recorded_append (calls calls' : List EngineCall) :
    recorded (calls ++ calls') = recorded calls ++ recorded calls' :=
  List.filterMap_append

theorem recorded_of_split {calls pre post : List EngineCall} {ts : ℤ} {book : Book}
    {isSnapshot : Bool} (h : calls = pre ++ .bookEvent ts book isSnapshot :: post) :
    recorded calls = recorded pre ++ (ts, canonicalizeBook book) :: recorded post := by
  rw [h, recorded_append]
  rfl

/-- A recorded state is a fed one. -/
theorem exists_fed {calls : List EngineCall} {p q : List (ℤ × State)} {x : ℤ × State}
    (h : recorded calls = p ++ x :: q) : ∃ pre book isSnapshot post,
      calls = pre ++ .bookEvent x.1 book isSnapshot :: post ∧ recorded pre = p ∧
        canonicalizeBook book = x.2 ∧ recorded post = q := by
  obtain ⟨pre, c, post, hcalls, hpre, hc, hpost⟩ := List.exists_split_of_filterMap h
  cases c with
  | bookEvent ts book isSnapshot =>
    cases hc
    exact ⟨pre, book, isSnapshot, post, hcalls, hpre, rfl, hpost⟩
  | gap => cases hc
  | verify ts yes no book => cases hc

theorem lt_superseded {calls : List EngineCall} {t : ℤ} :
    (t : WithTop ℤ) < superseded calls ↔ ∀ y ∈ (recorded calls).head?, t < y.1 := by
  rw [superseded]
  cases (recorded calls).head? with
  | none => simp
  | some y => simp

theorem le_superseded {calls : List EngineCall} {t : ℤ} :
    (t : WithTop ℤ) ≤ superseded calls ↔ ∀ y ∈ (recorded calls).head?, t ≤ y.1 := by
  rw [superseded]
  cases (recorded calls).head? with
  | none => simp
  | some y => simp

/-- A state that is established at a time is a fed one. -/
theorem Reign.fed_of_time {calls : List EngineCall} {a : ℤ} {s : State} {b : WithTop ℤ}
    (h : Reign calls a s b) : ∃ pre book isSnapshot post,
      calls = pre ++ .bookEvent a book isSnapshot :: post ∧ canonicalizeBook book = s ∧
        b = superseded post := by
  generalize ha : (a : WithBot ℤ) = since at h
  cases h with
  | initial => cases ha
  | fed hcalls =>
    obtain rfl := WithBot.coe_injective ha
    exact ⟨_, _, _, _, hcalls, rfl, rfl⟩

/-- A recorded state reigns until the next one is recorded. -/
theorem reign_of_recorded {calls : List EngineCall} {p q : List (ℤ × State)} {x : ℤ × State}
    (h : recorded calls = p ++ x :: q) (after : List EngineCall) :
    ∃ b, Reign (calls ++ after) x.1 x.2 b ∧ (∀ y ∈ q.head?, b = y.1) ∧
      (q = [] → b = superseded after) := by
  obtain ⟨pre, book, isSnapshot, post, hcalls, -, hstate, rfl⟩ := exists_fed h
  refine ⟨superseded (post ++ after), ?_, fun y hy => ?_, fun hnil => ?_⟩
  · rw [← hstate]
    exact .fed (by rw [hcalls, List.append_assoc, List.cons_append])
  · rw [superseded, recorded_append, List.head?_append, hy]
    rfl
  · rw [superseded, recorded_append, hnil, List.nil_append]
    rfl

/-! ## Runs in time order -/

namespace TimeOrdered

variable {calls : List EngineCall}

theorem fed?_ts {c : EngineCall} {x : ℤ × State} (h : c.fed? = some x) : c.ts? = some x.1 := by
  cases c with
  | bookEvent ts book isSnapshot =>
    cases h
    rfl
  | gap => cases h
  | verify ts yes no book => cases h

theorem recorded_sorted (h : TimeOrdered calls) :
    (recorded calls).Pairwise fun x y => x.1 ≤ y.1 := by
  rw [TimeOrdered, List.pairwise_filterMap] at h
  rw [recorded, List.pairwise_filterMap]
  refine h.imp fun hle x hx y hy => ?_
  exact hle x.1 (fed?_ts hx) y.1 (fed?_ts hy)

/-- What comes after a time in order comes after it as a whole. -/
theorem lt_of_head? {l : List (ℤ × State)} (h : l.Pairwise fun x y => x.1 ≤ y.1) {t : ℤ}
    (hhead : ∀ y ∈ l.head?, t < y.1) : ∀ y ∈ l, t < y.1 := by
  cases l with
  | nil => simp
  | cons x l =>
    intro y hy
    rcases List.mem_cons.1 hy with rfl | hy
    · exact hhead y rfl
    · exact (hhead x rfl).trans_le ((List.pairwise_cons.1 h).1 y hy)

/-- What is fed before an observation is not later, what is fed after it not earlier. -/
theorem around {before after : List EngineCall} {ts : ℤ} {yes no : List PriceLevel} {book : Book}
    (h : TimeOrdered (before ++ .verify ts yes no book :: after)) :
    (∀ x ∈ recorded before, x.1 ≤ ts) ∧ (∀ x ∈ recorded after, ts ≤ x.1) ∧
      TimeOrdered before ∧ TimeOrdered after := by
  have hcons : (EngineCall.verify ts yes no book :: after).filterMap (·.ts?) =
      ts :: after.filterMap (·.ts?) := rfl
  rw [TimeOrdered, List.filterMap_append, hcons, List.pairwise_append] at h
  obtain ⟨hbefore, hrest, hcross⟩ := h
  have hts {x : ℤ × State} {l : List EngineCall} (hx : x ∈ recorded l) :
      x.1 ∈ l.filterMap (·.ts?) := by
    obtain ⟨c, hc, hfed⟩ := List.mem_filterMap.1 hx
    exact List.mem_filterMap.2 ⟨c, hc, fed?_ts hfed⟩
  obtain ⟨hafter, hrest⟩ := List.pairwise_cons.1 hrest
  exact ⟨fun x hx => hcross x.1 (hts hx) ts List.mem_cons_self, fun x hx => hafter x.1 (hts hx),
    hbefore, hrest⟩

end TimeOrdered

namespace VerifyEngine

/-- A state that an observation at `v` may match is still in the window. -/
theorem inForce_in_window {calls : List EngineCall}
    (hsorted : (recorded calls).Pairwise fun x y => x.1 ≤ y.1) {v : ℤ}
    (hv : ∀ x ∈ recorded calls, x.1 ≤ v) {p q : List (ℤ × State)} {x : ℤ × State}
    (hx : recorded calls = p ++ x :: q) (hnext : ∀ y ∈ q.head?, v - VERIFY_WINDOW_US < y.1) :
    ∃ older, (run calls).window = older ++ x :: q := by
  obtain ⟨old, hold, hfirst⟩ := (run_remembers hsorted).split
  rcases List.append_eq_append_iff.1 (hold.symm.trans hx) with ⟨older, -, hwindow⟩ | ⟨m, hp, hm⟩
  · exact ⟨older, hwindow⟩
  · cases m with
    | nil => exact ⟨[], hm.symm⟩
    | cons y m =>
      -- the state was dropped: the next one is not newer than the first that was kept
      exfalso
      rw [List.cons_append] at hm
      obtain ⟨rfl, hq⟩ := List.cons.inj hm
      obtain ⟨first, hhead, last, hlast, hle⟩ := hfirst (by rw [hp]; simp)
      have hlv := hv last (List.mem_of_getLast? hlast)
      have hmem : first ∈ q := by
        rw [hq]
        exact List.mem_append_right _ (List.mem_of_mem_head? hhead)
      rw [hx] at hsorted
      have hrest := (List.pairwise_cons.1 (List.pairwise_append.1 hsorted).2.1).2
      cases q with
      | nil => cases hmem
      | cons y q =>
        have hyfirst : y.1 ≤ first.1 := by
          rcases List.mem_cons.1 hmem with rfl | hmem
          · exact le_rfl
          · exact (List.pairwise_cons.1 hrest).1 first hmem
        have := hnext y rfl
        omega

theorem le_last {l : List (ℤ × State)} (h : l.Pairwise fun x y => x.1 ≤ y.1) {last : ℤ × State}
    (hlast : l.getLast? = some last) : ∀ x ∈ l, x.1 ≤ last.1 := by
  obtain ⟨older, rfl⟩ := List.getLast?_eq_some_iff.1 hlast
  intro x hx
  cases List.mem_append.1 hx with
  | inl hx => exact (List.pairwise_append.1 h).2.2 x hx last List.mem_cons_self
  | inr hx => rw [List.mem_singleton.1 hx]

/-- A state whose successor is within the window of the last one is still in the window. -/
theorem kept_in_window {calls : List EngineCall}
    (hsorted : (recorded calls).Pairwise fun x y => x.1 ≤ y.1) {p q : List (ℤ × State)}
    {x next last : ℤ × State} (hx : recorded calls = p ++ x :: q) (hnext : next ∈ q.head?)
    (hlast : last ∈ q.getLast?) (hkept : last.1 - VERIFY_WINDOW_US < next.1) :
    ∃ older, (run calls).window = older ++ x :: q := by
  have hlast' : (recorded calls).getLast? = some last := by
    rw [hx, List.getLast?_append, List.getLast?_cons, hlast]
    rfl
  apply inForce_in_window hsorted (le_last hsorted hlast') hx
  intro y hy
  rw [Option.mem_unique hy hnext]
  exact hkept

/-- A state of the window was fed; when it has a successor, that is within the window of the last
state. -/
theorem exists_fed_of_window {calls : List EngineCall}
    (hsorted : (recorded calls).Pairwise fun x y => x.1 ≤ y.1) {older newer : List (ℤ × State)}
    {x : ℤ × State} (hwindow : (run calls).window = older ++ x :: newer) :
    ∃ pre bk isSnapshot post, calls = pre ++ .bookEvent x.1 bk isSnapshot :: post ∧
      canonicalizeBook bk = x.2 ∧ recorded post = newer ∧
      ∀ next ∈ newer.head?, ∀ last ∈ newer.getLast?, last.1 - VERIFY_WINDOW_US < next.1 := by
  have hkept := run_remembers hsorted
  obtain ⟨old, hold, -⟩ := hkept.split
  rw [hwindow, ← List.append_assoc] at hold
  obtain ⟨pre, bk, isSnapshot, post, hfed, -, hstate, hpost⟩ := exists_fed hold
  refine ⟨pre, bk, isSnapshot, post, hfed, hstate, hpost, fun next hnext last hlast => ?_⟩
  have hlast' : (recorded calls).getLast? = some last := by
    rw [hold, List.getLast?_append, List.getLast?_cons, hlast]
    rfl
  cases newer with
  | nil => cases hnext
  | cons y newer =>
    cases hnext
    exact hkept.lt_succ hsorted hwindow hlast'

end VerifyEngine

end Snapevent
