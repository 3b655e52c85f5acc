import Mathlib.Algebra.Order.Group.Int
import Mathlib.Algebra.Order.Group.Abs
import Mathlib.Data.List.Chain
import Snapevent.Process.VerifyWindow

/-!
# What a verdict means

In a run whose timestamps do not decrease, a mismatch says that no book state of the tolerance
window equals the observation, and a match names an instant of the window at which one does.
-/

namespace Snapevent

namespace VerifyEngine

/-- A row that is still open when a gap arrives is skipped. -/
theorem issued_before_gap {before mid rest : List EngineCall} {ts : ℤ} {yes no : List PriceLevel}
    {book : Book} {row : VerifyOutcomeRow}
    (hrow : (run (before ++ .verify ts yes no book :: (mid ++ .gap :: rest))).finish[
      (observed before).length]? = some row) (hskip : row.outcome ≠ .skippedGap) :
    (observed before).length < (run (before ++ .verify ts yes no book :: mid)).rows.length := by
  set calls := before ++ EngineCall.verify ts yes no book :: mid with hcalls
  by_contra hopen
  have hobs := congrArg List.length (run_observations calls)
  have htotal : (observed calls).length = (observed before).length + (observed mid).length + 1 := by
    rw [hcalls, observed, List.filterMap_append, List.length_append]
    exact (Nat.add_assoc _ _ _).symm
  rw [observations, List.length_append, List.length_map, List.length_map] at hobs
  -- the check of the observation is pending, and the gap skips it
  cases hp : (run calls).pending with
  | none =>
    rw [hp, Option.toList_none, List.length_nil] at hobs
    omega
  | some p =>
    rw [hp, Option.toList_some, List.length_singleton] at hobs
    have hlen : (run calls).rows.length = (observed before).length := by omega
    have hrows : (run (calls ++ [.gap])).rows = (run calls).rows ++ [p.resolveSkippedGap] := by
      rw [run_concat, step, onGap, hp]
      rfl
    obtain ⟨tail, htail⟩ := rows_isPrefix_finish (run (calls ++ [.gap])) rest
    have hall : run (before ++ EngineCall.verify ts yes no book :: (mid ++ .gap :: rest)) =
        rest.foldl step (run (calls ++ [.gap])) := by
      rw [run, run, ← List.foldl_append]
      simp [hcalls]
    rw [hall, ← htail, hrows, ← hlen, List.append_assoc, List.getElem?_append_right le_rfl,
      Nat.sub_self] at hrow
    cases hrow
    exact hskip rfl

/-- A check that ends in a mismatch has seen every state fed up to its deadline. -/
theorem ne_of_await_mismatch {p : PendingCheck} {after : List EngineCall}
    (hts : TimeOrdered after) (hnext : ∀ v ∈ (observed after).head?, p.deadline < v.1)
    (hm : (await p after).outcome = .mismatch) {x : ℤ × State} (hx : x ∈ recorded after)
    (hle : x.1 ≤ p.deadline) : x.2 ≠ p.restState := by
  induction after with
  | nil => cases hx
  | cons c after ih =>
    cases c with
    | gap => cases hm
    | verify ts yes no book =>
      have hlt : p.deadline < ts := hnext _ rfl
      rw [← List.nil_append (EngineCall.verify ts yes no book :: after)] at hts
      have := hts.around.2.1 x hx
      omega
    | bookEvent ts book isSnapshot =>
      have hsorted := hts.recorded_sorted
      obtain ⟨hlater, -⟩ := List.pairwise_cons.1 hsorted
      have htail : TimeOrdered after := (List.pairwise_cons.1 hts).2
      rw [await] at hm
      split_ifs at hm with hlate heq
      · have hge : ts ≤ x.1 := by
          rcases List.mem_cons.1 hx with rfl | hx
          · exact le_rfl
          · exact hlater x hx
        omega
      · cases hm
      · rcases List.mem_cons.1 hx with rfl | hx
        · exact heq
        · exact ih htail hnext hm hx

/-- A check that ends in a match has met its state by its deadline, after other states only. -/
theorem fed_of_await_matched {p : PendingCheck} {after : List EngineCall}
    (hm : (await p after).outcome = .matched) : ∃ pre ts book isSnapshot post,
      after = pre ++ .bookEvent ts book isSnapshot :: post ∧
        (∀ c ∈ pre, ∃ x, c.fed? = some x ∧ x.2 ≠ p.restState) ∧ ts ≤ p.deadline ∧
        canonicalizeBook book = p.restState ∧
        (await p after).matchLagUs = some (ts - p.verifyTs) := by
  induction after with
  | nil => cases hm
  | cons c after ih =>
    cases c with
    | gap => cases hm
    | verify ts yes no book => cases hm
    | bookEvent ts book isSnapshot =>
      rw [await] at hm ⊢
      split_ifs at hm ⊢ with hlate heq
      · cases hm
      · exact ⟨[], ts, book, isSnapshot, after, rfl, by simp, not_lt.1 hlate, heq, rfl⟩
      · obtain ⟨pre, ts', book', isSnapshot', post, rfl, hpre, h⟩ := ih hm
        refine ⟨_ :: pre, ts', book', isSnapshot', post, rfl, ?_, h⟩
        exact List.forall_mem_cons.2 ⟨⟨_, rfl, heq⟩, hpre⟩

theorem decided_of_mismatch {en : VerifyEngine} {p : PendingCheck} {after : List EngineCall}
    (hm : (rowFor en p after).outcome = .mismatch) :
    en.decided p = none ∧ (await p after).outcome = .mismatch := by
  rw [rowFor] at hm
  cases hd : en.decided p with
  | none =>
    rw [hd] at hm
    exact ⟨rfl, hm⟩
  | some row =>
    rw [hd] at hm
    rcases decided_outcome hd with ⟨ho, -⟩ | ⟨ho, -⟩ <;> cases ho.symm.trans hm

theorem decided_eq_none {en : VerifyEngine} {p : PendingCheck} :
    en.decided p = none ↔ en.gapPending = false ∧ p.bookStateAtVerify ≠ p.restState ∧
      backwardMatch p.restState (p.verifyTs - VERIFY_WINDOW_US) en.window.reverse = none := by
  rw [decided]
  split_ifs with hgap heq
  · simp [hgap]
  · simp [heq]
  · simp [hgap, heq]

theorem next_observed {before after : List EngineCall} {ts : ℤ} {yes no : List PriceLevel}
    {book : Book} (h : ObservationsSpaced (before ++ .verify ts yes no book :: after)) :
    ∀ v ∈ (observed after).head?, ts + VERIFY_WINDOW_US < v.1 := by
  rw [ObservationsSpaced, observed, List.filterMap_append, List.map_append,
    List.isChain_append] at h
  obtain ⟨-, hrest, -⟩ := h
  change (ts :: (observed after).map (·.1)).IsChain _ at hrest
  intro v hv
  cases hobs : observed after with
  | nil =>
    rw [hobs] at hv
    cases hv
  | cons w l =>
    rw [hobs] at hv hrest
    cases hv
    exact (List.isChain_cons_cons.1 hrest).1

section Observation

variable {calls before after : List EngineCall} {ts : ℤ} {yes no : List PriceLevel} {book : Book}
  {row : VerifyOutcomeRow}

theorem eq_rowFor (hcalls : calls = before ++ .verify ts yes no book :: after)
    (hrow : (run calls).finish[(observed before).length]? = some row) :
    row = rowFor (run before) (check ts yes no book) after := by
  rw [hcalls, row_of_observation] at hrow
  exact (Option.some_inj.1 hrow).symm

/-- No false mismatch: a mismatch is only issued when no gap was unresolved at the observation and
none arrived before the row was decided, and it differs from the book at the observation and from
every state in force at some instant of the window around it; pruning has dropped no state that was
in force at an instant of the window. -/
theorem mismatch_is_genuine (hts : TimeOrdered calls) (hbooks : BooksAgree calls)
    (hspaced : ObservationsSpaced calls)
    (hcalls : calls = before ++ .verify ts yes no book :: after)
    (hrow : (run calls).finish[(observed before).length]? = some row)
    (hm : row.outcome = .mismatch) :
    ¬ GapUnresolved before ∧
    (∀ mid rest, after = mid ++ .gap :: rest →
      (observed before).length < (run (before ++ .verify ts yes no book :: mid)).rows.length) ∧
    lastState before ≠ canonicalizeRest yes no ∧
    (∀ (a : ℤ) (s : State) (b : WithTop ℤ), Reign calls a s b →
      (∃ t : ℤ, ts - VERIFY_WINDOW_US ≤ t ∧ t ≤ ts + VERIFY_WINDOW_US ∧ a ≤ t ∧ t < b) →
      s ≠ canonicalizeRest yes no) ∧
    ∀ pre a bk isSnapshot post, before = pre ++ .bookEvent a bk isSnapshot :: post →
      ((ts - VERIFY_WINDOW_US : ℤ) : WithTop ℤ) < superseded post →
      (a, canonicalizeBook bk) ∈ (run before).window := by
  rw [eq_rowFor hcalls hrow] at hm
  obtain ⟨hopen, hawait⟩ := decided_of_mismatch hm
  obtain ⟨hgap, hne, hscan⟩ := decided_eq_none.1 hopen
  rw [hcalls] at hts hspaced hrow
  obtain ⟨hearlier, -, hbefore, hafter⟩ := hts.around
  refine ⟨?_, ?_, ?_, ?_, ?_⟩
  · rw [← run_gapPending, hgap]
    exact Bool.false_ne_true
  · rintro mid rest rfl
    apply issued_before_gap hrow
    rw [eq_rowFor rfl hrow, hm]
    decide
  · rw [← hbooks before ts yes no book after hcalls]
    exact hne
  · rintro a s b hreign ⟨t, hlo, hhi, hat, htb⟩
    obtain ⟨pre, bk, isSnapshot, post, hfed, rfl, rfl⟩ := hreign.fed_of_time
    rcases List.split_of_ne (by simp) (hfed.symm.trans hcalls) with
      ⟨mid, hmid, rfl⟩ | ⟨mid, -, hmid⟩
    · -- fed before the observation: the backward scan has reached it
      have hrec := recorded_of_split hmid
      have hnext : ∀ y ∈ (recorded mid).head?, ts - VERIFY_WINDOW_US < y.1 := by
        intro y hy
        rw [lt_superseded, recorded_append, List.head?_append, hy] at htb
        exact hlo.trans_lt (htb y rfl)
      obtain ⟨older, hwindow⟩ := inForce_in_window hbefore.recorded_sorted hearlier hrec hnext
      have hsorted := hbefore.recorded_sorted
      rw [hrec] at hsorted
      have hnewer := TimeOrdered.lt_of_head?
        (List.pairwise_cons.1 (List.pairwise_append.1 hsorted).2.1).2 hnext
      rw [hwindow] at hscan
      exact ne_of_backwardMatch_none hscan fun y hy => (hnewer y hy).le
    · -- fed after it: the check was still open, or the state came too late
      have hx : (a, canonicalizeBook bk) ∈ recorded after := by
        rw [recorded_of_split hmid]
        exact List.mem_append_right _ List.mem_cons_self
      exact ne_of_await_mismatch hafter (next_observed hspaced) hawait hx (hat.trans hhi)
  · intro pre a bk isSnapshot post hfed hlt
    obtain ⟨older, hwindow⟩ := inForce_in_window hbefore.recorded_sorted hearlier
      (recorded_of_split hfed) (lt_superseded.1 hlt)
    rw [hwindow]
    exact List.mem_append_right _ List.mem_cons_self

end Observation

/-- One REST level. -/
def oneLevel : List PriceLevel := [⟨⟨500000⟩, ⟨100⟩⟩]

/-- An observation that no state of the window equals. -/
def mismatchRun : List EngineCall :=
  [.verify 0 oneLevel [] .default, .bookEvent 5000001 .default false]

theorem mismatch_is_genuine_sample :
    ∃ row, (run mismatchRun).finish[0]? = some row ∧ row.outcome = .mismatch ∧
      lastState [] ≠ canonicalizeRest oneLevel [] := by
  have hts : TimeOrdered mismatchRun := by simp [TimeOrdered, mismatchRun, EngineCall.ts?]
  have hbooks : BooksAgree mismatchRun := by
    intro before ts yes no book after h
    rcases before with _ | ⟨c, _ | ⟨d, before⟩⟩
    · cases h
      rfl
    · cases h
    · simp [mismatchRun] at h
  have hspaced : ObservationsSpaced mismatchRun := by
    simp [ObservationsSpaced, mismatchRun, observed, EngineCall.observation?]
  have hrow := row_of_observation [] [.bookEvent 5000001 .default false] 0 oneLevel [] .default
  have hm : (rowFor (run []) (check 0 oneLevel [] .default)
    [.bookEvent 5000001 .default false]).outcome = .mismatch := by decide
  obtain ⟨-, -, hne, -⟩ := mismatch_is_genuine hts hbooks hspaced rfl hrow hm
  exact ⟨_, hrow, hm, hne⟩

section Observation

variable {calls before after : List EngineCall} {ts : ℤ} {yes no : List PriceLevel} {book : Book}
  {row : VerifyOutcomeRow}

/-- How a matched row came about: with the book of the observation, with a state of the window, or
with a state fed while the check was pending. -/
theorem matched_cases {en : VerifyEngine} {p : PendingCheck} {after : List EngineCall}
    (hm : (rowFor en p after).outcome = .matched) :
    (en.gapPending = false ∧ p.bookStateAtVerify = p.restState ∧
      (rowFor en p after).matchLagUs = some 0) ∨
    (∃ at' older newer, en.gapPending = false ∧ p.bookStateAtVerify ≠ p.restState ∧
      en.window = older ++ (at', p.restState) :: newer ∧
      (∀ y ∈ newer, y.2 ≠ p.restState ∧ p.verifyTs - VERIFY_WINDOW_US ≤ y.1) ∧
      (rowFor en p after).matchLagUs =
        some (max at' (p.verifyTs - VERIFY_WINDOW_US) - p.verifyTs)) ∨
    ∃ pre at' bk isSnapshot post, en.gapPending = false ∧ p.bookStateAtVerify ≠ p.restState ∧
      after = pre ++ .bookEvent at' bk isSnapshot :: post ∧
      (∀ c ∈ pre, ∃ x, c.fed? = some x ∧ x.2 ≠ p.restState) ∧ at' ≤ p.deadline ∧
      canonicalizeBook bk = p.restState ∧
      (rowFor en p after).matchLagUs = some (at' - p.verifyTs) := by
  rw [rowFor] at hm ⊢
  cases hd : en.decided p with
  | none =>
    rw [hd] at hm
    obtain ⟨hgap, hne, -⟩ := decided_eq_none.1 hd
    obtain ⟨pre, at', bk, isSnapshot, post, hawait⟩ := fed_of_await_matched hm
    exact Or.inr (Or.inr ⟨pre, at', bk, isSnapshot, post, hgap, hne, hawait⟩)
  | some row =>
    rw [decided] at hd
    split_ifs at hd with hgap heq
    · cases hd
      rw [decided, if_pos hgap] at hm
      cases hm
    · cases hd
      exact Or.inl ⟨Bool.eq_false_of_not_eq_true hgap, heq, rfl⟩
    · obtain ⟨at', hscan, rfl⟩ := Option.map_eq_some_iff.1 hd
      obtain ⟨older, newer, hwindow, hnewer⟩ := backwardMatch_reverse.1 hscan
      exact Or.inr (Or.inl ⟨at', older, newer, Bool.eq_false_of_not_eq_true hgap, heq, hwindow,
        hnewer, rfl⟩)

/-- A state reigns at an instant, the ends of its reign included. -/
def ReignsAt (calls : List EngineCall) (s : State) (t : ℤ) : Prop :=
  ∃ (a : WithBot ℤ) (b : WithTop ℤ), Reign calls a s b ∧ a ≤ t ∧ t ≤ b

/-- The book of an observation reigns at the observation: the empty book, or the last state fed. -/
theorem reignsAt_lastState (hts : TimeOrdered (before ++ .verify ts yes no book :: after)) :
    ReignsAt (before ++ .verify ts yes no book :: after) (lastState before) ts := by
  obtain ⟨hearlier, hlater, -, -⟩ := hts.around
  have hsuper : ts ≤ superseded (.verify ts yes no book :: after) :=
    le_superseded.2 fun y hy => hlater y (List.mem_of_mem_head? hy)
  rcases (recorded before).eq_nil_or_concat with hnil | ⟨p, x, hx⟩
  · have hempty : canonicalizeBook .default = lastState before := by
      rw [lastState, hnil]
      rfl
    rw [← hempty]
    refine ⟨⊥, _, .initial, bot_le, ?_⟩
    apply le_superseded.2
    rw [recorded_append, hnil]
    exact le_superseded.1 hsuper
  · rw [List.concat_eq_append] at hx
    obtain ⟨b, hreign, -, hb⟩ := reign_of_recorded hx (.verify ts yes no book :: after)
    have hlast : x.2 = lastState before := by
      rw [lastState, hx, List.getLast?_concat]
      rfl
    have hat : x.1 ≤ ts := hearlier x (by rw [hx]; simp)
    rw [hlast] at hreign
    rw [← hb rfl] at hsuper
    exact ⟨x.1, b, hreign, WithBot.coe_le_coe.2 hat, hsuper⟩

/-- A state of the window that was superseded no earlier than the tolerance begins reigns at its own
time, or where the tolerance begins. -/
theorem reignsAt_of_window (hts : TimeOrdered (before ++ .verify ts yes no book :: after))
    {older newer : List (ℤ × State)} {a : ℤ} {s : State}
    (hsplit : (run before).window = older ++ (a, s) :: newer)
    (hnewer : ∀ y ∈ newer, ts - VERIFY_WINDOW_US ≤ y.1) :
    a ≤ ts ∧ ReignsAt (before ++ .verify ts yes no book :: after) s
      (max a (ts - VERIFY_WINDOW_US)) := by
  have hwindow : (0 : ℤ) ≤ VERIFY_WINDOW_US := by decide
  obtain ⟨hearlier, hlater, hbefore, -⟩ := hts.around
  obtain ⟨old, hold, -⟩ := (run_remembers hbefore.recorded_sorted).split
  rw [hsplit, ← List.append_assoc] at hold
  obtain ⟨b, hreign, hnext, hb⟩ := reign_of_recorded hold (.verify ts yes no book :: after)
  have hat : a ≤ ts := hearlier (a, s) (by rw [hold]; simp)
  refine ⟨hat, a, b, hreign, WithBot.coe_le_coe.2 (le_max_left _ _), ?_⟩
  have hsorted := hbefore.recorded_sorted
  rw [hold] at hsorted
  have hafter := (List.pairwise_cons.1 (List.pairwise_append.1 hsorted).2.1).1
  cases newer with
  | nil =>
    have hsuper : ts ≤ superseded (.verify ts yes no book :: after) :=
      le_superseded.2 fun y hy => hlater y (List.mem_of_mem_head? hy)
    rw [hb rfl]
    refine le_trans (WithTop.coe_le_coe.2 ?_) hsuper
    exact max_le hat (by omega)
  | cons y newer =>
    rw [hnext y rfl]
    apply WithTop.coe_le_coe.2
    exact max_le (hafter y List.mem_cons_self) (hnewer y List.mem_cons_self)

/-- A state fed after an observation reigns at its own time. -/
theorem reignsAt_of_fed (hts : TimeOrdered (before ++ .verify ts yes no book :: after))
    {pre post : List EngineCall} {a : ℤ} {bk : Book} {isSnapshot : Bool}
    (hfed : after = pre ++ .bookEvent a bk isSnapshot :: post) :
    ts ≤ a ∧ ReignsAt (before ++ .verify ts yes no book :: after) (canonicalizeBook bk) a := by
  obtain ⟨-, hlater, -, hafter⟩ := hts.around
  have hall : before ++ EngineCall.verify ts yes no book :: after =
      (before ++ .verify ts yes no book :: pre) ++ .bookEvent a bk isSnapshot :: post := by
    rw [hfed, List.append_assoc, List.cons_append]
  have hrec := recorded_of_split hfed
  have hge : ts ≤ a := hlater (a, canonicalizeBook bk) (by rw [hrec]; simp)
  refine ⟨hge, a, _, Reign.fed hall, le_rfl, ?_⟩
  apply le_superseded.2
  intro y hy
  have hsorted := hafter.recorded_sorted
  rw [hrec] at hsorted
  have hpost := (List.pairwise_append.1 hsorted).2.1
  exact (List.pairwise_cons.1 hpost).1 y (List.mem_of_mem_head? hy)

/-- The state an observation is matched with reigns at the instant the lag names. -/
theorem reignsAt_of_matched (hts : TimeOrdered (before ++ .verify ts yes no book :: after))
    (hbook : canonicalizeBook book = lastState before)
    (hm : (rowFor (run before) (check ts yes no book) after).outcome = .matched) :
    ∃ t, ReignsAt (before ++ .verify ts yes no book :: after) (canonicalizeRest yes no) t ∧
      ts - VERIFY_WINDOW_US ≤ t ∧ t ≤ ts + VERIFY_WINDOW_US ∧
      (rowFor (run before) (check ts yes no book) after).matchLagUs = some (t - ts) := by
  have hwindow : (0 : ℤ) ≤ VERIFY_WINDOW_US := by decide
  rcases matched_cases hm with ⟨-, hstate, hlag⟩ | ⟨at', older, newer, -, -, hsplit, hnewer, hlag⟩ |
    ⟨pre, at', bk, isSnapshot, post, -, -, hfed, -, hle, hstate, hlag⟩
  · have hlag₀ : (0 : ℤ) = ts - ts := by omega
    have hreigns := reignsAt_lastState hts
    rw [hbook.symm.trans hstate] at hreigns
    rw [hlag₀] at hlag
    exact ⟨ts, hreigns, by omega, by omega, hlag⟩
  · obtain ⟨hat, hreigns⟩ := reignsAt_of_window hts hsplit fun y hy => (hnewer y hy).2
    refine ⟨max at' (ts - VERIFY_WINDOW_US), hreigns, le_max_right _ _, ?_, hlag⟩
    exact max_le (by omega) (by omega)
  · obtain ⟨hge, hreigns⟩ := reignsAt_of_fed hts hfed
    rw [hstate] at hreigns
    have hle' : at' ≤ ts + VERIFY_WINDOW_US := hle
    exact ⟨at', hreigns, by omega, hle', hlag⟩

/-- No false match: a match names, by its lag, an instant of the window around the observation at
which a book state equal to the observation reigned. -/
theorem match_is_genuine (hts : TimeOrdered calls) (hbooks : BooksAgree calls)
    (hcalls : calls = before ++ .verify ts yes no book :: after)
    (hrow : (run calls).finish[(observed before).length]? = some row)
    (hm : row.outcome = .matched) :
    ∃ (a : WithBot ℤ) (b : WithTop ℤ) (t : ℤ), Reign calls a (canonicalizeRest yes no) b ∧
      a ≤ t ∧ t ≤ b ∧ ts - VERIFY_WINDOW_US ≤ t ∧ t ≤ ts + VERIFY_WINDOW_US ∧
      row.matchLagUs = some (t - ts) ∧ |t - ts| ≤ VERIFY_WINDOW_US := by
  rw [eq_rowFor hcalls hrow] at hm ⊢
  have hbook := hbooks before ts yes no book after hcalls
  subst hcalls
  obtain ⟨t, ⟨a, b, hreign, hat, htb⟩, hlo, hhi, hlag⟩ := reignsAt_of_matched hts hbook hm
  exact ⟨a, b, t, hreign, hat, htb, hlo, hhi, hlag, abs_le.2 ⟨by omega, by omega⟩⟩

end Observation

/-- Another REST level. -/
def otherLevel : List PriceLevel := [⟨⟨400000⟩, ⟨200⟩⟩]

/-- The book of some YES levels. -/
def bookOf (yes : List PriceLevel) : Book := Book.default.applySnapshotLevels yes []

/-- Observations of a state that was superseded where the window begins, once fed before it and once
with it, and of a state that is fed where it ends. -/
def edgeRun : List EngineCall :=
  [.bookEvent 0 (bookOf oneLevel) true, .bookEvent 5000000 .default false,
    .bookEvent 6000000 (bookOf otherLevel) false, .verify 10000000 oneLevel [] (bookOf otherLevel),
    .verify 11000000 [] [] (bookOf otherLevel), .verify 11000001 oneLevel [] (bookOf otherLevel),
    .bookEvent 16000001 (bookOf oneLevel) false]

theorem edgeRun_booksAgree : BooksAgree edgeRun := by
  intro before ts yes no book after hcalls
  match before, hcalls with
  | [_, _, _], hcalls | [_, _, _, _], hcalls | [_, _, _, _, _], hcalls =>
    cases hcalls
    decide
  | _ :: _ :: _ :: _ :: _ :: _ :: _ :: _, hcalls => simp [edgeRun] at hcalls

theorem match_is_genuine_edges :
    (∃ a b, Reign edgeRun a (canonicalizeRest oneLevel []) b ∧ a ≤ (5000000 : ℤ) ∧
      (5000000 : ℤ) ≤ b) ∧
    (∃ a b, Reign edgeRun a (canonicalizeRest [] []) b ∧ a ≤ (6000000 : ℤ) ∧ (6000000 : ℤ) ≤ b) ∧
    ∃ a b, Reign edgeRun a (canonicalizeRest oneLevel []) b ∧ a ≤ (16000001 : ℤ) ∧
      (16000001 : ℤ) ≤ b := by
  have hts : TimeOrdered edgeRun := by simp [TimeOrdered, edgeRun, EngineCall.ts?]
  refine ⟨?_, ?_, ?_⟩
  · have hrow := row_of_observation (edgeRun.take 3) (edgeRun.drop 4) 10000000 oneLevel []
      (bookOf otherLevel)
    have hm : (rowFor (run (edgeRun.take 3)) (check 10000000 oneLevel [] (bookOf otherLevel))
      (edgeRun.drop 4)).outcome = .matched := by decide
    have hlag : (rowFor (run (edgeRun.take 3)) (check 10000000 oneLevel [] (bookOf otherLevel))
      (edgeRun.drop 4)).matchLagUs = some (-5000000) := by decide
    obtain ⟨a, b, t, hreign, ha, hb, -, -, hlag', -⟩ :=
      match_is_genuine hts edgeRun_booksAgree rfl hrow hm
    have ht : t - 10000000 = -5000000 := Option.some.inj (hlag'.symm.trans hlag)
    obtain rfl : t = 5000000 := by omega
    exact ⟨a, b, hreign, ha, hb⟩
  · have hrow := row_of_observation (edgeRun.take 4) (edgeRun.drop 5) 11000000 [] []
      (bookOf otherLevel)
    have hm : (rowFor (run (edgeRun.take 4)) (check 11000000 [] [] (bookOf otherLevel))
      (edgeRun.drop 5)).outcome = .matched := by decide
    have hlag : (rowFor (run (edgeRun.take 4)) (check 11000000 [] [] (bookOf otherLevel))
      (edgeRun.drop 5)).matchLagUs = some (-5000000) := by decide
    obtain ⟨a, b, t, hreign, ha, hb, -, -, hlag', -⟩ :=
      match_is_genuine hts edgeRun_booksAgree rfl hrow hm
    have ht : t - 11000000 = -5000000 := Option.some.inj (hlag'.symm.trans hlag)
    obtain rfl : t = 6000000 := by omega
    exact ⟨a, b, hreign, ha, hb⟩
  · have hrow := row_of_observation (edgeRun.take 5) (edgeRun.drop 6) 11000001 oneLevel []
      (bookOf otherLevel)
    have hm : (rowFor (run (edgeRun.take 5)) (check 11000001 oneLevel [] (bookOf otherLevel))
      (edgeRun.drop 6)).outcome = .matched := by decide
    have hlag : (rowFor (run (edgeRun.take 5)) (check 11000001 oneLevel [] (bookOf otherLevel))
      (edgeRun.drop 6)).matchLagUs = some 5000000 := by decide
    obtain ⟨a, b, t, hreign, ha, hb, -, -, hlag', -⟩ :=
      match_is_genuine hts edgeRun_booksAgree rfl hrow hm
    have ht : t - 11000001 = 5000000 := Option.some.inj (hlag'.symm.trans hlag)
    obtain rfl : t = 16000001 := by omega
    exact ⟨a, b, hreign, ha, hb⟩

end VerifyEngine

end Snapevent
