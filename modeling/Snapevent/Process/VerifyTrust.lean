import Snapevent.Process.VerifyVerdicts

/-!
# Verdicts and suspect books

While a gap is unresolved no verdict is rendered, but the states fed meanwhile stay in the window:
an observation after the next snapshot may still be matched against one of them.
-/

namespace Snapevent

/-- A book state was fed with no gap unresolved. -/
def RecordedTrusted (calls : List EngineCall) (s : State) : Prop :=
  ∃ pre ts book isSnapshot post, calls = pre ++ .bookEvent ts book isSnapshot :: post ∧
    canonicalizeBook book = s ∧ ¬ GapUnresolved (pre ++ [.bookEvent ts book isSnapshot])

/-- The state with this number, in the order fed, was fed while a gap was unresolved. -/
def FedSuspect (calls : List EngineCall) (n : ℕ) : Prop :=
  ∃ pre ts book isSnapshot post, calls = pre ++ .bookEvent ts book isSnapshot :: post ∧
    (recorded pre).length = n ∧ GapUnresolved (pre ++ [.bookEvent ts book isSnapshot])

/-- What an observation is matched against: the book it comes with, or a state fed, by its
number. -/
inductive Basis
  | book
  | fed (n : ℕ)
  deriving DecidableEq

namespace VerifyEngine

/-- How many states are fed before the one that ends a pending check in a match. -/
def awaitIndex (p : PendingCheck) : List EngineCall → Option ℕ
  | [] => none
  | .gap :: _ => none
  | .verify .. :: _ => none
  | .bookEvent ts book _ :: calls =>
    if p.deadline < ts then none
    else if canonicalizeBook book = p.restState then some 0
    else (awaitIndex p calls).map (· + 1)

/-- What the engine matches an observation against, when it does. -/
def basis (before : List EngineCall) (p : PendingCheck) (after : List EngineCall) : Option Basis :=
  let en := run before
  if en.gapPending then none
  else if p.bookStateAtVerify = p.restState then some .book
  else match backwardIndex p.restState (p.verifyTs - VERIFY_WINDOW_US) en.window.reverse with
    | some i => some (.fed ((recorded before).length - 1 - i))
    | none => (awaitIndex p after).map fun i => .fed ((recorded before).length + i)

/-- A matched row says what the REST book equals: the book of a call with no gap unresolved, or a
state fed with no gap unresolved, and it is no state fed meanwhile that it was compared with. -/
def RestsOnTrusted (calls : List EngineCall) : Prop :=
  ∀ before ts yes no book after row, calls = before ++ .verify ts yes no book :: after →
    (run calls).finish[(observed before).length]? = some row → row.outcome = .matched →
    (¬ GapUnresolved before ∧ canonicalizeBook book = canonicalizeRest yes no ∨
      RecordedTrusted calls (canonicalizeRest yes no)) ∧
    ∀ n, basis before (check ts yes no book) after = some (.fed n) → ¬ FedSuspect calls n

/-- Whenever a book is observed with no gap unresolved that is not the current one, and the last
state equal to it was fed while a gap was unresolved, then that state has left the window. -/
def SuspectStatesLeft (calls : List EngineCall) : Prop :=
  ∀ before ts yes no book after, calls = before ++ .verify ts yes no book :: after →
    ¬ GapUnresolved before → canonicalizeBook book ≠ canonicalizeRest yes no →
    ∀ pre a bk isSnapshot post, before = pre ++ .bookEvent a bk isSnapshot :: post →
      GapUnresolved (pre ++ [.bookEvent a bk isSnapshot]) →
      canonicalizeBook bk = canonicalizeRest yes no →
      (∀ x ∈ recorded post, x.2 ≠ canonicalizeRest yes no) →
      ∃ next ∈ (recorded post).head?, ∃ last ∈ (recorded post).getLast?,
        next.1 < ts - VERIFY_WINDOW_US ∨ next.1 ≤ last.1 - VERIFY_WINDOW_US

/-! ## What a row is matched against -/

/-- A pending check is matched against the first state fed in time that equals it; no gap comes
before. -/
theorem awaitIndex_eq_some {p : PendingCheck} {after : List EngineCall} {i : ℕ}
    (h : awaitIndex p after = some i) : ∃ pre ts book isSnapshot post,
      after = pre ++ .bookEvent ts book isSnapshot :: post ∧ (recorded pre).length = i ∧
        canonicalizeBook book = p.restState ∧ .gap ∉ pre := by
  induction after generalizing i with
  | nil => cases h
  | cons c after ih =>
    cases c with
    | gap => cases h
    | verify ts yes no book => cases h
    | bookEvent ts book isSnapshot =>
      unfold awaitIndex at h
      split_ifs at h with hlate heq
      · cases h
        exact ⟨[], ts, book, isSnapshot, after, rfl, rfl, heq, by simp⟩
      · obtain ⟨j, hj, rfl⟩ := Option.map_eq_some_iff.1 h
        obtain ⟨pre, ts', book', isSnapshot', post, rfl, rfl, hstate, hgap⟩ := ih hj
        exact ⟨.bookEvent ts book isSnapshot :: pre, ts', book', isSnapshot', post, rfl, rfl,
          hstate, by simp [hgap]⟩

theorem await_matched_iff {p : PendingCheck} {after : List EngineCall} :
    (await p after).outcome = .matched ↔ (awaitIndex p after).isSome := by
  induction after with
  | nil => simp [await, awaitIndex, PendingCheck.resolveTruncated, PendingCheck.resolve]
  | cons c after ih =>
    cases c with
    | gap => simp [await, awaitIndex, PendingCheck.resolveSkippedGap, PendingCheck.resolve]
    | verify ts yes no book =>
      simp [await, awaitIndex, PendingCheck.resolveMismatch, PendingCheck.resolve]
    | bookEvent ts book isSnapshot =>
      unfold await awaitIndex
      split_ifs with hlate heq
      · simp [PendingCheck.resolveMismatch, PendingCheck.resolve]
      · simp [PendingCheck.resolveMatched, PendingCheck.resolve]
      · rw [ih, Option.isSome_map]

theorem matched_iff_basis {before after : List EngineCall} {p : PendingCheck} :
    (rowFor (run before) p after).outcome = .matched ↔ (basis before p after).isSome := by
  unfold rowFor decided basis
  dsimp only
  split_ifs with hgap heq
  · simp [PendingCheck.resolve]
  · simp [PendingCheck.resolveMatched, PendingCheck.resolve]
  · rw [backwardMatch_eq]
    cases hi : backwardIndex p.restState (p.verifyTs - VERIFY_WINDOW_US)
        (run before).window.reverse with
    | none => simp [await_matched_iff]
    | some i =>
      obtain ⟨newer, ts, older, hwindow, rfl, -⟩ := backwardIndex_eq_some.1 hi
      simp [hwindow, PendingCheck.resolveMatched, PendingCheck.resolve]

end VerifyEngine

/-! ## States by their numbers -/

/-- Two book events with the same number are the same. -/
theorem fed_unique {calls pre pre' post post' : List EngineCall} {ts ts' : ℤ} {book book' : Book}
    {isSnapshot isSnapshot' : Bool} (h : calls = pre ++ .bookEvent ts book isSnapshot :: post)
    (h' : calls = pre' ++ .bookEvent ts' book' isSnapshot' :: post')
    (hlen : (recorded pre).length = (recorded pre').length) :
    pre = pre' ∧ EngineCall.bookEvent ts book isSnapshot = .bookEvent ts' book' isSnapshot' := by
  subst h
  induction pre generalizing pre' with
  | nil =>
    cases pre' with
    | nil => exact ⟨rfl, (List.cons.inj h').1⟩
    | cons c pre' =>
      obtain ⟨rfl, -⟩ := List.cons.inj h'
      exact absurd hlen (by simp [recorded, EngineCall.fed?])
  | cons c pre ih =>
    cases pre' with
    | nil =>
      obtain ⟨rfl, -⟩ := List.cons.inj h'
      exact absurd hlen (by simp [recorded, EngineCall.fed?])
    | cons c' pre' =>
      obtain ⟨rfl, hrest⟩ := List.cons.inj h'
      have hlen' : (recorded pre).length = (recorded pre').length := by
        simp only [recorded, List.filterMap_cons] at hlen ⊢
        cases hc : c.fed? with
        | none => simpa [hc] using hlen
        | some x => simpa [hc] using hlen
      obtain ⟨rfl, hevent⟩ := ih hlen' hrest
      exact ⟨rfl, hevent⟩

theorem GapUnresolved.of_append {calls calls' : List EngineCall} (h : GapUnresolved (calls ++ calls'))
    (hgap : .gap ∉ calls') : GapUnresolved calls := by
  induction calls' using List.reverseRecOn with
  | nil => simpa using h
  | append_singleton calls' c ih =>
    rw [← List.append_assoc, VerifyEngine.gapUnresolved_concat] at h
    cases h with
    | inl hc => exact absurd hc fun hc => hgap (by simp [hc])
    | inr h => exact ih h.2 fun hmem => hgap (List.mem_append_left _ hmem)

theorem GapUnresolved.append {calls calls' : List EngineCall} (h : GapUnresolved calls)
    (hnone : recorded calls' = []) : GapUnresolved (calls ++ calls') := by
  obtain ⟨before, after, rfl, hafter⟩ := h
  refine ⟨before, after ++ calls', List.append_assoc _ _ _, fun c hc => ?_⟩
  cases List.mem_append.1 hc with
  | inl hc => exact hafter c hc
  | inr hc =>
    have hfed := List.filterMap_eq_nil_iff.1 hnone c hc
    cases c with
    | bookEvent ts book isSnapshot => cases hfed
    | gap => rfl
    | verify ts yes no book => rfl

namespace VerifyEngine

section Observation

variable {calls before after : List EngineCall} {ts : ℤ} {yes no : List PriceLevel} {book : Book}

/-- A state an observation is matched against is a state fed, equal to it. -/
theorem basis_fed {p : PendingCheck} {n : ℕ} (hts : TimeOrdered before)
    (hb : basis before p after = some (.fed n)) :
    ¬ GapUnresolved before ∧ p.bookStateAtVerify ≠ p.restState ∧
    ((∃ pre a bk isSnapshot post, before = pre ++ .bookEvent a bk isSnapshot :: post ∧
      (recorded pre).length = n ∧ canonicalizeBook bk = p.restState ∧
      (∀ x ∈ recorded post, x.2 ≠ p.restState ∧ p.verifyTs - VERIFY_WINDOW_US ≤ x.1) ∧
      ∀ next ∈ (recorded post).head?, ∀ last ∈ (recorded post).getLast?,
        last.1 - VERIFY_WINDOW_US < next.1) ∨
    ∃ pre a bk isSnapshot post, after = pre ++ .bookEvent a bk isSnapshot :: post ∧
      (recorded before).length + (recorded pre).length = n ∧
      canonicalizeBook bk = p.restState ∧ .gap ∉ pre) := by
  unfold basis at hb
  dsimp only at hb
  split_ifs at hb with hgap heq
  · cases hb
  rw [run_gapPending] at hgap
  refine ⟨hgap, heq, ?_⟩
  cases hi : backwardIndex p.restState (p.verifyTs - VERIFY_WINDOW_US)
      (run before).window.reverse with
  | none =>
    rw [hi] at hb
    obtain ⟨i, hi', hn⟩ := Option.map_eq_some_iff.1 hb
    obtain rfl : (recorded before).length + i = n := Basis.fed.inj hn
    obtain ⟨pre, a, bk, isSnapshot, post, hafter, rfl, hstate, hnogap⟩ := awaitIndex_eq_some hi'
    exact Or.inr ⟨pre, a, bk, isSnapshot, post, hafter, rfl, hstate, hnogap⟩
  | some i =>
    rw [hi] at hb
    obtain rfl : (recorded before).length - 1 - i = n := Basis.fed.inj (Option.some_inj.1 hb)
    obtain ⟨older, at', newer, hwindow, rfl, hnewer⟩ := backwardIndex_reverse.1 hi
    obtain ⟨pre, bk, isSnapshot, post, hfed, hstate, rfl, hkept⟩ :=
      exists_fed_of_window hts.recorded_sorted hwindow
    refine Or.inl ⟨pre, at', bk, isSnapshot, post, hfed, ?_, hstate, hnewer, hkept⟩
    have hrec := recorded_of_split hfed
    rw [hrec, List.length_append, List.length_cons]
    omega

/-- The same state among all states fed: if it was fed while a gap was unresolved, the observation has
found it in the window. -/
theorem basis_fed_split {p : PendingCheck} {n : ℕ} (hts : TimeOrdered before)
    (hb : basis before p after = some (.fed n)) (ts : ℤ) (yes no : List PriceLevel) (book : Book) :
    ∃ pre a bk isSnapshot post,
      before ++ .verify ts yes no book :: after = pre ++ .bookEvent a bk isSnapshot :: post ∧
      (recorded pre).length = n ∧ canonicalizeBook bk = p.restState ∧
      (GapUnresolved (pre ++ [.bookEvent a bk isSnapshot]) →
        ∃ newer, before = pre ++ .bookEvent a bk isSnapshot :: newer ∧
          (∀ x ∈ recorded newer, x.2 ≠ p.restState ∧ p.verifyTs - VERIFY_WINDOW_US ≤ x.1) ∧
          ∀ next ∈ (recorded newer).head?, ∀ last ∈ (recorded newer).getLast?,
            last.1 - VERIFY_WINDOW_US < next.1) := by
  obtain ⟨hgap, -, hwhere⟩ := basis_fed hts hb
  cases hwhere with
  | inl h =>
    obtain ⟨pre, a, bk, isSnapshot, newer, hfed, hlen, hstate, hnewer, hkept⟩ := h
    refine ⟨pre, a, bk, isSnapshot, newer ++ .verify ts yes no book :: after, ?_, hlen, hstate,
      fun _ => ⟨newer, hfed, hnewer, hkept⟩⟩
    rw [hfed, List.append_assoc, List.cons_append]
  | inr h =>
    obtain ⟨pre, a, bk, isSnapshot, post, hfed, hlen, hstate, hnogap⟩ := h
    refine ⟨before ++ .verify ts yes no book :: pre, a, bk, isSnapshot, post, ?_, ?_, hstate, ?_⟩
    · rw [hfed, List.append_assoc, List.cons_append]
    · rw [recorded_append, List.length_append, ← hlen]
      rfl
    · -- a gap unresolved at that state was unresolved at the observation
      intro hsuspect
      rw [List.append_assoc] at hsuspect
      exact absurd (hsuspect.of_append (by simp [hnogap])) hgap

theorem basis_book {p : PendingCheck} (hb : basis before p after = some .book) :
    ¬ GapUnresolved before ∧ p.bookStateAtVerify = p.restState := by
  unfold basis at hb
  dsimp only at hb
  split_ifs at hb with hgap heq
  · rw [run_gapPending] at hgap
    exact ⟨hgap, heq⟩
  · split at hb
    · cases hb
    · obtain ⟨i, -, hi⟩ := Option.map_eq_some_iff.1 hb
      cases hi

/-- A state that was superseded within the window is scanned, unless a newer one matches first. -/
theorem basis_of_scanned (hts : TimeOrdered before) (hgap : ¬ GapUnresolved before)
    {p : PendingCheck} (hne : p.bookStateAtVerify ≠ p.restState) {pre post : List EngineCall}
    {a : ℤ} {bk : Book} {isSnapshot : Bool} {next last : ℤ × State}
    (hfed : before = pre ++ .bookEvent a bk isSnapshot :: post)
    (hstate : canonicalizeBook bk = p.restState) (hnewer : ∀ x ∈ recorded post, x.2 ≠ p.restState)
    (hnext : next ∈ (recorded post).head?) (hlast : last ∈ (recorded post).getLast?)
    (hscan : p.verifyTs - VERIFY_WINDOW_US ≤ next.1)
    (hkept : last.1 - VERIFY_WINDOW_US < next.1) :
    basis before p after = some (.fed (recorded pre).length) := by
  have hrec := recorded_of_split hfed
  have hsorted := hts.recorded_sorted
  obtain ⟨older, hwindow⟩ := kept_in_window hsorted hrec hnext hlast hkept
  have hpost : ∀ y ∈ recorded post, p.verifyTs - VERIFY_WINDOW_US ≤ y.1 := by
    rw [hrec] at hsorted
    have hrest := (List.pairwise_cons.1 (List.pairwise_append.1 hsorted).2.1).2
    cases hp : recorded post with
    | nil => simp
    | cons y newer =>
      rw [hp] at hnext hrest
      cases hnext
      exact List.forall_mem_cons.2
        ⟨hscan, fun z hz => hscan.trans ((List.pairwise_cons.1 hrest).1 z hz)⟩
  have hindex : backwardIndex p.restState (p.verifyTs - VERIFY_WINDOW_US)
      (run before).window.reverse = some (recorded post).length := by
    rw [hstate] at hwindow
    exact backwardIndex_reverse.2 ⟨older, a, recorded post, hwindow, rfl,
      fun y hy => ⟨hnewer y hy, hpost y hy⟩⟩
  have hnum : (recorded before).length - 1 - (recorded post).length = (recorded pre).length := by
    rw [hrec, List.length_append, List.length_cons]
    omega
  unfold basis
  dsimp only
  rw [← run_gapPending] at hgap
  rw [if_neg hgap, if_neg hne, hindex]
  dsimp only
  rw [hnum]

theorem RestsOnTrusted.suspectStatesLeft (hts : TimeOrdered calls) (htrust : RestsOnTrusted calls) :
    SuspectStatesLeft calls := by
  intro before ts yes no book after hcalls hgap hne pre a bk isSnapshot post hfed hsuspect hstate
    hnewer
  subst hcalls
  obtain ⟨-, -, hbefore, -⟩ := hts.around
  -- the gap was resolved, so something was fed after the state
  cases hpost : recorded post with
  | nil =>
    have hopen := hsuspect.append hpost
    rw [List.append_assoc, List.singleton_append, ← hfed] at hopen
    exact absurd hopen hgap
  | cons next newer =>
    obtain ⟨last, hlast⟩ : ∃ last, (recorded post).getLast? = some last := by
      rw [hpost]
      exact ⟨_, List.getLast?_cons⟩
    refine ⟨next, rfl, last, hpost ▸ hlast, ?_⟩
    by_contra hin
    obtain ⟨hscan, hkept⟩ := not_or.1 hin
    have hbasis : basis before (check ts yes no book) after =
        some (.fed (recorded pre).length) :=
      basis_of_scanned hbefore hgap hne hfed hstate hnewer (by rw [hpost]; rfl) hlast
        (not_lt.1 hscan) (not_le.1 hkept)
    have hrow := row_of_observation before after ts yes no book
    have hm := matched_iff_basis.2 (Option.isSome_of_eq_some hbasis)
    obtain ⟨-, hclean⟩ := htrust before ts yes no book after _ rfl hrow hm
    refine hclean _ hbasis ⟨pre, a, bk, isSnapshot, post ++ .verify ts yes no book :: after, ?_,
      rfl, hsuspect⟩
    rw [hfed, List.append_assoc, List.cons_append]

/-- When no suspect state is left to be found, an observation is matched against none. -/
theorem SuspectStatesLeft.not_fedSuspect {n : ℕ}
    (hts : TimeOrdered (before ++ .verify ts yes no book :: after))
    (hleft : SuspectStatesLeft (before ++ .verify ts yes no book :: after))
    (hb : basis before (check ts yes no book) after = some (.fed n)) :
    ¬ FedSuspect (before ++ .verify ts yes no book :: after) n := by
  rintro ⟨pre, a, bk, isSnapshot, post, hfed, hlen, hsuspect⟩
  obtain ⟨-, -, hbefore, -⟩ := hts.around
  obtain ⟨hgap, hne, -⟩ := basis_fed hbefore hb
  obtain ⟨pre', a', bk', isSnapshot', post', hfed', hlen', hstate, hfound⟩ :=
    basis_fed_split hbefore hb ts yes no book
  obtain ⟨rfl, hevent⟩ := fed_unique hfed hfed' (hlen.trans hlen'.symm)
  rw [hevent] at hsuspect
  obtain ⟨newer, hwindow, hnewer, hkept⟩ := hfound hsuspect
  obtain ⟨next, hnext, last, hlast, hout⟩ := hleft before ts yes no book after rfl hgap hne pre a'
    bk' isSnapshot' newer hwindow hsuspect hstate fun x hx => (hnewer x hx).1
  have hscan : ts - VERIFY_WINDOW_US ≤ next.1 := (hnewer next (List.mem_of_mem_head? hnext)).2
  have hlater := hkept next hnext last hlast
  omega

end Observation

/-- Every matched row rests on trusted states exactly when no suspect state is left to be found: the
states fed before a gap is resolved are still scanned by the observations after it. -/
theorem rests_on_trusted_iff {calls : List EngineCall} (hts : TimeOrdered calls) :
    RestsOnTrusted calls ↔ SuspectStatesLeft calls := by
  constructor
  · intro htrust
    exact htrust.suspectStatesLeft hts
  · intro hleft before ts yes no book after row hcalls hrow hm
    rw [eq_rowFor hcalls hrow] at hm
    subst hcalls
    refine ⟨?_, fun n hb => hleft.not_fedSuspect hts hb⟩
    obtain ⟨b, hb⟩ := Option.isSome_iff_exists.1 (matched_iff_basis.1 hm)
    cases b with
    | book => exact Or.inl (basis_book hb)
    | fed n =>
      right
      obtain ⟨-, -, hbefore, -⟩ := hts.around
      have hclean := hleft.not_fedSuspect hts hb
      obtain ⟨pre, a, bk, isSnapshot, post, hfed, hlen, hstate, -⟩ :=
        basis_fed_split hbefore hb ts yes no book
      exact ⟨pre, a, bk, isSnapshot, post, hfed, hstate,
        fun hsuspect => hclean ⟨pre, a, bk, isSnapshot, post, hfed, hlen, hsuspect⟩⟩

/-- A state fed while a gap is unresolved has left the window when it is observed, and the snapshot
that resolves the gap has not. -/
def resolvedRun : List EngineCall :=
  [.gap, .bookEvent 0 (bookOf oneLevel) false, .bookEvent 1 .default true,
    .bookEvent 3 (bookOf otherLevel) false, .verify 5000002 oneLevel [] (bookOf otherLevel),
    .verify 5000002 [] [] (bookOf otherLevel)]

example : (run resolvedRun).finish.map (·.outcome) = [.mismatch, .matched] := by decide

theorem rests_on_trusted_iff_resolved : RestsOnTrusted resolvedRun := by
  have hts : TimeOrdered resolvedRun := by simp [TimeOrdered, resolvedRun, EngineCall.ts?]
  rw [rests_on_trusted_iff hts]
  intro before ts yes no book after hcalls _ _ pre a bk isSnapshot post hfed hsuspect hstate _
  have hone : canonicalizeBook .default ≠ canonicalizeRest oneLevel [] := by decide
  have hother : canonicalizeBook (bookOf otherLevel) ≠ canonicalizeRest oneLevel [] := by decide
  rw [← run_gapPending] at hsuspect
  rcases before with _ | ⟨c₁, _ | ⟨c₂, _ | ⟨c₃, _ | ⟨c₄, _ | ⟨c₅, _ | ⟨c₆, before⟩⟩⟩⟩⟩⟩
  case cons.cons.cons.cons.nil =>
    cases hcalls
    rcases pre with _ | ⟨x₁, _ | ⟨x₂, _ | ⟨x₃, _ | ⟨x₄, pre⟩⟩⟩⟩
    · cases hfed
    · cases hfed
      exact ⟨_, rfl, _, rfl, .inl (by decide)⟩
    · cases hfed
      exact absurd hstate hone
    · cases hfed
      exact absurd hstate hother
    · simp at hfed
  case cons.cons.cons.cons.cons.nil =>
    cases hcalls
    rcases pre with _ | ⟨x₁, _ | ⟨x₂, _ | ⟨x₃, _ | ⟨x₄, _ | ⟨x₅, pre⟩⟩⟩⟩⟩
    · cases hfed
    · cases hfed
      exact ⟨_, rfl, _, rfl, .inl (by decide)⟩
    · cases hfed
      exact absurd hsuspect (by decide)
    · cases hfed
      exact absurd hsuspect (by decide)
    · cases hfed
    · simp at hfed
  all_goals simp [resolvedRun] at hcalls

/-- A state is fed while a gap is unresolved; the next snapshot differs from it, and an observation
after the snapshot equals it. -/
def suspectRun : List EngineCall :=
  [.gap, .bookEvent 0 (Book.default.applySnapshotLevels oneLevel []) false,
    .bookEvent 1 .default true, .verify 2 oneLevel [] .default]

theorem suspectRun_ordered : TimeOrdered suspectRun := by
  simp [TimeOrdered, suspectRun, EngineCall.ts?]

theorem suspect_state_matched :
    TimeOrdered suspectRun ∧ BooksAgree suspectRun ∧ ¬ RestsOnTrusted suspectRun := by
  refine ⟨suspectRun_ordered, ?_, fun h => ?_⟩
  · intro before ts yes no book after hcalls
    match before, hcalls with
    | [_, _, _], hcalls =>
      cases hcalls
      decide
    | _ :: _ :: _ :: _ :: _, hcalls => simp [suspectRun] at hcalls
  · have hrow := row_of_observation (suspectRun.take 3) [] 2 oneLevel [] .default
    have hm : (rowFor (run (suspectRun.take 3)) (check 2 oneLevel [] .default) []).outcome =
        .matched := by decide
    have hbasis : basis (suspectRun.take 3) (check 2 oneLevel [] .default) [] = some (.fed 0) := by
      decide
    obtain ⟨-, hclean⟩ := h _ _ _ _ _ _ _ rfl hrow hm
    refine hclean 0 hbasis ⟨[.gap], 0, _, false, _, rfl, rfl, [], _, rfl, ?_⟩
    simp [EngineCall.isSnapshot]

end VerifyEngine

end Snapevent
