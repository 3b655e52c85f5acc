import Snapevent.Process.VerifyVerdicts

/-!
# Lags when observations are out of order

The writer merges two queues by arrival, so an observation may stand in the file before older or
after younger book events.  A lag leaves the tolerance exactly when a state equal to the observation
is found that was fed later than the window after it, or earlier than the window before it.
-/

namespace Snapevent

namespace VerifyEngine

/-- Every lag of a matched row is within the window. -/
def LagsBounded (rows : List VerifyOutcomeRow) : Prop :=
  ∀ row ∈ rows, row.outcome = .matched → ∀ lag, row.matchLagUs = some lag →
    |lag| ≤ VERIFY_WINDOW_US

/-- Whenever a book is observed with no gap unresolved that is not the current one: the last state
fed before that equals it is not younger than the window, unless it has left the engine's memory;
and the first state fed afterwards that equals it, if only other states come between, is not older
than the window. -/
def InReach (calls : List EngineCall) : Prop :=
  ∀ before ts yes no book after, calls = before ++ .verify ts yes no book :: after →
    ¬ GapUnresolved before → canonicalizeBook book ≠ canonicalizeRest yes no →
    (∀ pre a bk isSnapshot post, before = pre ++ .bookEvent a bk isSnapshot :: post →
      canonicalizeBook bk = canonicalizeRest yes no →
      (∀ x ∈ recorded post, x.2 ≠ canonicalizeRest yes no) → ts + VERIFY_WINDOW_US < a →
      ∃ next ∈ (recorded post).head?, ∃ last ∈ (recorded post).getLast?,
        next.1 ≤ last.1 - VERIFY_WINDOW_US) ∧
    ∀ pre a bk isSnapshot post, after = pre ++ .bookEvent a bk isSnapshot :: post →
      canonicalizeBook bk = canonicalizeRest yes no →
      (∀ c ∈ pre, ∃ x, c.fed? = some x ∧ x.2 ≠ canonicalizeRest yes no) →
      ts - VERIFY_WINDOW_US ≤ a

/-- A pending check is matched with the first state fed in time that equals it. -/
theorem await_of_first {p : PendingCheck} {pre post : List EngineCall} {a : ℤ} {bk : Book}
    {isSnapshot : Bool} (hpre : ∀ c ∈ pre, ∃ x, c.fed? = some x ∧ x.2 ≠ p.restState)
    (htimes : ∀ x ∈ recorded pre, x.1 ≤ p.deadline) (ha : a ≤ p.deadline)
    (hstate : canonicalizeBook bk = p.restState) :
    await p (pre ++ .bookEvent a bk isSnapshot :: post) = p.resolveMatched (a - p.verifyTs) := by
  induction pre with
  | nil => rw [List.nil_append, await, if_neg (not_lt.2 ha), if_pos hstate]
  | cons c pre ih =>
    obtain ⟨⟨x, hx, hne⟩, hrest⟩ := List.forall_mem_cons.1 hpre
    cases c with
    | gap => cases hx
    | verify ts yes no book => cases hx
    | bookEvent ts book isSnapshot' =>
      cases hx
      obtain ⟨hts, htimes⟩ := List.forall_mem_cons.1 htimes
      rw [List.cons_append, await, if_neg (not_lt.2 hts), if_neg hne]
      exact ih hrest htimes

section Observation

variable {before after : List EngineCall} {ts : ℤ} {yes no : List PriceLevel} {book : Book}

/-- A state younger than the window that is still remembered is matched with its own time. -/
theorem rowFor_of_younger (hsorted : (recorded before).Pairwise fun x y => x.1 ≤ y.1)
    (hgap : ¬ GapUnresolved before) (hne : canonicalizeBook book ≠ canonicalizeRest yes no)
    {pre post : List EngineCall} {a : ℤ} {bk : Book} {isSnapshot : Bool} {next last : ℤ × State}
    (hfed : before = pre ++ .bookEvent a bk isSnapshot :: post)
    (hstate : canonicalizeBook bk = canonicalizeRest yes no)
    (hnewer : ∀ x ∈ recorded post, x.2 ≠ canonicalizeRest yes no)
    (ha : ts + VERIFY_WINDOW_US < a) (hnext : next ∈ (recorded post).head?)
    (hlast : last ∈ (recorded post).getLast?) (hkept : last.1 - VERIFY_WINDOW_US < next.1) :
    rowFor (run before) (check ts yes no book) after =
      (check ts yes no book).resolveMatched (a - ts) := by
  have hwindow : (0 : ℤ) ≤ VERIFY_WINDOW_US := by decide
  have hrec := recorded_of_split hfed
  obtain ⟨older, hwindow'⟩ := kept_in_window hsorted hrec hnext hlast hkept
  have hlater : ∀ y ∈ recorded post, a ≤ y.1 := by
    rw [hrec] at hsorted
    exact (List.pairwise_cons.1 (List.pairwise_append.1 hsorted).2.1).1
  have hscan : backwardMatch (canonicalizeRest yes no) (ts - VERIFY_WINDOW_US)
      (run before).window.reverse = some a := by
    rw [hstate] at hwindow'
    refine backwardMatch_reverse.2 ⟨older, recorded post, hwindow', fun y hy => ⟨hnewer y hy, ?_⟩⟩
    have := hlater y hy
    omega
  rw [← run_gapPending] at hgap
  have hne' : (check ts yes no book).bookStateAtVerify ≠ (check ts yes no book).restState := hne
  have hmax : max a (ts - VERIFY_WINDOW_US) = a := max_eq_left (by omega)
  unfold rowFor decided
  rw [if_neg hgap, if_neg hne']
  simp only [check, hscan, Option.map_some, Option.getD_some, hmax]

/-- A state older than the window that is fed first afterwards is matched with its own time. -/
theorem rowFor_of_older
    (hsorted : (recorded (before ++ .verify ts yes no book :: after)).Pairwise fun x y => x.1 ≤ y.1)
    (hgap : ¬ GapUnresolved before) (hne : canonicalizeBook book ≠ canonicalizeRest yes no)
    (hbook : canonicalizeBook book = lastState before)
    {pre post : List EngineCall} {a : ℤ} {bk : Book} {isSnapshot : Bool}
    (hfed : after = pre ++ .bookEvent a bk isSnapshot :: post)
    (hstate : canonicalizeBook bk = canonicalizeRest yes no)
    (hpre : ∀ c ∈ pre, ∃ x, c.fed? = some x ∧ x.2 ≠ canonicalizeRest yes no)
    (ha : a < ts - VERIFY_WINDOW_US) :
    rowFor (run before) (check ts yes no book) after =
      (check ts yes no book).resolveMatched (a - ts) := by
  have hwindow : (0 : ℤ) ≤ VERIFY_WINDOW_US := by decide
  have hrec : recorded (before ++ .verify ts yes no book :: after) =
      recorded before ++ (recorded pre ++ (a, canonicalizeBook bk) :: recorded post) := by
    rw [recorded_append, ← recorded_of_split hfed]
    rfl
  rw [hrec] at hsorted
  obtain ⟨hbefore, hrest, hcross⟩ := List.pairwise_append.1 hsorted
  have hearlier : ∀ x ∈ recorded before, x.1 ≤ a := fun x hx =>
    hcross x hx (a, canonicalizeBook bk) (by simp)
  have hbetween : ∀ x ∈ recorded pre, x.1 ≤ a := fun x hx =>
    (List.pairwise_append.1 hrest).2.2 x hx _ List.mem_cons_self
  -- the scan ends at the current state: it is too old, and it is not the one observed
  have hscan : backwardMatch (canonicalizeRest yes no) (ts - VERIFY_WINDOW_US)
      (run before).window.reverse = none := by
    obtain ⟨old, hold, -⟩ := (run_remembers hbefore).split
    cases hw : (run before).window using List.reverseRecOn with
    | nil => rfl
    | append_singleton window x =>
      rw [hw, ← List.append_assoc] at hold
      have hx : x.2 ≠ canonicalizeRest yes no := by
        rw [hbook, lastState, hold, List.getLast?_concat] at hne
        exact hne
      have hold' : x.1 < ts - VERIFY_WINDOW_US :=
        (hearlier x (by rw [hold]; simp)).trans_lt ha
      rw [List.reverse_append, List.reverse_singleton, List.singleton_append]
      unfold backwardMatch
      rw [if_neg hx, if_pos hold']
  have hopen : (run before).decided (check ts yes no book) = none := by
    rw [← run_gapPending] at hgap
    exact decided_eq_none.2 ⟨Bool.eq_false_of_not_eq_true hgap, hne, hscan⟩
  have hdeadline : a ≤ (check ts yes no book).deadline := by
    show a ≤ ts + VERIFY_WINDOW_US
    omega
  rw [rowFor, hopen, Option.getD_none, hfed]
  exact await_of_first hpre (fun x hx => (hbetween x hx).trans hdeadline) hdeadline hstate

end Observation

section Bounds

variable {calls : List EngineCall} (hsorted : (recorded calls).Pairwise fun x y => x.1 ≤ y.1)
include hsorted

theorem recorded_sorted_of_append {before after : List EngineCall} (h : calls = before ++ after) :
    (recorded before).Pairwise fun x y => x.1 ≤ y.1 := by
  rw [h, recorded_append] at hsorted
  exact (List.pairwise_append.1 hsorted).1

/-- Where every lag is bounded no state is found outside the window: it would be matched with its
own time. -/
theorem LagsBounded.inReach (hbooks : BooksAgree calls) (hbounded : LagsBounded (run calls).finish) :
    InReach calls := by
  have hwindow : (0 : ℤ) ≤ VERIFY_WINDOW_US := by decide
  intro before ts yes no book after hcalls hgap hne
  have hrow := row_of_observation before after ts yes no book
  rw [← hcalls] at hrow
  have hbook := hbooks before ts yes no book after hcalls
  have hlag {lag : ℤ} (h : rowFor (run before) (check ts yes no book) after =
      (check ts yes no book).resolveMatched lag) : |lag| ≤ VERIFY_WINDOW_US := by
    rw [h] at hrow
    exact hbounded _ (List.mem_of_getElem? hrow) rfl lag rfl
  have hbefore := recorded_sorted_of_append hsorted hcalls
  subst hcalls
  constructor
  · intro pre a bk isSnapshot post hfed hstate hnewer ha
    cases hpost : recorded post with
    | nil =>
      -- the state would still be the current one
      exfalso
      apply hne
      have hrec := recorded_of_split hfed
      rw [hpost] at hrec
      rw [hbook, lastState, hrec, List.getLast?_concat]
      exact hstate
    | cons next newer =>
      obtain ⟨last, hlast⟩ : ∃ last, (recorded post).getLast? = some last := by
        rw [hpost]
        exact ⟨_, List.getLast?_cons⟩
      refine ⟨next, rfl, last, hpost ▸ hlast, ?_⟩
      by_contra hkept
      have hin := abs_le.1 (hlag (rowFor_of_younger hbefore hgap hne hfed hstate hnewer ha
        (by rw [hpost]; rfl) hlast (not_le.1 hkept)))
      omega
  · intro pre a bk isSnapshot post hfed hstate hpre
    by_contra ha
    have hin := abs_le.1 (hlag (rowFor_of_older hsorted hgap hne hbook hfed hstate hpre
      (not_le.1 ha)))
    omega

theorem InReach.lagsBounded (hreach : InReach calls) : LagsBounded (run calls).finish := by
  have hwindow : (0 : ℤ) ≤ VERIFY_WINDOW_US := by decide
  intro row hrow hm lag hlag
  obtain ⟨n, hn⟩ := List.mem_iff_getElem?.1 hrow
  obtain ⟨before, ts, yes, no, book, after, hcalls, -, rfl⟩ := exists_observation hn
  have hbefore := recorded_sorted_of_append hsorted hcalls
  have hopen (hgap : (run before).gapPending = false) : ¬ GapUnresolved before := by
    rw [← run_gapPending, hgap]
    exact Bool.false_ne_true
  rw [abs_le]
  rcases matched_cases hm with ⟨-, -, h⟩ |
    ⟨at', older, newer, hgap, hne, hsplit, hnewer, h⟩ |
    ⟨pre, at', bk, isSnapshot, post, hgap, hne, hfed, hpre, hle, hstate, h⟩
  · cases h.symm.trans hlag
    omega
  · cases h.symm.trans hlag
    have hinside : at' ≤ ts + VERIFY_WINDOW_US := by
      by_contra hlate
      obtain ⟨pre, bk, isSnapshot, post, hfed, hstate, rfl, hkept⟩ :=
        exists_fed_of_window hbefore hsplit
      obtain ⟨next, hnext, last, hlast, hout⟩ :=
        (hreach before ts yes no book after hcalls (hopen hgap) hne).1 pre at' bk isSnapshot post
          hfed hstate (fun x hx => (hnewer x hx).1) (not_le.1 hlate)
      have hin := hkept next hnext last hlast
      omega
    show -VERIFY_WINDOW_US ≤ max at' (ts - VERIFY_WINDOW_US) - ts ∧
      max at' (ts - VERIFY_WINDOW_US) - ts ≤ VERIFY_WINDOW_US
    omega
  · cases h.symm.trans hlag
    have hge := (hreach before ts yes no book after hcalls (hopen hgap) hne).2 pre at' bk isSnapshot
      post hfed hstate hpre
    have hle' : at' ≤ ts + VERIFY_WINDOW_US := hle
    show -VERIFY_WINDOW_US ≤ at' - ts ∧ at' - ts ≤ VERIFY_WINDOW_US
    omega

end Bounds

/-- While book events are in time order, the lags of all matched rows are bounded exactly when no
state is found outside the window. -/
theorem lagsBounded_iff {calls : List EngineCall} (hbooks : BooksAgree calls)
    (hsorted : (recorded calls).Pairwise fun x y => x.1 ≤ y.1) :
    LagsBounded (run calls).finish ↔ InReach calls :=
  ⟨fun h => h.inReach hsorted hbooks, fun h => h.lagsBounded hsorted⟩

end VerifyEngine

end Snapevent
