import Mathlib.Order.WithBot
import Mathlib.Data.List.Flatten
import Mathlib.Logic.Function.Basic

/-!
# A k-way merge with a monotonicity tripwire

Lanes hold keyed elements and errors.  Each step surfaces an error that heads some lane or, when no
lane is headed by one, takes the element of least key among the heads.  The taken element is emitted
when its key is not below the last emitted key, and reported as a regression otherwise.

The merge may pick either of two lanes with equal least keys, so it is a relation, `Run`.  What it
reports of one lane does not depend on that choice nor on the other lanes (`Run.lane_verdicts`): the
lane's own elements in order, an element being a regression exactly when it is smaller than an
earlier element of its own lane.
-/

namespace KWayMerge

variable {ι κ α ε : Type*}

/-- The next thing a lane holds: an error or a keyed element. -/
abbrev Item (ε κ α : Type*) := Except ε (κ × α)

/-- What is said of one item of a lane. -/
inductive Verdict (ε κ α : Type*)
  | failed (e : ε)
  | emitted (k : κ) (a : α)
  | regressed (k : κ) (a : α)

/-- The keyed element of a verdict, when it was emitted. -/
def Verdict.emitted? : Verdict ε κ α → Option (κ × α)
  | .emitted k a => some (k, a)
  | _ => none

/-- What a lone lane is told about its items, `m` being its greatest key so far. -/
def laneVerdicts [LinearOrder κ] (m : WithBot κ) : List (Item ε κ α) → List (Verdict ε κ α)
  | [] => []
  | .error e :: items => .failed e :: laneVerdicts m items
  | .ok (k, a) :: items =>
    if (k : WithBot κ) < m then .regressed k a :: laneVerdicts m items
    else .emitted k a :: laneVerdicts k items

/-- Lane `i` is headed by an element of least key, and no lane is headed by an error. -/
structure Least [LinearOrder κ] (L : ι → List (Item ε κ α)) (i : ι) (k : κ) (a : α)
    (rest : List (Item ε κ α)) : Prop where
  head : L i = .ok (k, a) :: rest
  least : ∀ j, L j ≠ [] → ∃ k' a' r, L j = .ok (k', a') :: r ∧ k ≤ k'

/-- The merge of the lanes `L`, `last` being the last emitted key: the verdicts, each with the lane
it is about and, for a regression, the key it fell below. -/
inductive Run [DecidableEq ι] [LinearOrder κ] :
    (ι → List (Item ε κ α)) → WithBot κ → List (ι × Verdict ε κ α × WithBot κ) → Prop
  | done {L last} : (∀ i, L i = []) → Run L last []
  | fail {L last i e rest out} : L i = .error e :: rest → Run (Function.update L i rest) last out →
      Run L last ((i, .failed e, last) :: out)
  | emit {L} {last : WithBot κ} {i} {k : κ} {a rest out} : Least L i k a rest → last ≤ k →
      Run (Function.update L i rest) k out → Run L last ((i, .emitted k a, last) :: out)
  | regress {L last i} {k : κ} {a rest out} : Least L i k a rest → (k : WithBot κ) < last →
      Run (Function.update L i rest) last out → Run L last ((i, .regressed k a, last) :: out)

/-- The verdicts of a merge about lane `i`. -/
def verdictsOf [DecidableEq ι] (i : ι) (out : List (ι × Verdict ε κ α × WithBot κ)) :
    List (Verdict ε κ α) :=
  (out.filter (·.1 = i)).map (·.2.1)

section Verdicts

variable [DecidableEq ι]

@[simp] theorem verdictsOf_nil (i : ι) :
    verdictsOf i ([] : List (ι × Verdict ε κ α × WithBot κ)) = [] := rfl

theorem verdictsOf_cons_self (i : ι) (v : Verdict ε κ α) (last : WithBot κ)
    (out : List (ι × Verdict ε κ α × WithBot κ)) :
    verdictsOf i ((i, v, last) :: out) = v :: verdictsOf i out := by
  simp [verdictsOf]

theorem verdictsOf_cons_of_ne {i j : ι} (h : j ≠ i) (v : Verdict ε κ α) (last : WithBot κ)
    (out : List (ι × Verdict ε κ α × WithBot κ)) :
    verdictsOf i ((j, v, last) :: out) = verdictsOf i out := by
  simp [verdictsOf, h]

end Verdicts

/-! ## The tripwire only looks at the element's own lane -/

variable [LinearOrder κ]

/-- With `m i` the greatest key lane `i` has handed over, no pending element is below `last` unless
it is below `m i` or behind a greater element of its own lane. -/
structure Inv (L : ι → List (Item ε κ α)) (last : WithBot κ) (m : ι → WithBot κ) : Prop where
  le : ∀ i, m i ≤ last
  own : ∀ i pre (k : κ) a post, L i = pre ++ .ok (k, a) :: post → (k : WithBot κ) < last →
    (k : WithBot κ) < m i ∨ ∃ (k' : κ) (a' : α), .ok (k', a') ∈ pre ∧ k < k'

theorem Inv.initial (L : ι → List (Item ε κ α)) : Inv L ⊥ fun _ => ⊥ where
  le _ := le_rfl
  own _ _ k _ _ _ h := absurd h (not_lt_bot (a := (k : WithBot κ)))

section Step

variable [DecidableEq ι] {L : ι → List (Item ε κ α)} {last : WithBot κ} {m : ι → WithBot κ}
  {i : ι} {k : κ} {a : α} {rest : List (Item ε κ α)}

theorem Inv.fail {e : ε} (h : Inv L last m) (hi : L i = .error e :: rest) :
    Inv (Function.update L i rest) last m where
  le := h.le
  own j pre k a post hj hk := by
    by_cases hji : j = i
    · subst hji
      rw [Function.update_self] at hj
      have := h.own j (.error e :: pre) k a post (by rw [hi, hj]; rfl) hk
      simpa using this
    · rw [Function.update_of_ne hji] at hj
      exact h.own j pre k a post hj hk

theorem Inv.emit (h : Inv L last m) (hl : Least L i k a rest) (hle : last ≤ k) :
    Inv (Function.update L i rest) k (Function.update m i k) where
  le j := by
    by_cases hji : j = i
    · subst hji; rw [Function.update_self]
    · rw [Function.update_of_ne hji]; exact (h.le j).trans hle
  own j pre k' a' post hj hk := by
    by_cases hji : j = i
    · subst hji; rw [Function.update_self]; exact Or.inl hk
    · rw [Function.update_of_ne hji] at hj ⊢
      right
      -- the head of lane `j` is at least `k`, so an element below `k` is not that head
      obtain ⟨k₀, a₀, r, hr, hk₀⟩ := hl.least j (by simp [hj])
      cases pre with
      | nil =>
        rw [hr] at hj
        simp only [List.nil_append, List.cons.injEq, Except.ok.injEq, Prod.mk.injEq] at hj
        rw [← hj.1.1] at hk
        exact absurd (WithBot.coe_lt_coe.1 hk) hk₀.not_gt
      | cons x pre =>
        rw [hr] at hj
        simp only [List.cons_append, List.cons.injEq] at hj
        exact ⟨k₀, a₀, by simp [← hj.1], (WithBot.coe_lt_coe.1 hk).trans_le hk₀⟩

theorem Inv.regress (h : Inv L last m) (hi : L i = .ok (k, a) :: rest)
    (hlt : (k : WithBot κ) < last) : Inv (Function.update L i rest) last m where
  le := h.le
  own j pre k' a' post hj hk := by
    by_cases hji : j = i
    · subst hji
      rw [Function.update_self] at hj
      have hkm : (k : WithBot κ) < m j := by
        simpa using h.own j [] k a rest hi hlt
      rcases h.own j (.ok (k, a) :: pre) k' a' post (by rw [hi, hj]; rfl) hk with h' | h'
      · exact Or.inl h'
      · obtain ⟨k'', a'', hmem, hlt'⟩ := h'
        rcases List.mem_cons.1 hmem with e | hmem
        · cases e
          exact Or.inl ((WithBot.coe_lt_coe.2 hlt').trans hkm)
        · exact Or.inr ⟨k'', a'', hmem, hlt'⟩
    · rw [Function.update_of_ne hji] at hj
      exact h.own j pre k' a' post hj hk

end Step

/-- What a merge reports of a lane is what the lane alone would be told. -/
theorem Run.lane_verdicts_of_inv [DecidableEq ι] {L : ι → List (Item ε κ α)} {last : WithBot κ}
    {out : List (ι × Verdict ε κ α × WithBot κ)} (h : Run L last out) {m : ι → WithBot κ}
    (hinv : Inv L last m) (i : ι) : verdictsOf i out = laneVerdicts (m i) (L i) := by
  induction h generalizing m with
  | done hL => rw [hL i]; rfl
  | @fail L last j e rest out hj _ ih =>
    have ih := ih (hinv.fail hj)
    by_cases hji : j = i
    · subst hji
      rw [verdictsOf_cons_self, ih, hj, Function.update_self]; rfl
    · rw [verdictsOf_cons_of_ne hji, ih, Function.update_of_ne (Ne.symm hji)]
  | @emit L last j k a rest out hl hle _ ih =>
    have ih := ih (hinv.emit hl hle)
    by_cases hji : j = i
    · subst hji
      rw [verdictsOf_cons_self, ih, hl.head, Function.update_self, Function.update_self,
        laneVerdicts, if_neg (((hinv.le j).trans hle).not_gt)]
    · rw [verdictsOf_cons_of_ne hji, ih, Function.update_of_ne (Ne.symm hji),
        Function.update_of_ne (Ne.symm hji)]
  | @regress L last j k a rest out hl hlt _ ih =>
    have ih := ih (hinv.regress hl.head hlt)
    by_cases hji : j = i
    · subst hji
      have hkm : (k : WithBot κ) < m j := by
        simpa using hinv.own j [] k a rest hl.head hlt
      rw [verdictsOf_cons_self, ih, hl.head, Function.update_self, laneVerdicts, if_pos hkm]
    · rw [verdictsOf_cons_of_ne hji, ih, Function.update_of_ne (Ne.symm hji)]

/-- What a merge reports of a lane is what the lane alone would be told. -/
theorem Run.lane_verdicts [DecidableEq ι] {L : ι → List (Item ε κ α)}
    {out : List (ι × Verdict ε κ α × WithBot κ)} (h : Run L ⊥ out) (i : ι) :
    verdictsOf i out = laneVerdicts ⊥ (L i) :=
  h.lane_verdicts_of_inv (.initial L) i

/-! ## Emitted keys never decrease -/

/-- The emitted elements of a merge, in order. -/
def emissions (out : List (ι × Verdict ε κ α × WithBot κ)) : List (κ × α) :=
  out.filterMap (·.2.1.emitted?)

theorem Run.emissions_sorted [DecidableEq ι] {L : ι → List (Item ε κ α)} {last : WithBot κ}
    {out : List (ι × Verdict ε κ α × WithBot κ)} (h : Run L last out) :
    (∀ x ∈ emissions out, last ≤ x.1) ∧ (emissions out).Pairwise fun x y => x.1 ≤ y.1 := by
  induction h with
  | done => simp [emissions]
  | fail _ _ ih => simpa [emissions, Verdict.emitted?] using ih
  | @emit L last i k a rest out hl hle hrun ih =>
    have e : emissions ((i, Verdict.emitted k a, last) :: out) = (k, a) :: emissions out := by
      simp [emissions, Verdict.emitted?]
    rw [e]
    refine ⟨fun x hx => ?_, List.pairwise_cons.2 ⟨fun x hx => ?_, ih.2⟩⟩
    · rcases List.mem_cons.1 hx with rfl | hx
      · exact hle
      · exact hle.trans (ih.1 x hx)
    · exact WithBot.coe_le_coe.1 (ih.1 x hx)
  | regress _ _ _ ih => simpa [emissions, Verdict.emitted?] using ih

/-! ## Nothing is lost -/

section Perm

variable [DecidableEq ι] {L : ι → List (Item ε κ α)} {last : WithBot κ}
  {out : List (ι × Verdict ε κ α × WithBot κ)} {lanes : List ι}

theorem flatMap_filter_perm {β : Type*} (f : β → ι) (xs : List β) (hn : lanes.Nodup) :
    (lanes.flatMap fun i => xs.filter (f · = i)).Perm (xs.filter (f · ∈ lanes)) := by
  induction lanes with
  | nil => simp
  | cons i lanes ih =>
    obtain ⟨hi, hn⟩ := List.nodup_cons.1 hn
    have h₁ : (xs.filter (f · ∈ i :: lanes)).filter (f · = i) = xs.filter (f · = i) := by
      rw [List.filter_filter]
      refine List.filter_congr fun x _ => ?_
      by_cases h : f x = i <;> simp [h]
    have h₂ : (xs.filter (f · ∈ i :: lanes)).filter (fun x => !decide (f x = i)) =
        xs.filter (f · ∈ lanes) := by
      rw [List.filter_filter]
      refine List.filter_congr fun x _ => ?_
      by_cases h : f x = i
      · simp [h, hi]
      · simp [h]
    have hsplit := List.filter_append_perm (fun x => decide (f x = i))
      (xs.filter (f · ∈ i :: lanes))
    rw [h₁, h₂] at hsplit
    rw [List.flatMap_cons]
    exact ((ih hn).append_left _).trans hsplit

/-- The emitted elements of a merge are those its lanes emit on their own. -/
theorem Run.emissions_perm (h : Run L ⊥ out) (hn : lanes.Nodup) (hall : ∀ i, i ∈ lanes) :
    (emissions out).Perm
      (lanes.flatMap fun i => (laneVerdicts ⊥ (L i)).filterMap Verdict.emitted?) := by
  have hlane (i : ι) : (out.filter (·.1 = i)).filterMap (·.2.1.emitted?) =
      (laneVerdicts ⊥ (L i)).filterMap Verdict.emitted? := by
    rw [← h.lane_verdicts i, verdictsOf, List.filterMap_map]
    rfl
  have hperm := (flatMap_filter_perm (·.1) out hn).filterMap (·.2.1.emitted?)
  rw [List.filter_eq_self.2 (by simp [hall]), List.filterMap_flatMap] at hperm
  simp only [hlane] at hperm
  exact hperm.symm

/-- The elements a lane emits are among those it holds. -/
theorem emitted_laneVerdicts_sublist (m : WithBot κ) (items : List (Item ε κ α)) :
    ((laneVerdicts m items).filterMap Verdict.emitted?).Sublist
      (items.filterMap Except.toOption) := by
  induction items generalizing m with
  | nil => exact .slnil
  | cons item items ih =>
    rcases item with e | ⟨k, a⟩
    · exact ih m
    · rw [laneVerdicts]
      split_ifs
      · exact (ih m).cons _
      · exact (ih k).cons_cons _

/-- Where no two elements share a key the emitted keys increase strictly. -/
theorem Run.emissions_strict (h : Run L ⊥ out) (hn : lanes.Nodup) (hall : ∀ i, i ∈ lanes)
    (hkeys : (lanes.flatMap fun i => (L i).filterMap Except.toOption).Pairwise
      fun x y => x.1 ≠ y.1) :
    (emissions out).Pairwise fun x y => x.1 < y.1 := by
  have hsub : (lanes.flatMap fun i => (laneVerdicts ⊥ (L i)).filterMap Verdict.emitted?).Sublist
      (lanes.flatMap fun i => (L i).filterMap Except.toOption) :=
    .flatMap_right _ fun i _ => emitted_laneVerdicts_sublist ⊥ (L i)
  have hne : (emissions out).Pairwise fun x y => x.1 ≠ y.1 :=
    ((h.emissions_perm hn hall).pairwise_iff Ne.symm).2 (hkeys.sublist hsub)
  exact (h.emissions_sorted.2.and hne).imp fun ⟨hle, hne⟩ => lt_of_le_of_ne hle hne

end Perm

/-! ## One lane on its own -/

/-- The verdict on the `n`-th item of a lane: an element regresses exactly when it is below an
earlier element of the lane. -/
theorem laneVerdicts_getElem? (m : WithBot κ) (items : List (Item ε κ α)) (n : ℕ)
    {v : Verdict ε κ α} (h : (laneVerdicts m items)[n]? = some v) :
    match items[n]? with
    | none => False
    | some (.error e) => v = .failed e
    | some (.ok (k, a)) =>
      (v = .regressed k a ∧ ((k : WithBot κ) < m ∨ ∃ k' a', .ok (k', a') ∈ items.take n ∧ k < k')) ∨
      (v = .emitted k a ∧ m ≤ k ∧ ∀ k' a', .ok (k', a') ∈ items.take n → k' ≤ k) := by
  induction items generalizing m n with
  | nil => simp [laneVerdicts] at h
  | cons item items ih =>
    rcases item with e | ⟨k, a⟩
    · cases n with
      | zero => simpa [laneVerdicts, eq_comm] using h
      | succ n =>
        have := ih m n (by simpa [laneVerdicts] using h)
        simpa using this
    · by_cases hk : (k : WithBot κ) < m
      · cases n with
        | zero => exact Or.inl ⟨by simpa [laneVerdicts, hk, eq_comm] using h, Or.inl hk⟩
        | succ n =>
          have := ih m n (by simpa [laneVerdicts, hk] using h)
          simp only [List.getElem?_cons_succ, List.take_succ_cons, List.mem_cons]
          rcases hx : items[n]? with _ | _ | ⟨k₁, a₁⟩ <;> rw [hx] at this
          · exact this
          · exact this
          · rcases this with ⟨hv, h'⟩ | ⟨hv, hm, h'⟩
            · refine Or.inl ⟨hv, h'.imp_right ?_⟩
              rintro ⟨k', a', hmem, hlt⟩
              exact ⟨k', a', Or.inr hmem, hlt⟩
            · refine Or.inr ⟨hv, hm, fun k' a' hmem => ?_⟩
              rcases hmem with e | hmem
              · cases e
                exact WithBot.coe_le_coe.1 (hk.le.trans hm)
              · exact h' k' a' hmem
      · cases n with
        | zero =>
          exact Or.inr ⟨by simpa [laneVerdicts, hk, eq_comm] using h, not_lt.1 hk, by simp⟩
        | succ n =>
          have := ih k n (by simpa [laneVerdicts, hk] using h)
          simp only [List.getElem?_cons_succ, List.take_succ_cons, List.mem_cons]
          rcases hx : items[n]? with _ | _ | ⟨k₁, a₁⟩ <;> rw [hx] at this
          · exact this
          · exact this
          · rcases this with ⟨hv, h'⟩ | ⟨hv, hm, h'⟩
            · refine Or.inl ⟨hv, Or.inr ?_⟩
              rcases h' with hlt | ⟨k', a', hmem, hlt⟩
              · exact ⟨k, a, Or.inl rfl, WithBot.coe_lt_coe.1 hlt⟩
              · exact ⟨k', a', Or.inr hmem, hlt⟩
            · refine Or.inr ⟨hv, (not_lt.1 hk).trans hm, fun k' a' hmem => ?_⟩
              rcases hmem with e | hmem
              · cases e
                exact WithBot.coe_le_coe.1 hm
              · exact h' k' a' hmem

theorem length_laneVerdicts (m : WithBot κ) (items : List (Item ε κ α)) :
    (laneVerdicts m items).length = items.length := by
  induction items generalizing m with
  | nil => rfl
  | cons item items ih =>
    rcases item with e | ⟨k, a⟩
    · simp [laneVerdicts, ih]
    · rw [laneVerdicts]
      split_ifs <;> simp [ih]

/-- A lane of elements in key order is emitted whole. -/
theorem laneVerdicts_of_sorted (m : WithBot κ) (xs : List (κ × α)) (hm : ∀ x ∈ xs, m ≤ x.1)
    (hs : xs.Pairwise fun x y => x.1 ≤ y.1) :
    laneVerdicts m (xs.map (Except.ok (ε := ε))) = xs.map fun x => .emitted x.1 x.2 := by
  induction xs generalizing m with
  | nil => rfl
  | cons x xs ih =>
    rw [List.pairwise_cons] at hs
    rw [List.map_cons, laneVerdicts, if_neg (hm x List.mem_cons_self).not_gt, List.map_cons,
      ih _ (fun y hy => WithBot.coe_le_coe.2 (hs.1 y hy)) hs.2]

end KWayMerge
