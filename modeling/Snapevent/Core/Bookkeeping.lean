import Snapevent.Core.ExactBook

/-!
# The bookkeeping of a book

The running totals are maintained by corrections on several branches (a new level, an update, a
removal, an overshoot, a duplicate price in a snapshot).  They equal the sums of the maps after any
calls, every call does to the levels what it says, and the top of the book is read off them.
-/

namespace Snapevent

/-! ## Totals -/

/-- The sum of a side's quantities. -/
def sumOf (m : Levels) : ℤ := MapTotal.total Int64.toInt m

theorem sumOf_insert (m : Levels) (price : UInt32) (q : Int64) :
    sumOf (m.insert price q) = sumOf m - (m.getD price 0).toInt + q.toInt := by
  have hold : (m[price]?.map Int64.toInt).getD 0 = (m.getD price 0).toInt := by
    rw [Std.ExtTreeMap.getD_eq_getD_getElem?]
    cases m[price]? <;> rfl
  rw [sumOf, sumOf, MapTotal.total_insert, MapTotal.total_eq Int64.toInt m price, hold]
  omega

theorem sumOf_erase (m : Levels) (price : UInt32) :
    sumOf (m.erase price) = sumOf m - (m.getD price 0).toInt := by
  have hins := sumOf_insert m price 0
  have htotal : sumOf (m.insert price 0) = sumOf (m.erase price) := by
    rw [sumOf, sumOf, MapTotal.total_insert]
    exact zero_add _
  have hzero : (0 : Int64).toInt = 0 := rfl
  omega

/-- A total agrees with its map modulo `2 ^ 64`, whatever the quantities are. -/
def InStep (m : Levels) (total : Int64) : Prop := total = Int64.ofInt (sumOf m)

theorem InStep.changeLevel {m : Levels} {total : Int64} (h : InStep m total) (price : UInt32)
    (delta : Int64) :
    InStep (changeLevel m total price delta).1 (changeLevel m total price delta).2.1 := by
  unfold InStep at h ⊢
  rw [changeLevel_map]
  unfold Snapevent.changeLevel
  dsimp only
  split_ifs with hle
  · -- the level goes: what it still held comes off the total
    rw [sumOf_erase, Int64.ofInt_sub, Int64.ofInt_toInt, h]
    grind
  · rw [sumOf_insert, Int64.ofInt_add, Int64.ofInt_sub, Int64.ofInt_toInt, Int64.ofInt_toInt, h]
    grind

theorem InStep.loadLevels {m : Levels} {total : Int64} (h : InStep m total)
    (levels : List PriceLevel) :
    InStep (loadLevels m total levels).1 (loadLevels m total levels).2 := by
  induction levels generalizing m total with
  | nil => exact h
  | cons l levels ih =>
    apply ih
    unfold InStep at h ⊢
    rw [sumOf_insert, Int64.ofInt_add, Int64.ofInt_sub, Int64.ofInt_toInt, Int64.ofInt_toInt,
      Std.ExtTreeMap.getD_eq_getD_getElem?, h]
    cases m[l.price.micro]? with
    | none =>
      simp only [Option.getD_none]
      grind
    | some old =>
      simp only [Option.getD_some]
      grind

theorem inStep_empty : InStep ∅ 0 := by
  rw [InStep, sumOf, MapTotal.total_empty]
  rfl

theorem inStep_call {b : Book} (h : ∀ side, InStep (b.levels side) (b.total side)) (c : BookCall)
    (side : Side) : InStep ((b.call c).levels side) ((b.call c).total side) := by
  obtain ⟨yes, no, hb, -⟩ | ⟨changed, price, delta, hb, -⟩ := c.cases
  · rw [hb, Book.levels_applySnapshotLevels, Book.total_applySnapshotLevels]
    exact inStep_empty.loadLevels _
  · rw [hb, Book.levels_applyChange, Book.total_applyChange]
    split_ifs with hs
    · exact (h changed).changeLevel price delta
    · exact h side

theorem inStep_after (calls : List BookCall) (side : Side) :
    InStep ((Book.after calls).levels side) ((Book.after calls).total side) := by
  induction calls using List.reverseRecOn generalizing side with
  | nil => cases side <;> exact inStep_empty
  | append_singleton calls c ih =>
    rw [Book.after_concat]
    exact inStep_call ih c side

/-! ## What a call does -/

/-- A change at one level: what it leaves there, and that it leaves everything else alone. -/
structure ChangeExact (b b' : Book) (side : Side) (price : UInt32) (delta : Int64) : Prop where
  present : price ∈ b'.levels side ↔ 0 < ((b.levels side).getD price 0).toInt + delta.toInt
  holds : ∀ q, (b'.levels side)[price]? = some q →
    q.toInt = ((b.levels side).getD price 0).toInt + delta.toInt
  others : ∀ (s : Side) (p : UInt32), s ≠ side ∨ p ≠ price →
    (b'.levels s)[p]? = (b.levels s)[p]?
  underflows : b'.underflows =
    if ((b.levels side).getD price 0).toInt + delta.toInt < 0 then b.underflows + 1
    else b.underflows

/-- The last copy of a price in a level list. -/
def lastCopy (levels : List PriceLevel) (price : UInt32) : Option ℕ :=
  (levels.filter (·.price.micro = price)).getLast?.map (·.quantity.centi.toNat)

/-- A snapshot: it leaves exactly its own levels, and the underflows as they were. -/
structure SnapshotExact (b b' : Book) (yes no : List PriceLevel) : Prop where
  yes : ∀ p : UInt32, b'.yes[p]?.map Int64.toInt = (lastCopy yes p).map Nat.cast
  no : ∀ p : UInt32, b'.no[p]?.map Int64.toInt = (lastCopy no p).map Nat.cast
  underflows : b'.underflows = b.underflows

/-- What a call must do. -/
def CallExact (b b' : Book) : BookCall → Prop
  | .applySnapshot snap => SnapshotExact b b' snap.yes snap.no
  | .applySnapshotLevels yes no => SnapshotExact b b' yes no
  | .applyDelta d => ChangeExact b b' d.side d.price.micro d.delta.centi
  | .applyChange side priceMicro deltaCenti => ChangeExact b b' side priceMicro deltaCenti

theorem getElem?_load (levels : List PriceLevel) (p : UInt32) :
    (ExactBook.load levels)[p]? = lastCopy levels p := by
  induction levels using List.reverseRecOn with
  | nil => rw [ExactBook.load, List.foldl_nil, Std.ExtTreeMap.getElem?_empty]; rfl
  | append_singleton levels l ih =>
    rw [ExactBook.load] at ih ⊢
    rw [List.foldl_concat, Std.ExtTreeMap.getElem?_insert, lastCopy, List.filter_append]
    by_cases hp : l.price.micro = p
    · subst hp
      simp
    · rw [if_neg fun heq => hp (Std.compare_eq_iff_eq.1 heq), ih, lastCopy]
      simp [hp]

section Calls

variable {b : Book} {e : ExactBook} (h : Represents b e)

include h

theorem snapshotExact_applySnapshotLevels (yes no : List PriceLevel)
    (hfit : (e.snapshot yes no).QuantitiesFit) :
    SnapshotExact b (b.applySnapshotLevels yes no) yes no := by
  have hside (side : Side) (p : UInt32) :
      ((b.applySnapshotLevels yes no).levels side)[p]?.map Int64.toInt =
        ((e.snapshot yes no).levels side)[p]?.map Nat.cast := by
    rw [(h.snapshot yes no).levels]
    cases hq : ((e.snapshot yes no).levels side)[p]? with
    | none => rfl
    | some q => exact congrArg some (Int64.toInt_ofNat_of_lt (hfit side p q hq))
  constructor
  · intro p
    rw [← getElem?_load]
    exact hside .yes p
  · intro p
    rw [← getElem?_load]
    exact hside .no p
  · rfl

theorem changeExact_applyChange (hfit : e.QuantitiesFit) (side : Side) (price : UInt32)
    (delta : Int64) (hfit' : (e.change side price delta.toInt).QuantitiesFit) :
    ChangeExact b (b.applyChange side price delta) side price delta := by
  have hsum : ((b.levels side).getD price 0 + delta).toInt =
      ((b.levels side).getD price 0).toInt + delta.toInt := by
    rw [h.toInt_changed hfit side price delta hfit', h.toInt_getD hfit]
    rfl
  have hat : ((b.applyChange side price delta).levels side)[price]? =
      if (b.levels side).getD price 0 + delta ≤ 0 then none
      else some ((b.levels side).getD price 0 + delta) := by
    rw [Book.levels_applyChange, if_pos rfl, getElem?_changeLevel, if_pos rfl]
  have hle : (b.levels side).getD price 0 + delta ≤ 0 ↔
      ((b.levels side).getD price 0).toInt + delta.toInt ≤ 0 := by
    rw [Int64.le_iff_toInt_le, hsum]
    rfl
  have hlt : (b.levels side).getD price 0 + delta < 0 ↔
      ((b.levels side).getD price 0).toInt + delta.toInt < 0 := by
    rw [Int64.lt_iff_toInt_lt, hsum]
    rfl
  constructor
  · rw [Std.ExtTreeMap.mem_iff_isSome_getElem?, hat]
    split_ifs with hn
    · have := hle.1 hn
      simp only [Option.isSome_none, Bool.false_eq_true, false_iff]
      omega
    · have := mt hle.2 hn
      simp only [Option.isSome_some, true_iff]
      omega
  · intro q hq
    rw [hat] at hq
    split_ifs at hq with hn
    rw [← Option.some.inj hq, hsum]
  · intro s p hne
    rw [Book.levels_applyChange]
    by_cases hs : s = side
    · subst hs
      rw [if_pos rfl, getElem?_changeLevel, if_neg (hne.resolve_left fun hn => hn rfl)]
    · rw [if_neg hs]
  · rw [Book.underflows_applyChange]
    exact if_congr hlt rfl rfl

theorem callExact_call (hfit : e.QuantitiesFit) (c : BookCall)
    (hfit' : (e.call c).QuantitiesFit) : CallExact b (b.call c) c := by
  cases c with
  | applySnapshot snap => exact snapshotExact_applySnapshotLevels h snap.yes snap.no hfit'
  | applySnapshotLevels yes no => exact snapshotExact_applySnapshotLevels h yes no hfit'
  | applyDelta d => exact changeExact_applyChange h hfit d.side d.price.micro d.delta.centi hfit'
  | applyChange side price delta => exact changeExact_applyChange h hfit side price delta hfit'

end Calls

/-! ## The top of the book -/

/-- The level of the largest price, if there is any level. -/
def IsBest (m : Levels) : Option (UInt32 × Int64) → Prop
  | none => ∀ p : UInt32, p ∉ m
  | some best => m[best.1]? = some best.2 ∧ ∀ p : UInt32, p ∈ m → p ≤ best.1

theorem isBest_getLast? (m : Levels) : IsBest m m.toList.getLast? := by
  cases hlast : m.toList.getLast? with
  | none =>
    intro p hp
    have hnil := List.getLast?_eq_none_iff.1 hlast
    rw [Std.ExtTreeMap.toList_eq_nil_iff] at hnil
    rw [hnil] at hp
    exact Std.ExtTreeMap.not_mem_empty hp
  | some best =>
    obtain ⟨init, hinit⟩ := List.getLast?_eq_some_iff.1 hlast
    have hmem : best ∈ m.toList := by
      rw [hinit]
      exact List.mem_concat_self
    refine ⟨Std.ExtTreeMap.mem_toList_iff_getElem?_eq_some.1 hmem, fun p hp => ?_⟩
    -- the keys ascend, so the last one is the largest
    have hord : m.toList.Pairwise fun a b => compare a.1 b.1 = .lt :=
      Std.ExtTreeMap.ordered_keys_toList
    have hin : (p, m[p]) ∈ m.toList :=
      Std.ExtTreeMap.mem_toList_iff_getElem?_eq_some.2 (Std.ExtTreeMap.getElem?_eq_some_getElem hp)
    rw [hinit] at hord hin
    rcases List.mem_append.1 hin with hin | hin
    · have hlt := (List.pairwise_append.1 hord).2.2 _ hin best List.mem_cons_self
      exact UInt32.le_of_lt (Std.compare_eq_lt.1 hlt)
    · rw [← List.mem_singleton.1 hin]
      exact UInt32.le_refl _

/-- What the top of a book reports of its best levels. -/
structure TopExact (b : Book) : Prop where
  bid : ∃ best, IsBest b.yes best ∧ b.top.yesBidMicro = best.map (·.1) ∧
    b.top.yesBidSzCenti = (best.map (·.2)).getD 0
  ask : ∃ best, IsBest b.no best ∧
    b.top.yesAskMicro.map (·.toNat) = best.map (1000000 - ·.1.toNat) ∧
    b.top.yesAskSzCenti = (best.map (·.2)).getD 0

theorem toNat_complement (p : UInt32) :
    (if p ≤ ONE_DOLLAR_MICRO then ONE_DOLLAR_MICRO - p else 0).toNat = 1000000 - p.toNat := by
  have hone : ONE_DOLLAR_MICRO.toNat = 1000000 := rfl
  split_ifs with hle
  · rw [UInt32.toNat_sub_of_le _ _ hle, hone]
  · rw [UInt32.le_iff_toNat_le, hone] at hle
    rw [Nat.sub_eq_zero_of_le (by omega)]
    rfl

theorem topExact (b : Book) : TopExact b := by
  refine ⟨⟨_, isBest_getLast? b.yes, rfl, rfl⟩, ⟨_, isBest_getLast? b.no, ?_, rfl⟩⟩
  rw [Book.top]
  dsimp only
  rw [Option.map_map]
  congr 1
  funext best
  exact toNat_complement best.1

/-! ## The bookkeeping is exact -/

/-- The totals of a book are the sums of its maps, and its top is read off them. -/
structure Consistent (b : Book) : Prop where
  yesTotal : b.yesTotal.toInt = sumOf b.yes
  noTotal : b.noTotal.toInt = sumOf b.no
  top : TopExact b

theorem sumOf_nonneg {b : Book} {e : ExactBook} (h : Represents b e) (hfit : e.SumsFit)
    (side : Side) : 0 ≤ sumOf (b.levels side) ∧ sumOf (b.levels side) < 2 ^ 63 := by
  have hsum : sumOf (b.levels side) = e.total side := h.total_eq hfit.quantitiesFit side
  rw [hsum]
  exact ⟨MapTotal.total_nonneg fun _ q _ => Int.natCast_nonneg q, hfit side⟩

theorem consistent_of_represents {b : Book} {e : ExactBook} (h : Represents b e)
    (hfit : e.SumsFit) (hstep : ∀ side, InStep (b.levels side) (b.total side)) :
    Consistent b := by
  have htotal (side : Side) : (b.total side).toInt = sumOf (b.levels side) := by
    have hrange := sumOf_nonneg h hfit side
    rw [hstep side]
    exact Int64.toInt_ofInt_of_le (by omega) hrange.2
  exact ⟨htotal .yes, htotal .no, topExact b⟩

theorem Book.underflows_call_le (b : Book) (c : BookCall) :
    (b.call c).underflows ≤ b.underflows + 1 := by
  rcases c.cases with ⟨yes, no, hcall, -⟩ | ⟨side, price, delta, hcall, -⟩
  · rw [hcall]
    exact Nat.le_succ _
  · rw [hcall]
    cases side with
    | yes | no =>
      unfold Book.applyChange
      dsimp only
      split_ifs
      · exact le_rfl
      · exact Nat.le_succ _

theorem Book.underflows_after_le (calls : List BookCall) :
    (Book.after calls).underflows ≤ calls.length := by
  induction calls using List.reverseRecOn with
  | nil => exact le_rfl
  | append_singleton calls c ih =>
    rw [Book.after_concat, List.length_append, List.length_singleton]
    exact (Book.underflows_call_le _ c).trans (Nat.succ_le_succ ih)

/-- For every sequence of calls whose exact sums stay within a signed word, the totals and the top
are right after every call, and every call does what it says.  The count of underflows is at most
that of the calls, so the 64-bit counter of the source holds it through fewer than `2 ^ 64`. -/
theorem bookkeeping_exact (calls : List BookCall)
    (hfit : ∀ pre, pre <+: calls → (ExactBook.after pre).SumsFit) :
    (∀ pre, pre <+: calls → Consistent (Book.after pre)) ∧
      (∀ pre c, pre ++ [c] <+: calls →
        CallExact (Book.after pre) (Book.after (pre ++ [c])) c) ∧
      (Book.after calls).underflows ≤ calls.length := by
  have hrep {pre : List BookCall} (hpre : pre <+: calls) :
      Represents (Book.after pre) (ExactBook.after pre) :=
    Represents.after pre fun pre' h => (hfit pre' (h.trans hpre)).quantitiesFit
  refine ⟨?_, ?_, Book.underflows_after_le calls⟩
  · intro pre hpre
    exact consistent_of_represents (hrep hpre) (hfit pre hpre) (inStep_after pre)
  · intro pre c hpre
    have hbefore := (List.prefix_append pre [c]).trans hpre
    have hnext := (hfit _ hpre).quantitiesFit
    rw [ExactBook.after_concat] at hnext
    rw [Book.after_concat]
    exact callExact_call (hrep hbefore) (hfit pre hbefore).quantitiesFit c hnext

/-- A snapshot that repeats a price, and a change that takes off more than rests there. -/
def overshoot : List BookCall :=
  [.applySnapshotLevels [⟨⟨100⟩, ⟨5⟩⟩, ⟨⟨100⟩, ⟨7⟩⟩] [⟨⟨40⟩, ⟨1⟩⟩], .applyChange .yes 100 (-9)]

theorem sumsFit_overshoot (pre : List BookCall) (hpre : pre <+: overshoot) :
    (ExactBook.after pre).SumsFit := by
  have hall : ∀ n : Fin 3, (ExactBook.after (overshoot.take n)).total .yes < 2 ^ 63 ∧
      (ExactBook.after (overshoot.take n)).total .no < 2 ^ 63 := by decide
  have hlen : pre.length < 3 := Nat.lt_succ_of_le hpre.length_le
  have hfit := hall ⟨pre.length, hlen⟩
  rw [List.prefix_iff_eq_take.1 hpre]
  intro side
  cases side
  · exact hfit.1
  · exact hfit.2

theorem bookkeeping_exact_overshoot :
    Consistent (Book.after overshoot) ∧ (Book.after overshoot).underflows = 1 :=
  ⟨(bookkeeping_exact overshoot sumsFit_overshoot).1 _ (List.prefix_refl _), by decide⟩

end Snapevent
