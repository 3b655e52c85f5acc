import Mathlib.Data.List.Induction
import Mathlib.Logic.Function.Basic
import Snapevent.Core.Book
import Snapevent.Lib.MapTotal

/-!
# The book in exact arithmetic

What a book is for, without machine words: on each side the resting quantity of every price as a
natural number, and how many changes went below zero.  The machine book represents it as long as
the quantities fit a signed word; the machine totals agree with the machine maps in any case.
-/

namespace Snapevent

/-! ## Words that do not wrap -/

theorem toInt_add_of_fits {x y : Int64} (hle : -2 ^ 63 ≤ x.toInt + y.toInt)
    (hlt : x.toInt + y.toInt < 2 ^ 63) : (x + y).toInt = x.toInt + y.toInt := by
  have hsum : x + y = Int64.ofInt (x.toInt + y.toInt) := by
    rw [Int64.ofInt_add, Int64.ofInt_toInt, Int64.ofInt_toInt]
  rw [hsum, Int64.toInt_ofInt_of_le hle hlt]

theorem toInt_sub_of_fits {x y : Int64} (hle : -2 ^ 63 ≤ x.toInt - y.toInt)
    (hlt : x.toInt - y.toInt < 2 ^ 63) : (x - y).toInt = x.toInt - y.toInt := by
  have hsub : x - y = Int64.ofInt (x.toInt - y.toInt) := by
    rw [Int64.ofInt_sub, Int64.ofInt_toInt, Int64.ofInt_toInt]
  rw [hsub, Int64.toInt_ofInt_of_le hle hlt]

/-! ## The two books -/

/-- One call that changes a book. -/
inductive BookCall
  | applySnapshot (snap : OrderbookSnapshot)
  | applySnapshotLevels (yes no : List PriceLevel)
  | applyDelta (d : OrderbookDelta)
  | applyChange (side : Side) (priceMicro : UInt32) (deltaCenti : Int64)

namespace Book

/-- The resting levels of one side. -/
def levels (b : Book) : Side → Levels
  | .yes => b.yes
  | .no => b.no

/-- The running total of one side. -/
def total (b : Book) : Side → Int64
  | .yes => b.yesTotal
  | .no => b.noTotal

/-- Make one call. -/
def call (b : Book) : BookCall → Book
  | .applySnapshot snap => b.applySnapshot snap
  | .applySnapshotLevels yes no => b.applySnapshotLevels yes no
  | .applyDelta d => b.applyDelta d
  | .applyChange side priceMicro deltaCenti => b.applyChange side priceMicro deltaCenti

/-- A fresh book after the calls. -/
def after (calls : List BookCall) : Book := calls.foldl call default

end Book

/-! ## The abstract book -/

/-- One side: price in micro-dollars to resting quantity in centi-contracts. -/
abbrev ExactLevels := Std.ExtTreeMap UInt32 ℕ

/-- The two sides, and the number of changes that went below zero. -/
structure ExactBook where
  levels : Side → ExactLevels
  underflows : ℕ

namespace ExactBook

/-- The book before any call. -/
def default : ExactBook := { levels := fun _ => ∅, underflows := 0 }

/-- The side a level list leaves: of each price its last copy. -/
def load (levels : List PriceLevel) : ExactLevels :=
  levels.foldl (fun m l => m.insert l.price.micro l.quantity.centi.toNat) ∅

/-- Replace both sides. -/
def snapshot (e : ExactBook) (yes no : List PriceLevel) : ExactBook :=
  { e with levels := fun | .yes => load yes | .no => load no }

/-- What a level would rest after a change. -/
def changed (e : ExactBook) (side : Side) (price : UInt32) (delta : ℤ) : ℤ :=
  ((e.levels side).getD price 0 : ℤ) + delta

/-- Change one level: it stays only with something left to rest. -/
def change (e : ExactBook) (side : Side) (price : UInt32) (delta : ℤ) : ExactBook :=
  { levels := Function.update e.levels side <|
      if 0 < e.changed side price delta then
        (e.levels side).insert price (e.changed side price delta).toNat
      else (e.levels side).erase price
    underflows := if e.changed side price delta < 0 then e.underflows + 1 else e.underflows }

/-- Make one call. -/
def call (e : ExactBook) : BookCall → ExactBook
  | .applySnapshot snap => e.snapshot snap.yes snap.no
  | .applySnapshotLevels yes no => e.snapshot yes no
  | .applyDelta d => e.change d.side d.price.micro d.delta.centi.toInt
  | .applyChange side priceMicro deltaCenti => e.change side priceMicro deltaCenti.toInt

/-- The book after the calls. -/
def after (calls : List BookCall) : ExactBook := calls.foldl call default

/-- The sum of the quantities of one side. -/
def total (e : ExactBook) (side : Side) : ℤ := MapTotal.total Nat.cast (e.levels side)

/-- Every quantity fits a signed 64-bit word. -/
def QuantitiesFit (e : ExactBook) : Prop :=
  ∀ (side : Side) (p : UInt32) (q : ℕ), (e.levels side)[p]? = some q → q < 2 ^ 63

/-- The sum of either side fits a signed 64-bit word. -/
def SumsFit (e : ExactBook) : Prop := ∀ side, e.total side < 2 ^ 63

theorem SumsFit.quantitiesFit {e : ExactBook} (h : e.SumsFit) : e.QuantitiesFit := by
  intro side p q hq
  have hnonneg : ∀ (p : UInt32) q, (e.levels side)[p]? = some q → (0 : ℤ) ≤ (q : ℤ) :=
    fun _ q _ => Int.natCast_nonneg q
  have hle := MapTotal.le_total hnonneg hq
  have hsum := h side
  rw [total] at hsum
  omega

theorem after_concat (calls : List BookCall) (c : BookCall) :
    after (calls ++ [c]) = (after calls).call c :=
  List.foldl_concat ..

end ExactBook

theorem Book.after_concat (calls : List BookCall) (c : BookCall) :
    Book.after (calls ++ [c]) = (Book.after calls).call c :=
  List.foldl_concat ..

/-- Every call replaces both sides or changes one level. -/
theorem BookCall.cases (c : BookCall) :
    (∃ yes no, (∀ b : Book, b.call c = b.applySnapshotLevels yes no) ∧
      ∀ e : ExactBook, e.call c = e.snapshot yes no) ∨
    ∃ side price delta, (∀ b : Book, b.call c = b.applyChange side price delta) ∧
      ∀ e : ExactBook, e.call c = e.change side price delta.toInt := by
  cases c with
  | applySnapshot snap => exact .inl ⟨snap.yes, snap.no, fun _ => rfl, fun _ => rfl⟩
  | applySnapshotLevels yes no => exact .inl ⟨yes, no, fun _ => rfl, fun _ => rfl⟩
  | applyDelta d => exact .inr ⟨d.side, d.price.micro, d.delta.centi, fun _ => rfl, fun _ => rfl⟩
  | applyChange side price delta => exact .inr ⟨side, price, delta, fun _ => rfl, fun _ => rfl⟩

/-! ## What the machine book does, side by side -/

namespace Book

theorem levels_applySnapshotLevels (b : Book) (yes no : List PriceLevel) (side : Side) :
    (b.applySnapshotLevels yes no).levels side =
      (loadLevels ∅ 0 (match side with | .yes => yes | .no => no)).1 := by
  cases side <;> rfl

theorem total_applySnapshotLevels (b : Book) (yes no : List PriceLevel) (side : Side) :
    (b.applySnapshotLevels yes no).total side =
      (loadLevels ∅ 0 (match side with | .yes => yes | .no => no)).2 := by
  cases side <;> rfl

variable (b : Book) (side : Side) (price : UInt32) (delta : Int64)

theorem levels_applyChange (s : Side) :
    (b.applyChange side price delta).levels s =
      if s = side then (changeLevel (b.levels side) (b.total side) price delta).1
      else b.levels s := by
  cases side <;> cases s <;> rfl

theorem total_applyChange (s : Side) :
    (b.applyChange side price delta).total s =
      if s = side then (changeLevel (b.levels side) (b.total side) price delta).2.1
      else b.total s := by
  cases side <;> cases s <;> rfl

theorem underflows_applyChange :
    (b.applyChange side price delta).underflows =
      if (b.levels side).getD price 0 + delta < 0 then b.underflows + 1 else b.underflows := by
  have hflag (m : Levels) (t : Int64) :
      (changeLevel m t price delta).2.2 = decide (m.getD price 0 + delta < 0) := by
    unfold changeLevel
    dsimp only
    split_ifs with hle
    · rfl
    · exact (decide_eq_false fun hlt => hle (Int64.le_of_lt hlt)).symm
  have hif (m : Levels) (t : Int64) (n : ℕ) :
      (if (changeLevel m t price delta).2.2 = true then n + 1 else n) =
        if m.getD price 0 + delta < 0 then n + 1 else n := by
    rw [hflag]
    simp only [decide_eq_true_eq]
  cases side
  · exact hif b.yes b.yesTotal b.underflows
  · exact hif b.no b.noTotal b.underflows

end Book

/-! ## The machine book represents the exact one -/

/-- The machine levels are the exact ones, each a signed word; the underflows agree. -/
structure Represents (b : Book) (e : ExactBook) : Prop where
  levels : ∀ (side : Side) (p : UInt32),
    (b.levels side)[p]? = (e.levels side)[p]?.map Int64.ofNat
  underflows : b.underflows = e.underflows

namespace Represents

variable {b : Book} {e : ExactBook}

theorem default : Represents .default .default := by
  refine ⟨fun side p => ?_, rfl⟩
  cases side <;> simp [Book.default, Book.levels, ExactBook.default]

/-- A quantity read back, an absent one as zero. -/
theorem toInt_getD (h : Represents b e) (hfit : e.QuantitiesFit) (side : Side) (p : UInt32) :
    ((b.levels side).getD p 0).toInt = ((e.levels side).getD p 0 : ℕ) := by
  rw [Std.ExtTreeMap.getD_eq_getD_getElem?, Std.ExtTreeMap.getD_eq_getD_getElem?, h.levels]
  cases hq : (e.levels side)[p]? with
  | none => rfl
  | some q => exact Int64.toInt_ofNat_of_lt (hfit side p q hq)

theorem total_eq (h : Represents b e) (hfit : e.QuantitiesFit) (side : Side) :
    MapTotal.total Int64.toInt (b.levels side) = e.total side := by
  apply MapTotal.total_congr
  intro p
  rw [h.levels]
  cases hq : (e.levels side)[p]? with
  | none => rfl
  | some q => exact congrArg some (Int64.toInt_ofNat_of_lt (hfit side p q hq))

theorem load (levels : List PriceLevel) (p : UInt32) :
    (loadLevels ∅ 0 levels).1[p]? = (ExactBook.load levels)[p]?.map Int64.ofNat := by
  have hgen (m : Levels) (m' : ExactLevels)
      (hm : ∀ p : UInt32, m[p]? = m'[p]?.map Int64.ofNat) (p : UInt32) :
      (levels.foldl (fun m l => m.insert l.price.micro l.quantity.centi.toInt64) m)[p]? =
        (levels.foldl (fun m l => m.insert l.price.micro l.quantity.centi.toNat) m')[p]?.map
          Int64.ofNat := by
    induction levels generalizing m m' with
    | nil => exact hm p
    | cons l levels ih =>
      rw [List.foldl_cons, List.foldl_cons]
      apply ih
      intro p
      have hcast : Int64.ofNat l.quantity.centi.toNat = l.quantity.centi.toInt64 := by
        rw [← UInt64.toInt64_ofNat', UInt64.ofNat_toNat]
      rw [Std.ExtTreeMap.getElem?_insert, Std.ExtTreeMap.getElem?_insert]
      split_ifs
      · rw [Option.map_some, hcast]
      · exact hm p
  rw [loadLevels_fst]
  apply hgen
  intro p
  rw [Std.ExtTreeMap.getElem?_empty, Std.ExtTreeMap.getElem?_empty]
  rfl

theorem snapshot (h : Represents b e) (yes no : List PriceLevel) :
    Represents (b.applySnapshotLevels yes no) (e.snapshot yes no) := by
  refine ⟨fun side p => ?_, h.underflows⟩
  rw [Book.levels_applySnapshotLevels]
  cases side
  · exact load yes p
  · exact load no p

/-- The machine sum at a changed level is the exact one, when the level fits afterwards. -/
theorem toInt_changed (h : Represents b e) (hfit : e.QuantitiesFit) (side : Side) (price : UInt32)
    (delta : Int64) (hfit' : (e.change side price delta.toInt).QuantitiesFit) :
    ((b.levels side).getD price 0 + delta).toInt = e.changed side price delta.toInt := by
  have hlt : e.changed side price delta.toInt < 2 ^ 63 := by
    by_cases hpos : 0 < e.changed side price delta.toInt
    · have hat : ((e.change side price delta.toInt).levels side)[price]? =
          some (e.changed side price delta.toInt).toNat := by
        rw [ExactBook.change]
        dsimp only
        rw [Function.update_self, if_pos hpos, Std.ExtTreeMap.getElem?_insert_self]
      have := hfit' side price _ hat
      omega
    · omega
  have hge : -2 ^ 63 ≤ e.changed side price delta.toInt := by
    have := delta.le_toInt
    rw [ExactBook.changed]
    omega
  have hsum : (b.levels side).getD price 0 + delta =
      Int64.ofInt (e.changed side price delta.toInt) := by
    rw [ExactBook.changed, ← h.toInt_getD hfit, Int64.ofInt_add, Int64.ofInt_toInt,
      Int64.ofInt_toInt]
  rw [hsum, Int64.toInt_ofInt_of_le hge hlt]

theorem change (h : Represents b e) (hfit : e.QuantitiesFit) (side : Side) (price : UInt32)
    (delta : Int64) (hfit' : (e.change side price delta.toInt).QuantitiesFit) :
    Represents (b.applyChange side price delta) (e.change side price delta.toInt) := by
  have hnew := h.toInt_changed hfit side price delta hfit'
  have hle : (b.levels side).getD price 0 + delta ≤ 0 ↔ ¬ 0 < e.changed side price delta.toInt := by
    rw [Int64.le_iff_toInt_le, hnew]
    exact Int.not_lt.symm
  have hlt : (b.levels side).getD price 0 + delta < 0 ↔ e.changed side price delta.toInt < 0 := by
    rw [Int64.lt_iff_toInt_lt, hnew]
    rfl
  constructor
  · intro s p
    rw [Book.levels_applyChange]
    by_cases hs : s = side
    · subst hs
      rw [if_pos rfl, getElem?_changeLevel, ExactBook.change]
      dsimp only
      rw [Function.update_self]
      by_cases hp : p = price
      · subst hp
        rw [if_pos rfl]
        by_cases hpos : 0 < e.changed s p delta.toInt
        · have hofNat : (b.levels s).getD p 0 + delta =
              Int64.ofNat (e.changed s p delta.toInt).toNat := by
            rw [← Int64.ofInt_eq_ofNat, Int.toNat_of_nonneg (Int.le_of_lt hpos), ← hnew,
              Int64.ofInt_toInt]
          rw [if_neg fun hn => hle.1 hn hpos, if_pos hpos, Std.ExtTreeMap.getElem?_insert_self,
            hofNat]
          rfl
        · rw [if_pos (hle.2 hpos), if_neg hpos, Std.ExtTreeMap.getElem?_erase_self]
          rfl
      · have hcmp : compare price p ≠ .eq := fun heq => hp (Std.compare_eq_iff_eq.1 heq).symm
        rw [if_neg hp, h.levels]
        split_ifs
        · rw [Std.ExtTreeMap.getElem?_insert, if_neg hcmp]
        · rw [Std.ExtTreeMap.getElem?_erase, if_neg hcmp]
    · rw [if_neg hs, h.levels, ExactBook.change]
      dsimp only
      rw [Function.update_of_ne hs]
  · rw [Book.underflows_applyChange, h.underflows]
    exact if_congr hlt rfl rfl

theorem call (h : Represents b e) (hfit : e.QuantitiesFit) (c : BookCall)
    (hfit' : (e.call c).QuantitiesFit) : Represents (b.call c) (e.call c) := by
  obtain ⟨yes, no, hb, he⟩ | ⟨side, price, delta, hb, he⟩ := c.cases
  · rw [hb, he]
    exact h.snapshot yes no
  · rw [he] at hfit'
    rw [hb, he]
    exact h.change hfit side price delta hfit'

/-- After any calls whose exact quantities fit, the machine book represents the exact one. -/
theorem after (calls : List BookCall)
    (hfit : ∀ pre, pre <+: calls → (ExactBook.after pre).QuantitiesFit) :
    Represents (Book.after calls) (ExactBook.after calls) := by
  induction calls using List.reverseRecOn with
  | nil => exact default
  | append_singleton calls c ih =>
    have hpre := List.prefix_append calls [c]
    have hlast := hfit _ (List.prefix_refl _)
    rw [ExactBook.after_concat] at hlast
    rw [Book.after_concat, ExactBook.after_concat]
    exact (ih fun pre h => hfit pre (h.trans hpre)).call (hfit _ hpre) c hlast

end Represents

end Snapevent
