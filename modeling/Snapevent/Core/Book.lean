import Std.Data.ExtTreeMap.Lemmas
import Snapevent.Core.Records

/-!
# Order-book reconstruction

The book of one binary market (`book.rs`): resting YES and NO bids as ordered maps from price to
quantity, the running totals, and the underflow count.  `applySnapshotLevels` and `applyChange` are
the one replay rule that both the processor and the loader drive.
-/

namespace Snapevent

/-- One side of a book: price in micro-dollars to resting quantity in centi-contracts. -/
abbrev Levels := Std.ExtTreeMap UInt32 Int64

/-- One dollar in micro-dollars. -/
def ONE_DOLLAR_MICRO : UInt32 := 1000000

/-- A reconstructed book.  The underflow count is a 64-bit counter in the source; it is at most the
number of calls, so it is unbounded here. -/
structure Book where
  yes : Levels
  no : Levels
  yesTotal : Int64
  noTotal : Int64
  underflows : ℕ

/-- Top of book and book-wide aggregates at one instant. -/
structure Top where
  yesBidMicro : Option UInt32
  yesBidSzCenti : Int64
  yesAskMicro : Option UInt32
  yesAskSzCenti : Int64
  yesLevels : ℕ
  noLevels : ℕ
  yesTotalCenti : Int64
  noTotalCenti : Int64
  deriving DecidableEq, Repr

/-- Insert the levels in order and keep `total` in step with the map's values. -/
def loadLevels (map : Levels) (total : Int64) : List PriceLevel → Levels × Int64
  | [] => (map, total)
  | level :: levels =>
    let q := level.quantity.centi.toInt64
    let total := match map[level.price.micro]? with
      | some old => total + (q - old)
      | none => total + q
    loadLevels (map.insert level.price.micro q) total levels

/-- The side `map` and its total after the signed change `delta` at `price`, and whether the level
went strictly below zero. -/
def changeLevel (map : Levels) (total : Int64) (price : UInt32) (delta : Int64) :
    Levels × Int64 × Bool :=
  let new := map.getD price 0 + delta
  let map := map.insert price new
  let total := total + delta
  if new ≤ 0 then (map.erase price, total - new, new < 0) else (map, total, false)

namespace Book

/-- The book before any record. -/
def default : Book := { yes := ∅, no := ∅, yesTotal := 0, noTotal := 0, underflows := 0 }

/-- Reset the book to the given levels. -/
def applySnapshotLevels (b : Book) (yes no : List PriceLevel) : Book :=
  { b with
    yes := (loadLevels ∅ 0 yes).1
    yesTotal := (loadLevels ∅ 0 yes).2
    no := (loadLevels ∅ 0 no).1
    noTotal := (loadLevels ∅ 0 no).2 }

/-- Reset the book to a snapshot's levels. -/
def applySnapshot (b : Book) (snap : OrderbookSnapshot) : Book :=
  b.applySnapshotLevels snap.yes snap.no

/-- Add a signed change at one level, dropping the level when nothing rests there any more. -/
def applyChange (b : Book) (side : Side) (priceMicro : UInt32) (deltaCenti : Int64) : Book :=
  match side with
  | .yes =>
    let (map, total, underflowed) := changeLevel b.yes b.yesTotal priceMicro deltaCenti
    { b with
      yes := map, yesTotal := total
      underflows := if underflowed then b.underflows + 1 else b.underflows }
  | .no =>
    let (map, total, underflowed) := changeLevel b.no b.noTotal priceMicro deltaCenti
    { b with
      no := map, noTotal := total
      underflows := if underflowed then b.underflows + 1 else b.underflows }

/-- Apply an incremental delta record. -/
def applyDelta (b : Book) (d : OrderbookDelta) : Book :=
  b.applyChange d.side d.price.micro d.delta.centi

/-- The current top of book.  The best YES ask is one dollar minus the best NO bid, and zero when
that is negative. -/
def top (b : Book) : Top :=
  let yesBid := b.yes.toList.getLast?
  let noBid := b.no.toList.getLast?
  { yesBidMicro := yesBid.map (·.1)
    yesBidSzCenti := (yesBid.map (·.2)).getD 0
    yesAskMicro := noBid.map fun b =>
      if b.1 ≤ ONE_DOLLAR_MICRO then ONE_DOLLAR_MICRO - b.1 else 0
    yesAskSzCenti := (noBid.map (·.2)).getD 0
    yesLevels := b.yes.size
    noLevels := b.no.size
    yesTotalCenti := b.yesTotal
    noTotalCenti := b.noTotal }

end Book

namespace Top

/-- Mid price in micro-dollars, when both sides are present. -/
def midMicro (t : Top) : Option UInt32 :=
  match t.yesBidMicro, t.yesAskMicro with
  | some b, some a => some ((b + a) / 2)
  | _, _ => none

/-- Spread in micro-dollars, when both sides are present. -/
def spreadMicro (t : Top) : Option ℤ :=
  match t.yesBidMicro, t.yesAskMicro with
  | some b, some a => some ((a.toNat : ℤ) - b.toNat)
  | _, _ => none

end Top

/-! ## What a change does to one side -/

theorem changeLevel_map (map : Levels) (total : Int64) (price : UInt32) (delta : Int64) :
    (changeLevel map total price delta).1 =
      if map.getD price 0 + delta ≤ 0 then map.erase price
      else map.insert price (map.getD price 0 + delta) := by
  unfold changeLevel
  dsimp only
  split_ifs with h
  · ext1 p
    simp only [Std.ExtTreeMap.getElem?_erase, Std.ExtTreeMap.getElem?_insert]
    split_ifs <;> rfl
  · rfl

/-- A changed level, read back from the map. -/
theorem getElem?_changeLevel (map : Levels) (total : Int64) (price p : UInt32) (delta : Int64) :
    (changeLevel map total price delta).1[p]? =
      if p = price then
        if map.getD price 0 + delta ≤ 0 then none else some (map.getD price 0 + delta)
      else map[p]? := by
  rw [changeLevel_map]
  split_ifs with h hp hp
  · rw [hp, Std.ExtTreeMap.getElem?_erase_self]
  · rw [Std.ExtTreeMap.getElem?_erase, if_neg fun e => hp (Std.compare_eq_iff_eq.1 e).symm]
  · rw [hp, Std.ExtTreeMap.getElem?_insert_self]
  · rw [Std.ExtTreeMap.getElem?_insert, if_neg fun e => hp (Std.compare_eq_iff_eq.1 e).symm]

theorem getD_changeLevel (m : Levels) (total : Int64) (price p : UInt32) (delta : Int64) :
    (changeLevel m total price delta).1.getD p 0 =
      if p = price then if m.getD price 0 + delta ≤ 0 then 0 else m.getD price 0 + delta
      else m.getD p 0 := by
  rw [Std.ExtTreeMap.getD_eq_getD_getElem?, getElem?_changeLevel]
  split_ifs with hp hle
  · rfl
  · rfl
  · rw [Std.ExtTreeMap.getD_eq_getD_getElem?]

/-! ## What a snapshot does to one side -/

theorem loadLevels_fst (m : Levels) (total : Int64) (levels : List PriceLevel) :
    (loadLevels m total levels).1 =
      levels.foldl (fun m l => m.insert l.price.micro l.quantity.centi.toInt64) m := by
  induction levels generalizing m total with
  | nil => rfl
  | cons l levels ih => exact ih _ _

end Snapevent
