import Snapevent.Core.Bookkeeping
import Snapevent.Kalshi.Verbatim

/-!
# Zero-quantity levels

Book records as the wire decoders accept them, applied to a book.  A change never leaves a level
empty, but a snapshot keeps the zero quantities it lists: the levels stay positive exactly when no
snapshot ends a price with a zero.
-/

namespace Snapevent

/-! ## Records from the wire -/

/-- The call a record makes on a book. -/
def RecordKind.bookCall : RecordKind → Option BookCall
  | .snapshot s => some (.applySnapshot s)
  | .delta d => some (.applyDelta d)
  | _ => none

/-- A call that some text frame decodes to. -/
def FromWire (lib : JsonLib) (c : BookCall) : Prop :=
  ∃ text recvTs ticker record,
    (decodeFrame lib text recvTs).outcome = .data .orderbook ticker record ∧
      record.bookCall = some c

/-! ## Positive levels -/

/-- Every resting level has something to rest. -/
def Book.Positive (b : Book) : Prop :=
  ∀ (side : Side) (p : UInt32) (q : Int64), (b.levels side)[p]? = some q → 0 < q

/-- The same of the exact book. -/
def ExactBook.Positive (e : ExactBook) : Prop :=
  ∀ (side : Side) (p : UInt32), (e.levels side)[p]? ≠ some 0

/-- No price of the list ends with a zero quantity. -/
def NoZero (levels : List PriceLevel) : Prop := ∀ p, lastCopy levels p ≠ some 0

/-- A call that lists no price with a final zero. -/
def BookCall.ListsNoZero : BookCall → Prop
  | .applySnapshot snap => NoZero snap.yes ∧ NoZero snap.no
  | .applySnapshotLevels yes no => NoZero yes ∧ NoZero no
  | .applyDelta _ => True
  | .applyChange _ _ _ => True

theorem Represents.positive_iff {b : Book} {e : ExactBook} (h : Represents b e)
    (hfit : e.QuantitiesFit) : b.Positive ↔ e.Positive := by
  constructor
  · intro hb side p hzero
    have hq := h.levels side p
    rw [hzero] at hq
    exact absurd (hb side p 0 hq) (by decide)
  · intro he side p q hq
    rw [h.levels] at hq
    obtain ⟨n, hn, rfl⟩ := Option.map_eq_some_iff.1 hq
    have hne : n ≠ 0 := fun h0 => he side p (by rw [hn, h0])
    rw [Int64.lt_iff_toInt_lt, Int64.toInt_ofNat_of_lt (hfit side p n hn)]
    exact Int.natCast_pos.2 (Nat.pos_of_ne_zero hne)

namespace ExactBook

theorem positive_snapshot (e : ExactBook) (yes no : List PriceLevel) :
    (e.snapshot yes no).Positive ↔ NoZero yes ∧ NoZero no := by
  unfold Positive NoZero
  constructor
  · intro h
    constructor
    · intro p
      rw [← getElem?_load]
      exact h .yes p
    · intro p
      rw [← getElem?_load]
      exact h .no p
  · intro h side p
    cases side
    · exact (getElem?_load yes p).trans_ne (h.1 p)
    · exact (getElem?_load no p).trans_ne (h.2 p)

/-- A change keeps a level only with something left, so it adds no zero. -/
theorem Positive.change {e : ExactBook} (h : e.Positive) (side : Side) (price : UInt32)
    (delta : ℤ) : (e.change side price delta).Positive := by
  intro s p
  unfold ExactBook.change
  dsimp only
  by_cases hs : s = side
  · subst hs
    rw [Function.update_self]
    split_ifs with hpos
    · rw [Std.ExtTreeMap.getElem?_insert]
      split_ifs
      · rw [ne_eq, Option.some.injEq]
        omega
      · exact h s p
    · rw [Std.ExtTreeMap.getElem?_erase]
      split_ifs
      · exact nofun
      · exact h s p
  · rw [Function.update_of_ne hs]
    exact h s p

theorem Positive.call {e : ExactBook} (h : e.Positive) {c : BookCall} (hc : c.ListsNoZero) :
    (e.call c).Positive := by
  cases c with
  | applySnapshot snap => exact (e.positive_snapshot snap.yes snap.no).2 hc
  | applySnapshotLevels yes no => exact (e.positive_snapshot yes no).2 hc
  | applyDelta d => exact h.change _ _ _
  | applyChange side price delta => exact h.change _ _ _

theorem listsNoZero_of_positive {e : ExactBook} {c : BookCall} (h : (e.call c).Positive) :
    c.ListsNoZero := by
  cases c with
  | applySnapshot snap => exact (e.positive_snapshot snap.yes snap.no).1 h
  | applySnapshotLevels yes no => exact (e.positive_snapshot yes no).1 h
  | applyDelta d => trivial
  | applyChange side price delta => trivial

theorem positive_after_iff (calls : List BookCall) :
    (∀ pre, pre <+: calls → (after pre).Positive) ↔ ∀ c ∈ calls, c.ListsNoZero := by
  constructor
  · intro h c hc
    obtain ⟨pre, post, rfl⟩ := List.append_of_mem hc
    have hpre : pre ++ [c] <+: pre ++ c :: post := ⟨post, List.append_assoc ..⟩
    have hpos := h _ hpre
    rw [after_concat] at hpos
    exact listsNoZero_of_positive hpos
  · intro h pre hpre
    induction pre using List.reverseRecOn with
    | nil =>
      intro side p
      rw [after, List.foldl_nil, default]
      dsimp only
      rw [Std.ExtTreeMap.getElem?_empty]
      intro hzero
      cases hzero
    | append_singleton pre c ih =>
      have hbefore := (List.prefix_append pre [c]).trans hpre
      have hmem : c ∈ calls := hpre.subset (List.mem_concat_self ..)
      rw [after_concat]
      exact (ih hbefore).call (h c hmem)

end ExactBook

/-- After every call each resting quantity is positive, for every sequence of calls whose exact
quantities fit, if and only if no snapshot ends a price with a zero quantity. -/
theorem levels_positive_iff (calls : List BookCall)
    (hfit : ∀ pre, pre <+: calls → (ExactBook.after pre).QuantitiesFit) :
    (∀ pre, pre <+: calls → (Book.after pre).Positive) ↔ ∀ c ∈ calls, c.ListsNoZero := by
  rw [← ExactBook.positive_after_iff]
  apply forall_congr'
  intro pre
  apply forall_congr'
  intro hpre
  exact (Represents.after pre fun pre' h => hfit pre' (h.trans hpre)).positive_iff (hfit pre hpre)

/-- A snapshot frame of one YES level. -/
def oneLevelFrame (price size : String) : Value :=
  .object [("msg", .object [("market_ticker", .string "A"),
      ("yes_dollars_fp", .array [.array [.string price, .string size]])]),
    ("seq", .number (.posInt 1)), ("sid", .number (.posInt 1)),
    ("type", .string "orderbook_snapshot")]

theorem held_oneLevelFrame (price size : String) : (oneLevelFrame price size).Held .integral := by
  refine ⟨?_, ⟨?_, trivial, ⟨⟨trivial, trivial, trivial⟩, trivial⟩, trivial⟩, trivial, trivial,
    trivial, trivial⟩
  · exact (List.pairwise_map (f := Prod.fst)).1
      (show ["msg", "seq", "sid", "type"].Pairwise (· < ·) by decide)
  · exact (List.pairwise_map (f := Prod.fst)).1
      (show ["market_ticker", "yes_dollars_fp"].Pairwise (· < ·) by decide)

/-- A level of no contracts at half a dollar. -/
def emptyLevel : OrderbookSnapshot :=
  { ticker := ⟨"A"⟩, ts := epoch, yes := [⟨⟨500000⟩, ⟨0⟩⟩], no := [] }

theorem fromWire_emptyLevel : FromWire .integral (.applySnapshot emptyLevel) := by
  refine ⟨(oneLevelFrame "0.5" "0.00").text, epoch, ⟨"A"⟩, .snapshot emptyLevel, ?_, rfl⟩
  rw [decodeFrame, JsonLib.parse_text (held_oneLevelFrame _ _) (by decide)]
  rfl

theorem quantitiesFit_emptyLevel (pre : List BookCall)
    (hpre : pre <+: [.applySnapshot emptyLevel]) : (ExactBook.after pre).QuantitiesFit := by
  have hsums : (ExactBook.after pre).SumsFit := by
    rcases List.prefix_concat_iff.1 (show pre <+: [] ++ _ from hpre) with rfl | hnil
    · intro side
      cases side <;> decide
    · rw [List.prefix_nil.1 hnil]
      intro side
      cases side <;> decide
  exact hsums.quantitiesFit

theorem levels_positive_iff_emptyLevel : ¬ ∀ pre, pre <+: [BookCall.applySnapshot emptyLevel] →
    (Book.after pre).Positive := by
  rw [levels_positive_iff _ quantitiesFit_emptyLevel]
  intro h
  exact (h _ List.mem_cons_self).1 500000 (by decide)

/-- An accepted snapshot leaves a level of quantity zero, and it is the best bid. -/
theorem zero_level_rests :
    ∃ calls, (∀ c ∈ calls, FromWire .integral c) ∧
      (∀ pre, pre <+: calls → (ExactBook.after pre).QuantitiesFit) ∧
      ¬ (Book.after calls).Positive ∧ (Book.after calls).top.yesBidMicro = some 500000 ∧
      (Book.after calls).top.yesBidSzCenti = 0 ∧ (Book.after calls).top.yesLevels = 1 := by
  refine ⟨[.applySnapshot emptyLevel], ?_, quantitiesFit_emptyLevel, ?_, by decide, by decide,
    by decide⟩
  · intro c hc
    rw [List.mem_singleton.1 hc]
    exact fromWire_emptyLevel
  · intro h
    exact absurd (h .yes 500000 0 (by decide)) (by decide)

end Snapevent
