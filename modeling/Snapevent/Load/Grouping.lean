import Mathlib.Data.List.SplitBy
import Snapevent.Load.Lanes

/-!
# Snapshot grouping

On well-formed rows the book lane hands over one event for each group: a delta row on its own, or
the consecutive snapshot rows of one event index.
-/

namespace Snapevent

open KWayMerge

/-- The row passes every check of the book lane: a delta has a side, a price and a quantity, and no
snapshot quantity is negative. -/
def BookEventRow.wellFormed (row : BookEventRow) : Bool :=
  match row.side, row.priceMicro, row.qtyCenti with
  | some _, some _, some qty => !row.isSnapshot || 0 ≤ qty
  | _, _, _ => row.isSnapshot

/-- The level a snapshot row contributes to `side`. -/
def rowLevel (side : Side) (row : BookEventRow) : Option Level :=
  match row.side, row.priceMicro, row.qtyCenti with
  | some s, some price, some qty => if s = side then some ⟨⟨price⟩, ⟨qty.toUInt64⟩⟩ else none
  | _, _, _ => none

/-- The levels of one side of a group of numbered rows. -/
def levelsOf (side : Side) (group : List (BookEventRow × ℕ)) : List Level :=
  group.filterMap (rowLevel side ·.1)

theorem levelsOf_concat (side : Side) (rows : List (BookEventRow × ℕ)) (r : BookEventRow) (i : ℕ) :
    levelsOf side (rows ++ [(r, i)]) = levelsOf side rows ++ (rowLevel side r).toList := by
  rcases h : rowLevel side r with _ | level <;> simp [levelsOf, h]

/-- Two neighbouring rows are of one snapshot. -/
def sameGroup (a b : BookEventRow × ℕ) : Bool := a.1.isSnapshot && b.1.joins a.1.eventIdx

/-- The keyed event of a group of numbered rows. -/
def groupEvent : List (BookEventRow × ℕ) → Option (MergeKey × ReplayEvent)
  | [] => none
  | (r, i) :: rest =>
    if r.isSnapshot then
      some (bookKey r i, .snapshot r.recvTsUs r.eventIdx (levelsOf .yes ((r, i) :: rest))
        (levelsOf .no ((r, i) :: rest)) false)
    else (deltaEvent r i).toOption.map (bookKey r i, ·)

/-- The events of a well-formed book table, the first row being number `n`. -/
def groupedBook (n : ℕ) (rows : List BookEventRow) : List (MergeKey × ReplayEvent) :=
  ((rows.zipIdx n).splitBy sameGroup).filterMap groupEvent

theorem pushLevel_of_wellFormed {row : BookEventRow} (hw : row.wellFormed) (hs : row.isSnapshot)
    (acc : Sides) (i : ℕ) :
    pushLevel acc row i =
      .ok (acc.1 ++ (rowLevel .yes row).toList, acc.2 ++ (rowLevel .no row).toList) := by
  rcases row with ⟨_, _, _, snap, _ | side, _ | price, _ | qty⟩
  case some.some.some =>
    obtain rfl : snap = true := hs
    have hq : 0 ≤ qty := by simpa [BookEventRow.wellFormed] using hw
    cases side <;> simp [pushLevel, rowLevel, hq]
  all_goals simp [pushLevel, rowLevel]

theorem deltaEvent_of_wellFormed {row : BookEventRow} (hw : row.wellFormed)
    (hs : ¬ row.isSnapshot) (i : ℕ) : ∃ ev, deltaEvent row i = .ok ev := by
  rcases row with ⟨_, _, _, snap, _ | side, _ | price, _ | qty⟩
  case some.some.some => exact ⟨_, rfl⟩
  all_goals exact absurd hw hs

/-- The open group `g` holds the numbered rows `rows`. -/
structure OpenGroup.Holds (g : OpenGroup) (rows : List (BookEventRow × ℕ)) : Prop where
  head : ∃ i rest, rows = (g.first, i) :: rest ∧ g.key = bookKey g.first i
  snap : g.first.isSnapshot
  chain : rows.IsChain fun a b => sameGroup a b
  last : ∀ x ∈ rows.getLast?, ∀ y, sameGroup x y = y.1.joins g.first.eventIdx
  sides : g.sides = (levelsOf .yes rows, levelsOf .no rows)

namespace OpenGroup.Holds

variable {g : OpenGroup} {rows : List (BookEventRow × ℕ)}

theorem ne_nil (h : g.Holds rows) : rows ≠ [] := by
  obtain ⟨i, rest, hrows, -⟩ := h.head
  simp [hrows]

/-- A complete group closes with the event of its rows. -/
theorem groupEvent_eq (h : g.Holds rows) : groupEvent rows = some (g.key, g.event) := by
  obtain ⟨i, rest, hrows, hkey⟩ := h.head
  have hsides := h.sides
  rw [hrows] at hsides ⊢
  rw [groupEvent, if_pos h.snap, hkey, event, hsides]

theorem extend (h : g.Holds rows) {r : BookEventRow} {i : ℕ} (hw : r.wellFormed)
    (hj : r.joins g.first.eventIdx) :
    ∃ g', g.extend i r = ([], some g') ∧ g'.Holds (rows ++ [(r, i)]) := by
  have hs : r.isSnapshot := by
    simp only [BookEventRow.joins, Bool.and_eq_true] at hj
    exact hj.1
  have he : r.eventIdx = g.first.eventIdx := by
    simpa [BookEventRow.joins, hs] using hj
  obtain ⟨j, rest, hrows, hkey⟩ := h.head
  refine ⟨{ g with
      sides := (g.sides.1 ++ (rowLevel .yes r).toList, g.sides.2 ++ (rowLevel .no r).toList)
      rows := g.rows ++ [i] },
    by rw [OpenGroup.extend, pushLevel_of_wellFormed hw hs], ⟨?_, h.snap, ?_, ?_, ?_⟩⟩
  · exact ⟨j, rest ++ [(r, i)], by rw [hrows, List.cons_append], hkey⟩
  · refine List.isChain_append.2 ⟨h.chain, .singleton _, ?_⟩
    intro x hx y hy
    obtain rfl : y = (r, i) := by simpa [eq_comm] using hy
    rw [h.last x hx]
    exact hj
  · intro x hx y
    obtain rfl : x = (r, i) := by simpa [eq_comm] using hx
    simp [sameGroup, hs, he]
  · simp only [h.sides, levelsOf_concat]

end OpenGroup.Holds

theorem startTurn_of_snapshot {r : BookEventRow} {i : ℕ} (hw : r.wellFormed)
    (hs : r.isSnapshot) : ∃ g : OpenGroup, startTurn i r = ([], some g) ∧ g.Holds [(r, i)] := by
  refine ⟨⟨r, bookKey r i, ((rowLevel .yes r).toList, (rowLevel .no r).toList), [i]⟩, ?_, ?_⟩
  · rw [startTurn, if_pos hs, OpenGroup.extend, pushLevel_of_wellFormed hw hs]
    rfl
  · refine ⟨⟨i, [], rfl, rfl⟩, hs, .singleton _, fun x hx y => ?_, ?_⟩
    · obtain rfl : x = (r, i) := by simpa [eq_comm] using hx
      simp [sameGroup, hs]
    · rw [← List.nil_append [(r, i)], levelsOf_concat, levelsOf_concat]
      rfl

/-- On well-formed rows the turns of the book lane are the groups of the table. -/
theorem bookTurns_of_wellFormed (rows : List BookEventRow) (hw : ∀ r ∈ rows, r.wellFormed) (n : ℕ) :
    (bookTurns none n (rows.map .ok)).map (·.item) = (groupedBook n rows).map .ok ∧
    ∀ (g : OpenGroup) (held : List (BookEventRow × ℕ)), g.Holds held →
      (bookTurns (some g) n (rows.map .ok)).map (·.item) =
        (((held ++ rows.zipIdx n).splitBy sameGroup).filterMap groupEvent).map .ok := by
  induction rows generalizing n with
  | nil =>
    refine ⟨rfl, fun g held hg => ?_⟩
    rw [List.zipIdx_nil, List.append_nil, List.splitBy_of_isChain hg.ne_nil hg.chain]
    simp [bookTurns, hg.groupEvent_eq, OpenGroup.close, OpenGroup.turn]
  | cons r rows ih =>
    have hr := hw r List.mem_cons_self
    obtain ⟨ihnone, ihsome⟩ := ih (fun r h => hw r (List.mem_cons_of_mem _ h)) (n + 1)
    have hstart : ((startTurn n r).1 ++ bookTurns (startTurn n r).2 (n + 1) (rows.map .ok)).map
        (·.item) = (groupedBook n (r :: rows)).map .ok := by
      by_cases hs : r.isSnapshot
      · obtain ⟨g, hg, hheld⟩ := startTurn_of_snapshot (i := n) hr hs
        rw [hg, List.nil_append, ihsome g _ hheld, groupedBook, List.zipIdx_cons]
        rfl
      · obtain ⟨ev, hev⟩ := deltaEvent_of_wellFormed hr hs n
        have hsplit : ([(r, n)] ++ rows.zipIdx (n + 1)).splitBy sameGroup =
            [(r, n)].splitBy sameGroup ++ (rows.zipIdx (n + 1)).splitBy sameGroup :=
          List.splitBy_append (by simp [sameGroup, hs])
        have hone : [(r, n)].splitBy sameGroup = [[(r, n)]] :=
          List.splitBy_of_isChain (by simp) (.singleton _)
        rw [groupedBook, List.zipIdx_cons, ← List.singleton_append, hsplit, hone]
        simp [startTurn, hs, hev, groupEvent, Except.map, Except.toOption, ihnone, groupedBook]
    refine ⟨hstart, fun g held hg => ?_⟩
    rw [List.map_cons, bookTurns, List.zipIdx_cons]
    by_cases hj : r.joins g.first.eventIdx
    · obtain ⟨g', hg', hheld'⟩ := hg.extend (i := n) hr hj
      rw [if_pos hj, hg', List.nil_append, ihsome g' _ hheld', List.append_assoc]
      rfl
    · rw [if_neg hj, List.splitBy_append_cons _ fun x hx => by
          simpa [hg.last x hx] using hj,
        List.splitBy_of_isChain hg.ne_nil hg.chain, List.map_cons, hstart, groupedBook,
        List.zipIdx_cons]
      simp [hg.groupEvent_eq, OpenGroup.close, OpenGroup.turn]

/-- On well-formed rows the book lane hands over the grouped events and no error. -/
theorem bookItems_of_wellFormed {rows : List BookEventRow} (hw : ∀ r ∈ rows, r.wellFormed)
    (n : ℕ) : bookItems n (rows.map .ok) = (groupedBook n rows).map .ok :=
  (bookTurns_of_wellFormed rows hw n).1

end Snapevent
