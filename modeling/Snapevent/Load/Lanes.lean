import Snapevent.Lib.KWayMerge
import Snapevent.Load.Merge

/-!
# The iterator is a k-way merge

What each lane of `EventIter` will hand over is a list: the gap rows one by one, the trades in lane
order, and the book rows read as a sequence of turns.  Refilling a lane does not change what it will
hand over, so every pull is one step of the merge of these lists, and iterating to the end is a
whole run.
-/

namespace Snapevent

open KWayMerge

/-- What a lane hands over: an error or a keyed event. -/
abbrev LaneItem := Item LoadError MergeKey ReplayEvent

/-! ## What the sources hold -/

/-- The items of a gap source, its next decodable row being number `row`. -/
def gapItems (row : ℕ) : RowSource GapRow → List LaneItem
  | [] => []
  | .error e :: rest => .error e :: gapItems row rest
  | .ok r :: rest => .ok (gapKey r row, gapEvent r) :: gapItems (row + 1) rest

/-- The items of the trade lane. -/
def tradeItems (trades : List FiledTrade) : List LaneItem :=
  trades.map fun t => .ok (t.key, tradeEvent t.2)

/-- A snapshot group under assembly: its first row, its key, its levels so far and the numbers of
the rows it was made of. -/
structure OpenGroup where
  first : BookEventRow
  key : MergeKey
  sides : Sides
  rows : List ℕ

/-- The snapshot of a complete group. -/
def OpenGroup.event (g : OpenGroup) : ReplayEvent :=
  .snapshot g.first.recvTsUs g.first.eventIdx g.sides.1 g.sides.2 false

/-- One turn of the book lane: the numbers of the decodable rows it read, the event index when it
was assembling a snapshot group, and the item it ended with. -/
structure BookTurn where
  rows : List ℕ
  group : Option ℤ
  item : LaneItem

/-- The turn that ends a group with `item`. -/
def OpenGroup.turn (g : OpenGroup) (item : LaneItem) : BookTurn :=
  ⟨g.rows, some g.first.eventIdx, item⟩

/-- The turn of a complete group. -/
def OpenGroup.close (g : OpenGroup) : BookTurn := g.turn (.ok (g.key, g.event))

/-- Read row number `row` into the group `g`. -/
def OpenGroup.extend (g : OpenGroup) (row : ℕ) (r : BookEventRow) :
    List BookTurn × Option OpenGroup :=
  match pushLevel g.sides r row with
  | .ok sides => ([], some { g with sides, rows := g.rows ++ [row] })
  | .error e => ([OpenGroup.turn { g with rows := g.rows ++ [row] } (.error e)], none)

/-- Read row number `row` with no group under assembly. -/
def startTurn (row : ℕ) (r : BookEventRow) : List BookTurn × Option OpenGroup :=
  if r.isSnapshot then
    OpenGroup.extend ⟨r, bookKey r row, ([], []), []⟩ row r
  else ([⟨[row], none, (deltaEvent r row).map (bookKey r row, ·)⟩], none)

theorem OpenGroup.extend_ok {g : OpenGroup} {row : ℕ} {r : BookEventRow} {sides : Sides}
    (h : pushLevel g.sides r row = .ok sides) :
    g.extend row r = ([], some { g with sides, rows := g.rows ++ [row] }) := by
  rw [OpenGroup.extend, h]

theorem OpenGroup.extend_error {g : OpenGroup} {row : ℕ} {r : BookEventRow} {e : LoadError}
    (h : pushLevel g.sides r row = .error e) :
    g.extend row r = ([⟨g.rows ++ [row], some g.first.eventIdx, .error e⟩], none) := by
  rw [OpenGroup.extend, h]
  rfl

theorem startTurn_delta {row : ℕ} {r : BookEventRow} (hs : ¬ r.isSnapshot) :
    startTurn row r = ([⟨[row], none, (deltaEvent r row).map (bookKey r row, ·)⟩], none) :=
  if_neg hs

theorem startTurn_snapshot {row : ℕ} {r : BookEventRow} (hs : r.isSnapshot) :
    startTurn row r = OpenGroup.extend ⟨r, bookKey r row, ([], []), []⟩ row r :=
  if_pos hs

/-- The turns of a book source, `g` being the group under assembly and `row` the number of the next
decodable row. -/
def bookTurns (g : Option OpenGroup) (row : ℕ) : RowSource BookEventRow → List BookTurn
  | [] => (g.map OpenGroup.close).toList
  | .error e :: rest =>
    (match g with
      | none => ⟨[], none, .error e⟩
      | some g => g.turn (.error e)) :: bookTurns none row rest
  | .ok r :: rest =>
    match g with
    | none => (startTurn row r).1 ++ bookTurns (startTurn row r).2 (row + 1) rest
    | some g =>
      if r.joins g.first.eventIdx then
        (g.extend row r).1 ++ bookTurns (g.extend row r).2 (row + 1) rest
      else g.close :: ((startTurn row r).1 ++ bookTurns (startTurn row r).2 (row + 1) rest)

/-- The items of a book source. -/
def bookItems (row : ℕ) (src : RowSource BookEventRow) : List LaneItem :=
  (bookTurns none row src).map (·.item)

/-- A group under assembly goes on as `assemble` does: its turn ends where `assemble` stops. -/
theorem map_item_bookTurns_some (g : OpenGroup) (row : ℕ) (src : RowSource BookEventRow) :
    (bookTurns (some g) row src).map (·.item) =
      ((assemble g.first.eventIdx g.sides row src).result.map fun sides =>
          (g.key, ReplayEvent.snapshot g.first.recvTsUs g.first.eventIdx sides.1 sides.2 false)) ::
        bookItems (assemble g.first.eventIdx g.sides row src).bookRow
          (assemble g.first.eventIdx g.sides row src).rest := by
  induction src generalizing g row with
  | nil => rfl
  | cons x src ih =>
    cases x with
    | error e => rfl
    | ok r =>
      rw [bookTurns, assemble]
      by_cases hj : r.joins g.first.eventIdx
      · rw [if_pos hj, if_pos hj, OpenGroup.extend]
        cases hp : pushLevel g.sides r row with
        | error e => rfl
        | ok sides =>
          exact ih { g with sides, rows := g.rows ++ [row] } (row + 1)
      · rw [if_neg hj, if_neg hj, List.map_cons]
        rfl

/-! ## What the lanes still hold -/

/-- What a lane has ready, errors first. -/
def Lane.items (lane : Lane) : List LaneItem :=
  lane.err.toList.map .error ++ lane.head.toList.map .ok

theorem Lane.items_eq_nil {lane : Lane} (h : ¬ lane.ready) : lane.items = [] := by
  rcases lane with ⟨_ | head, _ | err⟩ <;> simp_all [Lane.ready, Lane.items]

namespace EventIter

/-- Everything lane `l` will still hand over. -/
def pending (it : EventIter) : LaneId → List LaneItem
  | .gap => it.gapLane.items ++ gapItems it.gapRow it.gaps
  | .book => it.bookLane.items ++ bookItems it.bookRow it.book
  | .trade => it.tradeLane.items ++ tradeItems it.trades

/-! ## Refilling -/

theorem fillGapLane_pending (it : EventIter) (l : LaneId) :
    it.fillGapLane.pending l = it.pending l := by
  unfold fillGapLane
  by_cases hr : it.gapLane.ready
  · rw [if_pos hr]
  · rw [if_neg hr]
    rcases it with ⟨gaps, book, trades, ⟨head, err⟩, bl, tl, gapRow, bookRow, last⟩
    obtain ⟨rfl, rfl⟩ : head = none ∧ err = none := by simpa [Lane.ready] using hr
    rcases gaps with _ | ⟨_ | r, gaps⟩ <;> cases l <;> rfl

theorem fillTradeLane_pending (it : EventIter) (l : LaneId) :
    it.fillTradeLane.pending l = it.pending l := by
  unfold fillTradeLane
  by_cases hr : it.tradeLane.ready
  · rw [if_pos hr]
  · rw [if_neg hr]
    rcases it with ⟨gaps, book, trades, gl, bl, ⟨head, err⟩, gapRow, bookRow, last⟩
    obtain ⟨rfl, rfl⟩ : head = none ∧ err = none := by simpa [Lane.ready] using hr
    rcases trades with _ | ⟨⟨i, r⟩, trades⟩ <;> cases l <;> rfl

theorem fillBookLane_pending (it : EventIter) (l : LaneId) :
    it.fillBookLane.pending l = it.pending l := by
  unfold fillBookLane
  by_cases hr : it.bookLane.ready
  · rw [if_pos hr]
  · rw [if_neg hr]
    rcases it with ⟨gaps, book, trades, gl, ⟨head, err⟩, tl, gapRow, bookRow, last⟩
    obtain ⟨rfl, rfl⟩ : head = none ∧ err = none := by simpa [Lane.ready] using hr
    rcases book with _ | ⟨_ | r, book⟩
    · rfl
    · cases l <;> rfl
    · by_cases hs : r.isSnapshot
      · cases hp : pushLevel ([], []) r bookRow with
        | error e =>
          cases l <;> simp [pending, Lane.items, bookItems, bookTurns, startTurn, OpenGroup.extend,
            OpenGroup.turn, hs, hp]
        | ok sides =>
          cases l with
          | gap => simp [pending, hs, hp]
          | trade => simp [pending, hs, hp]
          | book =>
            have h := map_item_bookTurns_some ⟨r, bookKey r bookRow, sides, [bookRow]⟩ (bookRow + 1)
              book
            rcases hg : (assemble r.eventIdx sides (bookRow + 1) book).result with e | acc <;>
              simp [pending, Lane.items, bookItems, bookTurns, startTurn, OpenGroup.extend, hs, hp,
                hg, Except.map] at h ⊢ <;> exact h.symm
      · rcases hd : deltaEvent r bookRow with e | ev <;> cases l <;>
          simp [pending, Lane.items, bookItems, bookTurns, startTurn, hs, hd, Except.map]

theorem fill_pending (it : EventIter) : it.fill.pending = it.pending := by
  funext l
  rw [fill, fillTradeLane_pending, fillBookLane_pending, fillGapLane_pending]

theorem fillBookLane_others (it : EventIter) :
    it.fillBookLane.gapLane = it.gapLane ∧ it.fillBookLane.tradeLane = it.tradeLane ∧
      it.fillBookLane.trades = it.trades ∧ it.fillBookLane.lastKey = it.lastKey := by
  unfold fillBookLane
  split_ifs
  · exact ⟨rfl, rfl, rfl, rfl⟩
  · split
    · exact ⟨rfl, rfl, rfl, rfl⟩
    · exact ⟨rfl, rfl, rfl, rfl⟩
    · split_ifs
      · exact ⟨rfl, rfl, rfl, rfl⟩
      · split <;> exact ⟨rfl, rfl, rfl, rfl⟩

theorem fillGapLane_others (it : EventIter) :
    it.fillGapLane.bookLane = it.bookLane ∧ it.fillGapLane.book = it.book ∧
      it.fillGapLane.tradeLane = it.tradeLane ∧ it.fillGapLane.trades = it.trades ∧
      it.fillGapLane.lastKey = it.lastKey := by
  unfold fillGapLane
  split_ifs
  · exact ⟨rfl, rfl, rfl, rfl, rfl⟩
  · split <;> exact ⟨rfl, rfl, rfl, rfl, rfl⟩

theorem fillTradeLane_others (it : EventIter) :
    it.fillTradeLane.gapLane = it.gapLane ∧ it.fillTradeLane.bookLane = it.bookLane ∧
      it.fillTradeLane.lastKey = it.lastKey := by
  unfold fillTradeLane
  split_ifs
  · exact ⟨rfl, rfl, rfl⟩
  · split <;> exact ⟨rfl, rfl, rfl⟩

@[simp] theorem fill_lastKey (it : EventIter) : it.fill.lastKey = it.lastKey := by
  rw [fill, (fillTradeLane_others _).2.2, (fillBookLane_others _).2.2.2,
    (fillGapLane_others _).2.2.2.2]

theorem fillGapLane_unready {it : EventIter} (h : ¬ it.fillGapLane.gapLane.ready) :
    ¬ it.gapLane.ready ∧ it.gaps = [] := by
  by_cases hr : it.gapLane.ready
  · rw [fillGapLane, if_pos hr] at h
    exact absurd hr h
  · refine ⟨hr, ?_⟩
    rw [fillGapLane, if_neg hr] at h
    rcases hg : it.gaps with _ | ⟨_ | r, gaps⟩
    · rfl
    · simp [hg, Lane.ready] at h
    · simp [hg, Lane.ready] at h

theorem fillTradeLane_unready {it : EventIter} (h : ¬ it.fillTradeLane.tradeLane.ready) :
    ¬ it.tradeLane.ready ∧ it.trades = [] := by
  by_cases hr : it.tradeLane.ready
  · rw [fillTradeLane, if_pos hr] at h
    exact absurd hr h
  · refine ⟨hr, ?_⟩
    rw [fillTradeLane, if_neg hr] at h
    cases ht : it.trades with
    | nil => rfl
    | cons t trades => simp [ht, Lane.ready] at h

theorem fillBookLane_unready {it : EventIter} (h : ¬ it.fillBookLane.bookLane.ready) :
    ¬ it.bookLane.ready ∧ it.book = [] := by
  by_cases hr : it.bookLane.ready
  · rw [fillBookLane, if_pos hr] at h
    exact absurd hr h
  · refine ⟨hr, ?_⟩
    rw [fillBookLane, if_neg hr] at h
    rcases hb : it.book with _ | ⟨_ | r, book⟩
    · rfl
    · simp [hb, Lane.ready] at h
    · -- a decodable row makes the lane ready, with its event or with an error
      rw [hb] at h
      dsimp only at h
      split_ifs at h
      · rcases hd : deltaEvent r it.bookRow with e | ev <;> simp [hd, Lane.ready] at h
      · cases hp : pushLevel ([], []) r it.bookRow with
        | error e => simp [hp, Lane.ready] at h
        | ok sides =>
          rcases hg : (assemble r.eventIdx sides (it.bookRow + 1) book).result with e | acc <;>
            simp [hp, hg, Lane.ready] at h

theorem pending_eq_nil_of_fill {it : EventIter} {l : LaneId} (h : ¬ (it.fill.lane l).ready) :
    it.pending l = [] := by
  cases l with
  | gap =>
    have hf : it.fill.lane .gap = it.fillGapLane.gapLane := by
      rw [lane, fill, (fillTradeLane_others _).1, (fillBookLane_others _).1]
    obtain ⟨hr, hs⟩ := fillGapLane_unready (hf ▸ h)
    rw [pending, Lane.items_eq_nil hr, hs]
    rfl
  | book =>
    have hf : it.fill.lane .book = it.fillGapLane.fillBookLane.bookLane := by
      rw [lane, fill, (fillTradeLane_others _).2.1]
    obtain ⟨hr, hs⟩ := fillBookLane_unready (hf ▸ h)
    rw [(fillGapLane_others it).1] at hr
    rw [(fillGapLane_others it).2.1] at hs
    rw [pending, Lane.items_eq_nil hr, hs]
    rfl
  | trade =>
    obtain ⟨hr, hs⟩ := fillTradeLane_unready h
    rw [(fillBookLane_others _).2.1, (fillGapLane_others it).2.2.1] at hr
    rw [(fillBookLane_others _).2.2.1, (fillGapLane_others it).2.2.2.1] at hs
    rw [pending, Lane.items_eq_nil hr, hs]
    rfl

/-! ## One pull is one step of the merge -/

theorem pending_setLane (it : EventIter) (l : LaneId) (lane : Lane) (rest : List LaneItem)
    (h : it.pending l = (it.lane l).items ++ rest) :
    (it.setLane l lane).pending = Function.update it.pending l (lane.items ++ rest) := by
  funext j
  cases l <;> cases j <;>
    simp_all [pending, setLane, EventIter.lane, Function.update_of_ne]

/-- The source behind lane `l`, as items. -/
theorem pending_split (it : EventIter) (l : LaneId) :
    ∃ rest, it.pending l = (it.lane l).items ++ rest := by
  cases l <;> exact ⟨_, rfl⟩

/-- The three ways a pull can go, and the end. -/
inductive PullStep (it : EventIter) : Option (Pulled × EventIter) → Prop
  | done : (∀ l, it.pending l = []) → PullStep it none
  | failed {l e rest it'} : it.pending l = .error e :: rest →
      it'.pending = Function.update it.pending l rest → it'.lastKey = it.lastKey →
      PullStep it (some (⟨l, none, .error e⟩, it'))
  | emitted {l k ev rest it'} : Least it.pending l k ev rest → regressed it.lastKey k = none →
      it'.pending = Function.update it.pending l rest → it'.lastKey = some k →
      PullStep it (some (⟨l, some k, .ok ev⟩, it'))
  | regressed {l k ev rest it' prev} : Least it.pending l k ev rest →
      regressed it.lastKey k = some prev → it'.pending = Function.update it.pending l rest →
      it'.lastKey = it.lastKey →
      PullStep it (some (⟨l, some k, .error (orderViolation k prev)⟩, it'))

theorem laneError_eq_some {it : EventIter} {l : LaneId} {e : LoadError}
    (h : it.laneError = some (l, e)) : (it.lane l).err = some e := by
  obtain ⟨l', -, hl'⟩ := List.exists_of_findSome?_eq_some h
  obtain ⟨e', he, heq⟩ := Option.map_eq_some_iff.1 hl'
  cases heq
  exact he

theorem laneError_eq_none {it : EventIter} (h : it.laneError = none) (l : LaneId) :
    (it.lane l).err = none := by
  have hl : l ∈ lanes := by cases l <;> decide
  simpa using List.findSome?_eq_none_iff.1 h l hl

theorem mem_heads {it : EventIter} {l : LaneId} {k : MergeKey} {ev : ReplayEvent} :
    (l, k, ev) ∈ (lanes.filterMap fun l => (it.lane l).head.map (l, ·)) ↔
      (it.lane l).head = some (k, ev) := by
  have hl : l ∈ lanes := by cases l <;> decide
  simp only [List.mem_filterMap, Option.map_eq_some_iff, Prod.mk.injEq]
  constructor
  · rintro ⟨j, -, ⟨k', ev'⟩, hj, rfl, rfl, rfl⟩
    exact hj
  · intro h
    exact ⟨l, hl, (k, ev), h, rfl, rfl⟩

/-- The best head is the head of some lane, and no lane's head is below it. -/
theorem best_eq_some {it : EventIter} {l : LaneId} {k : MergeKey} {ev : ReplayEvent}
    (h : it.best = some (l, k, ev)) :
    (it.lane l).head = some (k, ev) ∧
      ∀ j k' ev', (it.lane j).head = some (k', ev') → k ≤ k' := by
  refine ⟨mem_heads.1 (List.argmin_mem h), fun j k' ev' hj => ?_⟩
  exact List.le_of_mem_argmin (mem_heads.2 hj) h

theorem best_eq_none {it : EventIter} (h : it.best = none) (l : LaneId) :
    (it.lane l).head = none := by
  rcases hl : (it.lane l).head with _ | ⟨k, ev⟩
  · rfl
  · have hmem := mem_heads.2 hl
    rw [List.argmin_eq_none.1 h] at hmem
    simp at hmem

@[simp] theorem setLane_lastKey (it : EventIter) (l : LaneId) (lane : Lane) :
    (it.setLane l lane).lastKey = it.lastKey := by
  cases l <;> rfl

/-- Once refilled and free of errors, a lane that still holds something is headed by an event. -/
theorem pending_fill_of_head {it : EventIter} {l : LaneId} {k : MergeKey} {ev : ReplayEvent}
    (he : (it.fill.lane l).err = none) (hh : (it.fill.lane l).head = some (k, ev)) :
    ∃ rest, it.pending l = .ok (k, ev) :: rest ∧ ∀ lane : Lane,
      (it.fill.setLane l lane).pending = Function.update it.pending l (lane.items ++ rest) := by
  obtain ⟨rest, hrest⟩ := it.fill.pending_split l
  refine ⟨rest, ?_, fun lane => ?_⟩
  · rw [← fill_pending, hrest, Lane.items, he, hh]
    rfl
  · rw [← fill_pending it]
    exact pending_setLane _ _ _ _ hrest

theorem pullStep (it : EventIter) : PullStep it it.pull := by
  rcases herr : it.fill.laneError with _ | ⟨l, e⟩
  · have hnone := laneError_eq_none herr
    rcases hbest : it.fill.best with _ | ⟨l, k, ev⟩
    · rw [pull, herr, hbest]
      refine .done fun l => pending_eq_nil_of_fill ?_
      simp [Lane.ready, hnone l, best_eq_none hbest l]
    · obtain ⟨hhead, hle⟩ := best_eq_some hbest
      obtain ⟨rest, hrest, hset⟩ := pending_fill_of_head (hnone l) hhead
      have hleast : Least it.pending l k ev rest := by
        refine ⟨hrest, fun j hj => ?_⟩
        have hready : (it.fill.lane j).ready := by
          by_contra hr
          exact hj (pending_eq_nil_of_fill hr)
        rcases hjh : (it.fill.lane j).head with _ | ⟨k', ev'⟩
        · simp [Lane.ready, hnone j, hjh] at hready
        · obtain ⟨rest', hrest', -⟩ := pending_fill_of_head (hnone j) hjh
          exact ⟨k', ev', rest', hrest', hle j k' ev' hjh⟩
      have hpend := hset { it.fill.lane l with head := none }
      rw [Lane.items, hnone l] at hpend
      rw [pull, herr, hbest]
      simp only [setLane_lastKey, fill_lastKey]
      cases hreg : EventIter.regressed it.lastKey k with
      | none => exact .emitted hleast hreg hpend rfl
      | some prev => exact .regressed hleast hreg hpend (by simp)
  · obtain ⟨rest, hrest⟩ := it.fill.pending_split l
    have he := laneError_eq_some herr
    rw [pull, herr]
    have hhead : it.pending l = .error e :: ((it.fill.lane l).head.toList.map .ok ++ rest) := by
      rw [← fill_pending, hrest, Lane.items, he]
      rfl
    refine .failed hhead ?_ (by simp)
    rw [← fill_pending it]
    exact pending_setLane _ _ _ _ hrest

/-! ## Iterating to the end is a whole run -/

/-- The number of items the lanes still hold. -/
def remaining (it : EventIter) : ℕ :=
  (it.pending .gap).length + (it.pending .book).length + (it.pending .trade).length

theorem remaining_of_update {it it' : EventIter} {l : LaneId} {x : LaneItem} {rest : List LaneItem}
    (h : it.pending l = x :: rest) (h' : it'.pending = Function.update it.pending l rest) :
    it.remaining = it'.remaining + 1 := by
  unfold remaining
  rw [h']
  cases l <;> simp [h] <;> omega

theorem length_gapItems (row : ℕ) (src : RowSource GapRow) :
    (gapItems row src).length = src.length := by
  induction src generalizing row with
  | nil => rfl
  | cons x src ih => rcases x with e | r <;> simp [gapItems, ih]

theorem length_bookTurns_le (g : Option OpenGroup) (row : ℕ) (src : RowSource BookEventRow) :
    (bookTurns g row src).length ≤ src.length + g.toList.length := by
  have hext (g : OpenGroup) (r : BookEventRow) (row : ℕ) :
      (g.extend row r).1.length + (g.extend row r).2.toList.length = 1 := by
    unfold OpenGroup.extend
    rcases pushLevel g.sides r row with e | sides <;> rfl
  have hstart (r : BookEventRow) (row : ℕ) :
      (startTurn row r).1.length + (startTurn row r).2.toList.length = 1 := by
    unfold startTurn
    split_ifs
    · exact hext _ _ _
    · rfl
  induction src generalizing g row with
  | nil => cases g <;> simp [bookTurns]
  | cons x src ih =>
    cases x with
    | error e =>
      have := ih none row
      simp only [bookTurns, List.length_cons, Option.toList_none, List.length_nil] at this ⊢
      omega
    | ok r =>
      cases g with
      | none =>
        have := ih (startTurn row r).2 (row + 1)
        have := hstart r row
        simp only [bookTurns, List.length_append, List.length_cons, Option.toList_none,
          List.length_nil]
        omega
      | some g =>
        rw [bookTurns]
        split_ifs
        · have := ih (g.extend row r).2 (row + 1)
          have := hext g r row
          simp only [List.length_append, List.length_cons, Option.toList_some, List.length_nil]
          omega
        · have := ih (startTurn row r).2 (row + 1)
          have := hstart r row
          simp only [List.length_append, List.length_cons, Option.toList_some, List.length_nil]
          omega

theorem remaining_le_size (it : EventIter) : it.remaining ≤ it.size := by
  have hb := length_bookTurns_le none it.bookRow it.book
  have hlane (lane : Lane) : lane.items.length = lane.size := by
    simp [Lane.items, Lane.size, Nat.add_comm]
  simp only [remaining, pending, List.length_append, hlane, length_gapItems, bookItems,
    List.length_map, tradeItems, size]
  simp only [Option.toList_none, List.length_nil] at hb
  omega

/-- A last emitted key as a lower bound. -/
def bound : Option MergeKey → WithBot MergeKey
  | none => ⊥
  | some k => k

/-- A verdict of the merge as the iterator hands it out. -/
def toPulled : LaneId × Verdict LoadError MergeKey ReplayEvent × WithBot MergeKey → Pulled
  | (l, .failed e, _) => ⟨l, none, .error e⟩
  | (l, .emitted k ev, _) => ⟨l, some k, .ok ev⟩
  | (l, .regressed k _, last) => ⟨l, some k, .error (orderViolation k (last.unbotD k))⟩

theorem regressed_eq_none {last : Option MergeKey} {k : MergeKey} :
    EventIter.regressed last k = none ↔ bound last ≤ k := by
  cases last with
  | none => simp [EventIter.regressed, bound]
  | some prev => simp [EventIter.regressed, bound, Option.filter]

theorem regressed_eq_some {last : Option MergeKey} {k prev : MergeKey} :
    EventIter.regressed last k = some prev ↔ last = some prev ∧ k < prev := by
  rw [EventIter.regressed, Option.filter_eq_some_iff]
  simp

theorem pulls_run (n : ℕ) (it : EventIter) (hn : it.remaining ≤ n) :
    ∃ out, Run it.pending (bound it.lastKey) out ∧ it.pulls n = out.map toPulled := by
  induction n generalizing it with
  | zero =>
    refine ⟨[], .done fun l => ?_, rfl⟩
    simp only [remaining] at hn
    apply List.length_eq_zero_iff.1
    cases l <;> omega
  | succ n ih =>
    have hstep := it.pullStep
    generalize hp : it.pull = p at hstep
    cases hstep with
    | done h => exact ⟨[], .done h, by rw [pulls, hp]; rfl⟩
    | @failed l e rest it' hhead hpend hlast =>
      have := remaining_of_update hhead hpend
      obtain ⟨out, hrun, hout⟩ := ih it' (by omega)
      refine ⟨(l, .failed e, bound it.lastKey) :: out, .fail hhead ?_, ?_⟩
      rotate_left
      · rw [pulls, hp]
        simp [hout, toPulled]
      rw [← hpend, ← hlast]
      exact hrun
    | @emitted l k ev rest it' hleast hreg hpend hlast =>
      have := remaining_of_update hleast.head hpend
      obtain ⟨out, hrun, hout⟩ := ih it' (by omega)
      refine ⟨(l, .emitted k ev, bound it.lastKey) :: out,
        .emit hleast (regressed_eq_none.1 hreg) ?_, by rw [pulls, hp]; simp [hout, toPulled]⟩
      rw [hlast, hpend] at hrun
      exact hrun
    | @regressed l k ev rest it' prev hleast hreg hpend hlast =>
      have := remaining_of_update hleast.head hpend
      obtain ⟨out, hrun, hout⟩ := ih it' (by omega)
      obtain ⟨hprev, hlt⟩ := regressed_eq_some.1 hreg
      refine ⟨(l, .regressed k ev, bound it.lastKey) :: out, .regress hleast ?_ ?_,
        by rw [pulls, hp]; simp [hout, toPulled, hprev, bound]⟩
      · rw [hprev]
        exact WithBot.coe_lt_coe.2 hlt
      · rw [hpend, hlast] at hrun
        exact hrun

theorem stream_run (it : EventIter) :
    ∃ out, Run it.pending (bound it.lastKey) out ∧ it.stream = out.map toPulled :=
  pulls_run _ _ it.remaining_le_size

/-! ## Calling `next` until the end -/

/-- Calling `next` until it returns nothing receives the items `xs`. -/
inductive Yields : EventIter → List (Except LoadError ReplayEvent) → Prop
  | done {it} : it.next = none → Yields it []
  | item {it it' x xs} : it.next = some (x, it') → Yields it' xs → Yields it (x :: xs)

theorem pulls_yields (n : ℕ) (it : EventIter) (hn : it.remaining ≤ n) :
    Yields it ((it.pulls n).map (·.item)) := by
  induction n generalizing it with
  | zero =>
    have hstep := it.pullStep
    generalize hp : it.pull = p at hstep
    cases hstep with
    | done => exact .done (by rw [next, hp]; rfl)
    | failed hhead hpend => exact absurd (remaining_of_update hhead hpend) (by omega)
    | emitted hleast _ hpend => exact absurd (remaining_of_update hleast.head hpend) (by omega)
    | regressed hleast _ hpend => exact absurd (remaining_of_update hleast.head hpend) (by omega)
  | succ n ih =>
    have hstep := it.pullStep
    rw [pulls]
    generalize hp : it.pull = p at hstep ⊢
    cases hstep with
    | done => exact .done (by rw [next, hp]; rfl)
    | failed hhead hpend =>
      have := remaining_of_update hhead hpend
      exact .item (by rw [next, hp]; rfl) (ih _ (by omega))
    | emitted hleast _ hpend =>
      have := remaining_of_update hleast.head hpend
      exact .item (by rw [next, hp]; rfl) (ih _ (by omega))
    | regressed hleast _ hpend =>
      have := remaining_of_update hleast.head hpend
      exact .item (by rw [next, hp]; rfl) (ih _ (by omega))

theorem yields_items (it : EventIter) : Yields it it.items :=
  pulls_yields _ _ it.remaining_le_size

theorem Yields.eq {it : EventIter} {xs ys : List (Except LoadError ReplayEvent)}
    (hx : Yields it xs) (hy : Yields it ys) : xs = ys := by
  induction hx generalizing ys with
  | done hnext =>
    cases hy with
    | done => rfl
    | item hnext' => rw [hnext] at hnext'; cases hnext'
  | item hnext _ ih =>
    cases hy with
    | done hnext' => rw [hnext] at hnext'; cases hnext'
    | item hnext' htail =>
      rw [hnext] at hnext'
      cases hnext'
      rw [ih htail]

theorem pulls_length_le (n : ℕ) (it : EventIter) : (it.pulls n).length ≤ n := by
  induction n generalizing it with
  | zero => simp [pulls]
  | succ n ih =>
    rw [pulls]
    rcases it.pull with _ | ⟨p, it'⟩
    · simp
    · simpa using ih it'

theorem length_items_le (it : EventIter) : it.items.length ≤ it.size := by
  rw [items, List.length_map]
  exact pulls_length_le _ _

theorem Yields.length_le {it : EventIter} {xs : List (Except LoadError ReplayEvent)}
    (h : Yields it xs) : xs.length ≤ it.size := by
  rw [h.eq it.yields_items]
  exact it.length_items_le

end EventIter

end Snapevent
