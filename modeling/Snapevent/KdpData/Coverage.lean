import Snapevent.Process.Coverage

/-!
# Coverage from the tables

The Python coverage code (`coverage.py`) computes span and hole of a ticker from its written tables.
It reads its figures off other data than the Rust code does, with its own sweep, and comes to the
same numbers; with book rows the hole is a length on the real line.
-/

namespace Snapevent

open Windows MeasureTheory

/-! ## The code -/

/-- The failures of the coverage code. -/
inductive KdpDataError
  | unreadableTable (file exc : String)
  | missingTable (path table : String)
  deriving DecidableEq, Repr

/-- The table files of a processed directory: each absent, unreadable, or a table. -/
structure Entry where
  path : String
  bookEvents : Option (Except String BookEventsTable)
  trades : Option (Except String TradesTable)
  gaps : Option (Except String GapsTable)

/-- A table of the entry; none if the file is absent. -/
def readTable {α : Type} (path table : String) : Option (Except String α) →
    Except KdpDataError (Option α)
  | none => .ok none
  | some (.error exc) => .error (.unreadableTable (path ++ "/" ++ table ++ ".parquet") exc)
  | some (.ok rows) => .ok (some rows)

/-- The gaps table; an entry with a book must have one. -/
def readGaps (entry : Entry) (require : Bool) : Except KdpDataError (Option GapsTable) := do
  let gaps ← readTable entry.path "gaps" entry.gaps
  if gaps.isNone && require then .error (.missingTable entry.path "gaps") else .ok gaps

/-- The position of the first of some sorted times at or after `start`. -/
def bisectLeft (times : List ℤ) (start : ℤ) : ℕ := (times.takeWhile (· < start)).length

/-- The window of one gap: start, end and whether a snapshot closes it. -/
def gapWindow (snapTs : List ℤ) (spanEnd : Option ℤ) (start : ℤ) : ℤ × Option ℤ × Bool :=
  match snapTs[bisectLeft snapTs start]? with
  | some t => (start, some t, true)
  | none => (start, spanEnd.filter (start ≤ ·), false)

/-- The windows of the gaps. -/
def gapWindows (gaps : GapsTable) (snapTs : List ℤ) (spanEnd : Option ℤ) :
    List (ℤ × Option ℤ × Bool) :=
  gaps.map fun row => gapWindow snapTs spanEnd row.recvTsUs

/-- One turn of the loop over sorted windows. -/
def unionStep (acc : ℤ × Option (ℤ × ℤ)) (w : ℤ × ℤ) : ℤ × Option (ℤ × ℤ) :=
  match acc.2 with
  | none => (acc.1, some w)
  | some cur =>
    if w.1 > cur.2 then (acc.1 + (cur.2 - cur.1), some w) else (acc.1, some (cur.1, max cur.2 w.2))

/-- What the loop returns. -/
def unionTotal (acc : ℤ × Option (ℤ × ℤ)) : ℤ :=
  match acc.2 with
  | none => acc.1
  | some cur => acc.1 + (cur.2 - cur.1)

/-- Total covered microseconds of possibly overlapping windows. -/
def unionUs (windows : List (ℤ × ℤ)) : ℤ :=
  unionTotal ((windows.insertionSort fun a b => toLex a ≤ toLex b).foldl unionStep (0, none))

/-- What the figures of an entry are computed from. -/
structure BookAndWindows where
  hasBook : Bool
  spanStart : Option ℤ
  spanEnd : Option ℤ
  gaps : Option GapsTable
  windows : List (ℤ × Option ℤ × Bool)

/-- Span, gaps and windows of an entry.  The span is the book extent; without book rows it is that
of the trade tape. -/
def bookAndWindows (entry : Entry) : Except KdpDataError BookAndWindows := do
  let book ← readTable entry.path "book_events" entry.bookEvents
  let hasBook := !(book.getD []).isEmpty
  let times := (book.getD []).map (·.recvTsUs)
  let (span, snapTs) ←
    if hasBook then
      pure (extentOf times, ((snapshotTimes (book.getD [])).dedup).insertionSort (· ≤ ·))
    else do
      let trades ← readTable entry.path "trades" entry.trades
      pure (extentOf ((trades.getD []).map (·.eventTsUs)), [])
  let gaps ← readGaps entry hasBook
  let windows := match gaps with
    | some gaps => gapWindows gaps snapTs span.2
    | none => []
  return { hasBook, spanStart := span.1, spanEnd := span.2, gaps, windows }

/-- A window clamped to the span, unless it has no end or nothing is left of it. -/
def clampWindow (ss se : ℤ) : ℤ × Option ℤ × Bool → Option (ℤ × ℤ)
  | (_, none, _) => none
  | (s, some e, _) => if min e se > max s ss then some (max s ss, min e se) else none

/-- The accounting row of one entry. -/
structure CoverageRow where
  hasBook : Bool
  spanStart : Option ℤ
  spanEnd : Option ℤ
  spanUs : Option ℤ
  nGaps : Option ℕ
  nUnresolvedGaps : Option ℕ
  holeUs : Option ℤ
  deriving DecidableEq, Repr

/-- The accounting row of what an entry holds. -/
def BookAndWindows.row (b : BookAndWindows) : CoverageRow :=
  { hasBook := b.hasBook, spanStart := b.spanStart, spanEnd := b.spanEnd
    spanUs := match b.spanStart, b.spanEnd with
      | some ss, some se => some (se - ss)
      | _, _ => none
    nGaps := b.gaps.map (·.length)
    nUnresolvedGaps := b.gaps.map fun _ => (b.windows.filter fun w => !w.2.2).length
    holeUs := match b.hasBook, b.spanStart, b.spanEnd with
      | true, some ss, some se => some (unionUs (b.windows.filterMap (clampWindow ss se)))
      | _, _, _ => none }

/-- The accounting row of one entry. -/
def entryRow (entry : Entry) : Except KdpDataError CoverageRow := do
  return (← bookAndWindows entry).row

/-- The entry a ticker was written to: these tables are written whether or not they have rows. -/
def TickerOutput.entry (out : TickerOutput) (path : String) : Entry :=
  { path, bookEvents := some (.ok out.bookEvents), trades := some (.ok out.trades)
    gaps := some (.ok out.gaps) }

/-! ## The two sweeps -/

theorem unionTotal_foldl (windows : List (ℤ × ℤ)) (total : ℤ) (cur : Option (ℤ × ℤ)) :
    unionTotal (windows.foldl unionStep (total, cur)) = unionLength cur total windows := by
  induction windows generalizing total cur with
  | nil => cases cur <;> rfl
  | cons w windows ih =>
    rw [List.foldl_cons, unionStep]
    cases cur with
    | none => exact ih total (some w)
    | some cur =>
      show unionTotal (windows.foldl unionStep (if w.1 > cur.2 then _ else _)) =
        if w.1 ≤ cur.2 then _ else _
      by_cases hmeet : w.1 ≤ cur.2
      · rw [if_neg (not_lt.2 hmeet), if_pos hmeet, ih]
      · rw [if_pos (not_le.1 hmeet), if_neg hmeet, ih]

theorem clampWindow_gapWindow (snapTs : List ℤ) (ss se start : ℤ) :
    clampWindow ss se (gapWindow snapTs (some se) start) = holeWindow snapTs ss se start := by
  unfold gapWindow holeWindow bisectLeft
  cases snapTs[(snapTs.takeWhile (· < start)).length]? with
  | some t => rfl
  | none =>
    by_cases hend : start ≤ se
    · simp [Option.filter, hend, clampWindow]
    · simp [Option.filter, hend, clampWindow]

/-- The Python hole counts the suspect ticks too. -/
theorem unionUs_gapWindows {snapTs : List ℤ} (h : snapTs.Pairwise (· ≤ ·)) (gaps : GapsTable)
    (ss se : ℤ) : unionUs ((gapWindows gaps snapTs (some se)).filterMap (clampWindow ss se)) =
      (holeTicks (gaps.map (·.recvTsUs)) snapTs ss se).card := by
  have hwindows : (gapWindows gaps snapTs (some se)).filterMap (clampWindow ss se) =
      (gaps.map (·.recvTsUs)).filterMap (holeWindow snapTs ss se) := by
    rw [gapWindows, List.filterMap_map, List.filterMap_map]
    exact List.filterMap_congr fun row _ => clampWindow_gapWindow snapTs ss se row.recvTsUs
  rw [hwindows, unionUs, unionTotal_foldl, unionLength_holeWindows h]

/-! ## The hole as a length -/

/-- The windows of the gaps, clamped to the extent, are as long as the hole has ticks. -/
theorem volume_windows (gaps snaps : List ℤ) (ss se : ℤ) :
    volume ((⋃ g ∈ gaps, Set.Ico (g : ℝ) (closing snaps se g)) ∩ Set.Icc (ss : ℝ) se) =
      (holeTicks gaps snaps ss se).card := by
  have hclosed : ((⋃ g ∈ gaps, Set.Ico (g : ℝ) (closing snaps se g)) ∩ Set.Icc (ss : ℝ) se : Set ℝ)
      =ᵐ[volume] ((⋃ g ∈ gaps, Set.Ico (g : ℝ) (closing snaps se g)) ∩ Set.Ico (ss : ℝ) se :) :=
    (ae_eq_refl _).inter Ico_ae_eq_Icc.symm
  have hclamped : (⋃ g ∈ gaps, Set.Ico (g : ℝ) (closing snaps se g)) ∩ Set.Ico (ss : ℝ) se =
      ⋃ w ∈ gaps.map (clamped snaps ss se), Set.Ico (w.1 : ℝ) w.2 := by
    ext x
    simp only [Set.mem_inter_iff, Set.mem_iUnion, List.mem_map, Set.mem_Ico, exists_prop]
    constructor
    · rintro ⟨⟨g, hg, hle, hlt⟩, hss, hse⟩
      refine ⟨_, ⟨g, hg, rfl⟩, ?_, ?_⟩
      · simpa [clamped] using ⟨hle, hss⟩
      · simpa [clamped] using ⟨hlt, hse⟩
    · rintro ⟨_, ⟨g, hg, rfl⟩, hle, hlt⟩
      simp only [clamped, Int.cast_max, Int.cast_min, max_le_iff, lt_min_iff] at hle hlt
      exact ⟨⟨g, hg, hle.1, hlt.1⟩, hle.2, hlt.2⟩
  rw [measure_congr hclosed, hclamped, volume_iUnion_Ico, cover_clamped]

/-! ## Agreement -/

/-- What the coverage figures of a processed ticker are, in both codes. -/
structure CoverageAgrees (path : String) (out : TickerOutput) : Prop where
  row : ∃ row, entryRow (out.entry path) = .ok row ∧
    (row.spanUs, row.holeUs) = (out.spanUs, out.holeUs)
  measured : out.bookEvents ≠ [] → ∃ ss se hole : ℤ,
    extentOf (out.bookEvents.map (·.recvTsUs)) = (some ss, some se) ∧
    out.spanUs = some (se - ss) ∧ out.holeUs = some hole ∧
    volume ((⋃ (g : ℤ) (_ : g ∈ out.gaps.map (·.recvTsUs)),
      Set.Ico (g : ℝ) (closing (snapshotTimes out.bookEvents) se g)) ∩ Set.Icc (ss : ℝ) se) =
        ENNReal.ofReal hole ∧
    0 ≤ hole ∧ hole ≤ se - ss
  gaps_as_set : ∀ rows : List (Envelope × GapMarker),
    (∀ t, t ∈ rows.map (·.1.recvUs) ↔ t ∈ out.gaps.map (·.recvTsUs)) →
    coverage rows (snapshotTimes out.bookEvents) (extentOf (out.bookEvents.map (·.recvTsUs)))
      (extentOf (out.trades.map (·.eventTsUs))) = (out.spanUs, out.holeUs)
  gaps_table_as_set : ∀ gaps : GapsTable,
    (∀ t, t ∈ gaps.map (·.recvTsUs) ↔ t ∈ out.gaps.map (·.recvTsUs)) →
    ∃ row, entryRow { out.entry path with gaps := some (.ok gaps) } = .ok row ∧
      (row.spanUs, row.holeUs) = (out.spanUs, out.holeUs)

theorem exists_extentOf {times : List ℤ} (h : times ≠ []) :
    ∃ ss se, extentOf times = (some ss, some se) ∧ ss ≤ se := by
  obtain ⟨ss, hss⟩ := Option.ne_none_iff_exists'.1 (mt List.min?_eq_none_iff.1 h)
  obtain ⟨se, hse⟩ := Option.ne_none_iff_exists'.1 (mt List.max?_eq_none_iff.1 h)
  refine ⟨ss, se, by rw [extentOf, hss, hse], ?_⟩
  exact (List.min?_eq_some_iff.1 hss).2 se (List.max?_eq_some_iff.1 hse).1

section Tables

variable (path : String) (out : TickerOutput) (gaps : GapsTable)

/-- With book rows, the Python row has the length of the book extent and its suspect ticks. -/
theorem entryRow_book {ss se : ℤ}
    (hextent : extentOf (out.bookEvents.map (·.recvTsUs)) = (some ss, some se)) :
    ∃ row, entryRow { out.entry path with gaps := some (.ok gaps) } = .ok row ∧
      row.spanUs = some (se - ss) ∧ row.holeUs = some
        ((holeTicks (gaps.map (·.recvTsUs)) (snapshotTimes out.bookEvents) ss se).card : ℤ) := by
  have hbook : out.bookEvents.isEmpty = false := by
    cases hb : out.bookEvents with
    | nil => simp [hb, extentOf] at hextent
    | cons row rows => rfl
  set snapTs := ((snapshotTimes out.bookEvents).dedup).insertionSort (· ≤ ·) with hsnaps
  have hsorted : snapTs.Pairwise (· ≤ ·) := List.pairwise_insertionSort (· ≤ ·) _
  have hmem (t : ℤ) : t ∈ snapTs ↔ t ∈ snapshotTimes out.bookEvents := by
    rw [hsnaps, List.mem_insertionSort, List.mem_dedup]
  refine ⟨BookAndWindows.row { hasBook := true, spanStart := some ss, spanEnd := some se
                               gaps := some gaps, windows := gapWindows gaps snapTs (some se) },
    ?_, rfl, ?_⟩
  · simp only [entryRow, bookAndWindows, TickerOutput.entry, readTable, readGaps]
    simp only [bind, Except.bind, pure, Except.pure, Option.getD_some, hbook, hextent,
      Bool.not_false, if_true, Option.isNone_some, Bool.false_and, Bool.false_eq_true, if_false]
    rfl
  · show some (unionUs _) = _
    rw [unionUs_gapWindows hsorted, holeTicks_congr (fun _ => Iff.rfl) hmem]

theorem entryRow_no_book (hbook : out.bookEvents = []) :
    ∃ row, entryRow { out.entry path with gaps := some (.ok gaps) } = .ok row ∧
      row.holeUs = none ∧
      row.spanUs = match (out.trades.map (·.eventTsUs)).min?, (out.trades.map (·.eventTsUs)).max? with
        | some a, some b => some (b - a)
        | _, _ => none := by
  simp only [entryRow, bookAndWindows, TickerOutput.entry, readTable, readGaps, hbook]
  exact ⟨_, rfl, rfl, rfl⟩

end Tables

/-- The span and hole time in the manifest of a processed ticker are those the Python code computes
from its tables; with book rows the hole is the measure of the gaps' windows inside the book extent,
and the gap rows count as a set of times. -/
theorem coverage_agrees {ticker : String} {orderbookFiles tradeFiles : List CaptureFile}
    {out : TickerOutput} (h : processTicker ticker orderbookFiles tradeFiles = .ok (some out))
    (path : String) : CoverageAgrees path out := by
  have htable (gaps : GapsTable)
      (hgaps : ∀ t, t ∈ gaps.map (·.recvTsUs) ↔ t ∈ out.gaps.map (·.recvTsUs)) :
      ∃ row, entryRow { out.entry path with gaps := some (.ok gaps) } = .ok row ∧
        (row.spanUs, row.holeUs) = (out.spanUs, out.holeUs) := by
    by_cases hbook : out.bookEvents = []
    · obtain ⟨hhole, hspan⟩ := figures_of_no_book h hbook
      obtain ⟨row, hrow, hrowHole, hrowSpan⟩ := entryRow_no_book path out gaps hbook
      refine ⟨row, hrow, ?_⟩
      exact Prod.ext (hrowSpan.trans hspan.symm) (hrowHole.trans hhole.symm)
    · obtain ⟨ss, se, hextent, -⟩ := exists_extentOf (mt List.map_eq_nil_iff.1 hbook)
      obtain ⟨hspan, hhole⟩ := figures_of_processTicker h hextent
      obtain ⟨row, hrow, hrowSpan, hrowHole⟩ := entryRow_book path out gaps hextent
      refine ⟨row, hrow, ?_⟩
      rw [hrowHole, hrowSpan, hhole, hspan, holeTicks_congr hgaps fun _ => Iff.rfl]
  constructor
  case row => exact htable out.gaps fun _ => Iff.rfl
  case gaps_table_as_set => exact htable
  case gaps_as_set =>
    intro rows hrows
    by_cases hbook : out.bookEvents = []
    · obtain ⟨hhole, hspan⟩ := figures_of_no_book h hbook
      rw [hhole, hspan, hbook]
      rfl
    · obtain ⟨ss, se, hextent, -⟩ := exists_extentOf (mt List.map_eq_nil_iff.1 hbook)
      obtain ⟨hspan, hhole⟩ := figures_of_processTicker h hextent
      rw [hextent, coverage_eq, hspan, hhole, holeTicks_congr hrows fun _ => Iff.rfl]
  case measured =>
    intro hbook
    obtain ⟨ss, se, hextent, hle⟩ := exists_extentOf (mt List.map_eq_nil_iff.1 hbook)
    obtain ⟨hspan, hhole⟩ := figures_of_processTicker h hextent
    refine ⟨ss, se, _, hextent, hspan, hhole, ?_, by omega, card_holeTicks_le _ _ hle⟩
    rw [volume_windows]
    simp

/-- A capture of market `A`: a snapshot, a reconnect five microseconds later and a delta after
another five. -/
def holedFile : CaptureFile :=
  { path := "orderbook/2026-07-03.jsonl"
    lines := [
      .text "snapshot" (.ok (.new epoch (some 1) (some 1) (.snapshot
        { ticker := ⟨"A"⟩, ts := epoch, yes := [⟨⟨500000⟩, ⟨100⟩⟩], no := [] }))),
      .text "gap" (.ok (.new ⟨5000, by decide⟩ none none (.gap
        { reason := .reconnect, ticker := ⟨"A"⟩, channel := "orderbook", lastSeq := none
          observedSeq := none, detail := "" }))),
      .text "delta" (.ok (.new ⟨10 ^ 4, by decide⟩ (some 2) (some 1) (.delta
        { ticker := ⟨"A"⟩, ts := ⟨10 ^ 4, by decide⟩, price := ⟨500000⟩, side := .yes
          delta := ⟨100⟩ })))] }

theorem coverage_agrees_sample : ∃ out, processTicker "A" [holedFile] [] = .ok (some out) ∧
    out.spanUs = some 10 ∧ out.holeUs = some 5 ∧ CoverageAgrees "A" out := by
  obtain ⟨out, hout, hspan, hhole⟩ : ∃ out, processTicker "A" [holedFile] [] = .ok (some out) ∧
      out.spanUs = some 10 ∧ out.holeUs = some 5 := ⟨_, rfl, by decide, by decide⟩
  exact ⟨out, hout, hspan, hhole, coverage_agrees hout "A"⟩

end Snapevent
