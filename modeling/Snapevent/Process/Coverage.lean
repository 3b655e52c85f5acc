import Snapevent.Lib.Windows
import Snapevent.Process.Collected

/-!
# What the hole figure counts

The manifest's hole time is a sweep over clamped windows.  It counts the ticks inside the book
extent at which some gap still waits for a snapshot, and so depends on the times of the gaps and
snapshots only.
-/

namespace Snapevent

open Windows

/-! ## The ticks of a hole -/

/-- At `t` some gap still waits for the first snapshot at or after it. -/
def Suspect (gaps snaps : List ℤ) (t : ℤ) : Prop := ∃ g ∈ gaps, g ≤ t ∧ ∀ s ∈ snaps, g ≤ s → t < s

instance (gaps snaps : List ℤ) (t : ℤ) : Decidable (Suspect gaps snaps t) :=
  inferInstanceAs (Decidable (∃ g ∈ gaps, g ≤ t ∧ ∀ s ∈ snaps, g ≤ s → t < s))

/-- The suspect ticks of the extent `[ss, se)`. -/
noncomputable def holeTicks (gaps snaps : List ℤ) (ss se : ℤ) : Finset ℤ :=
  (Finset.Ico ss se).filter (Suspect gaps snaps)

theorem mem_holeTicks {gaps snaps : List ℤ} {ss se t : ℤ} :
    t ∈ holeTicks gaps snaps ss se ↔ (ss ≤ t ∧ t < se) ∧ Suspect gaps snaps t := by
  simp [holeTicks]

theorem holeTicks_congr {gaps gaps' snaps snaps' : List ℤ} (hgaps : ∀ t, t ∈ gaps ↔ t ∈ gaps')
    (hsnaps : ∀ t, t ∈ snaps ↔ t ∈ snaps') (ss se : ℤ) :
    holeTicks gaps snaps ss se = holeTicks gaps' snaps' ss se := by
  ext t
  simp only [mem_holeTicks, Suspect, hgaps, hsnaps]

theorem card_holeTicks_le (gaps snaps : List ℤ) {ss se : ℤ} (h : ss ≤ se) :
    ((holeTicks gaps snaps ss se).card : ℤ) ≤ se - ss := by
  have hle := Finset.card_filter_le (Finset.Ico ss se) (Suspect gaps snaps)
  rw [Int.card_Ico] at hle
  rw [holeTicks]
  omega

/-- Where the window of a gap closes: at the first snapshot at or after the gap, else at the end of
the span. -/
def closing (snaps : List ℤ) (se g : ℤ) : ℤ := (firstAtOrAfter snaps g).getD se

theorem lt_closing_iff {snaps : List ℤ} {se g t : ℤ} (ht : t < se) :
    t < closing snaps se g ↔ ∀ s ∈ snaps, g ≤ s → t < s := by
  unfold closing
  cases hfirst : firstAtOrAfter snaps g with
  | none =>
    rw [firstAtOrAfter_eq_none] at hfirst
    refine ⟨fun _ s hs hg => ?_, fun _ => ht⟩
    have := hfirst s hs
    omega
  | some a =>
    obtain ⟨⟨ha, hga⟩, hmin⟩ := firstAtOrAfter_eq_some.1 hfirst
    constructor
    · intro hlt s hs hg
      exact lt_of_lt_of_le hlt (hmin s hs hg)
    · intro h
      exact h a ha hga

/-- The window of a gap, clamped to the span. -/
def clamped (snaps : List ℤ) (ss se g : ℤ) : ℤ × ℤ := (max g ss, min (closing snaps se g) se)

theorem cover_clamped (gaps snaps : List ℤ) (ss se : ℤ) :
    cover (gaps.map (clamped snaps ss se)) = holeTicks gaps snaps ss se := by
  ext t
  rw [mem_cover, mem_holeTicks]
  constructor
  · rintro ⟨w, hw, hle, hlt⟩
    obtain ⟨g, hg, rfl⟩ := List.mem_map.1 hw
    obtain ⟨hgt, hst⟩ := max_le_iff.1 hle
    obtain ⟨hclose, hend⟩ := lt_min_iff.1 hlt
    exact ⟨⟨hst, hend⟩, g, hg, hgt, (lt_closing_iff hend).1 hclose⟩
  · rintro ⟨⟨hst, hend⟩, g, hg, hgt, hopen⟩
    refine ⟨clamped snaps ss se g, List.mem_map_of_mem hg, ?_, ?_⟩
    · exact max_le hgt hst
    · exact lt_min ((lt_closing_iff hend).2 hopen) hend

/-! ## The sweep -/

theorem unionLength_some {cur : ℤ × ℤ} {windows : List (ℤ × ℤ)}
    (hsorted : (cur :: windows).Pairwise fun a b => a.1 ≤ b.1)
    (hwindow : ∀ w ∈ cur :: windows, w.1 ≤ w.2) (total : ℤ) :
    unionLength (some cur) total windows = total + (cover (cur :: windows)).card := by
  induction windows generalizing cur total with
  | nil =>
    rw [card_cover_cons (hwindow cur List.mem_cons_self) (by simp)]
    simp [unionLength]
  | cons w windows ih =>
    obtain ⟨hcur, htail⟩ := List.pairwise_cons.1 hsorted
    obtain ⟨hw, hrest⟩ := List.pairwise_cons.1 htail
    obtain ⟨hcurw, hwindows⟩ := List.forall_mem_cons.1 hwindow
    unfold unionLength
    dsimp only
    split_ifs with hmeet
    · rw [ih, cover_merge (hcur w List.mem_cons_self) hmeet]
      · exact List.pairwise_cons.2 ⟨fun b hb => hcur b (List.mem_cons_of_mem _ hb), hrest⟩
      · refine List.forall_mem_cons.2 ⟨le_max_of_le_left hcurw, fun b hb => ?_⟩
        exact hwindows b (List.mem_cons_of_mem _ hb)
    · rw [ih htail hwindows, card_cover_cons hcurw]
      · omega
      · refine List.forall_mem_cons.2 ⟨by omega, fun b hb => ?_⟩
        have := hw b hb
        omega

theorem unionLength_eq {windows : List (ℤ × ℤ)}
    (hsorted : windows.Pairwise fun a b => a.1 ≤ b.1) (hwindow : ∀ w ∈ windows, w.1 ≤ w.2) :
    unionLength none 0 windows = (cover windows).card := by
  cases windows with
  | nil => rfl
  | cons w windows =>
    show unionLength (some w) 0 windows = _
    rw [unionLength_some hsorted hwindow, Int.zero_add]

/-! ## The figure -/

theorem holeWindow_eq {snaps : List ℤ} (h : snaps.Pairwise (· ≤ ·)) (ss se g : ℤ) :
    holeWindow snaps ss se g =
      if max g ss < min (closing snaps se g) se then some (clamped snaps ss se g) else none := by
  unfold holeWindow
  rw [getElem?_bisect h, clamped, closing]
  cases firstAtOrAfter snaps g with
  | some t => rfl
  | none =>
    dsimp only [Option.getD_none]
    by_cases hend : g ≤ se
    · rw [if_pos hend]
      rfl
    · rw [if_neg hend, if_neg (by omega)]
      rfl

theorem cover_filterMap_holeWindow {snaps : List ℤ} (h : snaps.Pairwise (· ≤ ·)) (gaps : List ℤ)
    (ss se : ℤ) : cover (gaps.filterMap (holeWindow snaps ss se)) =
      cover (gaps.map (clamped snaps ss se)) := by
  induction gaps with
  | nil => rfl
  | cons g gaps ih =>
    rw [List.filterMap_cons, List.map_cons, cover_cons, ← ih, holeWindow_eq h]
    split_ifs with hlt
    · rw [cover_cons]
    · rw [clamped, Finset.Ico_eq_empty (by simpa using hlt), Finset.empty_union]

theorem toLex_sorted (windows : List (ℤ × ℤ)) :
    (windows.insertionSort fun a b => toLex a ≤ toLex b).Pairwise fun a b => a.1 ≤ b.1 := by
  refine (List.pairwise_insertionSort (fun a b => toLex a ≤ toLex b) windows).imp fun hab => ?_
  rcases Prod.Lex.toLex_le_toLex.1 hab with hlt | ⟨heq, -⟩
  · exact hlt.le
  · exact heq.le

theorem mem_holeWindows {snaps gaps : List ℤ} {ss se : ℤ} {w : ℤ × ℤ}
    (h : w ∈ gaps.filterMap (holeWindow snaps ss se)) : w.1 ≤ w.2 := by
  obtain ⟨g, -, hw⟩ := List.mem_filterMap.1 h
  unfold holeWindow at hw
  obtain ⟨e, -, he⟩ := Option.bind_eq_some_iff.1 hw
  split_ifs at he with hlt
  cases he
  exact hlt.le

/-- The sweep over the windows of some gaps counts the suspect ticks. -/
theorem unionLength_holeWindows {snaps : List ℤ} (h : snaps.Pairwise (· ≤ ·)) (gaps : List ℤ)
    (ss se : ℤ) :
    unionLength none 0 ((gaps.filterMap (holeWindow snaps ss se)).insertionSort
      fun a b => toLex a ≤ toLex b) = (holeTicks gaps snaps ss se).card := by
  rw [unionLength_eq (toLex_sorted _)
      fun w hw => mem_holeWindows ((List.mem_insertionSort _).1 hw),
    cover_congr fun w => List.mem_insertionSort _, cover_filterMap_holeWindow h, cover_clamped]

/-- Inside a book extent, span and hole are its length and the number of its suspect ticks. -/
theorem coverage_eq (rows : List (Envelope × GapMarker)) (snapTsUs : List ℤ) (ss se : ℤ)
    (trade : Extent) : coverage rows snapTsUs (some ss, some se) trade =
      (some (se - ss),
        some ((holeTicks (rows.map fun r => r.1.recvUs) snapTsUs ss se).card : ℤ)) := by
  set snaps := (snapTsUs.insertionSort (· ≤ ·)).dedup with hsnaps
  have hsorted : snaps.Pairwise (· ≤ ·) :=
    (List.pairwise_insertionSort (· ≤ ·) snapTsUs).sublist (List.dedup_sublist _)
  have hmem (t : ℤ) : t ∈ snaps ↔ t ∈ snapTsUs := by
    rw [hsnaps, List.mem_dedup, List.mem_insertionSort]
  have hgaps : (rows.filterMap fun r => holeWindow snaps ss se r.1.recvUs) =
      (rows.map fun r => r.1.recvUs).filterMap (holeWindow snaps ss se) := by
    rw [List.filterMap_map]
    rfl
  have hlength := unionLength_holeWindows hsorted (rows.map fun r => r.1.recvUs) ss se
  rw [holeTicks_congr (fun _ => Iff.rfl) hmem] at hlength
  unfold coverage
  simp only [← hsnaps, hgaps, hlength]
  rfl

/-! ## The extents of the tables -/

/-- First and last of some times. -/
def extentOf (times : List ℤ) : Extent := (times.min?, times.max?)

theorem extentOf_append {times more : List ℤ} {t : ℤ} (hne : more ≠ [])
    (hmore : ∀ u ∈ more, u = t) : extentOf (times ++ more) = extend (extentOf times) t := by
  obtain ⟨u, hu⟩ := List.exists_mem_of_ne_nil more hne
  have ht : t ∈ more := by
    rw [← hmore u hu]
    exact hu
  cases times with
  | nil =>
    have hmin : more.min? = some t := List.min?_eq_some_iff.2 ⟨ht, fun b hb => (hmore b hb).ge⟩
    have hmax : more.max? = some t := List.max?_eq_some_iff.2 ⟨ht, fun b hb => (hmore b hb).le⟩
    rw [List.nil_append, extentOf, hmin, hmax]
    rfl
  | cons a times =>
    obtain ⟨lo, hlo⟩ := Option.ne_none_iff_exists'.1
      (mt List.min?_eq_none_iff.1 (List.cons_ne_nil a times))
    obtain ⟨hi, hhi⟩ := Option.ne_none_iff_exists'.1
      (mt List.max?_eq_none_iff.1 (List.cons_ne_nil a times))
    obtain ⟨hlomem, hlole⟩ := List.min?_eq_some_iff.1 hlo
    obtain ⟨himem, hhile⟩ := List.max?_eq_some_iff.1 hhi
    have hmin : ((a :: times) ++ more).min? = some (min lo t) := by
      refine List.min?_eq_some_iff.2 ⟨?_, fun b hb => ?_⟩
      · rcases min_choice lo t with heq | heq
        · rw [heq]
          exact List.mem_append_left _ hlomem
        · rw [heq]
          exact List.mem_append_right _ ht
      · cases List.mem_append.1 hb with
        | inl h => exact min_le_of_left_le (hlole b h)
        | inr h => exact min_le_of_right_le (hmore b h).ge
    have hmax : ((a :: times) ++ more).max? = some (max hi t) := by
      refine List.max?_eq_some_iff.2 ⟨?_, fun b hb => ?_⟩
      · rcases max_choice hi t with heq | heq
        · rw [heq]
          exact List.mem_append_left _ himem
        · rw [heq]
          exact List.mem_append_right _ ht
      · cases List.mem_append.1 hb with
        | inl h => exact le_max_of_le_left (hhile b h)
        | inr h => exact le_max_of_le_right (hmore b h).le
    rw [extentOf, extentOf, hlo, hhi, hmin, hmax]
    rfl

/-- The times of the snapshot rows. -/
def snapshotTimes (book : BookEventsTable) : List ℤ :=
  (book.filter (·.isSnapshot)).map (·.recvTsUs)

/-- The extents and snapshot times a state carries are those of its tables. -/
structure TickerState.Spans (st : TickerState) : Prop where
  book : st.bookExtent = extentOf (st.bookEvents.map (·.recvTsUs))
  trade : st.tradeExtent = extentOf (st.trades.map (·.eventTsUs))
  snaps : ∀ t, t ∈ st.snapTsUs ↔ t ∈ snapshotTimes st.bookEvents

namespace TickerState

theorem Spans.book_record {st : TickerState} (hs : st.Spans) (idx : ℤ) {env : Envelope}
    (hb : env.isBook = true) : extend st.bookExtent env.recvUs =
      extentOf ((st.bookEvents ++ numberedRows idx env).map (·.recvTsUs)) := by
  rw [hs.book, List.map_append, extentOf_append]
  · simpa using numberedRows_ne_nil idx hb
  · intro u hu
    obtain ⟨row, hrow, rfl⟩ := List.mem_map.1 hu
    exact (numberedRows_stamp hrow).1

theorem snapshotTimes_append (book book' : BookEventsTable) :
    snapshotTimes (book ++ book') = snapshotTimes book ++ snapshotTimes book' := by
  simp [snapshotTimes]

theorem mem_snapshotTimes_numberedRows {idx : ℤ} {env : Envelope} {t : ℤ} :
    t ∈ snapshotTimes (numberedRows idx env) ↔ (∃ s, env.kind = .snapshot s) ∧ t = env.recvUs := by
  unfold snapshotTimes
  rw [List.mem_map]
  constructor
  · rintro ⟨row, hrow, rfl⟩
    obtain ⟨hmem, hsnap⟩ := List.mem_filter.1 hrow
    obtain ⟨hrecv, hkind⟩ := numberedRows_stamp hmem
    exact ⟨hkind.1 hsnap, hrecv⟩
  · rintro ⟨⟨s, hs⟩, rfl⟩
    have hb : env.isBook = true := by rw [Envelope.isBook, hs]
    obtain ⟨row, hrow⟩ := List.exists_mem_of_ne_nil _ (numberedRows_ne_nil idx hb)
    obtain ⟨hrecv, hkind⟩ := numberedRows_stamp hrow
    exact ⟨row, List.mem_filter.2 ⟨hrow, hkind.2 ⟨s, hs⟩⟩, hrecv⟩

theorem Spans.onItem {st st' : TickerState} {c : Channel} {i : ReadItem} (hs : st.Spans)
    (h : st.onItem c i = .ok st') : st'.Spans := by
  cases onItem_step h with
  | @snapshot env s hk =>
    constructor
    · exact hs.book_record st.eventIdx (by rw [Envelope.isBook, hk])
    · exact hs.trade
    · intro t
      show t ∈ st.snapTsUs ++ [env.recvUs] ↔
        t ∈ snapshotTimes (st.bookEvents ++ numberedRows st.eventIdx env)
      rw [snapshotTimes_append, List.mem_append, List.mem_append, hs.snaps,
        mem_snapshotTimes_numberedRows, List.mem_singleton]
      simp [hk]
  | @delta env d hk =>
    constructor
    · exact hs.book_record st.eventIdx (by rw [Envelope.isBook, hk])
    · exact hs.trade
    · intro t
      show t ∈ st.snapTsUs ↔ t ∈ snapshotTimes (st.bookEvents ++ numberedRows st.eventIdx env)
      rw [snapshotTimes_append, List.mem_append, hs.snaps, mem_snapshotTimes_numberedRows]
      simp [hk]
  | @trade env tr hk =>
    refine ⟨hs.book, ?_, hs.snaps⟩
    dsimp only
    rw [List.map_append, hs.trade, extentOf_append (by simp)]
    simp [TradesTable.row]
  | error e => exact ⟨hs.book, hs.trade, hs.snaps⟩
  | gap hk => exact ⟨hs.book, hs.trade, hs.snaps⟩
  | raw hk => exact ⟨hs.book, hs.trade, hs.snaps⟩
  | verify hk => exact ⟨hs.book, hs.trade, hs.snaps⟩

theorem spans_of_onFiles {orderbookFiles tradeFiles : List CaptureFile} {st : TickerState}
    (h : onFiles orderbookFiles tradeFiles = .ok st) : st.Spans :=
  onFiles_invariant (P := fun st _ => st.Spans) (fun _ hs => ⟨hs.book, hs.trade, hs.snaps⟩)
    (fun hs hi => hs.onItem hi) ⟨rfl, rfl, fun _ => Iff.rfl⟩ h

end TickerState

/-- The manifest figures of a processed ticker with book rows: the length of the book extent and the
suspect ticks inside it. -/
theorem figures_of_processTicker {ticker : String} {orderbookFiles tradeFiles : List CaptureFile}
    {out : TickerOutput} (h : processTicker ticker orderbookFiles tradeFiles = .ok (some out))
    {ss se : ℤ} (hextent : extentOf (out.bookEvents.map (·.recvTsUs)) = (some ss, some se)) :
    out.spanUs = some (se - ss) ∧ out.holeUs = some
      ((holeTicks (out.gaps.map (·.recvTsUs)) (snapshotTimes out.bookEvents) ss se).card : ℤ) := by
  obtain ⟨st, hst, rfl⟩ := processTicker_eq_some h
  have hspans := TickerState.spans_of_onFiles hst
  have hbook : st.bookExtent = (some ss, some se) := hspans.book.trans hextent
  set rows := sortGapRows (st.gapRows ++ st.engine.finish.filterMap (mismatchGapRow ticker))
    with hrows
  have hgaps : (gapsTable rows).map (·.recvTsUs) = rows.map fun r => r.1.recvUs := by
    rw [gapsTable_eq, List.map_map]
    rfl
  have hcov := coverage_eq rows st.snapTsUs ss se st.tradeExtent
  rw [← hbook, ← hgaps, holeTicks_congr (fun _ => Iff.rfl) hspans.snaps] at hcov
  exact ⟨congrArg Prod.fst hcov, congrArg Prod.snd hcov⟩

/-- Without book rows there is no hole figure, and the span is that of the trades. -/
theorem figures_of_no_book {ticker : String} {orderbookFiles tradeFiles : List CaptureFile}
    {out : TickerOutput} (h : processTicker ticker orderbookFiles tradeFiles = .ok (some out))
    (hbook : out.bookEvents = []) : out.holeUs = none ∧
      out.spanUs = match (out.trades.map (·.eventTsUs)).min?, (out.trades.map (·.eventTsUs)).max? with
        | some a, some b => some (b - a)
        | _, _ => none := by
  obtain ⟨st, hst, rfl⟩ := processTicker_eq_some h
  have hspans := TickerState.spans_of_onFiles hst
  have hempty : st.bookEvents = [] := hbook
  have hextent : st.bookExtent = (none, none) := by
    rw [hspans.book, hempty]
    rfl
  unfold TickerState.finish
  dsimp only
  rw [hextent, hspans.trade]
  exact ⟨rfl, rfl⟩

end Snapevent
