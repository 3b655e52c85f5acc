import Snapevent.Core.ExactBook
import Snapevent.Load.Range

/-!
# Random access and consecutive windows

The ladder at an instant, as the Python binding reads it off a range replay of one microsecond
(`kdp-load-py`), and what a window leaves for the window after it.  Jumping to an instant and
playing a window up to it show the same book, and a stream that is replayed window by window is the
stream that is replayed at once.
-/

namespace Snapevent

/-- The full depth at an instant and the gaps it is suspect for. -/
structure Ladder where
  tsUs : ℤ
  yes : List Level
  no : List Level
  suspectGaps : List ReplayEvent
  deriving DecidableEq, Repr

/-- Why there is no ladder. -/
inductive BookAtError
  | load (e : LoadError)
  | noOpener

/-- Read the ladder off a range replay: the gaps, then the synthetic opener. -/
def readLadder (t : ℤ) (gaps : List ReplayEvent) :
    List (Except LoadError ReplayEvent) → Except BookAtError Ladder
  | [] => .error .noOpener
  | .error e :: _ => .error (.load e)
  | .ok ev :: items =>
    match ev with
    | .gap .. => readLadder t (gaps ++ [ev]) items
    | .snapshot _ _ yes no true => .ok ⟨t, yes, no, gaps⟩
    | _ => .error .noOpener

/-- The ladder at `t`; the end of the range wraps at the largest time. -/
def Loader.bookAt (l : Loader) (t : Int64) : Except BookAtError Ladder :=
  match l.between t.toInt (t + 1).toInt with
  | .error e => .error (.load e)
  | .ok r => readLadder t.toInt [] r.items

/-- The ladder of a replayed book. -/
def BookReplayer.ladder (r : BookReplayer) (t : ℤ) : Ladder :=
  ⟨t, positiveLevels r.book.yes, positiveLevels r.book.no, r.pendingGaps⟩

theorem readLadder_opener (t : ℤ) (r : BookReplayer) (items : List (Except LoadError ReplayEvent))
    {lead : List ReplayEvent} (hlead : ∀ ev ∈ lead, ev.isGap) (gaps : List ReplayEvent) :
    readLadder t gaps (lead.map .ok ++ .ok (r.syntheticSnapshot t) :: items) =
      .ok ⟨t, positiveLevels r.book.yes, positiveLevels r.book.no, gaps ++ lead⟩ := by
  induction lead generalizing gaps with
  | nil => simp [readLadder, BookReplayer.syntheticSnapshot]
  | cons ev lead ih =>
    have hgap := hlead ev List.mem_cons_self
    have hstep : readLadder t gaps ((ev :: lead).map .ok ++ .ok (r.syntheticSnapshot t) :: items) =
        readLadder t (gaps ++ [ev]) (lead.map .ok ++ .ok (r.syntheticSnapshot t) :: items) := by
      cases ev with
      | gap => rfl
      | _ => cases hgap
    rw [hstep, ih (fun e he => hlead e (List.mem_cons_of_mem _ he)), List.append_assoc,
      List.singleton_append]

theorem isGap_of_mem_openGaps {evs : List ReplayEvent} {ev : ReplayEvent} (h : ev ∈ openGaps evs) :
    ev.isGap :=
  (List.mem_filter.1 h).2

theorem openGaps_append (evs evs' : List ReplayEvent) :
    openGaps (evs ++ evs') =
      if evs'.any (·.isSnapshot) then openGaps evs' else openGaps evs ++ openGaps evs' := by
  rw [← pendingGaps_default_run, BookReplayer.run_append, pendingGaps_run, pendingGaps_default_run]

theorem openGaps_of_isGap {gaps : List ReplayEvent} (h : ∀ ev ∈ gaps, ev.isGap) :
    openGaps gaps = gaps := by
  have hnot : ∀ ev ∈ gaps, (!ev.isSnapshot) = true := by
    intro ev hev
    have hgap := h ev hev
    cases ev with
    | gap => rfl
    | _ => cases hgap
  rw [openGaps, List.rtakeWhile_eq_self_iff.2 hnot, List.filter_eq_self.2 h]

theorem openGaps_openGaps_append (evs evs' : List ReplayEvent) :
    openGaps (openGaps evs ++ evs') = openGaps (evs ++ evs') := by
  rw [openGaps_append, openGaps_append, openGaps_of_isGap fun ev hev => isGap_of_mem_openGaps hev]

/-! ## Windows that meet -/

section Meeting

variable {evs : List ReplayEvent} {t0 t1 t2 : ℤ}

theorem eventsBefore_append (hs : evs.Pairwise fun a b => a.ts ≤ b.ts) (h : t0 ≤ t1) :
    eventsBefore t0 evs ++ eventsWithin t0 t1 evs = eventsBefore t1 evs := by
  induction evs with
  | nil => rfl
  | cons ev evs ih =>
    obtain ⟨hle, hs⟩ := List.pairwise_cons.1 hs
    have ih := ih hs
    simp only [eventsBefore, eventsWithin, List.filter_cons] at ih ⊢
    by_cases h0 : ev.ts < t0
    · have h1 : ev.ts < t1 := by omega
      simpa [h0, h1, not_le.2 h0] using ih
    · have hnone : evs.filter (fun e => decide (e.ts < t0)) = [] := by
        rw [List.filter_eq_nil_iff]
        intro e he
        have hlater := hle e he
        simp only [decide_eq_true_eq]
        omega
      rw [hnone, List.nil_append] at ih
      have h0' : t0 ≤ ev.ts := by omega
      by_cases h1 : ev.ts < t1
      · simp [h0', h1, hnone, ih, not_lt.2 h0']
      · simp [h1, hnone, ih, not_lt.2 h0']

theorem eventsWithin_append (hs : evs.Pairwise fun a b => a.ts ≤ b.ts) (h01 : t0 ≤ t1)
    (h12 : t1 ≤ t2) :
    eventsWithin t0 t1 evs ++ eventsWithin t1 t2 evs = eventsWithin t0 t2 evs := by
  have h := eventsBefore_append hs (h01.trans h12)
  rw [← eventsBefore_append hs h12, ← eventsBefore_append hs h01, List.append_assoc] at h
  exact (List.append_cancel_left h).symm

theorem filter_eventsWithin (h : t1 ≤ t2) :
    (eventsWithin t0 t2 evs).filter (·.ts < t1) = eventsWithin t0 t1 evs := by
  rw [eventsWithin, eventsWithin, List.filter_filter]
  refine List.filter_congr fun ev _ => ?_
  by_cases h1 : ev.ts < t1
  · have h2 : ev.ts < t2 := by omega
    simp [h1, h2]
  · simp [h1]

end Meeting

/-! ## The ladder -/

section Stream

variable {l : Loader} {it : EventIter} {evs : List ReplayEvent} (hl : l.events = .ok it)
  (hitems : it.items = evs.map .ok) {t0 t1 t2 : ℤ}

include hl hitems

/-- The synthetic opener of a window plays on as the whole stream does. -/
theorem opener_plays_on (h01 : t0 < t1) (w : List ReplayEvent) (hw : w <+: eventsWithin t0 t1 evs) :
    let opener := (BookReplayer.default.run (eventsBefore t0 evs)).syntheticSnapshot t0
    positiveLevels (BookReplayer.default.run (eventsBefore t0 evs ++ w)).book.yes =
      positiveLevels (BookReplayer.default.run (opener :: w)).book.yes ∧
    positiveLevels (BookReplayer.default.run (eventsBefore t0 evs ++ w)).book.no =
      positiveLevels (BookReplayer.default.run (opener :: w)).book.no := by
  obtain ⟨r, hr, hri⟩ := between_items hl hitems h01
  obtain ⟨r', opener, hr', hri', -, -, -, -, hbook⟩ := between_book_and_events hl hitems h01
  obtain rfl : r = r' := Except.ok.inj (hr.symm.trans hr')
  rw [hri, List.map_inj_right fun _ _ => Except.ok.inj, List.append_cancel_left_eq,
    List.cons.injEq] at hri'
  obtain ⟨rfl, -⟩ := hri'
  exact hbook w hw

theorem bookAt_eq {t : Int64} (ht : t.toInt + 1 < 2 ^ 63) :
    l.bookAt t = .ok ((BookReplayer.default.run (eventsBefore t.toInt evs)).ladder t.toInt) := by
  have hnext : (t + 1).toInt = t.toInt + 1 := by
    have hlow := Int64.le_toInt t
    exact toInt_add_of_fits (by simpa using by omega) (by simpa using ht)
  have hlt : t.toInt < (t + 1).toInt := by omega
  obtain ⟨r, hr, hri⟩ := between_items hl hitems hlt
  rw [Loader.bookAt, hr]
  show readLadder _ _ r.items = _
  rw [hri, List.map_append, List.map_cons,
    readLadder_opener _ _ _ (fun ev hev => isGap_of_mem_openGaps hev), List.nil_append,
    BookReplayer.ladder, pendingGaps_default_run]

/-- Jumping to an instant shows what a window shows that is played up to it: the same levels on both
sides, and the gaps that were open when the window began together with those it met. -/
theorem bookAt_of_window {t : Int64} (ht : t.toInt + 1 < 2 ^ 63) (h0 : t0 ≤ t.toInt)
    (h1 : t.toInt < t1) :
    ∃ ladder r lead opener window, l.bookAt t = .ok ladder ∧ l.between t0 t1 = .ok r ∧
      r.items = (lead ++ opener :: window).map .ok ∧ opener.isSynthetic ∧
      let played := window.filter (·.ts < t.toInt)
      ladder.tsUs = t.toInt ∧
      ladder.yes = positiveLevels (BookReplayer.default.run (opener :: played)).book.yes ∧
      ladder.no = positiveLevels (BookReplayer.default.run (opener :: played)).book.no ∧
      ladder.suspectGaps = openGaps (lead ++ played) := by
  obtain ⟨hsorted, -⟩ := stream_spec hl hitems
  obtain ⟨r, hr, hri⟩ := between_items hl hitems (h0.trans_lt h1)
  have hplayed : (eventsWithin t0 t1 evs).filter (·.ts < t.toInt) = eventsWithin t0 t.toInt evs :=
    filter_eventsWithin h1.le
  have hbefore := eventsBefore_append hsorted h0
  have hstart : eventsWithin t0 t.toInt evs <+: eventsWithin t0 t1 evs :=
    ⟨_, eventsWithin_append hsorted h0 h1.le⟩
  obtain ⟨hyes, hno⟩ := opener_plays_on hl hitems (h0.trans_lt h1) _ hstart
  rw [hbefore] at hyes hno
  refine ⟨_, r, _, _, _, bookAt_eq hl hitems ht, hr, hri, rfl, rfl, ?_, ?_, ?_⟩
  · rw [hplayed]
    exact hyes
  · rw [hplayed]
    exact hno
  · rw [hplayed, BookReplayer.ladder, pendingGaps_default_run, ← hbefore]
    exact (openGaps_openGaps_append _ _).symm

/-- A stream cut at `t1` is the stream: what the two windows hold is what the window over both
holds, and the second one opens on the book and on the gaps that a reader has who played the first.
-/
theorem windows_meet (h01 : t0 < t1) (h12 : t1 < t2) :
    ∃ r r₁ r₂ lead opener w₁ lead₂ opener₂ w₂,
      l.between t0 t2 = .ok r ∧ l.between t0 t1 = .ok r₁ ∧ l.between t1 t2 = .ok r₂ ∧
      r.items = (lead ++ opener :: (w₁ ++ w₂)).map .ok ∧
      r₁.items = (lead ++ opener :: w₁).map .ok ∧
      r₂.items = (lead₂ ++ opener₂ :: w₂).map .ok ∧
      opener₂ = (BookReplayer.default.run (opener :: w₁)).syntheticSnapshot t1 ∧
      lead₂ = openGaps (lead ++ w₁) := by
  obtain ⟨hsorted, -⟩ := stream_spec hl hitems
  obtain ⟨r, hr, hri⟩ := between_items hl hitems (h01.trans h12)
  obtain ⟨r₁, hr₁, hri₁⟩ := between_items hl hitems h01
  obtain ⟨r₂, hr₂, hri₂⟩ := between_items hl hitems h12
  obtain ⟨hyes, hno⟩ := opener_plays_on hl hitems h01 (eventsWithin t0 t1 evs) List.prefix_rfl
  have hbefore := eventsBefore_append hsorted h01.le
  rw [hbefore] at hyes hno
  refine ⟨r, r₁, r₂, _, _, _, _, _, _, hr, hr₁, hr₂, ?_, hri₁, hri₂, ?_, ?_⟩
  · rw [eventsWithin_append hsorted h01.le h12.le]
    exact hri
  · rw [BookReplayer.syntheticSnapshot, BookReplayer.syntheticSnapshot, hyes, hno]
  · rw [openGaps_openGaps_append, hbefore]

end Stream

/-- The ladder of `gapDirectory` between its delta and the end of a window. -/
theorem bookAt_of_window_gap :
    ∃ ladder r lead opener window, gapDirectory.bookAt 7 = .ok ladder ∧
      gapDirectory.between 5 10 = .ok r ∧ r.items = (lead ++ opener :: window).map .ok ∧
      ladder.yes =
        positiveLevels (BookReplayer.default.run (opener :: window.filter (·.ts < 7))).book.yes ∧
      ladder.suspectGaps = openGaps (lead ++ window.filter (·.ts < 7)) := by
  obtain ⟨it, hit, hitems⟩ := gapDirectory_events
  obtain ⟨ladder, r, lead, opener, window, hladder, hr, hri, -, -, hyes, -, hgaps⟩ :=
    bookAt_of_window hit hitems (by decide : (7 : Int64).toInt + 1 < 2 ^ 63)
      (by decide : (5 : ℤ) ≤ (7 : Int64).toInt) (by decide : (7 : Int64).toInt < 10)
  exact ⟨ladder, r, lead, opener, window, hladder, hr, hri, hyes, hgaps⟩

example : gapDirectory.bookAt 7 = .ok ⟨7, [⟨⟨450000⟩, ⟨150⟩⟩], [], [.gap 2 "reconnect" ""]⟩ :=
  rfl

/-- The windows of `gapDirectory` that meet before its delta. -/
theorem windows_meet_gap :
    ∃ r₁ r₂ lead opener w₁ lead₂ opener₂ w₂, gapDirectory.between 0 5 = .ok r₁ ∧
      gapDirectory.between 5 10 = .ok r₂ ∧ r₁.items = (lead ++ opener :: w₁).map .ok ∧
      r₂.items = (lead₂ ++ opener₂ :: w₂).map .ok ∧
      opener₂ = (BookReplayer.default.run (opener :: w₁)).syntheticSnapshot 5 ∧
      lead₂ = openGaps (lead ++ w₁) := by
  obtain ⟨it, hit, hitems⟩ := gapDirectory_events
  obtain ⟨-, r₁, r₂, lead, opener, w₁, lead₂, opener₂, w₂, -, hr₁, hr₂, -, hri₁, hri₂, h, h'⟩ :=
    windows_meet hit hitems (by decide : (0 : ℤ) < 5) (by decide : (5 : ℤ) < 10)
  exact ⟨r₁, r₂, lead, opener, w₁, lead₂, opener₂, w₂, hr₁, hr₂, hri₁, hri₂, h, h'⟩

end Snapevent
