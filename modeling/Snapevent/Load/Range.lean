import Mathlib.Data.List.DropRight
import Snapevent.Load.Replay
import Snapevent.Load.Stream

/-!
# Range replay against full replay

`between` pre-rolls a stream to `t0`, hands out the gaps its book was opened on, one synthetic
snapshot, and the events of `[t0, t1)`.  The book a consumer builds from the opener has the positive
levels of the book built from the whole stream; the pending gaps do not survive the opener.
-/

namespace Snapevent

open EventIter

/-! ## Running the range iterator -/

/-- The events before `t0`. -/
def eventsBefore (t0 : ℤ) (evs : List ReplayEvent) : List ReplayEvent := evs.filter (·.ts < t0)

/-- The events of `[t0, t1)`. -/
def eventsWithin (t0 t1 : ℤ) (evs : List ReplayEvent) : List ReplayEvent :=
  evs.filter fun ev => t0 ≤ ev.ts && ev.ts < t1

theorem takeWhile_eq_filter {evs : List ReplayEvent} (hs : evs.Pairwise fun a b => a.ts ≤ b.ts)
    (t : ℤ) : evs.takeWhile (·.ts < t) = evs.filter (·.ts < t) := by
  induction evs with
  | nil => rfl
  | cons ev evs ih =>
    obtain ⟨hle, hs⟩ := List.pairwise_cons.1 hs
    by_cases h : ev.ts < t
    · simp [h, ih hs]
    · have hnone : evs.filter (·.ts < t) = [] := by
        rw [List.filter_eq_nil_iff]
        intro e he
        have := hle e he
        simp only [decide_eq_true_eq]
        omega
      simp [h, hnone]

theorem dropWhile_eq_filter {evs : List ReplayEvent} (hs : evs.Pairwise fun a b => a.ts ≤ b.ts)
    (t : ℤ) : evs.dropWhile (·.ts < t) = evs.filter (t ≤ ·.ts) := by
  induction evs with
  | nil => rfl
  | cons ev evs ih =>
    obtain ⟨hle, hs⟩ := List.pairwise_cons.1 hs
    by_cases h : ev.ts < t
    · have hnot : ¬ t ≤ ev.ts := by omega
      simp [h, hnot, ih hs]
    · have hall : evs.filter (t ≤ ·.ts) = evs := by
        rw [List.filter_eq_self]
        intro e he
        have := hle e he
        simp only [decide_eq_true_eq]
        omega
      have hev : t ≤ ev.ts := by omega
      simp [h, hev, hall]

theorem preRoll_succ (t0 : ℤ) (n : ℕ) (r : BookReplayer) (it : EventIter) :
    preRoll t0 (n + 1) r it = match it.next with
      | none => .ok (r, none, it)
      | some (.error e, _) => .error e
      | some (.ok ev, it) =>
        if t0 ≤ ev.ts then .ok (r, some ev, it) else preRoll t0 n (r.apply ev) it := rfl

/-- The pre-roll feeds the replayer every event before `t0` and holds back the next one. -/
theorem preRoll_of_yields (t0 : ℤ) {evs : List ReplayEvent} {it : EventIter}
    (h : Yields it (evs.map .ok)) (r : BookReplayer) {n : ℕ} (hn : evs.length < n) :
    ∃ it', preRoll t0 n r it = .ok (r.run (evs.takeWhile (·.ts < t0)),
        (evs.dropWhile (·.ts < t0)).head?, it') ∧
      Yields it' ((evs.dropWhile (·.ts < t0)).tail.map .ok) := by
  induction evs generalizing it r n with
  | nil =>
    obtain ⟨n, rfl⟩ : ∃ m, n = m + 1 := ⟨n - 1, by simp at hn; omega⟩
    cases h with
    | done hnext => exact ⟨it, by rw [preRoll_succ, hnext]; rfl, .done hnext⟩
  | cons ev evs ih =>
    obtain ⟨n, rfl⟩ : ∃ m, n = m + 1 := ⟨n - 1, by simp at hn; omega⟩
    cases h with
    | item hnext htail =>
      rw [preRoll_succ, hnext]
      by_cases hts : t0 ≤ ev.ts
      · have hlt : ¬ ev.ts < t0 := by omega
        simp only [hts, if_true, List.takeWhile_cons, hlt, decide_false, List.dropWhile_cons,
          Bool.false_eq_true, if_false, List.head?_cons, List.tail_cons]
        exact ⟨_, rfl, htail⟩
      · have hlt : ev.ts < t0 := by omega
        obtain ⟨it', hpre, hy⟩ := ih htail (r.apply ev) (n := n) (by simpa using hn)
        refine ⟨it', ?_, by simpa [List.dropWhile_cons, hlt] using hy⟩
        simp [hts, hlt, hpre]

theorem RangeIter.take_rest {evs : List ReplayEvent} {it : EventIter}
    (h : Yields it (evs.map .ok)) (t1 : ℤ) {n : ℕ} (hn : evs.length ≤ n) :
    RangeIter.take n ⟨[], none, it, t1⟩ = (evs.takeWhile (·.ts < t1)).map .ok := by
  induction evs generalizing it n with
  | nil =>
    cases h with
    | done hnext =>
      cases n with
      | zero => rfl
      | succ n => simp [RangeIter.take, RangeIter.next, hnext]
  | cons ev evs ih =>
    cases n with
    | zero => simp at hn
    | succ n =>
      cases h with
      | item hnext htail =>
        by_cases hlt : ev.ts < t1
        · have hih := ih htail (n := n) (by simpa using hn)
          simp [RangeIter.take, RangeIter.next, hnext, hlt, hih]
        · simp [RangeIter.take, RangeIter.next, hnext, hlt]

theorem RangeIter.take_lead (lead : List ReplayEvent) (held : Option ReplayEvent) (it : EventIter)
    (t1 : ℤ) (n : ℕ) : RangeIter.take (lead.length + n) ⟨lead, held, it, t1⟩ =
      lead.map .ok ++ RangeIter.take n ⟨[], held, it, t1⟩ := by
  induction lead with
  | nil => simp
  | cons ev lead ih =>
    have hlen : (ev :: lead).length + n = lead.length + n + 1 := by simp only [List.length_cons]; omega
    rw [hlen, RangeIter.take]
    simp only [RangeIter.next]
    rw [ih]
    rfl

/-- After the lead come the held event and the rest, up to the first event at or after `t1`. -/
theorem RangeIter.take_held {evs : List ReplayEvent} {it : EventIter}
    (h : Yields it (evs.tail.map .ok)) (t1 : ℤ) {n : ℕ} (hn : evs.length ≤ n) :
    RangeIter.take n ⟨[], evs.head?, it, t1⟩ = (evs.takeWhile (·.ts < t1)).map .ok := by
  cases evs with
  | nil => exact RangeIter.take_rest h t1 hn
  | cons ev evs =>
    cases n with
    | zero => simp at hn
    | succ n =>
      by_cases hlt : ev.ts < t1
      · have hrest := RangeIter.take_rest h t1 (n := n) (by simpa using hn)
        simp [RangeIter.take, RangeIter.next, hlt, hrest]
      · simp [RangeIter.take, RangeIter.next, hlt]

/-- What a range replay of a stream hands out. -/
theorem build_items {evs : List ReplayEvent} {it : EventIter} (h : Yields it (evs.map .ok))
    (hs : evs.Pairwise fun a b => a.ts ≤ b.ts) (t0 t1 : ℤ) :
    ∃ r, RangeIter.build it t0 t1 = .ok r ∧
      r.items = ((BookReplayer.default.run (eventsBefore t0 evs)).pendingGaps ++
        (BookReplayer.default.run (eventsBefore t0 evs)).syntheticSnapshot t0 ::
          eventsWithin t0 t1 evs).map .ok := by
  have hlen : evs.length < it.size + 1 := by
    have := h.length_le
    rw [List.length_map] at this
    omega
  obtain ⟨it', hpre, hy⟩ := preRoll_of_yields t0 h .default hlen
  refine ⟨_, by rw [RangeIter.build, hpre]; rfl, ?_⟩
  have hwithin : (evs.dropWhile (·.ts < t0)).takeWhile (·.ts < t1) = eventsWithin t0 t1 evs := by
    rw [takeWhile_eq_filter (hs.sublist (List.dropWhile_sublist _)), dropWhile_eq_filter hs,
      List.filter_filter, eventsWithin]
    exact List.filter_congr fun ev _ => Bool.and_comm _ _
  have hfuel {after : List ReplayEvent} (h : after.tail.length ≤ it'.size) :
      after.length ≤ after.head?.toList.length + it'.size := by
    cases after with
    | nil => simp
    | cons ev rest =>
      simp only [List.tail_cons] at h
      simp only [List.length_cons, List.head?_cons, Option.toList_some, List.length_nil]
      omega
  have hrest := hy.length_le
  rw [List.length_map] at hrest
  rw [RangeIter.items, Nat.add_assoc, RangeIter.take_lead,
    RangeIter.take_held hy t1 (hfuel hrest), hwithin,
    takeWhile_eq_filter hs, ← List.map_append, List.append_assoc]
  rfl

/-! ## Pending gaps -/

/-- The gaps after the last snapshot. -/
def openGaps (evs : List ReplayEvent) : List ReplayEvent :=
  (evs.rtakeWhile fun ev => !ev.isSnapshot).filter (·.isGap)

theorem openGaps_concat (evs : List ReplayEvent) (ev : ReplayEvent) :
    openGaps (evs ++ [ev]) =
      if ev.isSnapshot then [] else openGaps evs ++ [ev].filter (·.isGap) := by
  rw [openGaps, List.rtakeWhile_concat]
  by_cases h : ev.isSnapshot
  · simp [h]
  · simp [h, openGaps]

theorem pendingGaps_run (r : BookReplayer) (evs : List ReplayEvent) :
    (r.run evs).pendingGaps =
      if evs.any (·.isSnapshot) then openGaps evs else r.pendingGaps ++ openGaps evs := by
  induction evs using List.reverseRecOn with
  | nil => simp [openGaps]
  | append_singleton evs ev ih =>
    have happly : ((r.run evs).apply ev).pendingGaps =
        if ev.isSnapshot then [] else (r.run evs).pendingGaps ++ [ev].filter (·.isGap) := by
      cases ev <;> simp [BookReplayer.apply, ReplayEvent.isSnapshot, ReplayEvent.isGap]
    rw [BookReplayer.run_append, BookReplayer.run_cons, BookReplayer.run_nil, happly, ih,
      openGaps_concat, List.any_append, List.any_cons, List.any_nil, Bool.or_false]
    by_cases hev : ev.isSnapshot
    · simp [hev]
    · by_cases hany : evs.any (·.isSnapshot)
      · simp [hev, hany]
      · simp [hev, hany]

theorem pendingGaps_default_run (evs : List ReplayEvent) :
    (BookReplayer.default.run evs).pendingGaps = openGaps evs := by
  rw [pendingGaps_run]
  split_ifs <;> rfl

/-! ## The two books -/

/-- The two sides rest the same quantity at every price, an absent level counting as zero. -/
def SameQuantities (m m' : Levels) : Prop := ∀ p, m.getD p 0 = m'.getD p 0

theorem SameQuantities.changeLevel {m m' : Levels} (h : SameQuantities m m') (total total' : Int64)
    (price : UInt32) (delta : Int64) :
    SameQuantities (changeLevel m total price delta).1 (changeLevel m' total' price delta).1 := by
  intro p
  rw [getD_changeLevel, getD_changeLevel, h price, h p]

theorem SameQuantities.positiveLevels {m m' : Levels} (h : SameQuantities m m') :
    positiveLevels m = positiveLevels m' := by
  have hfilter : (m.filter fun _ q => 0 < q) = m'.filter fun _ q => 0 < q := by
    ext1 p
    have hp := h p
    rw [Std.ExtTreeMap.getD_eq_getD_getElem?, Std.ExtTreeMap.getD_eq_getD_getElem?] at hp
    rw [Std.ExtTreeMap.getElem?_filter', Std.ExtTreeMap.getElem?_filter']
    -- a zero level and an absent one both vanish
    generalize m[p]? = q, m'[p]? = q' at hp ⊢
    rcases q with _ | q <;> rcases q' with _ | q'
    · rfl
    · obtain rfl : 0 = q' := hp
      rfl
    · obtain rfl : q = 0 := hp
      rfl
    · obtain rfl : q = q' := hp
      rfl
  have htoList := congrArg Std.ExtTreeMap.toList hfilter
  rw [Std.ExtTreeMap.toList_filter, Std.ExtTreeMap.toList_filter] at htoList
  rw [Snapevent.positiveLevels, Snapevent.positiveLevels, htoList]

/-- No level of the side is below zero. -/
def NonNegative (m : Levels) : Prop := ∀ p, 0 ≤ m.getD p 0

theorem NonNegative.changeLevel {m : Levels} (h : NonNegative m) (total : Int64) (price : UInt32)
    (delta : Int64) : NonNegative (changeLevel m total price delta).1 := by
  intro p
  rw [getD_changeLevel]
  split_ifs with hp hle
  · exact Int64.le_refl 0
  · exact Int64.le_of_lt (Int64.not_le.1 hle)
  · exact h p

theorem NonNegative.loadLevels {m : Levels} (h : NonNegative m) (total : Int64)
    {levels : List PriceLevel} (hq : ∀ l ∈ levels, l.quantity.centi.toNat < 2 ^ 63) :
    NonNegative (loadLevels m total levels).1 := by
  rw [loadLevels_fst]
  induction levels generalizing m with
  | nil => exact h
  | cons l levels ih =>
    refine ih (fun p => ?_) fun l h => hq l (List.mem_cons_of_mem _ h)
    rw [Std.ExtTreeMap.getD_insert]
    split_ifs
    · exact toInt64_nonneg (hq l List.mem_cons_self)
    · exact h p

/-- Inserting levels of distinct prices one by one. -/
theorem getElem?_foldl_insert {xs : List (UInt32 × Int64)}
    (hd : xs.Pairwise fun a b => a.1 ≠ b.1) (m : Levels) (p : UInt32) (q : Int64) :
    (xs.foldl (fun m l => m.insert l.1 l.2) m)[p]? = some q ↔
      (p, q) ∈ xs ∨ (m[p]? = some q ∧ ∀ x ∈ xs, x.1 ≠ p) := by
  induction xs generalizing m with
  | nil => simp
  | cons x xs ih =>
    obtain ⟨hx, hd⟩ := List.pairwise_cons.1 hd
    rw [List.foldl_cons, ih hd, Std.ExtTreeMap.getElem?_insert]
    by_cases hp : x.1 = p
    · have hnot : ∀ y ∈ xs, y.1 ≠ p := fun y hy h => hx y hy (hp.trans h.symm)
      have hmem : (p, q) ∉ xs := fun h => hnot _ h rfl
      rcases x with ⟨a, b⟩
      obtain rfl : a = p := hp
      simp only [hmem, false_or, Std.compare_self, if_true, List.mem_cons, Prod.mk.injEq, true_and,
        or_false, Option.some.injEq]
      constructor
      · rintro ⟨rfl, -⟩
        exact Or.inl rfl
      · rintro (rfl | ⟨-, h⟩)
        · exact ⟨rfl, hnot⟩
        · exact absurd rfl (h _ (Or.inl rfl))
    · have hpq : (p, q) ≠ x := fun h => hp (by rw [← h])
      rw [if_neg fun h => hp (Std.compare_eq_iff_eq.1 h)]
      rw [List.forall_mem_cons, List.mem_cons]
      simp only [hpq, false_or]
      constructor
      · rintro (h | ⟨h, h'⟩)
        · exact Or.inl h
        · exact Or.inr ⟨h, hp, h'⟩
      · rintro (h | ⟨h, -, h'⟩)
        · exact Or.inl h
        · exact Or.inr ⟨h, h'⟩

theorem sameQuantities_opener {m : Levels} (h : NonNegative m) :
    SameQuantities m (loadLevels ∅ 0 (toLevels (positiveLevels m))).1 := by
  have hload : (loadLevels ∅ 0 (toLevels (positiveLevels m))).1 = m.filter fun _ q => 0 < q := by
    have hlist : (toLevels (positiveLevels m)).foldl
        (fun (m : Levels) l => m.insert l.price.micro l.quantity.centi.toInt64) ∅ =
        (m.filter fun _ q => 0 < q).toList.foldl (fun m l => m.insert l.1 l.2) ∅ := by
      rw [toLevels, positiveLevels, List.map_map, List.foldl_map, Std.ExtTreeMap.toList_filter]
      simp
    have hd : (m.filter fun _ q => 0 < q).toList.Pairwise fun a b => a.1 ≠ b.1 :=
      Std.ExtTreeMap.distinct_keys_toList.imp fun h he => h (Std.compare_eq_iff_eq.2 he)
    rw [loadLevels_fst, hlist]
    ext1 p
    refine Option.ext fun q => ?_
    rw [getElem?_foldl_insert hd, Std.ExtTreeMap.mem_toList_iff_getElem?_eq_some]
    simp
  intro p
  have hp := h p
  rw [hload, Std.ExtTreeMap.getD_eq_getD_getElem?, Std.ExtTreeMap.getD_eq_getD_getElem?,
    Std.ExtTreeMap.getElem?_filter']
  rw [Std.ExtTreeMap.getD_eq_getD_getElem?] at hp
  generalize m[p]? = q at hp ⊢
  cases q with
  | none => rfl
  | some q =>
    by_cases hq : 0 < q
    · rw [Option.filter_some, if_pos (by simpa using hq)]
    · have hzero : q = 0 := Int64.le_antisymm (Int64.not_lt.1 hq) hp
      rw [hzero]
      rfl

/-- The full replay and the windowed one rest the same quantities on both sides. -/
structure SameBooks (full part : Book) : Prop where
  yes : SameQuantities full.yes part.yes
  no : SameQuantities full.no part.no

/-- One event keeps the two books together. -/
theorem SameBooks.apply {full part : BookReplayer} (h : SameBooks full.book part.book)
    (ev : ReplayEvent) : SameBooks (full.apply ev).book (part.apply ev).book := by
  rcases ev with _ | ⟨ts, idx, side, price, delta⟩ | _ | _
  · exact ⟨fun _ => rfl, fun _ => rfl⟩
  · cases side
    · exact ⟨h.yes.changeLevel _ _ _ _, h.no⟩
    · exact ⟨h.yes, h.no.changeLevel _ _ _ _⟩
  · exact h
  · exact h

theorem SameBooks.run {full part : BookReplayer} (h : SameBooks full.book part.book)
    (evs : List ReplayEvent) : SameBooks (full.run evs).book (part.run evs).book := by
  induction evs generalizing full part with
  | nil => exact h
  | cons ev evs ih => exact ih (h.apply ev)

/-- Stored events keep a replayed book free of negative levels. -/
theorem nonNegative_run {r : BookReplayer} (h : NonNegative r.book.yes ∧ NonNegative r.book.no)
    {evs : List ReplayEvent} (hev : ∀ ev ∈ evs, Stored ev) :
    NonNegative (r.run evs).book.yes ∧ NonNegative (r.run evs).book.no := by
  induction evs generalizing r with
  | nil => exact h
  | cons ev evs ih =>
    refine ih ?_ fun ev h => hev ev (List.mem_cons_of_mem _ h)
    have hst := hev ev List.mem_cons_self
    have hempty : NonNegative ∅ := fun p => by simp
    rcases ev with ⟨ts, idx, yes, no, syn⟩ | ⟨ts, idx, side, price, delta⟩ | _ | _
    · have hq (ls : List Level) (hls : ∀ l ∈ ls, l ∈ yes ++ no) :
          ∀ l ∈ toLevels ls, l.quantity.centi.toNat < 2 ^ 63 := by
        intro l hl
        obtain ⟨l', hl', rfl⟩ := List.mem_map.1 hl
        exact hst.2 l' (hls l' hl')
      exact ⟨hempty.loadLevels 0 (hq yes fun l h => List.mem_append_left _ h),
        hempty.loadLevels 0 (hq no fun l h => List.mem_append_right _ h)⟩
    · cases side
      · exact ⟨h.1.changeLevel _ _ _, h.2⟩
      · exact ⟨h.1, h.2.changeLevel _ _ _⟩
    · exact h
    · exact h

/-! ## `between` -/

theorem events_eq_ok {l : Loader} {it : EventIter} (h : l.events = .ok it) :
    l.gate = .ok () ∧ EventIter.fromSources l.gaps l.book l.trades = .ok it ∧
      ∃ rows, it = .ofRows l.gaps l.book rows := by
  cases hg : l.gate with
  | error e => simp [Loader.events, hg, bind, Except.bind] at h
  | ok  =>
    have hsrc : EventIter.fromSources l.gaps l.book l.trades = .ok it := by
      simpa [Loader.events, hg, bind, Except.bind] using h
    refine ⟨rfl, hsrc, ?_⟩
    cases hm : l.trades.mapM id with
    | error e => simp [EventIter.fromSources, hm, bind, Except.bind] at hsrc
    | ok rows =>
      refine ⟨rows, ?_⟩
      simpa [EventIter.fromSources, hm, bind, Except.bind, pure, Except.pure, eq_comm] using hsrc

section Between

variable {l : Loader} {it : EventIter} {evs : List ReplayEvent} (hl : l.events = .ok it)
  (hitems : it.items = evs.map .ok) {t0 t1 : ℤ}

include hl hitems

theorem stream_spec : evs.Pairwise (fun a b => a.ts ≤ b.ts) ∧ ∀ ev ∈ evs, Stored ev := by
  obtain ⟨-, -, rows, rfl⟩ := events_eq_ok hl
  exact items_ok_spec hitems

/-- What `between` hands out of a stream without errors. -/
theorem between_items (ht : t0 < t1) : ∃ r, l.between t0 t1 = .ok r ∧
    r.items = (openGaps (eventsBefore t0 evs) ++
      (BookReplayer.default.run (eventsBefore t0 evs)).syntheticSnapshot t0 ::
        eventsWithin t0 t1 evs).map .ok := by
  obtain ⟨hgate, hsrc, -⟩ := events_eq_ok hl
  have hy : Yields it (evs.map .ok) := hitems ▸ it.yields_items
  obtain ⟨r, hr, hri⟩ := build_items hy (stream_spec hl hitems).1 t0 t1
  rw [pendingGaps_default_run] at hri
  refine ⟨r, ?_, hri⟩
  simp [Loader.between, not_le.2 ht, hgate, hsrc, hr, bind, Except.bind]

/-- `between` hands out the gaps its book was opened on, one synthetic opener and the events of the
window, and the opener stands for the book: at every point of the window the replays from the opener
and from the start of the stream have the same positive levels. -/
theorem between_book_and_events (ht : t0 < t1) :
    ∃ r opener, l.between t0 t1 = .ok r ∧
      r.items = (openGaps (eventsBefore t0 evs) ++ opener :: eventsWithin t0 t1 evs).map .ok ∧
      opener.isSnapshot ∧ opener.isSynthetic ∧ opener.ts = t0 ∧
      (∀ ev ∈ openGaps (eventsBefore t0 evs) ++ eventsWithin t0 t1 evs, ¬ ev.isSynthetic) ∧
      ∀ w, w <+: eventsWithin t0 t1 evs →
        positiveLevels (BookReplayer.default.run (eventsBefore t0 evs ++ w)).book.yes =
          positiveLevels (BookReplayer.default.run (opener :: w)).book.yes ∧
        positiveLevels (BookReplayer.default.run (eventsBefore t0 evs ++ w)).book.no =
          positiveLevels (BookReplayer.default.run (opener :: w)).book.no := by
  obtain ⟨r, hr, hri⟩ := between_items hl hitems ht
  obtain ⟨-, hstored⟩ := stream_spec hl hitems
  refine ⟨r, _, hr, hri, rfl, rfl, rfl, fun ev hev => ?_, fun w _ => ?_⟩
  · have hmem : ev ∈ evs := by
      rcases List.mem_append.1 hev with h | h
      · exact List.mem_of_mem_filter
          ((List.rtakeWhile_suffix _ _).subset (List.mem_of_mem_filter h))
      · exact List.mem_of_mem_filter h
    have hst := hstored ev hmem
    rcases ev with ⟨_, _, _, _, syn⟩ | _ | _ | _
    · simpa [ReplayEvent.isSynthetic] using hst.1
    all_goals simp [ReplayEvent.isSynthetic]
  · have hbefore : ∀ ev ∈ eventsBefore t0 evs, Stored ev := fun ev h =>
      hstored ev (List.mem_of_mem_filter h)
    have hempty : NonNegative ∅ := fun p => by simp
    obtain ⟨hyes, hno⟩ := nonNegative_run (r := .default) ⟨hempty, hempty⟩ hbefore
    have hopener : SameBooks (BookReplayer.default.run (eventsBefore t0 evs)).book
        (BookReplayer.default.apply ((BookReplayer.default.run (eventsBefore t0 evs)).syntheticSnapshot
          t0)).book :=
      ⟨sameQuantities_opener hyes, sameQuantities_opener hno⟩
    have hrun := hopener.run w
    rw [BookReplayer.run_append, BookReplayer.run_cons]
    exact ⟨hrun.yes.positiveLevels, hrun.no.positiveLevels⟩

end Between

/-! ## Suspicion does not survive the opener -/

/-- At the opener and at every later point of the window, the replay of what `between` handed out
has pending gaps exactly when the replay of the whole stream has. -/
def SuspicionSurvives (t0 : ℤ) (evs lead : List ReplayEvent) (opener : ReplayEvent)
    (window : List ReplayEvent) : Prop :=
  ∀ w, w <+: window →
    ((BookReplayer.default.run (lead ++ opener :: w)).pendingGaps = [] ↔
      (BookReplayer.default.run (eventsBefore t0 evs ++ w)).pendingGaps = [])

/-- Every gap before `t0` is followed by a snapshot before `t0`. -/
def GapsResolvedBefore (t0 : ℤ) (evs : List ReplayEvent) : Prop :=
  ∀ pre g post, evs = pre ++ g :: post → g.isGap → g.ts < t0 →
    ∃ s ∈ post, s.isSnapshot ∧ s.ts < t0

theorem openGaps_cons (ev : ReplayEvent) (evs : List ReplayEvent) :
    openGaps (ev :: evs) =
      if evs.any (·.isSnapshot) then openGaps evs else [ev].filter (·.isGap) ++ openGaps evs := by
  have happly : (BookReplayer.default.apply ev).pendingGaps = [ev].filter (·.isGap) := by
    cases ev <;> rfl
  rw [← pendingGaps_default_run, BookReplayer.run_cons, pendingGaps_run, happly]

theorem gapsResolvedBefore_cons {t0 : ℤ} {ev : ReplayEvent} {evs : List ReplayEvent} :
    GapsResolvedBefore t0 (ev :: evs) ↔
      (ev.isGap → ev.ts < t0 → ∃ s ∈ evs, s.isSnapshot ∧ s.ts < t0) ∧
        GapsResolvedBefore t0 evs := by
  constructor
  · intro h
    refine ⟨h [] ev evs rfl, fun pre g post he => ?_⟩
    exact h (ev :: pre) g post (by rw [he]; rfl)
  · rintro ⟨hev, hevs⟩ pre g post he
    cases pre with
    | nil =>
      cases he
      exact hev
    | cons x pre =>
      cases he
      exact hevs pre g post rfl

theorem openGaps_eventsBefore_eq_nil {t0 : ℤ} {evs : List ReplayEvent} :
    openGaps (eventsBefore t0 evs) = [] ↔ GapsResolvedBefore t0 evs := by
  induction evs with
  | nil => simp [eventsBefore, openGaps, GapsResolvedBefore]
  | cons ev evs ih =>
    have hany : (eventsBefore t0 evs).any (·.isSnapshot) = true ↔
        ∃ s ∈ evs, s.isSnapshot ∧ s.ts < t0 := by
      simp [eventsBefore, List.any_filter, and_comm]
    rw [gapsResolvedBefore_cons, ← ih]
    by_cases hts : ev.ts < t0
    · have hcons : eventsBefore t0 (ev :: evs) = ev :: eventsBefore t0 evs := by
        simp [eventsBefore, hts]
      rw [hcons, openGaps_cons]
      by_cases h : (eventsBefore t0 evs).any (·.isSnapshot)
      · simp [h, hany.1 h]
      · rw [if_neg h, List.append_eq_nil_iff, List.filter_eq_nil_iff]
        rw [hany] at h
        simp [h, hts]
    · have hcons : eventsBefore t0 (ev :: evs) = eventsBefore t0 evs := by
        simp [eventsBefore, hts]
      simp [hcons, hts]

/-- The pending gaps of a window's replay agree with those of the whole stream exactly when no gap
was open at `t0`: the synthetic opener clears the gaps handed out before it. -/
theorem suspicion_survives_iff {l : Loader} {it : EventIter} {evs : List ReplayEvent}
    (hl : l.events = .ok it) (hitems : it.items = evs.map .ok) {t0 t1 : ℤ} (ht : t0 < t1) :
    ∃ r lead opener window, l.between t0 t1 = .ok r ∧
      r.items = (lead ++ opener :: window).map .ok ∧ opener.isSynthetic ∧
      (SuspicionSurvives t0 evs lead opener window ↔ GapsResolvedBefore t0 evs) := by
  obtain ⟨r, hr, hri⟩ := between_items hl hitems ht
  refine ⟨r, _, _, _, hr, hri, rfl, ?_⟩
  have hwindow (w : List ReplayEvent) : (BookReplayer.default.run
      (openGaps (eventsBefore t0 evs) ++ (BookReplayer.default.run
        (eventsBefore t0 evs)).syntheticSnapshot t0 :: w)).pendingGaps = openGaps w := by
    rw [BookReplayer.run_append, BookReplayer.run_cons, pendingGaps_run]
    split_ifs <;> rfl
  have hfull (w : List ReplayEvent) :
      (BookReplayer.default.run (eventsBefore t0 evs ++ w)).pendingGaps =
        if w.any (·.isSnapshot) then openGaps w
        else openGaps (eventsBefore t0 evs) ++ openGaps w := by
    rw [BookReplayer.run_append, pendingGaps_run, pendingGaps_default_run]
  rw [← openGaps_eventsBefore_eq_nil]
  constructor
  · intro h
    have h := h [] List.nil_prefix
    rw [hwindow, hfull] at h
    simpa [openGaps] using h
  · intro h w _
    rw [hwindow, hfull, h]
    simp

/-- A directory with a snapshot, a later gap and a still later delta. -/
def gapDirectory : Loader :=
  { gaps := [.ok ⟨2, none, "reconnect", ""⟩]
    book := [.ok ⟨0, 1, some 1, true, some .yes, some 450000, some 100⟩,
      .ok ⟨1, 6, some 2, false, some .yes, some 450000, some 50⟩]
    trades := [], incomplete := none, acknowledged := false }

/-- The full stream of `gapDirectory`. -/
def gapDirectoryEvents : List ReplayEvent :=
  [.snapshot 1 0 [⟨⟨450000⟩, ⟨100⟩⟩] [] false, .gap 2 "reconnect" "",
    .delta 6 1 .yes ⟨450000⟩ ⟨50⟩]

theorem gapDirectory_events :
    ∃ it, gapDirectory.events = .ok it ∧ it.items = gapDirectoryEvents.map .ok :=
  ⟨_, rfl, by decide⟩

/-- A window opened after the gap starts with a clean book. -/
theorem suspicion_lost :
    ∃ it r lead opener window, gapDirectory.events = .ok it ∧
      it.items = gapDirectoryEvents.map .ok ∧ gapDirectory.between 5 10 = .ok r ∧
      r.items = (lead ++ opener :: window).map .ok ∧ opener.isSynthetic ∧
      ¬ SuspicionSurvives 5 gapDirectoryEvents lead opener window := by
  obtain ⟨it, hit, hitems⟩ := gapDirectory_events
  refine ⟨it, _, [.gap 2 "reconnect" ""], .snapshot 5 (-1) [⟨⟨450000⟩, ⟨100⟩⟩] [] true,
    [.delta 6 1 .yes ⟨450000⟩ ⟨50⟩], hit, hitems, rfl, by decide, rfl, fun h => ?_⟩
  have hopen := (h [] List.nil_prefix).1 (by decide)
  revert hopen
  decide

theorem suspicion_survives_iff_sample :
    ∃ r lead opener window, gapDirectory.between 5 10 = .ok r ∧
      r.items = (lead ++ opener :: window).map .ok ∧ opener.isSynthetic ∧
      (SuspicionSurvives 5 gapDirectoryEvents lead opener window ↔
        GapsResolvedBefore 5 gapDirectoryEvents) := by
  obtain ⟨it, hit, hitems⟩ := gapDirectory_events
  exact suspicion_survives_iff hit hitems (by decide)

theorem between_book_and_events_sample :
    ∃ r opener, gapDirectory.between 5 10 = .ok r ∧
      r.items = (openGaps (eventsBefore 5 gapDirectoryEvents) ++
        opener :: eventsWithin 5 10 gapDirectoryEvents).map .ok ∧ opener.isSynthetic := by
  obtain ⟨it, hit, hitems⟩ := gapDirectory_events
  obtain ⟨r, opener, hr, hri, -, hsyn, -⟩ :=
    between_book_and_events hit hitems (by decide : (5 : ℤ) < 10)
  exact ⟨r, opener, hr, hri, hsyn⟩

end Snapevent
