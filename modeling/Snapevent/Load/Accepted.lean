import Snapevent.Load.Range

/-!
# A stream the merge accepts

When no item of the merged stream is an error, every event of every lane is handed out, in the
strict order of the keys, and the replayer's pending gaps can be read off the keys.
-/

namespace Snapevent

section Accepted

variable {gaps : RowSource GapRow} {book : RowSource BookEventRow} {trades : List TradeRow}
  {evs : List ReplayEvent} (h : (EventIter.ofRows gaps book trades).items = evs.map .ok)
include h

theorem item_ok {p : EventIter.Pulled} {l : LaneId} {n : ℕ}
    (hp : ((EventIter.ofRows gaps book trades).stream.filter (·.lane = l))[n]? = some p)
    (e : LoadError) : p.item ≠ .error e := by
  intro he
  have hmem := (List.mem_filter.1 (List.mem_of_getElem? hp)).1
  have hitem : p.item ∈ evs.map .ok := h ▸ List.mem_map_of_mem hmem
  obtain ⟨ev, -, hev⟩ := List.mem_map.1 hitem
  rw [he] at hev
  cases hev

theorem laneItems_ok (l : LaneId) :
    laneItems gaps book trades l = (eventsOf (laneItems gaps book trades l)).map .ok := by
  have hok : ∀ item ∈ laneItems gaps book trades l, ∃ x, item = .ok x := by
    intro item hitem
    obtain ⟨n, hn⟩ := List.mem_iff_getElem?.1 hitem
    cases item with
    | ok x => exact ⟨x, rfl⟩
    | error e =>
      obtain ⟨p, hp, he⟩ := (stream_reported gaps book trades l).failed n e hn
      exact absurd he (item_ok h hp e)
  generalize laneItems gaps book trades l = items at hok
  induction items with
  | nil => rfl
  | cons item items ih =>
    obtain ⟨⟨x, rfl⟩, hitems⟩ := List.forall_mem_cons.1 hok
    rw [eventsOf_cons_ok, List.map_cons, ← ih hitems]

/-- No event of a lane regresses. -/
theorem not_regresses {l : LaneId} {n : ℕ} {k : MergeKey} {ev : ReplayEvent}
    (hn : (laneItems gaps book trades l)[n]? = some (.ok (k, ev))) :
    ¬ Regresses (laneItems gaps book trades l) n k := by
  intro hreg
  obtain ⟨p, hp, -, hbad, -⟩ := (stream_reported gaps book trades l).event n k ev hn
  obtain ⟨prev, he⟩ := hbad hreg
  exact item_ok h hp _ he

/-- The keyed events are the events of the lanes. -/
theorem mem_keyed_iff {x : MergeKey × ReplayEvent} :
    x ∈ (EventIter.ofRows gaps book trades).keyed ↔
      ∃ l, x ∈ eventsOf (laneItems gaps book trades l) := by
  refine ⟨mem_lane_of_mem_keyed, ?_⟩
  rintro ⟨l, hl⟩
  obtain ⟨n, hn⟩ := List.mem_iff_getElem?.1 (mem_eventsOf.1 hl)
  obtain ⟨i, p, hp, hev⟩ := exists_handsOut hn (not_regresses h hn)
  exact List.mem_filterMap.2 ⟨p, List.mem_of_getElem? hp, hev⟩

theorem lane_strict (l : LaneId) :
    (eventsOf (laneItems gaps book trades l)).Pairwise fun x y => x.1 < y.1 := by
  have hitems := laneItems_ok h l
  have hne : (eventsOf (laneItems gaps book trades l)).Pairwise fun x y => x.1 ≠ y.1 :=
    laneItems_pairwise_ne l
  rw [List.pairwise_iff_getElem] at hne ⊢
  intro i j hi hj hij
  have hget {n : ℕ} (hn : n < (eventsOf (laneItems gaps book trades l)).length) :
      (laneItems gaps book trades l)[n]? =
        some (.ok ((eventsOf (laneItems gaps book trades l))[n])) := by
    conv_lhs => rw [hitems]
    rw [List.getElem?_map, List.getElem?_eq_getElem hn]
    rfl
  refine lt_of_le_of_ne ?_ (hne i j hi hj hij)
  by_contra hlt
  exact not_regresses h (hget hj) ⟨i, _, _, hij, hget hi, not_le.1 hlt⟩

end Accepted

/-! ## Pending gaps by key -/

/-- After replaying events in key order, gaps are pending exactly when some gap has no snapshot
after it. -/
theorem pendingGaps_ne_nil_iff {keyed : List (MergeKey × ReplayEvent)}
    (hs : keyed.Pairwise fun x y => x.1 < y.1) :
    (BookReplayer.default.run (keyed.map (·.2))).pendingGaps ≠ [] ↔
      ∃ x ∈ keyed, x.2.isGap = true ∧ ∀ y ∈ keyed, x.1 < y.1 → y.2.isSnapshot = false := by
  rw [pendingGaps_default_run]
  induction keyed using List.reverseRecOn with
  | nil => simp [openGaps]
  | append_singleton keyed z ih =>
    obtain ⟨hkeyed, -, hz⟩ := List.pairwise_append.1 hs
    have hlast (x : MergeKey × ReplayEvent) (hx : x ∈ keyed) : x.1 < z.1 :=
      hz x hx z List.mem_cons_self
    rw [List.map_append, List.map_singleton, openGaps_concat]
    cases hsnap : z.2.isSnapshot with
    | true =>
      have hgap : z.2.isGap = false := by
        cases hz2 : z.2 <;> simp [hz2, ReplayEvent.isSnapshot, ReplayEvent.isGap] at hsnap ⊢
      refine iff_of_false (by simp) ?_
      rintro ⟨x, hx, hxgap, hclear⟩
      cases List.mem_append.1 hx with
      | inl hx =>
        have hnot := hclear z (List.mem_append_right _ List.mem_cons_self) (hlast x hx)
        rw [hsnap] at hnot
        cases hnot
      | inr hx =>
        rw [List.mem_singleton.1 hx, hgap] at hxgap
        cases hxgap
    | false =>
      have hold : (∃ x ∈ keyed, x.2.isGap = true ∧
          ∀ y ∈ keyed ++ [z], x.1 < y.1 → y.2.isSnapshot = false) ↔
        openGaps (keyed.map (·.2)) ≠ [] := by
        rw [ih hkeyed]
        refine exists_congr fun x => and_congr_right fun _ => and_congr_right fun _ => ?_
        rw [List.forall_mem_append]
        refine ⟨fun hall => hall.1, fun hall => ⟨hall, fun y hy _ => ?_⟩⟩
        rw [List.mem_singleton.1 hy]
        exact hsnap
      rw [if_neg (by simp), ne_eq, List.append_eq_nil_iff, not_and_or, ← ne_eq, ← hold]
      constructor
      · rintro (⟨x, hx, hgap, hclear⟩ | hgap)
        · exact ⟨x, List.mem_append_left _ hx, hgap, hclear⟩
        · refine ⟨z, List.mem_append_right _ List.mem_cons_self, by simpa using hgap, ?_⟩
          intro y hy hlt
          cases List.mem_append.1 hy with
          | inl hy => exact absurd hlt (hlast y hy).le.not_gt
          | inr hy => rwa [List.mem_singleton.1 hy]
      · rintro ⟨x, hx, hgap, hclear⟩
        cases List.mem_append.1 hx with
        | inl hx => exact Or.inl ⟨x, hx, hgap, hclear⟩
        | inr hx =>
          rw [List.mem_singleton.1 hx] at hgap
          exact Or.inr (by simp [hgap])

end Snapevent
