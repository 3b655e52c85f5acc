import Mathlib.Data.List.Dedup
import Snapevent.Lib.KeySort
import Snapevent.Load.Merge

/-!
# Trade dedup

The trade lane holds each distinct trade id once and each row without an id once.  The event of an
id takes its position from one copy and its fields from another, and neither choice depends on the
order of the rows.
-/

namespace Snapevent

open KeySort

/-- A websocket copy. -/
def FiledTrade.isWs (t : FiledTrade) : Bool := t.2.seq.isSome

/-- A backfilled copy. -/
def FiledTrade.isRest (t : FiledTrade) : Bool := t.2.seq.isNone

/-- The copy the event of an id takes its position from. -/
def IsPosition (copies : List FiledTrade) (t : FiledTrade) : Prop :=
  if copies.any FiledTrade.isWs then LeastWith FiledTrade.key FiledTrade.isWs copies t
  else LeastWith FiledTrade.key (fun _ => true) copies t

/-- The copy the event of an id takes its fields from, `pos` being its position copy. -/
def IsFields (copies : List FiledTrade) (pos t : FiledTrade) : Prop :=
  if copies.any FiledTrade.isRest then LeastWith FiledTrade.key FiledTrade.isRest copies t
  else t = pos

/-! ## One trade -/

theorem sortTrades_eq (rows : List FiledTrade) : sortTrades rows = sortOn FiledTrade.key rows := rfl

theorem head?_eq_find? {α : Type} (l : List α) : l.head? = l.find? fun _ => true := by
  cases l <;> rfl

theorem positionDonor_sortTrades {copies : List FiledTrade} (hne : copies ≠ []) :
    ∃ pos, positionDonor (sortTrades copies) = some pos ∧ IsPosition copies pos := by
  obtain ⟨c, hc⟩ := List.exists_mem_of_ne_nil copies hne
  unfold positionDonor IsPosition
  rw [sortTrades_eq, head?_eq_find?]
  by_cases hws : copies.any FiledTrade.isWs
  · obtain ⟨pos, hpos⟩ := find?_sortOn_isSome FiledTrade.key (List.any_eq_true.1 hws)
    refine ⟨pos, ?_, ?_⟩
    · show ((sortOn FiledTrade.key copies).find? FiledTrade.isWs).or _ = some pos
      rw [hpos, Option.some_or]
    · rw [if_pos hws]
      exact leastWith_of_find? hpos
  · have hnone : (sortOn FiledTrade.key copies).find? (fun t => t.2.seq.isSome) = none := by
      rw [List.find?_eq_none]
      intro t ht hs
      exact hws (List.any_eq_true.2 ⟨t, (mem_sortOn _).1 ht, hs⟩)
    obtain ⟨pos, hpos⟩ := find?_sortOn_isSome FiledTrade.key (l := copies)
      (p := fun _ => true) ⟨c, hc, rfl⟩
    refine ⟨pos, by rw [hnone, Option.none_or, hpos], ?_⟩
    rw [if_neg hws]
    exact leastWith_of_find? hpos

theorem fieldDonor_sortTrades {copies : List FiledTrade} {pos : FiledTrade}
    (hpos : positionDonor (sortTrades copies) = some pos) :
    ∃ fields, fieldDonor (sortTrades copies) = some fields ∧ IsFields copies pos fields := by
  unfold fieldDonor IsFields
  rw [hpos, sortTrades_eq]
  by_cases hrest : copies.any FiledTrade.isRest
  · obtain ⟨fields, hf⟩ := find?_sortOn_isSome FiledTrade.key (List.any_eq_true.1 hrest)
    refine ⟨fields, ?_, ?_⟩
    · show ((sortOn FiledTrade.key copies).find? FiledTrade.isRest).or _ = some fields
      rw [hf, Option.some_or]
    · rw [if_pos hrest]
      exact leastWith_of_find? hf
  · have hnone : (sortOn FiledTrade.key copies).find? (fun t => t.2.seq.isNone) = none := by
      rw [List.find?_eq_none]
      intro t ht hs
      exact hrest (List.any_eq_true.2 ⟨t, (mem_sortOn _).1 ht, hs⟩)
    exact ⟨pos, by rw [hnone, Option.none_or], by rw [if_neg hrest]⟩

theorem leastWith_singleton {t : FiledTrade} {p : FiledTrade → Bool} (hp : p t) :
    LeastWith FiledTrade.key p [t] t :=
  ⟨List.mem_singleton_self t, hp, fun b hb _ => by rw [List.mem_singleton.1 hb]⟩

/-- The row standing for the copies of an id merges the position copy with the field copy. -/
theorem collapse_eq {id : String} {copies : List FiledTrade} (hne : copies ≠ [])
    (hid : ∀ t ∈ copies, t.2.tradeId = some id) :
    ∃ pos fields, collapse id copies = some (mergeCopies id pos fields) ∧
      IsPosition copies pos ∧ IsFields copies pos fields := by
  rcases copies with _ | ⟨t, _ | ⟨u, copies⟩⟩
  · exact absurd rfl hne
  · have ht := hid t List.mem_cons_self
    refine ⟨t, t, ?_, ?_, ?_⟩
    · rcases t with ⟨i, r⟩
      simp only at ht
      simp [collapse, mergeCopies, ← ht]
    · unfold IsPosition
      split_ifs with h
      · exact leastWith_singleton (by simpa using h)
      · exact leastWith_singleton rfl
    · unfold IsFields
      split_ifs with h
      · exact leastWith_singleton (by simpa using h)
      · rfl
  · obtain ⟨pos, hpos, hp⟩ := positionDonor_sortTrades hne
    obtain ⟨fields, hfields, hf⟩ := fieldDonor_sortTrades hpos
    exact ⟨pos, fields, by rw [collapse, hpos, hfields]; simp, hp, hf⟩

theorem IsPosition.mem {copies : List FiledTrade} {t : FiledTrade} (h : IsPosition copies t) :
    t ∈ copies := by
  unfold IsPosition at h
  split_ifs at h
  · exact h.mem
  · exact h.mem

theorem key_mergeCopies (id : String) {copies : List FiledTrade} {pos fields : FiledTrade}
    (hp : IsPosition copies pos) (hf : IsFields copies pos fields) :
    (mergeCopies id pos fields).key = pos.key := by
  cases hs : pos.2.seq with
  | none =>
    -- without a websocket copy the position and the field copy have one key, so one event time
    have hrest : copies.any FiledTrade.isRest :=
      List.any_eq_true.2 ⟨pos, hp.mem, by simp [FiledTrade.isRest, hs]⟩
    have hws : ¬ copies.any FiledTrade.isWs := by
      intro hws
      rw [IsPosition, if_pos hws] at hp
      simpa [FiledTrade.isWs, hs] using hp.holds
    rw [IsPosition, if_neg hws] at hp
    rw [IsFields, if_pos hrest] at hf
    have hkey : pos.key = fields.key :=
      le_antisymm (hp.le _ hf.mem rfl) (hf.le _ hp.mem (by simp [FiledTrade.isRest, hs]))
    have hfs : fields.2.seq = none := by simpa [FiledTrade.isRest] using hf.holds
    have htime : pos.2.eventTsUs = fields.2.eventTsUs := by
      simpa [FiledTrade.key, tradeKey, tradeEffective, hs, hfs] using
        congrArg MergeKey.effectiveTs hkey
    simp [FiledTrade.key, tradeKey, tradeEffective, mergeCopies, hs, htime]
  | some s => simp [FiledTrade.key, tradeKey, tradeEffective, mergeCopies, hs]

/-! ## All trades -/

theorem mem_copiesOf {id : String} {rows : List FiledTrade} {t : FiledTrade} :
    t ∈ copiesOf id rows ↔ t ∈ rows ∧ t.2.tradeId = some id := by
  simp [copiesOf]

theorem mem_tradeIds {id : String} {rows : List FiledTrade} :
    id ∈ tradeIds rows ↔ ∃ t ∈ rows, t.2.tradeId = some id := by
  simp [tradeIds, List.mem_insertionSort]

theorem nodup_tradeIds (rows : List FiledTrade) : (tradeIds rows).Nodup :=
  (List.perm_insertionSort _ _).nodup_iff.2 (List.nodup_dedup _)

/-- The one row of id `id`: its position copy merged with its field copy. -/
def IsTradeOf (rows : List FiledTrade) (id : String) (t : FiledTrade) : Prop :=
  ∃ pos fields, IsPosition (copiesOf id rows) pos ∧ IsFields (copiesOf id rows) pos fields ∧
    t = mergeCopies id pos fields

theorem collapse_copiesOf {rows : List FiledTrade} {id : String} (h : id ∈ tradeIds rows) :
    ∃ t, collapse id (copiesOf id rows) = some t ∧ IsTradeOf rows id t := by
  obtain ⟨c, hc, hid⟩ := mem_tradeIds.1 h
  have hne : copiesOf id rows ≠ [] := List.ne_nil_of_mem (mem_copiesOf.2 ⟨hc, hid⟩)
  obtain ⟨pos, fields, heq, hp, hf⟩ := collapse_eq hne fun t ht => (mem_copiesOf.1 ht).2
  exact ⟨_, heq, pos, fields, hp, hf, rfl⟩

theorem mem_dedupTrades {rows : List FiledTrade} {t : FiledTrade} (h : t ∈ dedupTrades rows) :
    (t ∈ rows ∧ t.2.tradeId = none) ∨ ∃ id ∈ tradeIds rows, IsTradeOf rows id t := by
  rcases List.mem_append.1 h with h | h
  · left
    simpa using h
  · right
    obtain ⟨id, hid, hc⟩ := List.mem_filterMap.1 h
    obtain ⟨u, hu, hof⟩ := collapse_copiesOf hid
    obtain rfl : u = t := by simpa [hu] using hc
    exact ⟨id, hid, hof⟩

theorem IsTradeOf.tradeId {rows : List FiledTrade} {id : String} {t : FiledTrade}
    (h : IsTradeOf rows id t) : t.2.tradeId = some id := by
  obtain ⟨pos, fields, -, -, rfl⟩ := h
  rfl

theorem exists_home {rows : List FiledTrade} {t : FiledTrade} (h : t ∈ dedupTrades rows) :
    ∃ c ∈ rows, c.1 = t.1 ∧ c.2.tradeId = t.2.tradeId ∧ c.key = t.key := by
  rcases mem_dedupTrades h with ⟨hmem, -⟩ | ⟨id, -, hof⟩
  · exact ⟨t, hmem, rfl, rfl, rfl⟩
  · have hid := hof.tradeId
    obtain ⟨pos, fields, hp, hf, rfl⟩ := hof
    obtain ⟨hmem, hpid⟩ := mem_copiesOf.1 hp.mem
    exact ⟨pos, hmem, rfl, hpid.trans hid.symm, (key_mergeCopies id hp hf).symm⟩

theorem filterMap_tradeId_dedupTrades (rows : List FiledTrade) :
    (dedupTrades rows).filterMap (·.2.tradeId) = tradeIds rows := by
  have huntagged : (rows.filter (·.2.tradeId.isNone)).filterMap (·.2.tradeId) = [] := by
    rw [List.filterMap_eq_nil_iff]
    intro t ht
    simpa using (List.mem_filter.1 ht).2
  have htagged (ids : List String) (hids : ∀ id ∈ ids, id ∈ tradeIds rows) :
      (ids.filterMap fun id => collapse id (copiesOf id rows)).filterMap (·.2.tradeId) = ids := by
    induction ids with
    | nil => rfl
    | cons id ids ih =>
      obtain ⟨t, ht, hof⟩ := collapse_copiesOf (hids id List.mem_cons_self)
      have ih := ih fun id h => hids id (List.mem_cons_of_mem _ h)
      simp only [List.filterMap_cons, ht, hof.tradeId, ih]
  rw [dedupTrades, List.filterMap_append, huntagged, List.nil_append,
    htagged _ fun _ h => h]

theorem filter_untagged_dedupTrades (rows : List FiledTrade) :
    (dedupTrades rows).filter (·.2.tradeId.isNone) = rows.filter (·.2.tradeId.isNone) := by
  have htagged : ((tradeIds rows).filterMap fun id => collapse id (copiesOf id rows)).filter
      (·.2.tradeId.isNone) = [] := by
    rw [List.filter_eq_nil_iff]
    intro t ht
    obtain ⟨id, hid, hc⟩ := List.mem_filterMap.1 ht
    obtain ⟨u, hu, hof⟩ := collapse_copiesOf hid
    obtain rfl : u = t := by simpa [hu] using hc
    simp [hof.tradeId]
  rw [dedupTrades, List.filter_append, htagged, List.append_nil, List.filter_filter]
  simp

theorem dedupTrades_fileRow_ne {rows : List FiledTrade}
    (hn : rows.Pairwise fun a b => a.1 ≠ b.1) :
    (dedupTrades rows).Pairwise fun a b => a.1 ≠ b.1 := by
  have hsame {a b : FiledTrade} (ha : a ∈ rows) (hb : b ∈ rows) (h : a.1 = b.1) : a = b := by
    by_contra hne
    have : Std.Symm fun a b : FiledTrade => a.1 ≠ b.1 := ⟨fun _ _ => Ne.symm⟩
    exact hn.forall ha hb hne h
  -- rows of different ids come from different rows
  have hids {a b : FiledTrade} (ha : a ∈ dedupTrades rows) (hb : b ∈ dedupTrades rows)
      (hne : a.2.tradeId ≠ b.2.tradeId) : a.1 ≠ b.1 := by
    intro h
    obtain ⟨c, hc, hc₁, hcid, -⟩ := exists_home ha
    obtain ⟨d, hd, hd₁, hdid, -⟩ := exists_home hb
    have hcd := hsame hc hd (by rw [hc₁, hd₁, h])
    exact hne (by rw [← hcid, ← hdid, hcd])
  refine List.pairwise_append.2 ⟨hn.sublist List.filter_sublist, ?_, fun a ha b hb => ?_⟩
  · rw [List.pairwise_filterMap]
    apply (nodup_tradeIds rows).imp_of_mem
    intro id id' hid hid' hne t ht t' ht'
    obtain ⟨u, hu, hof⟩ := collapse_copiesOf hid
    obtain ⟨u', hu', hof'⟩ := collapse_copiesOf hid'
    obtain rfl : u = t := by simpa [hu] using ht
    obtain rfl : u' = t' := by simpa [hu'] using ht'
    refine hids (List.mem_append_right _ (List.mem_filterMap.2 ⟨id, hid, hu⟩))
      (List.mem_append_right _ (List.mem_filterMap.2 ⟨id', hid', hu'⟩)) ?_
    rw [hof.tradeId, hof'.tradeId]
    simpa using hne
  · apply hids (List.mem_append_left _ ha) (List.mem_append_right _ hb)
    obtain ⟨id, hid, hc⟩ := List.mem_filterMap.1 hb
    obtain ⟨u, hu, hof⟩ := collapse_copiesOf hid
    obtain rfl : u = b := by simpa [hu] using hc
    have hnone : a.2.tradeId = none := by simpa using (List.mem_filter.1 ha).2
    rw [hnone, hof.tradeId]
    simp

/-! ## The lane -/

theorem filed_fst (rows : List TradeRow) : (filed rows).map (·.1) = List.range rows.length := by
  rw [filed, List.mapIdx_eq_zipIdx_map, List.map_map, List.range_eq_range',
    ← List.zipIdx_map_snd 0 rows]
  rfl

theorem filed_snd (rows : List TradeRow) : (filed rows).map (·.2) = rows := by
  rw [filed, List.mapIdx_eq_zipIdx_map, List.map_map]
  exact List.zipIdx_map_fst 0 rows

theorem filed_fileRow_ne (rows : List TradeRow) :
    (filed rows).Pairwise fun a b => a.1 ≠ b.1 := by
  have hnodup : ((filed rows).map (·.1)).Nodup := by
    rw [filed_fst]
    exact List.nodup_range
  exact List.pairwise_map.1 hnodup

theorem tradeLaneRows_perm (rows : List TradeRow) :
    (tradeLaneRows rows).Perm (dedupTrades (filed rows)) := sortOn_perm FiledTrade.key _

theorem tradeLaneRows_sorted (rows : List TradeRow) :
    (tradeLaneRows rows).Pairwise fun a b => a.key < b.key := by
  have hsorted : (tradeLaneRows rows).Pairwise fun a b => a.key ≤ b.key :=
    sortOn_sorted FiledTrade.key _
  have hne : (tradeLaneRows rows).Pairwise fun a b => a.1 ≠ b.1 :=
    ((tradeLaneRows_perm rows).pairwise_iff Ne.symm).2
      (dedupTrades_fileRow_ne (filed_fileRow_ne rows))
  refine (hsorted.and hne).imp fun ⟨hle, hne⟩ => lt_of_le_of_ne hle fun h => hne ?_
  exact congrArg MergeKey.fileRow h

/-! ## The order of the rows does not matter -/

/-- The key of a trade row without its file row. -/
def rowKey (row : TradeRow) : MergeKey := tradeKey row 0

theorem rowKey_le {a b : FiledTrade} (h : a.key ≤ b.key) : rowKey a.2 ≤ rowKey b.2 := by
  by_contra hlt
  refine (lt_irrefl _ (lt_of_le_of_lt h ?_))
  rw [not_le, MergeKey.lt_iff] at hlt
  rw [MergeKey.lt_iff]
  simp only [rowKey, tradeKey, FiledTrade.key] at hlt ⊢
  omega

theorem rowKey_eq {a b : FiledTrade} (h : a.key = b.key) : rowKey a.2 = rowKey b.2 :=
  le_antisymm (rowKey_le h.le) (rowKey_le h.ge)

theorem LeastWith.row {q : TradeRow → Bool} {copies : List FiledTrade} {t : FiledTrade}
    (h : LeastWith FiledTrade.key (fun t => q t.2) copies t) :
    LeastWith rowKey q (copies.map (·.2)) t.2 := by
  refine ⟨List.mem_map_of_mem h.mem, h.holds, fun r hr hq => ?_⟩
  obtain ⟨u, hu, rfl⟩ := List.mem_map.1 hr
  exact rowKey_le (h.le u hu hq)

theorem LeastWith.unique {q : TradeRow → Bool} {l l' : List TradeRow} {a b : TradeRow}
    (hperm : l.Perm l') (hkey : l.Pairwise fun a b => rowKey a ≠ rowKey b)
    (ha : LeastWith rowKey q l a) (hb : LeastWith rowKey q l' b) : a = b := by
  have hbl := hperm.mem_iff.2 hb.mem
  by_contra hne
  exact hkey.forall ha.mem hbl hne
    (le_antisymm (ha.le b hbl hb.holds) (hb.le a (hperm.mem_iff.1 ha.mem) ha.holds))

theorem copiesOf_snd (id : String) (rows : List TradeRow) :
    (copiesOf id (filed rows)).map (·.2) = rows.filter (·.tradeId = some id) := by
  conv_rhs => rw [← filed_snd rows, List.filter_map]
  rfl

theorem any_copiesOf (q : TradeRow → Bool) (id : String) (rows : List TradeRow) :
    (copiesOf id (filed rows)).any (fun t => q t.2) = (rows.filter (·.tradeId = some id)).any q := by
  rw [← copiesOf_snd, List.any_map]
  rfl

section Permuted

variable {rows rows' : List TradeRow} (hperm : rows.Perm rows')
  (hkey : rows.Pairwise fun a b => rowKey a ≠ rowKey b)

include hperm

theorem any_copiesOf_perm (q : TradeRow → Bool) (id : String) :
    (copiesOf id (filed rows)).any (fun t => q t.2) =
      (copiesOf id (filed rows')).any fun t => q t.2 := by
  rw [any_copiesOf, any_copiesOf]
  exact (hperm.filter _).any_eq

include hkey

/-- The least copy is the same row in either order. -/
theorem leastWith_perm (q : TradeRow → Bool) {id : String} {t u : FiledTrade}
    (ht : LeastWith FiledTrade.key (fun t => q t.2) (copiesOf id (filed rows)) t)
    (hu : LeastWith FiledTrade.key (fun t => q t.2) (copiesOf id (filed rows')) u) :
    t.2 = u.2 := by
  have ht := LeastWith.row ht
  have hu := LeastWith.row hu
  rw [copiesOf_snd] at ht hu
  exact LeastWith.unique (hperm.filter _) (hkey.sublist List.filter_sublist) ht hu

theorem isPosition_perm {id : String} {t u : FiledTrade}
    (ht : IsPosition (copiesOf id (filed rows)) t) (hu : IsPosition (copiesOf id (filed rows')) u) :
    t.2 = u.2 := by
  have hany : (copiesOf id (filed rows)).any FiledTrade.isWs =
      (copiesOf id (filed rows')).any FiledTrade.isWs :=
    any_copiesOf_perm hperm (fun r => r.seq.isSome) id
  unfold IsPosition at ht hu
  rw [hany] at ht
  by_cases hws : (copiesOf id (filed rows')).any FiledTrade.isWs
  · rw [if_pos hws] at ht hu
    exact leastWith_perm hperm hkey (fun r => r.seq.isSome) ht hu
  · rw [if_neg hws] at ht hu
    exact leastWith_perm hperm hkey (fun _ => true) ht hu

theorem isFields_perm {id : String} {pos pos' t u : FiledTrade}
    (ht : IsFields (copiesOf id (filed rows)) pos t)
    (hu : IsFields (copiesOf id (filed rows')) pos' u) (hpos : pos.2 = pos'.2) : t.2 = u.2 := by
  have hany : (copiesOf id (filed rows)).any FiledTrade.isRest =
      (copiesOf id (filed rows')).any FiledTrade.isRest :=
    any_copiesOf_perm hperm (fun r => r.seq.isNone) id
  unfold IsFields at ht hu
  rw [hany] at ht
  by_cases hrest : (copiesOf id (filed rows')).any FiledTrade.isRest
  · rw [if_pos hrest] at ht hu
    exact leastWith_perm hperm hkey (fun r => r.seq.isNone) ht hu
  · rw [if_neg hrest] at ht hu
    rw [ht, hu, hpos]

theorem isTradeOf_perm {id : String} {t u : FiledTrade} (ht : IsTradeOf (filed rows) id t)
    (hu : IsTradeOf (filed rows') id u) : t.2 = u.2 := by
  obtain ⟨pos, fields, hp, hf, rfl⟩ := ht
  obtain ⟨pos', fields', hp', hf', rfl⟩ := hu
  have hpos := isPosition_perm hperm hkey hp hp'
  have hfields := isFields_perm hperm hkey hf hf' hpos
  simp [mergeCopies, hpos, hfields]

omit hkey in
theorem tradeIds_perm : tradeIds (filed rows) = tradeIds (filed rows') := by
  have hids (rows : List TradeRow) :
      (filed rows).filterMap (·.2.tradeId) = rows.filterMap (·.tradeId) := by
    conv_rhs => rw [← filed_snd rows, List.filterMap_map]
    rfl
  have hp : (tradeIds (filed rows)).Perm (tradeIds (filed rows')) := by
    refine (sortOn_perm id _).trans (.trans ?_ (sortOn_perm id _).symm)
    rw [hids, hids]
    exact (hperm.filterMap _).dedup
  exact eq_of_sorted_of_perm (sortOn_sorted id _) (sortOn_sorted id _) hp (nodup_tradeIds _)

theorem dedupTrades_perm :
    ((dedupTrades (filed rows)).map (·.2)).Perm ((dedupTrades (filed rows')).map (·.2)) := by
  have huntagged (rows : List TradeRow) : ((filed rows).filter (·.2.tradeId.isNone)).map (·.2) =
      rows.filter (·.tradeId.isNone) := by
    conv_rhs => rw [← filed_snd rows, List.filter_map]
    rfl
  have htagged : ((tradeIds (filed rows)).filterMap fun id =>
        collapse id (copiesOf id (filed rows))).map (·.2) =
      ((tradeIds (filed rows')).filterMap fun id =>
        collapse id (copiesOf id (filed rows'))).map (·.2) := by
    rw [← tradeIds_perm hperm, List.map_filterMap, List.map_filterMap]
    refine List.filterMap_congr fun id hid => ?_
    obtain ⟨t, ht, hof⟩ := collapse_copiesOf hid
    obtain ⟨u, hu, hof'⟩ := collapse_copiesOf (tradeIds_perm hperm ▸ hid)
    rw [ht, hu, Option.map_some, Option.map_some, isTradeOf_perm hperm hkey hof hof']
  rw [dedupTrades, dedupTrades, List.map_append, List.map_append, huntagged, huntagged, htagged]
  exact (hperm.filter _).append_right _

theorem tradeLaneRows_snd_perm :
    (tradeLaneRows rows).map (·.2) = (tradeLaneRows rows').map (·.2) := by
  have hsorted (rows : List TradeRow) : ((tradeLaneRows rows).map (·.2)).Pairwise
      fun a b => rowKey a ≤ rowKey b :=
    List.pairwise_map.2 ((tradeLaneRows_sorted rows).imp fun h => rowKey_le h.le)
  refine eq_of_sorted_of_perm (hsorted rows) (hsorted rows') ?_ ?_
  · exact ((tradeLaneRows_perm rows).map _).trans ((dedupTrades_perm hperm hkey).trans
      ((tradeLaneRows_perm rows').map _).symm)
  · -- two rows of the lane have their places at two different rows of the input
    refine List.pairwise_map.2 ((tradeLaneRows_sorted rows).imp_of_mem fun {a b} ha hb hlt h => ?_)
    obtain ⟨c, hc, -, -, hck⟩ := exists_home ((tradeLaneRows_perm rows).mem_iff.1 ha)
    obtain ⟨d, hd, -, -, hdk⟩ := exists_home ((tradeLaneRows_perm rows).mem_iff.1 hb)
    have hfiled : (filed rows).Pairwise fun a b => rowKey a.2 ≠ rowKey b.2 := by
      rw [← filed_snd rows, List.pairwise_map] at hkey
      exact hkey
    have hcd : c ≠ d := by
      rintro rfl
      exact absurd (hck.symm.trans hdk) hlt.ne
    have : Std.Symm fun a b : FiledTrade => rowKey a.2 ≠ rowKey b.2 := ⟨fun _ _ => Ne.symm⟩
    exact hfiled.forall hc hd hcd (by rw [rowKey_eq hck, rowKey_eq hdk, h])

end Permuted

/-- Every trade is replayed once, at the place of one copy and with the fields of another, and the
order of the rows only matters between rows of one key. -/
theorem trade_lane_replays_each_trade_once (rows : List TradeRow) :
    ((tradeLaneRows rows).filterMap (·.2.tradeId)).Perm (rows.filterMap (·.tradeId)).dedup ∧
    ((tradeLaneRows rows).filter (·.2.tradeId.isNone)).Perm
      ((filed rows).filter (·.2.tradeId.isNone)) ∧
    (∀ t ∈ tradeLaneRows rows, ∀ id, t.2.tradeId = some id →
      ∃ pos fields, IsPosition (copiesOf id (filed rows)) pos ∧
        IsFields (copiesOf id (filed rows)) pos fields ∧
        t.key = pos.key ∧ (pos.2.seq = none → t.key.effectiveTs = pos.2.eventTsUs) ∧
        t.2.eventTsUs = fields.2.eventTsUs ∧
        tradeEvent t.2 = .trade pos.key.effectiveTs ⟨fields.2.priceMicro⟩ ⟨fields.2.countCenti⟩
          fields.2.takerSide (fields.2.takerBookSide.or pos.2.takerBookSide) (some id)
          (tradeEffective pos.2).2) ∧
    (tradeLaneRows rows).Pairwise (fun a b => a.key < b.key) ∧
    ∀ rows', rows.Perm rows' → rows.Pairwise (fun a b => rowKey a ≠ rowKey b) →
      (tradeLaneRows rows).map (fun t => tradeEvent t.2) =
        (tradeLaneRows rows').map fun t => tradeEvent t.2 := by
  refine ⟨?_, ?_, fun t ht id hid => ?_, tradeLaneRows_sorted rows, fun rows' hperm hkey => ?_⟩
  · apply ((tradeLaneRows_perm rows).filterMap _).trans
    rw [filterMap_tradeId_dedupTrades]
    refine (sortOn_perm id _).trans (List.Perm.of_eq ?_)
    conv_rhs => rw [← filed_snd rows, List.filterMap_map]
    rfl
  · refine ((tradeLaneRows_perm rows).filter _).trans (List.Perm.of_eq ?_)
    exact filter_untagged_dedupTrades _
  · rcases mem_dedupTrades ((tradeLaneRows_perm rows).mem_iff.1 ht) with ⟨-, hnone⟩ | ⟨id', -, hof⟩
    · simp [hnone] at hid
    · obtain rfl : id' = id := by simpa [hof.tradeId] using hid
      obtain ⟨pos, fields, hp, hf, rfl⟩ := hof
      have hkey := key_mergeCopies id' hp hf
      refine ⟨pos, fields, hp, hf, hkey, fun hs => ?_, rfl, ?_⟩
      · rw [hkey]
        simp [FiledTrade.key, tradeKey, tradeEffective, hs]
      · have hts : (tradeEffective (mergeCopies id' pos fields).2).1 = pos.key.effectiveTs :=
          congrArg MergeKey.effectiveTs hkey
        have hsrc : (tradeEffective (mergeCopies id' pos fields).2).2 = (tradeEffective pos.2).2 := by
          rcases hs : pos.2.seq with _ | s <;> simp [tradeEffective, mergeCopies, hs]
        rw [tradeEvent, hts, hsrc]
        rfl
  · have h := congrArg (List.map tradeEvent) (tradeLaneRows_snd_perm hperm hkey)
    rw [List.map_map, List.map_map] at h
    exact h

end Snapevent
