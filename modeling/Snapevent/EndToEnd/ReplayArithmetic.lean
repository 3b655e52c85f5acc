import Mathlib.Data.Finset.Card
import Mathlib.Data.Finset.Range
import Snapevent.EndToEnd.PositiveLevels

/-!
# The arithmetic of replay

Every fixed-width operation and cast a replayed book performs, beside the same operation on the
integers.  While the resting quantities of both sides add up to a signed word, loading, changing and
reading a book is exact, except for the sum of best bid and ask under the mid price: the prices a
decimal text can give reach `2 ^ 32 - 1`, and the sum is taken in 32 bits.
-/

namespace Snapevent

/-- The result of a machine operation, and that of the same operation on the integers. -/
structure Operation where
  machine : ℤ
  exact : ℤ

/-- The machine did what the integers do. -/
def Operation.Faithful (o : Operation) : Prop := o.machine = o.exact

/-! ## The operations of a call -/

/-- Loading one level: the cast of its quantity and the correction of the total. -/
def loadLevelOps (map : Levels) (total : Int64) (level : PriceLevel) : List Operation :=
  let q := level.quantity.centi.toInt64
  ⟨q.toInt, level.quantity.centi.toNat⟩ ::
    match map[level.price.micro]? with
    | some old =>
      [⟨(q - old).toInt, q.toInt - old.toInt⟩,
        ⟨(total + (q - old)).toInt, total.toInt + (q - old).toInt⟩]
    | none => [⟨(total + q).toInt, total.toInt + q.toInt⟩]

/-- Loading a list of levels. -/
def loadLevelsOps (map : Levels) (total : Int64) : List PriceLevel → List Operation
  | [] => []
  | level :: levels => loadLevelOps map total level ++
      loadLevelsOps (loadLevels map total [level]).1 (loadLevels map total [level]).2 levels

namespace Book

/-- Changing one level: the level, the total, the correction of a pruned level, and the 64-bit
underflow count. -/
def changeOps (b : Book) (side : Side) (price : UInt32) (delta : Int64) : List Operation :=
  let old := (b.levels side).getD price 0
  let new := old + delta
  let total := b.total side + delta
  [⟨new.toInt, old.toInt + delta.toInt⟩,
    ⟨total.toInt, (b.total side).toInt + delta.toInt⟩] ++
  (if new ≤ 0 then [⟨(total - new).toInt, total.toInt - new.toInt⟩] else []) ++
  (if new < 0 then [⟨((b.underflows + 1) % 2 ^ 64 : ℕ), (b.underflows + 1 : ℕ)⟩] else [])

/-- The operations of one call. -/
def callOps (b : Book) : BookCall → List Operation
  | .applySnapshot snap => loadLevelsOps ∅ 0 snap.yes ++ loadLevelsOps ∅ 0 snap.no
  | .applySnapshotLevels yes no => loadLevelsOps ∅ 0 yes ++ loadLevelsOps ∅ 0 no
  | .applyDelta d => b.changeOps d.side d.price.micro d.delta.centi
  | .applyChange side priceMicro deltaCenti => b.changeOps side priceMicro deltaCenti

/-- The operations of `top`: the complement of the best NO bid and the casts of the counts. -/
def topOps (b : Book) : List Operation :=
  (match b.no.toList.getLast? with
    | some best =>
      [⟨(if best.1 ≤ ONE_DOLLAR_MICRO then ONE_DOLLAR_MICRO - best.1 else 0).toNat,
        max 0 (1000000 - best.1.toNat)⟩]
    | none => []) ++
  [⟨(Int64.ofNat b.yes.size).toInt, b.yes.size⟩, ⟨(Int64.ofNat b.no.size).toInt, b.no.size⟩]

end Book

namespace Top

/-- The operations of `mid_micro`, in 32 bits. -/
def midOps (t : Top) : List Operation :=
  match t.yesBidMicro, t.yesAskMicro with
  | some b, some a =>
    [⟨(b + a).toNat, b.toNat + a.toNat⟩, ⟨((b + a) / 2).toNat, ((b + a).toNat / 2 : ℕ)⟩]
  | _, _ => []

/-- The operations of `spread_micro`: two casts and a difference. -/
def spreadOps (t : Top) : List Operation :=
  match t.yesBidMicro, t.yesAskMicro with
  | some b, some a =>
    let bid := b.toUInt64.toInt64
    let ask := a.toUInt64.toInt64
    [⟨ask.toInt, a.toNat⟩, ⟨bid.toInt, b.toNat⟩, ⟨(ask - bid).toInt, ask.toInt - bid.toInt⟩]
  | _, _ => []

/-- The denominator of `imbalance`, and its numerator unless the book is empty. -/
def imbalanceOps (t : Top) : List Operation :=
  ⟨(t.yesTotalCenti + t.noTotalCenti).toInt, t.yesTotalCenti.toInt + t.noTotalCenti.toInt⟩ ::
    if t.yesTotalCenti + t.noTotalCenti = 0 then []
    else [⟨(t.yesTotalCenti - t.noTotalCenti).toInt,
      t.yesTotalCenti.toInt - t.noTotalCenti.toInt⟩]

end Top

/-- The operations of reading a book. -/
def Book.readOps (b : Book) : List Operation :=
  b.topOps ++ b.top.midOps ++ b.top.spreadOps ++ b.top.imbalanceOps

/-! ## The exact sums -/

namespace ExactBook

/-- The quantities of both sides add up to a signed 64-bit word. -/
def BothFit (e : ExactBook) : Prop := e.total .yes + e.total .no < 2 ^ 63

/-- The sum stays within a signed word after every level the call writes. -/
def WritesFit (e : ExactBook) : BookCall → Prop
  | .applySnapshot snap => LoadsFit e snap.yes snap.no
  | .applySnapshotLevels yes no => LoadsFit e yes no
  | .applyDelta d => (e.change d.side d.price.micro d.delta.centi.toInt).BothFit
  | .applyChange side priceMicro deltaCenti =>
    (e.change side priceMicro deltaCenti.toInt).BothFit
where
  /-- The YES levels are written first, into an empty book. -/
  LoadsFit (e : ExactBook) (yes no : List PriceLevel) : Prop :=
    (∀ part, part <+: yes → (e.snapshot part []).BothFit) ∧
      ∀ part, part <+: no → (e.snapshot yes part).BothFit

/-- Every YES bid and the YES ask, one dollar less the best NO bid, add up to a 32-bit word. -/
def MidFits (e : ExactBook) : Prop :=
  ∀ p ∈ e.levels .yes, ∀ n ∈ e.levels .no, (∀ n' ∈ e.levels .no, n' ≤ n) →
    p.toNat + (1000000 - n.toNat) < 2 ^ 32

theorem total_nonneg (e : ExactBook) (side : Side) : 0 ≤ e.total side :=
  MapTotal.total_nonneg fun _ q _ => Int.natCast_nonneg q

theorem BothFit.sumsFit {e : ExactBook} (h : e.BothFit) : e.SumsFit := by
  have hyes := e.total_nonneg .yes
  have hno := e.total_nonneg .no
  unfold BothFit at h
  intro side
  cases side
  · omega
  · omega

theorem WritesFit.bothFit {e : ExactBook} {c : BookCall} (h : e.WritesFit c) :
    (e.call c).BothFit := by
  cases c with
  | applySnapshot snap => exact h.2 snap.no (List.prefix_refl _)
  | applySnapshotLevels yes no => exact h.2 no (List.prefix_refl _)
  | applyDelta d => exact h
  | applyChange side price delta => exact h

theorem bothFit_default : default.BothFit := by
  unfold BothFit total default
  dsimp only
  rw [MapTotal.total_empty]
  decide

end ExactBook

/-! ## Loading -/

/-- One machine side, its total and the exact side it represents. -/
structure SideExact (m : Levels) (total : Int64) (m' : ExactLevels) : Prop where
  levels : ∀ p : UInt32, m[p]? = m'[p]?.map Int64.ofNat
  total : total.toInt = MapTotal.total Nat.cast m'
  fits : MapTotal.total Nat.cast m' < 2 ^ 63

theorem loadLevel_exact {m : Levels} {total : Int64} {m' : ExactLevels} (h : SideExact m total m')
    (l : PriceLevel)
    (hfit : MapTotal.total Nat.cast (m'.insert l.price.micro l.quantity.centi.toNat) < 2 ^ 63) :
    (∀ o ∈ loadLevelOps m total l, o.Faithful) ∧
      SideExact (loadLevels m total [l]).1 (loadLevels m total [l]).2
        (m'.insert l.price.micro l.quantity.centi.toNat) := by
  have hins := MapTotal.total_insert Nat.cast m' l.price.micro l.quantity.centi.toNat
  have hold := MapTotal.total_eq Nat.cast m' l.price.micro
  have hrest : 0 ≤ MapTotal.total Nat.cast (m'.erase l.price.micro) :=
    MapTotal.total_nonneg fun _ q _ => Int.natCast_nonneg q
  have hq := toInt_toInt64 (a := l.quantity.centi) (by omega)
  have hlevels (p : UInt32) : (loadLevels m total [l]).1[p]? =
      (m'.insert l.price.micro l.quantity.centi.toNat)[p]?.map Int64.ofNat := by
    rw [loadLevels_fst, List.foldl_cons, List.foldl_nil, Std.ExtTreeMap.getElem?_insert,
      Std.ExtTreeMap.getElem?_insert]
    split_ifs
    · rw [Option.map_some, ← UInt64.toInt64_ofNat', UInt64.ofNat_toNat]
    · exact h.levels p
  have hat := h.levels l.price.micro
  have htotal := h.total
  have hfits := h.fits
  unfold loadLevelOps
  simp only [loadLevels] at hlevels ⊢
  cases hm : m'[l.price.micro]? with
  | none =>
    rw [hm] at hat hold
    rw [Option.map_none] at hat
    rw [hat]
    simp only [Option.map_none, Option.getD_none] at hold
    have hadd := toInt_add_of_fits (x := total) (y := l.quantity.centi.toInt64) (by omega)
      (by omega)
    simp only [List.forall_mem_cons, List.not_mem_nil, false_implies, implies_true, and_true]
    exact ⟨⟨hq, hadd⟩, hlevels, by omega, hfit⟩
  | some old =>
    rw [hm] at hat hold
    rw [Option.map_some] at hat
    rw [hat]
    simp only [Option.map_some, Option.getD_some] at hold
    have hword : (Int64.ofNat old).toInt = old := Int64.toInt_ofNat_of_lt (by omega)
    have hsub := toInt_sub_of_fits (x := l.quantity.centi.toInt64) (y := Int64.ofNat old)
      (by omega) (by omega)
    have hadd := toInt_add_of_fits (x := total) (y := l.quantity.centi.toInt64 - Int64.ofNat old)
      (by omega) (by omega)
    simp only [List.forall_mem_cons, List.not_mem_nil, false_implies, implies_true, and_true]
    exact ⟨⟨hq, hsub, hadd⟩, hlevels, by omega, hfit⟩

theorem loadLevels_exact {m : Levels} {total : Int64} {m' : ExactLevels} (h : SideExact m total m')
    (levels : List PriceLevel)
    (hfit : ∀ part, part <+: levels → MapTotal.total Nat.cast
      (part.foldl (fun m l => m.insert l.price.micro l.quantity.centi.toNat) m') < 2 ^ 63) :
    ∀ o ∈ loadLevelsOps m total levels, o.Faithful := by
  induction levels generalizing m total m' with
  | nil => exact nofun
  | cons l levels ih =>
    obtain ⟨hops, hside⟩ := loadLevel_exact h l (hfit [l] (List.prefix_append [l] levels))
    rw [loadLevelsOps]
    intro o ho
    rcases List.mem_append.1 ho with ho | ho
    · exact hops o ho
    · refine ih hside (fun part hpart => ?_) o ho
      exact hfit (l :: part) (List.cons_prefix_cons.2 ⟨rfl, hpart⟩)

theorem sideExact_empty : SideExact ∅ 0 ∅ := by
  refine ⟨fun p => ?_, ?_, ?_⟩
  · rw [Std.ExtTreeMap.getElem?_empty, Std.ExtTreeMap.getElem?_empty]
    rfl
  · rw [MapTotal.total_empty]
    rfl
  · rw [MapTotal.total_empty]
    decide

theorem snapshot_faithful {e : ExactBook} {yes no : List PriceLevel}
    (h : ExactBook.WritesFit.LoadsFit e yes no) :
    ∀ o ∈ loadLevelsOps ∅ 0 yes ++ loadLevelsOps ∅ 0 no, o.Faithful := by
  intro o ho
  rcases List.mem_append.1 ho with ho | ho
  · exact loadLevels_exact sideExact_empty yes (fun part hpart => (h.1 part hpart).sumsFit .yes) o ho
  · exact loadLevels_exact sideExact_empty no (fun part hpart => (h.2 part hpart).sumsFit .no) o ho

/-! ## Changing -/

section Change

variable {b : Book} {e : ExactBook} (h : Represents b e) (hfit : e.BothFit)
  (htotal : ∀ side, (b.total side).toInt = e.total side)

include h hfit htotal

/-- A change is exact while the sums fit, but for the wrap of the underflow count. -/
theorem change_faithful_iff {side : Side} {price : UInt32} {delta : Int64}
    (hfit' : (e.change side price delta.toInt).BothFit) :
    (∀ o ∈ b.changeOps side price delta, o.Faithful) ↔
      (e.changed side price delta.toInt < 0 → e.underflows + 1 < 2 ^ 64) := by
  have hquant := hfit.sumsFit.quantitiesFit
  have hnew := h.toInt_changed hquant side price delta hfit'.sumsFit.quantitiesFit
  have hold := h.toInt_getD hquant side price
  have hsum : e.changed side price delta.toInt =
      ((e.levels side).getD price 0 : ℕ) + delta.toInt := rfl
  -- what the other levels of the side hold
  obtain ⟨rest, hrest, hside, hafter⟩ : ∃ rest : ℤ, 0 ≤ rest ∧
      e.total side = ((e.levels side).getD price 0 : ℕ) + rest ∧
      (e.change side price delta.toInt).total side =
        max 0 (e.changed side price delta.toInt) + rest := by
    refine ⟨MapTotal.total Nat.cast ((e.levels side).erase price),
      MapTotal.total_nonneg fun _ q _ => Int.natCast_nonneg q, ?_, ?_⟩
    · rw [ExactBook.total, MapTotal.total_eq Nat.cast (e.levels side) price,
        Std.ExtTreeMap.getD_eq_getD_getElem?]
      cases (e.levels side)[price]? <;> rfl
    · rw [ExactBook.total, ExactBook.change]
      dsimp only
      rw [Function.update_self]
      split_ifs with hpos
      · rw [MapTotal.total_insert]
        omega
      · omega
  have hbefore := hfit.sumsFit side
  have hlt := hfit'.sumsFit side
  have hdelta := delta.le_toInt
  have hadd : (b.total side + delta).toInt = (b.total side).toInt + delta.toInt :=
    toInt_add_of_fits (by rw [htotal]; omega) (by rw [htotal]; omega)
  have hsub (hle : (b.levels side).getD price 0 + delta ≤ 0) :
      (b.total side + delta - ((b.levels side).getD price 0 + delta)).toInt =
        (b.total side + delta).toInt - ((b.levels side).getD price 0 + delta).toInt := by
    rw [Int64.le_iff_toInt_le, hnew] at hle
    have hzero : (0 : Int64).toInt = 0 := rfl
    apply toInt_sub_of_fits
    · rw [hadd, htotal, hnew]
      omega
    · rw [hadd, htotal, hnew]
      omega
  have hneg : (b.levels side).getD price 0 + delta < 0 ↔ e.changed side price delta.toInt < 0 := by
    rw [Int64.lt_iff_toInt_lt, hnew]
    rfl
  have hcount : (((b.underflows + 1) % 2 ^ 64 : ℕ) : ℤ) = (b.underflows + 1 : ℕ) ↔
      e.underflows + 1 < 2 ^ 64 := by
    rw [h.underflows]
    omega
  unfold Book.changeOps
  dsimp only
  constructor
  · intro hall hchanged
    apply hcount.1
    apply hall ⟨_, _⟩
    rw [if_pos (hneg.2 hchanged)]
    exact List.mem_append_right _ List.mem_cons_self
  · intro hunder o ho
    rcases List.mem_append.1 ho with ho | ho
    · rcases List.mem_append.1 ho with ho | ho
      · rcases List.mem_cons.1 ho with rfl | ho
        · exact hnew.trans (by rw [hsum, hold])
        · rw [List.mem_singleton.1 ho]
          exact hadd
      · split_ifs at ho with hle
        · rw [List.mem_singleton.1 ho]
          exact hsub hle
        · cases ho
    · split_ifs at ho with hlt
      · rw [List.mem_singleton.1 ho]
        exact hcount.2 (hunder (hneg.1 hlt))
      · cases ho

end Change

theorem underflows_change (e : ExactBook) (side : Side) (price : UInt32) (delta : ℤ) :
    (e.change side price delta).underflows =
      if e.changed side price delta < 0 then e.underflows + 1 else e.underflows := rfl

/-- One call is exact while the sums fit and the underflow count does not wrap. -/
theorem call_faithful_iff {b : Book} {e : ExactBook} (h : Represents b e) (hfit : e.BothFit)
    (htotal : ∀ side, (b.total side).toInt = e.total side)
    (hcount : e.underflows < 2 ^ 64) {c : BookCall} (hc : e.WritesFit c) :
    (∀ o ∈ b.callOps c, o.Faithful) ↔ (e.call c).underflows < 2 ^ 64 := by
  have hchange (side : Side) (price : UInt32) (delta : Int64)
      (hfit' : (e.change side price delta.toInt).BothFit) :
      (∀ o ∈ b.changeOps side price delta, o.Faithful) ↔
        (e.change side price delta.toInt).underflows < 2 ^ 64 := by
    rw [change_faithful_iff h hfit htotal hfit', underflows_change]
    split_ifs with hneg
    · exact ⟨fun hu => hu hneg, fun hu _ => hu⟩
    · exact ⟨fun _ => hcount, fun _ hlt => absurd hlt hneg⟩
  cases c with
  | applySnapshot snap => exact iff_of_true (snapshot_faithful hc) hcount
  | applySnapshotLevels yes no => exact iff_of_true (snapshot_faithful hc) hcount
  | applyDelta d => exact hchange _ _ _ hc
  | applyChange side price delta => exact hchange side price delta hc

/-! ## Reading -/

theorem size_le (m : Levels) : m.size ≤ 2 ^ 32 := by
  have hnodup : (m.keys.map UInt32.toNat).Nodup :=
    Std.ExtTreeMap.nodup_keys.map fun _ _ h => UInt32.toNat_inj.1 h
  have hsub : (m.keys.map UInt32.toNat).toFinset ⊆ Finset.range (2 ^ 32) := by
    intro n hn
    obtain ⟨p, -, rfl⟩ := List.mem_map.1 (List.mem_toFinset.1 hn)
    exact Finset.mem_range.2 p.toNat_lt
  have hcard := Finset.card_le_card hsub
  rwa [List.toFinset_card_of_nodup hnodup, Finset.card_range, List.length_map,
    Std.ExtTreeMap.length_keys] at hcard

theorem top_faithful (b : Book) : ∀ o ∈ b.topOps, o.Faithful := by
  have hsize (m : Levels) : (Int64.ofNat m.size).toInt = m.size :=
    Int64.toInt_ofNat_of_lt (Nat.lt_of_le_of_lt (size_le m) (by decide))
  unfold Book.topOps
  intro o ho
  rcases List.mem_append.1 ho with ho | ho
  · cases hlast : b.no.toList.getLast? with
    | none =>
      rw [hlast] at ho
      cases ho
    | some best =>
      rw [hlast] at ho
      rw [List.mem_singleton.1 ho, Operation.Faithful, toNat_complement]
      dsimp only
      omega
  · rcases List.mem_cons.1 ho with rfl | ho
    · exact hsize b.yes
    · rw [List.mem_singleton.1 ho]
      exact hsize b.no

theorem toInt_widen (p : UInt32) : p.toUInt64.toInt64.toInt = p.toNat := by
  have hlt := p.toNat_lt
  rw [toInt_toInt64 (by rw [UInt32.toNat_toUInt64]; omega), UInt32.toNat_toUInt64]

theorem spread_faithful (t : Top) : ∀ o ∈ t.spreadOps, o.Faithful := by
  unfold Top.spreadOps
  split
  · rename_i b a _ _
    have hb := toInt_widen b
    have ha := toInt_widen a
    have hbmax := b.toNat_lt
    have hamax := a.toNat_lt
    simp only [List.forall_mem_cons, List.not_mem_nil, false_implies, implies_true, and_true]
    exact ⟨ha, hb, toInt_sub_of_fits (by omega) (by omega)⟩
  · exact nofun

theorem imbalance_faithful (t : Top) (hyes : 0 ≤ t.yesTotalCenti.toInt)
    (hno : 0 ≤ t.noTotalCenti.toInt)
    (hfit : t.yesTotalCenti.toInt + t.noTotalCenti.toInt < 2 ^ 63) :
    ∀ o ∈ t.imbalanceOps, o.Faithful := by
  unfold Top.imbalanceOps
  rw [List.forall_mem_cons]
  refine ⟨toInt_add_of_fits (by omega) hfit, ?_⟩
  split_ifs
  · exact nofun
  · intro o ho
    rw [List.mem_singleton.1 ho]
    exact toInt_sub_of_fits (by omega) (by omega)

/-- The mid price is exact as long as bid and ask add up to a 32-bit word. -/
theorem mid_faithful_iff (t : Top) : (∀ o ∈ t.midOps, o.Faithful) ↔
    ∀ b a, t.yesBidMicro = some b → t.yesAskMicro = some a → b.toNat + a.toNat < 2 ^ 32 := by
  unfold Top.midOps
  split
  · rename_i b a hb ha
    rw [hb, ha]
    have hadd : (((b + a).toNat : ℤ) = b.toNat + a.toNat) ↔ b.toNat + a.toNat < 2 ^ 32 := by
      rw [UInt32.toNat_add]
      omega
    simp only [List.forall_mem_cons, List.not_mem_nil, false_implies, implies_true, and_true]
    constructor
    · rintro ⟨h, -⟩ b' a' hb' ha'
      rw [← Option.some.inj hb', ← Option.some.inj ha']
      exact hadd.1 h
    · intro h
      refine ⟨hadd.2 (h b a rfl rfl), ?_⟩
      rw [Operation.Faithful, UInt32.toNat_div]
      rfl
  · rename_i hnone
    exact iff_of_true nofun fun b a hb ha => absurd ha (hnone b a hb)

theorem Represents.mem_iff {b : Book} {e : ExactBook} (h : Represents b e) (side : Side)
    (p : UInt32) : p ∈ b.levels side ↔ p ∈ e.levels side := by
  rw [Std.ExtTreeMap.mem_iff_isSome_getElem?, Std.ExtTreeMap.mem_iff_isSome_getElem?, h.levels,
    Option.isSome_map]

theorem IsBest.mem {m : Levels} {best : UInt32 × Int64} (h : IsBest m (some best)) :
    best.1 ∈ m := by
  rw [Std.ExtTreeMap.mem_iff_isSome_getElem?, h.1]
  rfl

theorem midFits_iff {b : Book} {e : ExactBook} (h : Represents b e) : e.MidFits ↔
    ∀ bid ask, b.top.yesBidMicro = some bid → b.top.yesAskMicro = some ask →
      bid.toNat + ask.toNat < 2 ^ 32 := by
  obtain ⟨⟨yesBest, hyes, hbid, -⟩, ⟨noBest, hno, hask, -⟩⟩ := topExact b
  constructor
  · intro hfits bid ask hb ha
    rw [hb] at hbid
    rw [ha] at hask
    obtain ⟨y, rfl, rfl⟩ := Option.map_eq_some_iff.1 hbid.symm
    obtain ⟨n, rfl, hn⟩ := Option.map_eq_some_iff.1 hask.symm
    rw [show ask.toNat = 1000000 - n.1.toNat from hn.symm]
    apply hfits y.1 ((h.mem_iff .yes y.1).1 hyes.mem) n.1 ((h.mem_iff .no n.1).1 hno.mem)
    intro n' hn'
    exact hno.2 n' ((h.mem_iff .no n').2 hn')
  · intro hmid p hp n hn hmax
    have hp' := (h.mem_iff .yes p).2 hp
    have hn' := (h.mem_iff .no n).2 hn
    cases yesBest with
    | none => exact absurd hp' (hyes p)
    | some y =>
      cases noBest with
      | none => exact absurd hn' (hno n)
      | some m =>
        obtain ⟨ask, hsome, htoNat⟩ := Option.map_eq_some_iff.1 hask
        dsimp only at htoNat
        have hsum := hmid y.1 ask hbid hsome
        have hpy := UInt32.le_iff_toNat_le.1 (hyes.2 p hp')
        have hmn := UInt32.le_iff_toNat_le.1 (hmax m.1 ((h.mem_iff .no m.1).1 hno.mem))
        omega

/-- Reading a book is exact, while the sums fit, but for the sum under the mid price. -/
theorem read_faithful_iff {b : Book} {e : ExactBook} (h : Represents b e) (hfit : e.BothFit)
    (htotal : ∀ side, (b.total side).toInt = e.total side) :
    (∀ o ∈ b.readOps, o.Faithful) ↔ e.MidFits := by
  have himb : ∀ o ∈ b.top.imbalanceOps, o.Faithful := by
    have hyes : b.top.yesTotalCenti.toInt = e.total .yes := htotal .yes
    have hno : b.top.noTotalCenti.toInt = e.total .no := htotal .no
    have hyes0 := e.total_nonneg .yes
    have hno0 := e.total_nonneg .no
    unfold ExactBook.BothFit at hfit
    exact imbalance_faithful b.top (by omega) (by omega) (by omega)
  rw [midFits_iff h, ← mid_faithful_iff, Book.readOps]
  constructor
  · intro hall o ho
    exact hall o (List.mem_append_left _ (List.mem_append_left _ (List.mem_append_right _ ho)))
  · intro hmid o ho
    rcases List.mem_append.1 ho with ho | ho
    · rcases List.mem_append.1 ho with ho | ho
      · rcases List.mem_append.1 ho with ho | ho
        · exact top_faithful b o ho
        · exact hmid o ho
      · exact spread_faithful b.top o ho
    · exact himb o ho

/-! ## Every run -/

/-- Every operation of the calls, and of reading the book after each of them, is exact. -/
structure ArithmeticExact (calls : List BookCall) : Prop where
  writes : ∀ pre c, pre ++ [c] <+: calls → ∀ o ∈ (Book.after pre).callOps c, o.Faithful
  reads : ∀ pre, pre <+: calls → ∀ o ∈ (Book.after pre).readOps, o.Faithful

theorem ExactBook.underflows_le_call (e : ExactBook) (c : BookCall) :
    e.underflows ≤ (e.call c).underflows := by
  obtain ⟨yes, no, -, he⟩ | ⟨side, price, delta, -, he⟩ := c.cases
  · rw [he]
    exact Nat.le_refl _
  · rw [he, underflows_change]
    split_ifs <;> omega

theorem ExactBook.underflows_le_after {pre calls : List BookCall} (h : pre <+: calls) :
    (after pre).underflows ≤ (after calls).underflows := by
  obtain ⟨post, rfl⟩ := h
  induction post using List.reverseRecOn with
  | nil => rw [List.append_nil]
  | append_singleton post c ih =>
    rw [← List.append_assoc, after_concat]
    exact ih.trans (underflows_le_call _ c)

section Run

variable {calls : List BookCall}
  (hfit : ∀ pre c, pre ++ [c] <+: calls → (ExactBook.after pre).WritesFit c)

include hfit

theorem bothFit_after {pre : List BookCall} (hpre : pre <+: calls) :
    (ExactBook.after pre).BothFit := by
  rcases List.eq_nil_or_concat pre with rfl | ⟨pre', c, rfl⟩
  · exact ExactBook.bothFit_default
  · rw [List.concat_eq_append] at hpre ⊢
    rw [ExactBook.after_concat]
    exact (hfit pre' c hpre).bothFit

theorem represents_after {pre : List BookCall} (hpre : pre <+: calls) :
    Represents (Book.after pre) (ExactBook.after pre) :=
  Represents.after pre fun _ h => (bothFit_after hfit (h.trans hpre)).sumsFit.quantitiesFit

theorem total_after {pre : List BookCall} (hpre : pre <+: calls) (side : Side) :
    ((Book.after pre).total side).toInt = (ExactBook.after pre).total side := by
  have hrep := represents_after hfit hpre
  have hsums := (bothFit_after hfit hpre).sumsFit
  have hconsistent := consistent_of_represents hrep hsums (inStep_after pre)
  rw [← hrep.total_eq hsums.quantitiesFit side]
  cases side
  · exact hconsistent.yesTotal
  · exact hconsistent.noTotal

/-- While the sums of both sides fit a signed word after every level written, every operation is
exact if and only if the best bid and ask never add up to `2 ^ 32` micro-dollars and fewer than
`2 ^ 64` changes go below zero. -/
theorem replay_arithmetic_exact_iff : ArithmeticExact calls ↔
    (∀ pre, pre <+: calls → (ExactBook.after pre).MidFits) ∧
      (ExactBook.after calls).underflows < 2 ^ 64 := by
  have hread {pre : List BookCall} (hpre : pre <+: calls) :=
    read_faithful_iff (represents_after hfit hpre) (bothFit_after hfit hpre)
      (total_after hfit hpre)
  have hcall {pre : List BookCall} {c : BookCall} (hpre : pre ++ [c] <+: calls)
      (hcount : (ExactBook.after pre).underflows < 2 ^ 64) :
      (∀ o ∈ (Book.after pre).callOps c, o.Faithful) ↔
        (ExactBook.after (pre ++ [c])).underflows < 2 ^ 64 := by
    have hbefore := (List.prefix_append pre [c]).trans hpre
    rw [ExactBook.after_concat]
    exact call_faithful_iff (represents_after hfit hbefore) (bothFit_after hfit hbefore)
      (total_after hfit hbefore) hcount (hfit pre c hpre)
  constructor
  · intro h
    refine ⟨fun pre hpre => (hread hpre).1 (h.reads pre hpre), ?_⟩
    -- the count has not wrapped before a call, and the call does not wrap it
    have hcount : ∀ pre, pre <+: calls → (ExactBook.after pre).underflows < 2 ^ 64 := by
      intro pre hpre
      induction pre using List.reverseRecOn with
      | nil => decide
      | append_singleton pre c ih =>
        have hbefore := (List.prefix_append pre [c]).trans hpre
        exact (hcall hpre (ih hbefore)).1 (h.writes pre c hpre)
    exact hcount calls (List.prefix_refl _)
  · rintro ⟨hmid, hcount⟩
    have hle {pre : List BookCall} (hpre : pre <+: calls) :
        (ExactBook.after pre).underflows < 2 ^ 64 :=
      Nat.lt_of_le_of_lt (ExactBook.underflows_le_after hpre) hcount
    constructor
    · intro pre c hpre
      exact (hcall hpre (hle ((List.prefix_append pre [c]).trans hpre))).2 (hle hpre)
    · intro pre hpre
      exact (hread hpre).2 (hmid pre hpre)

end Run

/-- A snapshot frame of one level a side. -/
def twoLevelFrame (yesPrice noPrice size : String) : Value :=
  .object [("msg", .object [("market_ticker", .string "A"),
      ("no_dollars_fp", .array [.array [.string noPrice, .string size]]),
      ("yes_dollars_fp", .array [.array [.string yesPrice, .string size]])]),
    ("seq", .number (.posInt 1)), ("sid", .number (.posInt 1)),
    ("type", .string "orderbook_snapshot")]

theorem held_twoLevelFrame (yesPrice noPrice size : String) :
    (twoLevelFrame yesPrice noPrice size).Held .integral := by
  refine ⟨?_, ⟨?_, trivial, ⟨⟨trivial, trivial, trivial⟩, trivial⟩,
    ⟨⟨trivial, trivial, trivial⟩, trivial⟩, trivial⟩, trivial, trivial, trivial, trivial⟩
  · exact (List.pairwise_map (f := Prod.fst)).1
      (show ["msg", "seq", "sid", "type"].Pairwise (· < ·) by decide)
  · exact (List.pairwise_map (f := Prod.fst)).1
      (show ["market_ticker", "no_dollars_fp", "yes_dollars_fp"].Pairwise (· < ·) by decide)

/-- The largest price a text can give on the YES side, and a cent on the NO side. -/
def highBid : OrderbookSnapshot :=
  { ticker := ⟨"A"⟩, ts := epoch, yes := [⟨⟨4294967295⟩, ⟨100⟩⟩]
    no := [⟨⟨10000⟩, ⟨100⟩⟩] }

theorem fromWire_highBid : FromWire .integral (.applySnapshot highBid) := by
  refine ⟨(twoLevelFrame "4294.967295" "0.01" "1.00").text, epoch, ⟨"A"⟩,
    .snapshot highBid, ?_, rfl⟩
  rw [decodeFrame, JsonLib.parse_text (held_twoLevelFrame _ _ _) (by decide)]
  rfl

theorem prefix_singleton {α : Type} {x : α} {xs : List α} (h : xs <+: [x]) :
    xs = [] ∨ xs = [x] := by
  rcases List.prefix_concat_iff.1 (show xs <+: [] ++ [x] from h) with rfl | hnil
  · exact Or.inr rfl
  · exact Or.inl (List.prefix_nil.1 hnil)

theorem writesFit_highBid (pre : List BookCall) (c : BookCall)
    (hpre : pre ++ [c] <+: [.applySnapshot highBid]) : (ExactBook.after pre).WritesFit c := by
  rcases prefix_singleton hpre with hnil | hone
  · exact absurd hnil (by simp)
  · obtain rfl : pre = [] := by simpa using congrArg List.length hone
    obtain rfl : c = .applySnapshot highBid := List.singleton_inj.1 hone
    constructor
    · intro part hpart
      rcases prefix_singleton hpart with rfl | rfl
      · unfold ExactBook.BothFit
        decide
      · unfold ExactBook.BothFit
        decide
    · intro part hpart
      rcases prefix_singleton hpart with rfl | rfl
      · unfold ExactBook.BothFit
        decide
      · unfold ExactBook.BothFit
        decide

theorem replay_arithmetic_exact_iff_highBid : ¬ ArithmeticExact [.applySnapshot highBid] := by
  rw [replay_arithmetic_exact_iff writesFit_highBid]
  intro h
  have hrep := represents_after writesFit_highBid (List.prefix_refl _)
  have hsum := (midFits_iff hrep).1 (h.1 _ (List.prefix_refl _)) 4294967295 990000 (by decide)
    (by decide)
  exact absurd hsum (by decide)

/-- An accepted snapshot whose best bid and ask do not add up in 32 bits. -/
theorem mid_wraps :
    ∃ calls, (∀ c ∈ calls, FromWire .integral c) ∧
      (∀ pre c, pre ++ [c] <+: calls → (ExactBook.after pre).WritesFit c) ∧
      (⟨990000 - 1, 4294967295 + 990000⟩ : Operation) ∈ (Book.after calls).readOps ∧
      ¬ ArithmeticExact calls := by
  have hread : (⟨990000 - 1, 4294967295 + 990000⟩ : Operation) ∈
      (Book.after [.applySnapshot highBid]).readOps := by
    have hmid : (⟨990000 - 1, 4294967295 + 990000⟩ : Operation) ∈
        (Book.after [.applySnapshot highBid]).top.midOps := List.mem_cons_self
    exact List.mem_append_left _ (List.mem_append_left _ (List.mem_append_right _ hmid))
  refine ⟨[.applySnapshot highBid], ?_, writesFit_highBid, hread, ?_⟩
  · intro c hc
    rw [List.mem_singleton.1 hc]
    exact fromWire_highBid
  · intro h
    have hfaithful := h.reads _ (List.prefix_refl _) _ hread
    unfold Operation.Faithful at hfaithful
    exact absurd hfaithful (by decide)

end Snapevent
