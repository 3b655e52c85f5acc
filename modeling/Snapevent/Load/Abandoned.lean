import Snapevent.Lib.Somewhere
import Snapevent.Load.Stream

/-!
# Abandoned snapshot groups

An error met while a snapshot group is assembled ends the group and drops its levels.  The book lane
keeps no memory of it: the rows of the group that are still to come open a new group, and its
snapshot is handed out as if it were whole.  This happens exactly where a group resumes.
-/

namespace Snapevent

/-! ## Reading one row -/

/-- The number of the next decodable row once `x` is read. -/
def nextRow (n : ℕ) : Except LoadError BookEventRow → ℕ
  | .ok _ => n + 1
  | .error _ => n

/-- The turns that reading row number `n` ends, and the group under assembly after it. -/
def readRow (g : Option OpenGroup) (n : ℕ) :
    Except LoadError BookEventRow → List BookTurn × Option OpenGroup
  | .error e => ([g.elim ⟨[], none, .error e⟩ (·.turn (.error e))], none)
  | .ok r =>
    match g with
    | none => startTurn n r
    | some g =>
      if r.joins g.first.eventIdx then g.extend n r
      else (g.close :: (startTurn n r).1, (startTurn n r).2)

theorem bookTurns_cons (g : Option OpenGroup) (n : ℕ) (x : Except LoadError BookEventRow)
    (src : RowSource BookEventRow) :
    bookTurns g n (x :: src) =
      (readRow g n x).1 ++ bookTurns (readRow g n x).2 (nextRow n x) src := by
  cases x with
  | error e => cases g <;> rfl
  | ok r =>
    cases g with
    | none => rfl
    | some g =>
      rw [bookTurns, readRow, nextRow]
      split_ifs <;> rfl

/-- The row adds a level of negative quantity. -/
def BookEventRow.isNegative (r : BookEventRow) : Bool :=
  r.side.isSome && r.priceMicro.isSome && r.qtyCenti.any (· < 0)

theorem pushLevel_error_iff {acc : Sides} {r : BookEventRow} {i : ℕ} :
    (∃ e, pushLevel acc r i = .error e) ↔ r.isNegative := by
  rw [pushLevel, BookEventRow.isNegative]
  cases r.side with
  | none => simp
  | some side =>
    cases r.priceMicro with
    | none => simp
    | some price =>
      cases r.qtyCenti with
      | none => simp
      | some qty =>
        by_cases hq : 0 ≤ qty
        · cases side <;> simp [hq]
        · simpa [hq] using Int64.not_le.1 hq

/-- Everything reading one row can do. -/
inductive ReadStep (n : ℕ) :
    Option OpenGroup → Except LoadError BookEventRow → List BookTurn → Option OpenGroup → Prop
  | bad (e : LoadError) : ReadStep n none (.error e) [⟨[], none, .error e⟩] none
  | broken (g : OpenGroup) (e : LoadError) :
      ReadStep n (some g) (.error e) [g.turn (.error e)] none
  | grown {g : OpenGroup} {r : BookEventRow} (sides : Sides) : r.joins g.first.eventIdx →
      ¬ r.isNegative →
      ReadStep n (some g) (.ok r) [] (some { g with sides, rows := g.rows ++ [n] })
  | spoilt {g : OpenGroup} {r : BookEventRow} (e : LoadError) : r.joins g.first.eventIdx →
      r.isNegative →
      ReadStep n (some g) (.ok r) [OpenGroup.turn { g with rows := g.rows ++ [n] } (.error e)] none
  | delta {g : Option OpenGroup} {r : BookEventRow} : ¬ r.isSnapshot →
      ReadStep n g (.ok r) ((g.map OpenGroup.close).toList ++
        [⟨[n], none, (deltaEvent r n).map (bookKey r n, ·)⟩]) none
  | opened {g : Option OpenGroup} {r : BookEventRow} (sides : Sides) : r.isSnapshot →
      (∀ g' ∈ g, ¬ r.joins g'.first.eventIdx) → ¬ r.isNegative →
      ReadStep n g (.ok r) (g.map OpenGroup.close).toList (some ⟨r, bookKey r n, sides, [n]⟩)
  | refused {g : Option OpenGroup} {r : BookEventRow} (e : LoadError) : r.isSnapshot →
      (∀ g' ∈ g, ¬ r.joins g'.first.eventIdx) → r.isNegative →
      ReadStep n g (.ok r) ((g.map OpenGroup.close).toList ++
        [⟨[n], some r.eventIdx, .error e⟩]) none

theorem readStep (g : Option OpenGroup) (n : ℕ) (x : Except LoadError BookEventRow) :
    ReadStep n g x (readRow g n x).1 (readRow g n x).2 := by
  cases x with
  | error e =>
    cases g with
    | none => exact .bad e
    | some g => exact .broken g e
  | ok r =>
    have hstart (hg : ∀ g' ∈ g, ¬ r.joins g'.first.eventIdx) :
        ReadStep n g (.ok r) ((g.map OpenGroup.close).toList ++ (startTurn n r).1)
          (startTurn n r).2 := by
      by_cases hs : r.isSnapshot
      · rw [startTurn_snapshot hs]
        cases hp : pushLevel ([], []) r n with
        | error e =>
          rw [OpenGroup.extend_error hp]
          exact .refused e hs hg (pushLevel_error_iff.1 ⟨e, hp⟩)
        | ok sides =>
          rw [OpenGroup.extend_ok hp, List.append_nil]
          refine .opened sides hs hg fun hneg => ?_
          obtain ⟨e, he⟩ := pushLevel_error_iff.2 hneg
          rw [he] at hp
          cases hp
      · rw [startTurn_delta hs]
        exact .delta hs
    cases g with
    | none => exact hstart (by simp)
    | some g =>
      rw [readRow]
      by_cases hj : r.joins g.first.eventIdx
      · rw [if_pos hj]
        cases hp : pushLevel g.sides r n with
        | error e =>
          rw [OpenGroup.extend_error hp]
          exact .spoilt e hj (pushLevel_error_iff.1 ⟨e, hp⟩)
        | ok sides =>
          rw [OpenGroup.extend_ok hp]
          refine .grown sides hj fun hneg => ?_
          obtain ⟨e, he⟩ := pushLevel_error_iff.2 hneg
          rw [he] at hp
          cases hp
      · rw [if_neg hj]
        exact hstart (by simpa using hj)

/-! ## Reading a prefix -/

/-- What reading some rows of a source has done: the turns that ended, the group under assembly and
the number of the next decodable row. -/
structure BookScan where
  turns : List BookTurn
  group : Option OpenGroup
  row : ℕ

/-- Read one more row. -/
def BookScan.read (s : BookScan) (x : Except LoadError BookEventRow) : BookScan :=
  ⟨s.turns ++ (readRow s.group s.row x).1, (readRow s.group s.row x).2, nextRow s.row x⟩

/-- Read the rows of a source. -/
def scanBook (src : RowSource BookEventRow) : BookScan := src.foldl BookScan.read ⟨[], none, 0⟩

theorem scanBook_concat (src : RowSource BookEventRow) (x : Except LoadError BookEventRow) :
    scanBook (src ++ [x]) = (scanBook src).read x := by
  rw [scanBook, List.foldl_append]
  rfl

theorem bookTurns_append (pre post : RowSource BookEventRow) :
    bookTurns none 0 (pre ++ post) =
      (scanBook pre).turns ++ bookTurns (scanBook pre).group (scanBook pre).row post := by
  induction pre using List.reverseRecOn generalizing post with
  | nil => rfl
  | append_singleton pre x ih =>
    rw [List.append_assoc, List.singleton_append, ih, bookTurns_cons, scanBook_concat,
      BookScan.read, List.append_assoc]

theorem bookTurns_eq_scanBook (src : RowSource BookEventRow) :
    bookTurns none 0 src =
      (scanBook src).turns ++ ((scanBook src).group.map OpenGroup.close).toList := by
  have h := bookTurns_append src []
  rw [List.append_nil] at h
  exact h

/-! ## What the source says of its groups -/

/-- The decodable rows of a source. -/
def decodable (src : RowSource BookEventRow) : List BookEventRow := src.filterMap Except.toOption

theorem decodable_append (src post : RowSource BookEventRow) :
    decodable (src ++ post) = decodable src ++ decodable post := List.filterMap_append

theorem decodable_concat_ok (src : RowSource BookEventRow) (r : BookEventRow) :
    decodable (src ++ [.ok r]) = decodable src ++ [r] := decodable_append src [.ok r]

theorem decodable_concat_error (src : RowSource BookEventRow) (e : LoadError) :
    decodable (src ++ [.error e]) = decodable src := by
  rw [decodable_append, decodable, decodable]
  exact List.append_nil _

/-- A decodable snapshot row of event `e` whose level, if any, is not negative. -/
def cleanRow (e : ℤ) : Except LoadError BookEventRow → Bool
  | .ok r => r.joins e && !r.isNegative
  | .error _ => false

/-- The source ends inside a group of event `e`. -/
def EndsIn (e : ℤ) (src : RowSource BookEventRow) : Prop := ∃ x ∈ src.getLast?, cleanRow e x

/-- The source ends inside a group of event `e` whose first row has merge key `k`. -/
def GroupKey (e : ℤ) (src : RowSource BookEventRow) (k : MergeKey) : Prop :=
  ∃ pre r run, src = pre ++ .ok r :: run ∧ (∀ x ∈ .ok r :: run, cleanRow e x) ∧ ¬ EndsIn e pre ∧
    k = bookKey r (decodable pre).length

/-- What follows does not go on with the group of event `e`, and is not an undecodable row. -/
def StopsGroup (e : ℤ) (post : RowSource BookEventRow) : Prop :=
  ∀ x ∈ post.head?, ∃ r, x = .ok r ∧ ¬ r.joins e

/-- A group of event `e` breaks at `x`: a negative row of its own, or an undecodable row right after
one of its rows. -/
def BreaksAt (e : ℤ) (pre : RowSource BookEventRow) (x : Except LoadError BookEventRow) : Prop :=
  (∃ r, x = .ok r ∧ r.joins e ∧ r.isNegative) ∨ (∃ err, x = .error err) ∧ EndsIn e pre

/-- An event of key `k` is complete at `x`: a delta row with all its columns, or the group before a
decodable row of another event. -/
def HoldsAt (k : MergeKey) (pre : RowSource BookEventRow) (x : Except LoadError BookEventRow) :
    Prop :=
  ∃ r, x = .ok r ∧
    ((¬ r.isSnapshot ∧ (r.side.isSome ∧ r.priceMicro.isSome ∧ r.qtyCenti.isSome) ∧
      k = bookKey r (decodable pre).length) ∨ ∃ e, GroupKey e pre k ∧ ¬ r.joins e)

/-- A broken group of event `e` resumes: after the break a run of its clean rows is complete, and
its first row is not behind an earlier event of the source. -/
def Resumes (e : ℤ) (src : RowSource BookEventRow) : Prop :=
  ∃ pre post k, src = pre ++ post ∧ Somewhere (BreaksAt e) pre ∧ GroupKey e pre k ∧
    StopsGroup e post ∧ ∀ k', Somewhere (HoldsAt k') pre → k' ≤ k

section Source

variable {e : ℤ} {src : RowSource BookEventRow} {x : Except LoadError BookEventRow}

theorem endsIn_concat : EndsIn e (src ++ [x]) ↔ cleanRow e x := by
  simp [EndsIn]

theorem cleanRow_ok {r : BookEventRow} : cleanRow e (.ok r) ↔ r.joins e ∧ ¬ r.isNegative := by
  simp [cleanRow]

theorem groupKey_concat {k : MergeKey} : GroupKey e (src ++ [x]) k ↔ cleanRow e x ∧
    (GroupKey e src k ∨ ¬ EndsIn e src ∧ ∃ r, x = .ok r ∧ k = bookKey r (decodable src).length) := by
  constructor
  · rintro ⟨pre, r, run, hsrc, hclean, hpre, hk⟩
    rcases run.eq_nil_or_concat with rfl | ⟨run, y, rfl⟩
    · obtain ⟨rfl, hx⟩ := List.append_inj' hsrc rfl
      cases hx
      exact ⟨hclean _ List.mem_cons_self, Or.inr ⟨hpre, r, rfl, hk⟩⟩
    · rw [List.concat_eq_append, ← List.cons_append, ← List.append_assoc] at hsrc
      obtain ⟨rfl, hx⟩ := List.append_inj' hsrc rfl
      cases hx
      refine ⟨hclean _ (by simp), Or.inl ⟨pre, r, run, rfl, fun z hz => hclean z ?_, hpre, hk⟩⟩
      simp only [List.concat_eq_append, List.mem_cons, List.mem_append] at hz ⊢
      tauto
  · rintro ⟨hx, ⟨pre, r, run, rfl, hclean, hpre, hk⟩ | ⟨hends, r, rfl, hk⟩⟩
    · refine ⟨pre, r, run ++ [x], by simp, fun z hz => ?_, hpre, hk⟩
      rw [← List.cons_append, List.mem_append, List.mem_singleton] at hz
      rcases hz with hz | rfl
      · exact hclean z hz
      · exact hx
    · exact ⟨src, r, [], rfl, fun z hz => List.mem_singleton.1 hz ▸ hx, hends, hk⟩

theorem endsIn_iff : EndsIn e src ↔ ∃ k, GroupKey e src k := by
  induction src using List.reverseRecOn with
  | nil => simp [EndsIn, GroupKey]
  | append_singleton src x ih =>
    simp only [endsIn_concat, groupKey_concat, exists_and_left]
    refine ⟨fun hx => ⟨hx, ?_⟩, And.left⟩
    by_cases hends : EndsIn e src
    · obtain ⟨k, hk⟩ := ih.1 hends
      exact ⟨k, Or.inl hk⟩
    · cases x with
      | error err => cases hx
      | ok r => exact ⟨_, Or.inr ⟨hends, r, rfl, rfl⟩⟩

end Source

/-- What reading the rows of a source has done, told by the source alone. -/
structure Scanned (src : RowSource BookEventRow) (s : BookScan) : Prop where
  row : s.row = (decodable src).length
  group : ∀ e k, GroupKey e src k ↔ ∃ g ∈ s.group, g.first.eventIdx = e ∧ g.key = k
  broken : ∀ e, Somewhere (BreaksAt e) src ↔
    ∃ t ∈ s.turns, t.group = some e ∧ ∃ err, t.item = .error err
  event : ∀ k, Somewhere (HoldsAt k) src ↔ ∃ t ∈ s.turns, ∃ ev, t.item = .ok (k, ev)

theorem joins_iff {r : BookEventRow} (hs : r.isSnapshot) {e : ℤ} : r.joins e ↔ r.eventIdx = e := by
  simp [BookEventRow.joins, hs]

theorem not_joins {r : BookEventRow} (hs : ¬ r.isSnapshot) (e : ℤ) : ¬ r.joins e := by
  simp [BookEventRow.joins, hs]

theorem isSnapshot_of_joins {r : BookEventRow} {e : ℤ} (h : r.joins e) : r.isSnapshot := by
  simp only [BookEventRow.joins, Bool.and_eq_true] at h
  exact h.1

/-- A delta row makes an event exactly when none of its columns is missing. -/
theorem deltaItem_ok_iff {r : BookEventRow} {n : ℕ} {k : MergeKey} :
    (∃ ev, (deltaEvent r n).map (bookKey r n, ·) = .ok (k, ev)) ↔
      (r.side.isSome ∧ r.priceMicro.isSome ∧ r.qtyCenti.isSome) ∧ k = bookKey r n := by
  rw [deltaEvent]
  rcases r.side with _ | side <;> rcases r.priceMicro with _ | price <;>
    rcases r.qtyCenti with _ | qty <;> simp [Except.map, eq_comm]

namespace Scanned

variable {src : RowSource BookEventRow} {s : BookScan}

/-- The source ends inside a group of the event whose group is under assembly. -/
theorem endsIn (h : Scanned src s) (e : ℤ) : EndsIn e src ↔ ∃ g ∈ s.group, g.first.eventIdx = e := by
  rw [endsIn_iff]
  constructor
  · rintro ⟨k, hk⟩
    obtain ⟨g, hg, he, -⟩ := (h.group e k).1 hk
    exact ⟨g, hg, he⟩
  · rintro ⟨g, hg, he⟩
    exact ⟨g.key, (h.group e g.key).2 ⟨g, hg, he, rfl⟩⟩

theorem read_group (h : Scanned src s) (x : Except LoadError BookEventRow) (e : ℤ) (k : MergeKey) :
    GroupKey e (src ++ [x]) k ↔ ∃ g ∈ (s.read x).group, g.first.eventIdx = e ∧ g.key = k := by
  have hstep := readStep s.group s.row x
  rw [groupKey_concat, h.endsIn, h.group, BookScan.read]
  generalize readRow s.group s.row x = out at hstep
  rcases s with ⟨turns, g, n⟩
  obtain rfl := h.row
  rcases out with ⟨ts, g'⟩
  cases hstep with
  | bad err => simp [cleanRow]
  | broken g err => simp [cleanRow]
  | @grown g r sides hj hneg =>
    have hs := isSnapshot_of_joins hj
    rw [joins_iff hs] at hj
    simp only [cleanRow_ok, joins_iff hs, Option.mem_def, Option.some.injEq, exists_eq_left', hj]
    constructor
    · rintro ⟨⟨he, -⟩, hk | ⟨hne, -⟩⟩
      · exact hk
      · exact absurd he hne
    · rintro ⟨he, hk⟩
      exact ⟨⟨he, hneg⟩, Or.inl ⟨he, hk⟩⟩
  | @spoilt g r err hj hneg => simp [cleanRow, hneg]
  | @delta g r hs => simp [cleanRow, BookEventRow.joins, hs]
  | @opened g r sides hs hg hneg =>
    simp only [cleanRow_ok, joins_iff hs, Option.mem_def, Option.some.injEq, exists_eq_left'] at hg ⊢
    constructor
    · rintro ⟨⟨he, -⟩, ⟨g', hg', hidx, -⟩ | ⟨-, r', hr', hk⟩⟩
      · exact absurd (he.trans hidx.symm) (hg g' hg')
      · cases hr'
        exact ⟨he, hk.symm⟩
    · rintro ⟨he, hk⟩
      refine ⟨⟨he, hneg⟩, Or.inr ⟨?_, r, rfl, hk.symm⟩⟩
      rintro ⟨g', hg', hidx⟩
      exact hg g' hg' (he.trans hidx.symm)
  | @refused g r err hs hg hneg => simp [cleanRow, hneg]

theorem read_broken (h : Scanned src s) (x : Except LoadError BookEventRow) (e : ℤ) :
    Somewhere (BreaksAt e) (src ++ [x]) ↔
      ∃ t ∈ (s.read x).turns, t.group = some e ∧ ∃ err, t.item = .error err := by
  have hstep := readStep s.group s.row x
  rw [Somewhere.concat, h.broken, BreaksAt, h.endsIn, BookScan.read]
  simp only [List.mem_append, or_and_right, exists_or]
  apply or_congr Iff.rfl
  generalize readRow s.group s.row x = out at hstep
  rcases s with ⟨turns, g, n⟩
  rcases out with ⟨ts, g'⟩
  cases hstep with
  | bad err => simp
  | broken g err => simp [OpenGroup.turn]
  | @grown g r sides hj hneg => simp [hneg]
  | @spoilt g r err hj hneg =>
    have hs := isSnapshot_of_joins hj
    rw [joins_iff hs] at hj
    simp [OpenGroup.turn, joins_iff hs, hneg, hj]
  | @delta g r hs => simp [not_joins hs, OpenGroup.close, OpenGroup.turn]
  | @opened g r sides hs hg hneg =>
    rcases g with _ | g <;> simp [hneg, OpenGroup.close, OpenGroup.turn]
  | @refused g r err hs hg hneg =>
    simp [hneg, joins_iff hs, OpenGroup.close, OpenGroup.turn, or_and_right, exists_or]

theorem read_event (h : Scanned src s) (x : Except LoadError BookEventRow) (k : MergeKey) :
    Somewhere (HoldsAt k) (src ++ [x]) ↔ ∃ t ∈ (s.read x).turns, ∃ ev, t.item = .ok (k, ev) := by
  have hstep := readStep s.group s.row x
  rw [Somewhere.concat, h.event, HoldsAt, BookScan.read]
  simp only [h.group, List.mem_append, or_and_right, exists_or]
  apply or_congr Iff.rfl
  generalize readRow s.group s.row x = out at hstep
  rcases s with ⟨turns, g, n⟩
  obtain rfl := h.row
  rcases out with ⟨ts, g'⟩
  cases hstep with
  | bad err => simp
  | broken g err => simp [OpenGroup.turn]
  | @grown g r sides hj hneg =>
    simpa [isSnapshot_of_joins hj] using fun _ => hj
  | @spoilt g r err hj hneg =>
    simpa [isSnapshot_of_joins hj, OpenGroup.turn] using fun _ => hj
  | @delta g r hs =>
    have hd := deltaItem_ok_iff (r := r) (n := (decodable src).length) (k := k)
    cases g with
    | none => simp [hs, hd]
    | some g => simp [hs, hd, not_joins hs, OpenGroup.close, OpenGroup.turn, or_comm]
  | @opened g r sides hs hg hneg =>
    cases g with
    | none => simp [hs]
    | some g =>
      have hne : ¬ r.joins g.first.eventIdx := hg g rfl
      simp [hs, hne, OpenGroup.close, OpenGroup.turn]
  | @refused g r err hs hg hneg =>
    cases g with
    | none => simp [hs]
    | some g =>
      have hne : ¬ r.joins g.first.eventIdx := hg g rfl
      simp [hs, hne, OpenGroup.close, OpenGroup.turn]

end Scanned

theorem scanned (src : RowSource BookEventRow) : Scanned src (scanBook src) := by
  induction src using List.reverseRecOn with
  | nil => exact ⟨rfl, by simp [GroupKey, scanBook], by simp [Somewhere.nil, scanBook],
      by simp [Somewhere.nil, scanBook]⟩
  | append_singleton src x ih =>
    rw [scanBook_concat]
    refine ⟨?_, ih.read_group x, ih.read_broken x, ih.read_event x⟩
    rw [BookScan.read, ih.row]
    cases x with
    | error e => rw [decodable_concat_error, nextRow]
    | ok r => rw [decodable_concat_ok, nextRow, List.length_append, List.length_singleton]

/-! ## Which rows a turn is made of -/

/-- The numbers of the rows the source holds for the snapshot of event `e`. -/
def heldRows (e : ℤ) (src : RowSource BookEventRow) : List ℕ :=
  (List.range (decodable src).length).filter fun i => (decodable src)[i]?.any (·.joins e)

theorem mem_heldRows {e : ℤ} {src : RowSource BookEventRow} {i : ℕ} :
    i ∈ heldRows e src ↔ ∃ r, (decodable src)[i]? = some r ∧ r.joins e := by
  rw [heldRows, List.mem_filter, Option.any_eq_true, List.mem_range]
  refine ⟨And.right, fun h => ⟨?_, h⟩⟩
  obtain ⟨r, hr, -⟩ := h
  exact (List.getElem?_eq_some_iff.1 hr).1

/-- What reading has done to the rows: each decodable row went to one turn or to the group under
assembly, in order, and those of a group are rows of its event. -/
structure Accounted (src : RowSource BookEventRow) (s : BookScan) : Prop where
  rows : s.turns.flatMap (·.rows) ++ (s.group.elim [] (·.rows)) =
    List.range (decodable src).length
  turn : ∀ t ∈ s.turns, ∀ e ∈ t.group, t.rows ≠ [] ∧ t.rows ⊆ heldRows e src
  group : ∀ g ∈ s.group, g.rows ≠ [] ∧ g.rows ⊆ heldRows g.first.eventIdx src

theorem heldRows_append (e : ℤ) (src post : RowSource BookEventRow) :
    heldRows e src ⊆ heldRows e (src ++ post) := by
  intro i hi
  obtain ⟨r, hr, hj⟩ := mem_heldRows.1 hi
  refine mem_heldRows.2 ⟨r, ?_, hj⟩
  rw [decodable_append, List.getElem?_append_left (List.getElem?_eq_some_iff.1 hr).1, hr]

theorem mem_heldRows_concat {e : ℤ} {src : RowSource BookEventRow} {r : BookEventRow}
    (h : r.joins e) : (decodable src).length ∈ heldRows e (src ++ [.ok r]) :=
  mem_heldRows.2 ⟨r, by simp [decodable_concat_ok], h⟩

section ReadStep

variable {n : ℕ} {g g' : Option OpenGroup} {x : Except LoadError BookEventRow} {ts : List BookTurn}

/-- Reading one row hands the rows of the ended group, and the row itself, to turns and the new
group. -/
theorem ReadStep.rows (h : ReadStep n g x ts g') :
    ts.flatMap (·.rows) ++ g'.elim [] (·.rows) =
      g.elim [] (·.rows) ++ (x.toOption.map fun _ => n).toList := by
  cases h with
  | bad e => rfl
  | broken g e => simp [OpenGroup.turn, Except.toOption]
  | grown sides hj hneg => simp [Except.toOption]
  | spoilt e hj hneg => simp [OpenGroup.turn, Except.toOption]
  | @delta g r hs => rcases g with _ | g <;> simp [OpenGroup.close, OpenGroup.turn, Except.toOption]
  | @opened g r sides hs hg hneg =>
    rcases g with _ | g <;> simp [OpenGroup.close, OpenGroup.turn, Except.toOption]
  | @refused g r e hs hg hneg =>
    rcases g with _ | g <;> simp [OpenGroup.close, OpenGroup.turn, Except.toOption]

/-- Turns and groups are made of rows that a family of sets holds for their events. -/
theorem ReadStep.held (h : ReadStep n g x ts g') {H : ℤ → List ℕ}
    (hn : ∀ r e, x = .ok r → r.joins e → n ∈ H e)
    (hg : ∀ g₀ ∈ g, g₀.rows ≠ [] ∧ g₀.rows ⊆ H g₀.first.eventIdx) :
    (∀ t ∈ ts, ∀ e ∈ t.group, t.rows ≠ [] ∧ t.rows ⊆ H e) ∧
      ∀ g₁ ∈ g', g₁.rows ≠ [] ∧ g₁.rows ⊆ H g₁.first.eventIdx := by
  have hclose : ∀ t ∈ (g.map OpenGroup.close).toList, ∀ e ∈ t.group,
      t.rows ≠ [] ∧ t.rows ⊆ H e := by
    intro t ht e he
    obtain ⟨g₀, hg₀, rfl⟩ := Option.map_eq_some_iff.1 (Option.mem_toList.1 ht)
    cases he
    exact hg g₀ hg₀
  cases h with
  | bad e => simp
  | broken g e => exact ⟨by simpa [OpenGroup.turn] using hg g rfl, by simp⟩
  | @grown g r sides hj hneg =>
    refine ⟨by simp, fun g₁ hg₁ => ?_⟩
    cases hg₁
    exact ⟨by simp, List.append_subset.2 ⟨(hg g rfl).2, by simpa using hn r _ rfl hj⟩⟩
  | @spoilt g r e hj hneg =>
    refine ⟨fun t ht e' he' => ?_, by simp⟩
    obtain rfl := List.mem_singleton.1 ht
    cases he'
    exact ⟨by simp [OpenGroup.turn],
      List.append_subset.2 ⟨(hg g rfl).2, by simpa using hn r _ rfl hj⟩⟩
  | @delta g r hs =>
    refine ⟨fun t ht => ?_, by simp⟩
    rcases List.mem_append.1 ht with ht | ht
    · exact hclose t ht
    · simp [List.mem_singleton.1 ht]
  | @opened g r sides hs hg' hneg =>
    refine ⟨hclose, fun g₁ hg₁ => ?_⟩
    cases hg₁
    exact ⟨by simp, by simpa using hn r _ rfl ((joins_iff hs).2 rfl)⟩
  | @refused g r e hs hg' hneg =>
    refine ⟨fun t ht => ?_, by simp⟩
    rcases List.mem_append.1 ht with ht | ht
    · exact hclose t ht
    · obtain rfl := List.mem_singleton.1 ht
      intro e' he'
      cases he'
      exact ⟨by simp, by simpa using hn r _ rfl ((joins_iff hs).2 rfl)⟩

end ReadStep

theorem accounted (src : RowSource BookEventRow) : Accounted src (scanBook src) := by
  induction src using List.reverseRecOn with
  | nil => exact ⟨rfl, by simp [scanBook], by simp [scanBook]⟩
  | append_singleton src x ih =>
    have hrow := (scanned src).row
    have hstep := readStep (scanBook src).group (scanBook src).row x
    rw [scanBook_concat, BookScan.read]
    obtain ⟨hturn, hgroup⟩ := hstep.held (H := fun e => heldRows e (src ++ [x]))
      (fun r e hx hj => by subst hx; rw [hrow]; exact mem_heldRows_concat hj)
      fun g hg => ⟨(ih.group g hg).1, List.Subset.trans (ih.group g hg).2 (heldRows_append _ src [x])⟩
    refine ⟨?_, fun t ht => ?_, hgroup⟩
    · rw [List.flatMap_append, List.append_assoc, hstep.rows, ← List.append_assoc, ih.rows, hrow]
      cases x with
      | error e =>
        rw [decodable_concat_error]
        exact List.append_nil _
      | ok r =>
        rw [decodable_concat_ok, List.length_append, List.length_singleton, List.range_succ]
        rfl
    · rcases List.mem_append.1 ht with ht | ht
      · exact fun e he => ⟨(ih.turn t ht e he).1,
          List.Subset.trans (ih.turn t ht e he).2 (heldRows_append e src [x])⟩
      · exact hturn t ht

/-! ## Where the snapshots of a source are -/

/-- A turn that ended with a snapshot. -/
def BookTurn.YieldsSnapshot (t : BookTurn) : Prop :=
  ∃ k ev, t.item = .ok (k, ev) ∧ ev.isSnapshot

theorem deltaItem_not_snapshot {r : BookEventRow} {n : ℕ} {rows : List ℕ} :
    ¬ BookTurn.YieldsSnapshot ⟨rows, none, (deltaEvent r n).map (bookKey r n, ·)⟩ := by
  rintro ⟨k, ev, hitem, hev⟩
  cases hd : deltaEvent r n with
  | error e =>
    rw [hd] at hitem
    cases hitem
  | ok ev' =>
    rw [hd] at hitem
    cases hitem
    unfold deltaEvent at hd
    split at hd
    · cases hd
      cases hev
    · cases hd

/-- Reading a row ends a snapshot only by closing the group under assembly, first thing. -/
theorem ReadStep.snapshot {n : ℕ} {g g' : Option OpenGroup} {x : Except LoadError BookEventRow}
    {ts : List BookTurn} (h : ReadStep n g x ts g') {j : ℕ} {t : BookTurn} (hj : ts[j]? = some t)
    (ht : t.YieldsSnapshot) :
    j = 0 ∧ ∃ g₀ ∈ g, t = g₀.close ∧ ∃ r, x = .ok r ∧ ¬ r.joins g₀.first.eventIdx := by
  have herror {rows : List ℕ} {group : Option ℤ} {e : LoadError} :
      ¬ BookTurn.YieldsSnapshot ⟨rows, group, .error e⟩ := by
    rintro ⟨k, ev, hitem, -⟩
    cases hitem
  -- the closing turn comes first, and the one after it is no snapshot
  have hclose {last : List BookTurn} (hts : ts = (g.map OpenGroup.close).toList ++ last)
      (hlast : ∀ t ∈ last, ¬ t.YieldsSnapshot) : j = 0 ∧ ∃ g₀ ∈ g, t = g₀.close := by
    cases g with
    | none =>
      rw [hts] at hj
      exact absurd ht (hlast t (List.mem_of_getElem? hj))
    | some g₀ =>
      rw [hts] at hj
      cases j with
      | zero =>
        cases hj
        exact ⟨rfl, g₀, rfl, rfl⟩
      | succ j => exact absurd ht (hlast t (List.mem_of_getElem? hj))
  cases h with
  | bad e => exact absurd (List.mem_singleton.1 (List.mem_of_getElem? hj) ▸ ht) herror
  | broken g e => exact absurd (List.mem_singleton.1 (List.mem_of_getElem? hj) ▸ ht) herror
  | grown sides hj' hneg => cases hj
  | spoilt e hj' hneg => exact absurd (List.mem_singleton.1 (List.mem_of_getElem? hj) ▸ ht) herror
  | @delta g r hs =>
    obtain ⟨h0, g₀, hg₀, htg⟩ := hclose rfl
      fun t ht => List.mem_singleton.1 ht ▸ deltaItem_not_snapshot
    exact ⟨h0, g₀, hg₀, htg, r, rfl, not_joins hs _⟩
  | @opened g r sides hs hg hneg =>
    obtain ⟨h0, g₀, hg₀, htg⟩ := hclose (List.append_nil _).symm (by simp)
    exact ⟨h0, g₀, hg₀, htg, r, rfl, hg g₀ hg₀⟩
  | @refused g r e hs hg hneg =>
    obtain ⟨h0, g₀, hg₀, htg⟩ := hclose rfl fun t ht => List.mem_singleton.1 ht ▸ herror
    exact ⟨h0, g₀, hg₀, htg, r, rfl, hg g₀ hg₀⟩

/-- A snapshot of a scan was closed by a row that does not join it. -/
theorem scanBook_snapshot {src : RowSource BookEventRow} {m : ℕ} {t : BookTurn}
    (hm : (scanBook src).turns[m]? = some t) (ht : t.YieldsSnapshot) :
    ∃ pre r post g, src = pre ++ .ok r :: post ∧ g ∈ (scanBook pre).group ∧
      ¬ r.joins g.first.eventIdx ∧ t = g.close ∧
      (scanBook pre).turns = (scanBook src).turns.take m := by
  induction src using List.reverseRecOn with
  | nil => simp [scanBook] at hm
  | append_singleton src x ih =>
    rw [scanBook_concat, BookScan.read] at hm ⊢
    dsimp only at hm ⊢
    by_cases hlt : m < (scanBook src).turns.length
    · rw [List.getElem?_append_left hlt] at hm
      obtain ⟨pre, r, post, g, rfl, hg, hj, htg, htake⟩ := ih hm
      refine ⟨pre, r, post ++ [x], g, by simp, hg, hj, htg, ?_⟩
      rw [htake, List.take_append_of_le_length hlt.le]
    · rw [List.getElem?_append_right (not_lt.1 hlt)] at hm
      obtain ⟨h0, g, hg, htg, r, rfl, hj⟩ := (readStep _ _ _).snapshot hm ht
      obtain rfl : m = (scanBook src).turns.length := by omega
      exact ⟨src, r, [], g, rfl, hg, hj, htg, by simp⟩

/-- A snapshot of the lane is a group that the source ends or stops. -/
theorem bookTurns_snapshot {src : RowSource BookEventRow} {m : ℕ} {t : BookTurn}
    (hm : (bookTurns none 0 src)[m]? = some t) (ht : t.YieldsSnapshot) :
    ∃ pre post g, src = pre ++ post ∧ g ∈ (scanBook pre).group ∧
      StopsGroup g.first.eventIdx post ∧ t = g.close ∧
      (scanBook pre).turns = (bookTurns none 0 src).take m := by
  rw [bookTurns_eq_scanBook] at hm ⊢
  by_cases hlt : m < (scanBook src).turns.length
  · rw [List.getElem?_append_left hlt] at hm
    obtain ⟨pre, r, post, g, rfl, hg, hj, htg, htake⟩ := scanBook_snapshot hm ht
    refine ⟨pre, .ok r :: post, g, rfl, hg, ?_, htg, ?_⟩
    · rintro x hx
      cases hx
      exact ⟨r, rfl, hj⟩
    · rw [htake, List.take_append_of_le_length hlt.le]
  · rw [List.getElem?_append_right (not_lt.1 hlt)] at hm
    cases hg : (scanBook src).group with
    | none => simp [hg] at hm
    | some g =>
      obtain ⟨hm', rfl⟩ : m - (scanBook src).turns.length = 0 ∧ g.close = t := by
        simpa [hg, List.getElem?_singleton] using hm
      obtain rfl : m = (scanBook src).turns.length := by omega
      exact ⟨src, [], g, by simp, hg, by simp [StopsGroup], rfl, by simp⟩

theorem bookTurns_stopped {pre post : RowSource BookEventRow} {g : OpenGroup}
    (hg : g ∈ (scanBook pre).group) (hstop : StopsGroup g.first.eventIdx post) :
    (bookTurns none 0 (pre ++ post))[(scanBook pre).turns.length]? = some g.close := by
  rw [bookTurns_append, List.getElem?_append_right le_rfl, Nat.sub_self, hg]
  cases post with
  | nil => rfl
  | cons x post =>
    obtain ⟨r, rfl, hj⟩ := hstop x rfl
    rw [bookTurns, if_neg hj]
    rfl

/-! ## After an abandoned group -/

/-- An event that was handed out is that of the lane's item, which does not regress. -/
theorem Reported.ok {items : List LaneItem} {pulls : List EventIter.Pulled}
    (h : Reported items pulls) {m : ℕ} {p : EventIter.Pulled} {item : LaneItem} {ev : ReplayEvent}
    (hm : items[m]? = some item) (hp : pulls[m]? = some p) (hev : p.item = .ok ev) :
    ∃ k, item = .ok (k, ev) ∧ ¬ Regresses items m k := by
  rcases item with e | ⟨k, ev'⟩
  · obtain ⟨q, hq, hqe⟩ := h.failed m e hm
    cases hp.symm.trans hq
    cases hev.symm.trans hqe
  · obtain ⟨q, hq, -, hreg, hok⟩ := h.event m k ev' hm
    cases hp.symm.trans hq
    by_cases hr : Regresses items m k
    · obtain ⟨prev, hprev⟩ := hreg hr
      cases hev.symm.trans hprev
    · cases hev.symm.trans (hok hr)
      exact ⟨k, rfl, hr⟩

/-- Group `n` of event `e` was abandoned with an error, and pull `m` of the book lane, a later one,
handed out a snapshot of the same event. -/
structure SnapshotAfterError (book : RowSource BookEventRow) (pulls : List EventIter.Pulled)
    (e : ℤ) (n m : ℕ) (t : BookTurn) : Prop where
  later : n < m
  abandoned : ∃ t₀ err, (bookTurns none 0 book)[n]? = some t₀ ∧ t₀.group = some e ∧
    t₀.item = .error err
  turn : (bookTurns none 0 book)[m]? = some t
  pulled : ∃ p ts yes no, pulls[m]? = some p ∧ p.item = .ok (.snapshot ts e yes no false)

/-- After an abandoned group no later snapshot of the same event is made of a proper subset of the
rows the source holds for the event. -/
def NoPartialSnapshot (book : RowSource BookEventRow) (pulls : List EventIter.Pulled) : Prop :=
  ∀ e n m t, SnapshotAfterError book pulls e n m t →
    ¬ (t.rows ⊆ heldRows e book ∧ ¬ heldRows e book ⊆ t.rows)

section Lane

variable {book : RowSource BookEventRow} {pulls : List EventIter.Pulled} {e : ℤ} {n m : ℕ}
  {t : BookTurn}

theorem turn_accounted {src : RowSource BookEventRow} {t : BookTurn}
    (ht : t ∈ bookTurns none 0 src) : ∀ e ∈ t.group, t.rows ≠ [] ∧ t.rows ⊆ heldRows e src := by
  rw [bookTurns_eq_scanBook, List.mem_append] at ht
  rcases ht with ht | ht
  · exact (accounted src).turn t ht
  · obtain ⟨g, hg, rfl⟩ := Option.map_eq_some_iff.1 (Option.mem_toList.1 ht)
    intro e he
    cases he
    exact (accounted src).group g hg

theorem bookTurns_rows (src : RowSource BookEventRow) :
    (bookTurns none 0 src).flatMap (·.rows) = List.range (decodable src).length := by
  rw [bookTurns_eq_scanBook, List.flatMap_append, ← (accounted src).rows]
  cases (scanBook src).group with
  | none => rfl
  | some g => simp [OpenGroup.close, OpenGroup.turn]

theorem bookTurns_disjoint {t₀ : BookTurn} (hnm : n < m)
    (hn : (bookTurns none 0 book)[n]? = some t₀) (hm : (bookTurns none 0 book)[m]? = some t) :
    t₀.rows.Disjoint t.rows := by
  have hnodup : ((bookTurns none 0 book).flatMap (·.rows)).Nodup :=
    bookTurns_rows book ▸ List.nodup_range
  have hpair := (List.nodup_flatMap.1 hnodup).2
  obtain ⟨hn', rfl⟩ := List.getElem?_eq_some_iff.1 hn
  obtain ⟨hm', rfl⟩ := List.getElem?_eq_some_iff.1 hm
  exact List.pairwise_iff_getElem.1 hpair n m hn' hm' hnm

theorem SnapshotAfterError.partial_rows (h : SnapshotAfterError book pulls e n m t)
    (hgroup : t.group = some e) : t.rows ⊆ heldRows e book ∧ ¬ heldRows e book ⊆ t.rows := by
  obtain ⟨t₀, err, hn, hg, -⟩ := h.abandoned
  obtain ⟨hne, hheld⟩ := turn_accounted (List.mem_of_getElem? hn) e hg
  refine ⟨(turn_accounted (List.mem_of_getElem? h.turn) e hgroup).2, fun hsub => ?_⟩
  obtain ⟨i, hi⟩ := List.exists_mem_of_ne_nil _ hne
  exact bookTurns_disjoint h.later hn h.turn hi (hsub (hheld hi))

end Lane

/-- The book lane regresses at a group exactly when the source holds an event of greater key
before it. -/
theorem regresses_bookTurns_iff {src pre : RowSource BookEventRow} {m : ℕ} {k : MergeKey}
    (htake : (scanBook pre).turns = (bookTurns none 0 src).take m) :
    Regresses ((bookTurns none 0 src).map (·.item)) m k ↔
      ∃ k', Somewhere (HoldsAt k') pre ∧ k < k' := by
  rw [regresses_iff, ← List.map_take, ← htake]
  simp only [(scanned pre).event, List.mem_map]
  constructor
  · rintro ⟨k', ev', ⟨t, ht, hitem⟩, hlt⟩
    exact ⟨k', ⟨t, ht, ev', hitem⟩, hlt⟩
  · rintro ⟨k', ⟨t, ht, ev', hitem⟩, hlt⟩
    exact ⟨k', ev', ⟨t, ht, hitem⟩, hlt⟩

theorem snapshotAfterError_iff {book : RowSource BookEventRow} {pulls : List EventIter.Pulled}
    (hrep : Reported (bookItems 0 book) pulls) (e : ℤ) :
    (∃ n m t, SnapshotAfterError book pulls e n m t ∧ t.group = some e) ↔ Resumes e book := by
  constructor
  · rintro ⟨n, m, t, ⟨hnm, ⟨t₀, err, hn, hgroup, hitem⟩, hm, p, ts, yes, no, hp, hev⟩, -⟩
    have him : (bookItems 0 book)[m]? = some t.item := by
      rw [bookItems, List.getElem?_map, hm]
      rfl
    obtain ⟨k, hk, hreg⟩ := hrep.ok him hp hev
    obtain ⟨pre, post, g, hsrc, hg, hstop, rfl, htake⟩ := bookTurns_snapshot hm ⟨k, _, hk, rfl⟩
    obtain ⟨rfl, hidx⟩ : g.key = k ∧ g.first.eventIdx = e := by
      rw [OpenGroup.close, OpenGroup.turn, Except.ok.injEq, Prod.mk.injEq, OpenGroup.event,
        ReplayEvent.snapshot.injEq] at hk
      exact ⟨hk.1, hk.2.2.1⟩
    rw [hidx] at hstop
    refine ⟨pre, post, g.key, hsrc, ?_, ?_, hstop, fun k' hk' => ?_⟩
    · refine ((scanned pre).broken e).2 ⟨t₀, ?_, hgroup, err, hitem⟩
      rw [htake]
      exact List.mem_of_getElem? (by rw [List.getElem?_take_of_lt hnm, hn])
    · exact ((scanned pre).group e g.key).2 ⟨g, hg, hidx, rfl⟩
    · by_contra hlt
      exact hreg ((regresses_bookTurns_iff htake).2 ⟨k', hk', not_le.1 hlt⟩)
  · rintro ⟨pre, post, k, rfl, hbreak, hkey, hstop, hle⟩
    obtain ⟨g, hg, rfl, rfl⟩ := ((scanned pre).group e k).1 hkey
    obtain ⟨t₀, ht₀, hgroup, err, hitem⟩ := ((scanned pre).broken _).1 hbreak
    obtain ⟨n, hn⟩ := List.mem_iff_getElem?.1 ht₀
    have hnlt : n < (scanBook pre).turns.length := (List.getElem?_eq_some_iff.1 hn).1
    have hm := bookTurns_stopped hg hstop
    have htake : (scanBook pre).turns =
        (bookTurns none 0 (pre ++ post)).take (scanBook pre).turns.length := by
      rw [bookTurns_append, List.take_left]
    have him : (bookItems 0 (pre ++ post))[(scanBook pre).turns.length]? =
        some (.ok (g.key, g.event)) := by
      rw [bookItems, List.getElem?_map, hm]
      rfl
    obtain ⟨p, hp, -, -, hok⟩ := hrep.event _ _ _ him
    refine ⟨n, _, g.close, ⟨hnlt, ⟨t₀, err, ?_, hgroup, hitem⟩, hm, p, _, _, _, hp, hok ?_⟩, rfl⟩
    · rw [bookTurns_append, List.getElem?_append_left hnlt, hn]
    · intro hreg
      obtain ⟨k', hk', hlt⟩ := (regresses_bookTurns_iff htake).1 hreg
      exact absurd (hle k' hk') (not_le.2 hlt)

/-- An error never turns into a silently wrong book exactly when no broken group resumes: item by
item the book lane hands out the turns of its source, and a snapshot of an abandoned event is handed
out later, without the rows that were dropped, just where its group resumes. -/
theorem abandoned_group_stays_dropped_iff (gaps : RowSource GapRow)
    (book : RowSource BookEventRow) (trades : List TradeRow) :
    ∃ it, EventIter.fromSources gaps book (trades.map .ok) = .ok it ∧
      Reported ((bookTurns none 0 book).map (·.item)) (it.stream.filter (·.lane = .book)) ∧
      (NoPartialSnapshot book (it.stream.filter (·.lane = .book)) ↔ ∀ e, ¬ Resumes e book) := by
  have hrep := stream_reported gaps book trades .book
  refine ⟨_, fromSources_ok gaps book trades, hrep, ?_⟩
  simp only [← snapshotAfterError_iff hrep]
  constructor
  · rintro h e ⟨n, m, t, hs, hgroup⟩
    exact h e n m t hs (hs.partial_rows hgroup)
  · intro h e n m t hs _
    refine h e ⟨n, m, t, hs, ?_⟩
    -- the turn of a handed-out snapshot is that of a group of its event
    obtain ⟨p, ts, yes, no, hp, hev⟩ := hs.pulled
    have him : (bookItems 0 book)[m]? = some t.item := by
      rw [bookItems, List.getElem?_map, hs.turn]
      rfl
    obtain ⟨k, hk, -⟩ := hrep.ok him hp hev
    obtain ⟨pre, post, g, -, -, -, rfl, -⟩ := bookTurns_snapshot hs.turn ⟨k, _, hk, rfl⟩
    rw [OpenGroup.close, OpenGroup.turn, Except.ok.injEq, Prod.mk.injEq, OpenGroup.event,
      ReplayEvent.snapshot.injEq] at hk
    exact congrArg some hk.2.2.1

/-- A snapshot of event 0 whose second row of three cannot be decoded. -/
def brokenSnapshot : RowSource BookEventRow :=
  [.ok ⟨0, 1, some 1, true, some .yes, some 40, some 5⟩,
    .error (malformed "book_events" 1 "invalid side \"up\""),
    .ok ⟨0, 1, some 1, true, some .yes, some 42, some 7⟩]

/-- The consumer receives the error, and then a snapshot made of the third row alone. -/
theorem partial_snapshot_after_error : ∃ it,
    EventIter.fromSources [] brokenSnapshot [] = .ok it ∧
      it.items = [.error (malformed "book_events" 1 "invalid side \"up\""),
        .ok (.snapshot 1 0 [⟨⟨42⟩, ⟨7⟩⟩] [] false)] ∧
      ¬ NoPartialSnapshot brokenSnapshot (it.stream.filter (·.lane = .book)) := by
  refine ⟨_, rfl, by decide, fun h => ?_⟩
  refine h 0 0 1 ⟨[1], some 0, .ok (⟨1, 0, 1, PRI_BOOK, 0, 1⟩,
    .snapshot 1 0 [⟨⟨42⟩, ⟨7⟩⟩] [] false)⟩ ⟨by decide, ?_, rfl, ?_⟩ (by decide)
  · exact ⟨_, _, rfl, rfl, rfl⟩
  · exact ⟨_, _, _, _, rfl, rfl⟩

end Snapevent
