import Snapevent.EndToEnd.Conservation

/-!
# The top-of-book table

The `book_top` table of a processed ticker is a view of its `book_events` table: what the loader
makes of the rows of the second, replayed event by event, gives the rows of the first.
-/

namespace Snapevent

/-- What a row of the top-of-book table says of its event. -/
structure TopView where
  eventIdx : ℤ
  recvTsUs : ℤ
  event : String
  top : Top
  midMicro : Option UInt32
  spreadMicro : Option ℤ
  deriving DecidableEq, Repr

namespace TopView

/-- The view of a top after the event number `idx`. -/
def of (idx ts : ℤ) (event : String) (top : Top) : TopView :=
  ⟨idx, ts, event, top, top.midMicro, top.spreadMicro⟩

/-- Both sides are quoted. -/
def twoSided (v : TopView) : Bool := v.top.yesBidMicro.isSome && v.top.yesAskMicro.isSome

end TopView

def BookTopRow.view (row : BookTopRow) : TopView :=
  ⟨row.eventIdx, row.recvTsUs, row.event, row.top, row.midMicro, row.spreadMicro⟩

/-- The text of a book event. -/
def ReplayEvent.bookText : ReplayEvent → String
  | .snapshot .. => "snapshot"
  | .delta .. => "delta"
  | _ => ""

/-- The tops a replayer sees after each of some events, which are numbered from `idx`. -/
def replayTops (idx : ℤ) (r : BookReplayer) : List ReplayEvent → List TopView
  | [] => []
  | ev :: rest =>
    .of idx ev.ts ev.bookText (r.apply ev).book.top :: replayTops (idx + 1) (r.apply ev) rest

/-- The text of a book record. -/
def Envelope.bookText (env : Envelope) : String :=
  match env.kind with
  | .snapshot _ => "snapshot"
  | .delta _ => "delta"
  | _ => ""

/-- The tops after each of some records, which are numbered from `idx`. -/
def recordTops (idx : ℤ) (b : Book) : List Envelope → List TopView
  | [] => []
  | env :: rest =>
    .of idx env.recvUs env.bookText (recordBook b env).top :: recordTops (idx + 1) (recordBook b env) rest

theorem recordTops_concat (idx : ℤ) (b : Book) (records : List Envelope) (env : Envelope) :
    recordTops idx b (records ++ [env]) = recordTops idx b records ++
      [.of (idx + records.length) env.recvUs env.bookText
        (recordBook (records.foldl recordBook b) env).top] := by
  induction records generalizing idx b with
  | nil => simp [recordTops]
  | cons r records ih =>
    have hidx : idx + 1 + (records.length : ℤ) = idx + (r :: records).length := by
      rw [List.length_cons]
      omega
    rw [List.cons_append, recordTops, recordTops, ih, hidx]
    rfl

/-- The events of some records show a replayer the tops of the records. -/
theorem replayTops_recordEvents (idx : ℤ) (r : BookReplayer) {records : List Envelope}
    (hr : ∀ env ∈ records, WritableRecord env) :
    replayTops idx r (recordEvents idx records) = recordTops idx r.book records := by
  induction records generalizing idx r with
  | nil => rfl
  | cons env records ih =>
    have henv := hr env List.mem_cons_self
    obtain ⟨ev, hev, -⟩ := groupEvent_recordRows idx henv 0
    have hstamp : ev.ts = env.recvUs ∧ ev.bookText = env.bookText := by
      rcases henv.kind with ⟨s, hs⟩ | ⟨d, hd⟩
      · rw [recordEvent, hs] at hev
        cases hev
        simp [ReplayEvent.ts, ReplayEvent.bookText, Envelope.bookText, hs]
      · rw [recordEvent, hd] at hev
        cases hev
        simp [ReplayEvent.ts, ReplayEvent.bookText, Envelope.bookText, hd]
    rw [recordEvents, hev, recordTops, ← apply_recordEvent r idx hev,
      ← ih (idx + 1) (r.apply ev) fun e h => hr e (List.mem_cons_of_mem _ h)]
    simp only [Option.toList_some, List.singleton_append, replayTops, hstamp]

/-! ## The record loop -/

/-- The top-of-book table after some items: a row for each of their book records. -/
structure Tops (st : TickerState) (items : List ReadItem) : Prop where
  idx : st.eventIdx = (bookRecords items).length
  book : st.book = (bookRecords items).foldl recordBook .default
  rows : st.bookTop.map BookTopRow.view = recordTops 0 .default (bookRecords items)
  twoSided : st.twoSidedSnapshots = st.bookTop.countP (·.view.twoSided)

theorem view_push (t : BookTopTable) (idx : ℤ) (env : Envelope) (evtUs : ℤ) (event : String)
    (top : Top) : (t.push idx env evtUs event top).map BookTopRow.view =
      t.map BookTopRow.view ++ [.of idx env.recvUs event top] := by
  rw [BookTopTable.push, List.map_append]
  rfl

theorem countP_push (t : BookTopTable) (idx : ℤ) (env : Envelope) (evtUs : ℤ) (event : String)
    (top : Top) : (t.push idx env evtUs event top).countP (·.view.twoSided) =
      if top.yesBidMicro.isSome && top.yesAskMicro.isSome then t.countP (·.view.twoSided) + 1
      else t.countP (·.view.twoSided) := by
  rw [BookTopTable.push, List.countP_append, List.countP_singleton]
  show _ + (if (top.yesBidMicro.isSome && top.yesAskMicro.isSome) = true then 1 else 0) = _
  split_ifs <;> rfl

/-- A book record adds its row. -/
theorem Tops.afterBook {st st' : TickerState} {used : List ReadItem} {env : Envelope}
    (h : Tops st used) (hb : env.isBook = true) (evt : Timestamp) (isSnapshot : Bool)
    (hidx : st'.eventIdx = st.eventIdx) (htop : st'.bookTop = st.bookTop)
    (hsides : st'.twoSidedSnapshots = st.twoSidedSnapshots)
    (hbook : st'.book = recordBook st.book env) :
    Tops (st'.afterBook env evt env.bookText isSnapshot) (used ++ [.ok env]) := by
  have hrecords : bookRecords (used ++ [Except.ok env]) = bookRecords used ++ [env] := by
    rw [bookRecords_append]
    simp [bookRecords, Except.toOption, hb]
  have hidx' : st'.eventIdx = (bookRecords used).length := hidx.trans h.idx
  constructor
  · rw [hrecords, List.length_append]
    show st'.eventIdx + 1 = _
    rw [hidx']
    rfl
  · rw [hrecords, List.foldl_append, ← h.book]
    exact hbook
  · show (st'.bookTop.push _ _ _ _ _).map _ = _
    rw [view_push, hrecords, recordTops_concat, htop, h.rows, hbook, hidx', ← h.book, Int.zero_add]
  · show (if _ then st'.twoSidedSnapshots + 1 else st'.twoSidedSnapshots) =
      (st'.bookTop.push _ _ _ _ _).countP _
    rw [countP_push, hsides, htop, h.twoSided]

/-- An item that is no book record leaves the tops alone. -/
theorem Tops.other {st st' : TickerState} {used : List ReadItem} {i : ReadItem} (h : Tops st used)
    (hi : ∀ env, i = .ok env → env.isBook = false) (hidx : st'.eventIdx = st.eventIdx)
    (htop : st'.bookTop = st.bookTop) (hsides : st'.twoSidedSnapshots = st.twoSidedSnapshots)
    (hbook : st'.book = st.book) : Tops st' (used ++ [i]) := by
  have hnone : bookRecords (used ++ [i]) = bookRecords used := by
    rw [bookRecords_append, bookRecords_of_not_isBook hi, List.append_nil]
  constructor
  · rw [hidx, hnone, h.idx]
  · rw [hbook, hnone, h.book]
  · rw [htop, hnone, h.rows]
  · rw [hsides, htop, h.twoSided]

theorem Tops.onItem {st st' : TickerState} {c : Channel} {used : List ReadItem} {i : ReadItem}
    (h : Tops st used) (hi : st.onItem c i = .ok st') : Tops st' (used ++ [i]) := by
  cases TickerState.onItem_step hi with
  | @snapshot env s hk =>
    have htext : env.bookText = "snapshot" := by rw [Envelope.bookText, hk]
    rw [← htext]
    exact h.afterBook (by rw [Envelope.isBook, hk]) _ _ rfl rfl rfl (by rw [recordBook, hk])
  | @delta env d hk =>
    have htext : env.bookText = "delta" := by rw [Envelope.bookText, hk]
    rw [← htext]
    exact h.afterBook (by rw [Envelope.isBook, hk]) _ _ rfl rfl rfl (by rw [recordBook, hk])
  | error e => exact h.other (by simp) rfl rfl rfl rfl
  | trade hk | gap hk | raw hk | verify hk =>
    refine h.other ?_ rfl rfl rfl rfl
    rintro env ⟨⟩
    rw [Envelope.isBook, hk]

theorem tops_of_onFiles {orderbookFiles tradeFiles : List CaptureFile} {st : TickerState}
    (h : TickerState.onFiles orderbookFiles tradeFiles = .ok st) :
    Tops st (readItems orderbookFiles ++ readItems tradeFiles) :=
  TickerState.onFiles_invariant (fun _ hs => ⟨hs.idx, hs.book, hs.rows, hs.twoSided⟩)
    (fun hs hi => hs.onItem hi) ⟨rfl, rfl, rfl, rfl⟩ h

/-! ## The view -/

/-- The top-of-book table of a processed ticker is a view of its `book_events` table: read back,
regrouped and replayed, the events of that table show after each of them the row that stands there;
and the two-sided count is the number of rows with both sides quoted. -/
theorem book_top_is_view {ticker : String} {orderbookFiles tradeFiles : List CaptureFile}
    {out : TickerOutput} (hout : processTicker ticker orderbookFiles tradeFiles = .ok (some out)) :
    ∃ rows, bookEvents out.bookEvents = rows.map .ok ∧ (∀ r ∈ rows, r.wellFormed) ∧
      out.bookTop.map BookTopRow.view =
        replayTops 0 .default ((groupedBook 0 rows).map Prod.snd) ∧
      out.twoSidedSnapshots = (replayTops 0 .default
        ((groupedBook 0 rows).map Prod.snd)).countP TopView.twoSided := by
  obtain ⟨st, hst, rfl⟩ := processTicker_eq_some hout
  have hbooks := books_of_onFiles hst
  have htops := tops_of_onFiles hst
  have hview : st.bookTop.map BookTopRow.view = replayTops 0 .default ((groupedBook 0 (recordsRows 0
      (bookRecords (readItems orderbookFiles ++ readItems tradeFiles)))).map Prod.snd) := by
    rw [groupedBook_recordsRows 0 0 hbooks.writable, recordLane_snd,
      replayTops_recordEvents 0 .default hbooks.writable]
    exact htops.rows
  refine ⟨_, hbooks.rows.bookEvents, recordsRows_wellFormed 0 hbooks.writable, hview, ?_⟩
  rw [← hview, List.countP_map]
  exact htops.twoSided

theorem book_top_is_view_sample : ∃ out, processTicker "A" [mixedFile] [] = .ok (some out) ∧
    ∃ rows, bookEvents out.bookEvents = rows.map .ok ∧ (∀ r ∈ rows, r.wellFormed) ∧
      out.bookTop.map BookTopRow.view =
        replayTops 0 .default ((groupedBook 0 rows).map Prod.snd) ∧
      out.twoSidedSnapshots = (replayTops 0 .default
        ((groupedBook 0 rows).map Prod.snd)).countP TopView.twoSided := by
  obtain ⟨out, hout⟩ : ∃ out, processTicker "A" [mixedFile] [] = .ok (some out) := ⟨_, rfl⟩
  exact ⟨out, hout, book_top_is_view hout⟩

end Snapevent
