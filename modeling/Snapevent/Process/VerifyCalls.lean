import Snapevent.Process.Collected
import Snapevent.Process.VerifyWindow

/-!
# The calls of the record loop

What the record loop calls the verify engine with.  It applies every book record to the book first
and hands the engine the result, so that an observation always comes with the last state fed.
-/

namespace Snapevent

/-- The book after an item. -/
def bookAfter (book : Book) : ReadItem → Book
  | .error _ => book
  | .ok env =>
    match env.kind with
    | .snapshot s => book.applySnapshot s
    | .delta d => book.applyDelta d
    | _ => book

/-- The call an item of a file of `channel` makes; `book` is the book before it. -/
def engineCall (channel : Channel) (book : Book) : ReadItem → Option EngineCall
  | .error _ => none
  | .ok env =>
    match env.kind with
    | .snapshot s => some (.bookEvent env.recvUs (book.applySnapshot s) true)
    | .delta d => some (.bookEvent env.recvUs (book.applyDelta d) false)
    | .gap _ => if channel = .orderbook then some .gap else none
    | .verify v => some (.verify env.recvUs v.yes v.no book)
    | .trade _ => none
    | .raw _ => none

/-- The calls the items of a file of `channel` make. -/
def engineCalls (channel : Channel) (book : Book) : List ReadItem → List EngineCall
  | [] => []
  | i :: items =>
    (engineCall channel book i).toList ++ engineCalls channel (bookAfter book i) items

/-- The calls of a ticker: those of the orderbook files, then those of the trade files. -/
def tickerCalls (orderbookItems tradeItems : List ReadItem) : List EngineCall :=
  engineCalls .orderbook .default orderbookItems ++
    engineCalls .trade (orderbookItems.foldl bookAfter .default) tradeItems

theorem engineCalls_append (channel : Channel) (book : Book) (items items' : List ReadItem) :
    engineCalls channel book (items ++ items') = engineCalls channel book items ++
      engineCalls channel (items.foldl bookAfter book) items' := by
  induction items generalizing book with
  | nil => rfl
  | cons i items ih =>
    rw [List.cons_append, engineCalls, engineCalls, ih, List.append_assoc]
    rfl

namespace TickerState

/-- One item makes its call. -/
theorem onItem_engine {c : Channel} {st st' : TickerState} {i : ReadItem}
    (h : st.onItem c i = .ok st') :
    st'.engine = (engineCall c st.book i).toList.foldl VerifyEngine.step st.engine ∧
      st'.book = bookAfter st.book i := by
  unfold engineCall bookAfter
  cases onItem_step h with
  | error e => exact ⟨rfl, rfl⟩
  | gap hk =>
    dsimp only
    rw [hk]
    dsimp only
    split_ifs <;> exact ⟨rfl, rfl⟩
  | snapshot hk =>
    dsimp only
    rw [hk]
    exact ⟨rfl, rfl⟩
  | delta hk =>
    dsimp only
    rw [hk]
    exact ⟨rfl, rfl⟩
  | trade hk =>
    dsimp only
    rw [hk]
    exact ⟨rfl, rfl⟩
  | raw hk =>
    dsimp only
    rw [hk]
    exact ⟨rfl, rfl⟩
  | verify hk =>
    dsimp only
    rw [hk]
    exact ⟨rfl, rfl⟩

theorem foldlM_engine {c : Channel} {items : List ReadItem} {st st' : TickerState}
    (h : items.foldlM (onItem c) st = .ok st') :
    st'.engine = (engineCalls c st.book items).foldl VerifyEngine.step st.engine ∧
      st'.book = items.foldl bookAfter st.book := by
  induction items generalizing st with
  | nil =>
    cases h
    exact ⟨rfl, rfl⟩
  | cons i items ih =>
    rw [List.foldlM_cons] at h
    obtain ⟨t, ht, h⟩ := FoldM.bind_ok h
    obtain ⟨hengine, hbook⟩ := onItem_engine ht
    obtain ⟨hengine', hbook'⟩ := ih h
    rw [engineCalls, List.foldl_append, ← hengine, ← hbook, List.foldl_cons, ← hbook]
    exact ⟨hengine', hbook'⟩

theorem foldlM_onFile_engine {c : Channel} {files : List CaptureFile} {st st' : TickerState}
    (h : files.foldlM (onFile c) st = .ok st') :
    st'.engine = (engineCalls c st.book (readItems files)).foldl VerifyEngine.step st.engine ∧
      st'.book = (readItems files).foldl bookAfter st.book := by
  induction files generalizing st with
  | nil =>
    cases h
    exact ⟨rfl, rfl⟩
  | cons f files ih =>
    rw [List.foldlM_cons] at h
    obtain ⟨t, ht, h⟩ := FoldM.bind_ok h
    obtain ⟨s, hs, ht⟩ := FoldM.bind_ok ht
    obtain ⟨hengine, hbook⟩ := foldlM_engine hs
    cases ht
    obtain ⟨hengine', hbook'⟩ := ih h
    have hitems : readItems (f :: files) = readEnvelopes f.lines ++ readItems files := rfl
    rw [hitems, engineCalls_append, List.foldl_append, List.foldl_append, ← hengine, ← hbook]
    exact ⟨hengine', hbook'⟩

theorem onFiles_engine {orderbookFiles tradeFiles : List CaptureFile} {st : TickerState}
    (h : onFiles orderbookFiles tradeFiles = .ok st) :
    st.engine = VerifyEngine.run (tickerCalls (readItems orderbookFiles) (readItems tradeFiles)) := by
  obtain ⟨t, hob, htr⟩ := FoldM.bind_ok h
  obtain ⟨hengine, hbook⟩ := foldlM_onFile_engine hob
  obtain ⟨hengine', -⟩ := foldlM_onFile_engine htr
  rw [hengine', hengine, hbook, ← List.foldl_append]
  rfl

end TickerState

/-- The verify rows of a ticker are those of its calls. -/
theorem verify_of_processTicker {ticker : String} {orderbookFiles tradeFiles : List CaptureFile}
    {out : TickerOutput} (h : processTicker ticker orderbookFiles tradeFiles = .ok (some out)) :
    out.verify = (VerifyEngine.run
      (tickerCalls (readItems orderbookFiles) (readItems tradeFiles))).finish := by
  obtain ⟨st, hst, rfl⟩ := processTicker_eq_some h
  rw [← TickerState.onFiles_engine hst]
  rfl

/-! ## The books of the calls -/

theorem lastState_concat (calls : List EngineCall) (c : EngineCall) :
    lastState (calls ++ [c]) = (c.fed?.map (·.2)).getD (lastState calls) := by
  rw [lastState, VerifyEngine.recorded_concat]
  cases hc : c.fed? with
  | none =>
    rw [Option.toList_none, List.append_nil, lastState]
    rfl
  | some x =>
    rw [Option.toList_some, List.getLast?_concat]
    rfl

/-- The calls so far were made with the book of the run, which is now `book`. -/
structure Keeps (calls : List EngineCall) (book : Book) : Prop where
  agree : BooksAgree calls
  last : lastState calls = canonicalizeBook book

theorem BooksAgree.concat {calls : List EngineCall} {c : EngineCall} (h : BooksAgree calls)
    (hc : ∀ ts yes no book, c = .verify ts yes no book →
      canonicalizeBook book = lastState calls) : BooksAgree (calls ++ [c]) := by
  intro before ts yes no book after hcalls
  cases after using List.reverseRecOn with
  | nil =>
    obtain ⟨rfl, hlast⟩ := List.append_inj' hcalls rfl
    exact hc ts yes no book (List.cons.inj hlast).1
  | append_singleton after d =>
    rw [← List.cons_append, ← List.append_assoc] at hcalls
    obtain ⟨hinit, -⟩ := List.append_inj' hcalls rfl
    exact h before ts yes no book after hinit

theorem Keeps.item {calls : List EngineCall} {book : Book} (h : Keeps calls book) (c : Channel)
    (i : ReadItem) : Keeps (calls ++ (engineCall c book i).toList) (bookAfter book i) := by
  have hnone : Keeps (calls ++ []) book := by
    rw [List.append_nil]
    exact h
  have hfed (ts : ℤ) (book' : Book) (isSnapshot : Bool) :
      Keeps (calls ++ [.bookEvent ts book' isSnapshot]) book' :=
    ⟨h.agree.concat (by simp), lastState_concat _ _⟩
  cases i with
  | error e => exact hnone
  | ok env =>
    simp only [engineCall, bookAfter]
    cases hk : env.kind with
    | snapshot s => exact hfed _ _ _
    | delta d => exact hfed _ _ _
    | trade t => exact hnone
    | gap g =>
      dsimp only
      split_ifs
      · exact ⟨h.agree.concat (by simp), (lastState_concat _ _).trans h.last⟩
      · exact hnone
    | raw r => exact hnone
    | verify v =>
      refine ⟨h.agree.concat ?_, (lastState_concat _ _).trans h.last⟩
      intro ts yes no book' heq
      cases heq
      exact h.last.symm

theorem Keeps.items {calls : List EngineCall} {book : Book} (h : Keeps calls book) (c : Channel)
    (items : List ReadItem) :
    Keeps (calls ++ engineCalls c book items) (items.foldl bookAfter book) := by
  induction items generalizing calls book with
  | nil =>
    rw [engineCalls, List.append_nil]
    exact h
  | cons i items ih =>
    rw [engineCalls, ← List.append_assoc]
    exact ih (h.item c i)

theorem booksAgree_tickerCalls (orderbookItems tradeItems : List ReadItem) :
    BooksAgree (tickerCalls orderbookItems tradeItems) := by
  have hnew : Keeps [] .default := ⟨fun before ts yes no book after h => by simp at h, rfl⟩
  exact ((hnew.items .orderbook orderbookItems).items .trade tradeItems).agree

end Snapevent
