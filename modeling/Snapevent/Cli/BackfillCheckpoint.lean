import Snapevent.Cli.Backfill

/-!
# What the backfill checkpoint says

A ticker is complete when some run has fetched its tape to the end, appended all its trades and
written its line.  Where no run stops at the page cap, every ticker that is found in the checkpoint
is complete, however many runs have died and wherever they have torn the log.
-/

namespace Snapevent

/-- The pages end with one that has no further cursor, and all their trades have been appended. -/
structure Visit.Complete (v : Visit) : Prop where
  ended : ∃ page, v.pages.getLast? = some page ∧ page.further = none
  written : ∀ page ∈ v.pages, ∀ rt ∈ page.trades, rt.tradeId ∈ v.written.map (·.tradeId)

/-- The trades of the pages have been appended or are still pending. -/
structure Visit.Tracks (v : Visit) (seen : List String) (pending : List RestTrade) : Prop where
  seen : ∀ id, id ∈ seen ↔ id ∈ v.written.map (·.tradeId)
  handled : ∀ page ∈ v.pages, ∀ rt ∈ page.trades,
    rt.tradeId ∈ v.written.map (·.tradeId) ∨ rt ∈ pending

/-- What a run knows about its ticker is what it has done for it. -/
def BackfillPhase.Tracks (v : Visit) : BackfillPhase → Prop
  | .idle => True
  | .fetching _ pass => v.Tracks pass.seen []
  | .writing _ pass trades cursor => v.Tracks pass.seen trades ∧
      ∃ page, v.pages.getLast? = some page ∧ page.cursor = cursor
  | .recording _ => v.Complete

namespace Visit.Tracks

variable {v : Visit} {seen : List String} {pending : List RestTrade} {rt : RestTrade}

theorem receive (h : v.Tracks seen []) (page : TradesPage) :
    Visit.Tracks { v with pages := v.pages ++ [page] } seen page.trades where
  seen := h.seen
  handled := by
    intro page' hpage rt hrt
    rcases List.mem_append.1 hpage with hpage | hpage
    · exact Or.inl ((h.handled page' hpage rt hrt).resolve_right List.not_mem_nil)
    · rw [List.mem_singleton] at hpage
      exact Or.inr (hpage ▸ hrt)

theorem duplicate (h : v.Tracks seen (rt :: pending)) (hseen : rt.tradeId ∈ seen) :
    v.Tracks seen pending where
  seen := h.seen
  handled := by
    intro page hpage rt' hrt
    rcases h.handled page hpage rt' hrt with hwritten | hpending
    · exact Or.inl hwritten
    · rcases List.mem_cons.1 hpending with rfl | hpending
      · exact Or.inl ((h.seen _).1 hseen)
      · exact Or.inr hpending

theorem append (h : v.Tracks seen (rt :: pending)) :
    Visit.Tracks { v with written := v.written ++ [rt] } (rt.tradeId :: seen) pending where
  seen := by
    intro id
    rw [List.mem_cons, h.seen, List.map_append, List.mem_append, List.map_singleton,
      List.mem_singleton, or_comm]
  handled := by
    intro page hpage rt' hrt
    rw [List.map_append, List.mem_append, List.map_singleton, List.mem_singleton]
    rcases h.handled page hpage rt' hrt with hwritten | hpending
    · exact Or.inl (Or.inl hwritten)
    · rcases List.mem_cons.1 hpending with rfl | hpending
      · exact Or.inl (Or.inr rfl)
      · exact Or.inr hpending

theorem complete (h : v.Tracks seen []) {page : TradesPage} (hlast : v.pages.getLast? = some page)
    (hcursor : page.further = none) : v.Complete where
  ended := ⟨page, hlast, hcursor⟩
  written := fun page hpage rt hrt => (h.handled page hpage rt hrt).resolve_right List.not_mem_nil

end Visit.Tracks

namespace Backfill

variable {serde : Serde} {s s' : Backfill} {a : Action} {ticker : String}

/-- Some run has fetched the ticker's tape to its end, appended all its trades and written the whole
text of its checkpoint line. -/
def Completed (s : Backfill) (ticker : String) : Prop :=
  ∃ v, (ticker, v) ∈ s.recorded ∧ v.Complete

/-- What is known of every state when no run has stopped at the page cap. -/
structure Tracked (s : Backfill) : Prop where
  phase : ∀ r, s.run = some r → r.phase.Tracks s.visit
  recorded : ∀ x ∈ s.recorded, x.2.Complete
  log : CheckpointLog s.Completed s.checkpoint
  done : ∀ r, s.run = some r → ∀ ticker ∈ r.done, s.Completed ticker

theorem Tracked.empty : Tracked .empty where
  phase := by
    intro r hr
    cases hr
  recorded := by simp [Backfill.empty]
  log := TornLog.Log.nil
  done := by
    intro r hr
    cases hr

/-- A step that writes nothing to the checkpoint keeps what is known of the past. -/
theorem Tracked.go (h : Tracked s) (hlog : s'.checkpoint = s.checkpoint)
    (hrecorded : s'.recorded = s.recorded)
    (hphase : ∀ r, s'.run = some r → r.phase.Tracks s'.visit)
    (hdone : ∀ r, s'.run = some r → ∀ ticker ∈ r.done, s.Completed ticker) : Tracked s' where
  phase := hphase
  recorded := by rw [hrecorded]; exact h.recorded
  log := by
    rw [hlog]
    apply h.log.mono
    rintro part ⟨hne, ticker, trades, hpart, hwhole⟩
    refine ⟨hne, ticker, trades, hpart, fun hfull => ?_⟩
    rw [Completed, hrecorded]
    exact hwhole hfull
  done := by
    intro r hr ticker hmem
    rw [Completed, hrecorded]
    exact hdone r hr ticker hmem

/-- The first bytes of the line of a complete ticker are written. -/
theorem Tracked.write (h : Tracked s) {r : BackfillRun} (hr : s.run = some r)
    (hphase : r.phase = .recording ticker) (n : ℕ)
    (hlog : s'.checkpoint = s.checkpoint ++ (recordLine r ticker ++ [10]).take n)
    (hrecorded : s'.recorded = if (recordLine r ticker).length ≤ n
      then s.recorded ++ [(ticker, s.visit)] else s.recorded)
    (hrun : s'.run = none ∨ s'.run = some { r with phase := .idle }) : Tracked s' := by
  have hcomplete : s.visit.Complete := by
    have htracks := h.phase r hr
    rwa [hphase] at htracks
  have hmono (ticker' : String) (hold : s.Completed ticker') : s'.Completed ticker' := by
    obtain ⟨v, hv, hcomplete⟩ := hold
    refine ⟨v, ?_, hcomplete⟩
    rw [hrecorded]
    split_ifs
    · exact List.mem_append_left _ hv
    · exact hv
  refine ⟨fun r' hr' => ?_, ?_, ?_, fun r' hr' ticker' hmem => ?_⟩
  · rcases hrun with hrun | hrun
    · rw [hrun] at hr'
      cases hr'
    · rw [hrun] at hr'
      cases hr'
      trivial
  · rw [hrecorded]
    split_ifs
    · exact List.forall_mem_append.2 ⟨h.recorded, by simpa using hcomplete⟩
    · exact h.recorded
  · rw [hlog]
    apply CheckpointLog.append
    · apply h.log.mono
      rintro part ⟨hne, ticker', trades, hpart, hwhole⟩
      exact ⟨hne, ticker', trades, hpart, fun hfull => hmono ticker' (hwhole hfull)⟩
    · intro hn
      refine ⟨s.visit, ?_, hcomplete⟩
      have hle : (recordLine r ticker).length ≤ n := hn
      rw [hrecorded, if_pos hle]
      simp
  · rcases hrun with hrun | hrun
    · rw [hrun] at hr'
      cases hr'
    · rw [hrun] at hr'
      cases hr'
      exact hmono ticker' (h.done r hr ticker' hmem)

theorem Tracked.step (h : Tracked s) (hs : Step serde s a s') (hcap : a ≠ .stopAtCap) :
    Tracked s' := by
  cases hs with
  | start tickers resume maxTradePages hrun =>
    refine h.go rfl rfl (fun r hr => ?_) fun r hr ticker hmem => ?_
    · cases hr
      trivial
    · cases hr
      cases resume with
      | false => cases hmem
      | true => exact CheckpointLog.of_mem h.log hmem
  | @skip r ticker rest hrun hphase htodo hdone =>
    refine h.go rfl rfl (fun r' hr => ?_) fun r' hr => ?_
    · cases hr
      rw [hphase]
      trivial
    · cases hr
      exact h.done r hrun
  | @begin r ticker rest hrun hphase htodo hdone =>
    refine h.go rfl rfl (fun r' hr => ?_) fun r' hr => ?_
    · cases hr
      exact ⟨fun id => by simp [Pass.new], by simp⟩
    · cases hr
      exact h.done r hrun
  | stopAtCap hrun hphase hcap' => exact absurd rfl hcap
  | @receive r ticker pass page hrun hphase hcap' =>
    refine h.go rfl rfl (fun r' hr => ?_) fun r' hr => ?_
    · cases hr
      have htracks := h.phase r hrun
      rw [hphase] at htracks
      exact ⟨htracks.receive page, page, List.getLast?_concat, rfl⟩
    · cases hr
      exact h.done r hrun
  | @duplicate r ticker pass rt rest cursor hrun hphase hseen =>
    refine h.go rfl rfl (fun r' hr => ?_) fun r' hr => ?_
    · cases hr
      have htracks := h.phase r hrun
      rw [hphase] at htracks
      exact ⟨htracks.1.duplicate hseen, htracks.2⟩
    · cases hr
      exact h.done r hrun
  | @append r ticker pass rt rest cursor today recvTs hrun hphase hseen hsafe writer dir happend =>
    refine h.go rfl rfl (fun r' hr => ?_) fun r' hr => ?_
    · cases hr
      have htracks := h.phase r hrun
      rw [hphase] at htracks
      exact ⟨htracks.1.append, htracks.2⟩
    · cases hr
      exact h.done r hrun
  | @nextPage r ticker pass cursor c hrun hphase hcursor =>
    refine h.go rfl rfl (fun r' hr => ?_) fun r' hr => ?_
    · cases hr
      have htracks := h.phase r hrun
      rw [hphase] at htracks
      exact htracks.1
    · cases hr
      exact h.done r hrun
  | @endOfTape r ticker pass cursor hrun hphase hcursor =>
    refine h.go rfl rfl (fun r' hr => ?_) fun r' hr => ?_
    · cases hr
      have htracks := h.phase r hrun
      rw [hphase] at htracks
      obtain ⟨page, hlast, rfl⟩ := htracks.2
      exact htracks.1.complete hlast hcursor
    · cases hr
      exact h.done r hrun
  | @record r ticker hrun hphase =>
    have hlength : (recordLine r ticker ++ [10]).length = (recordLine r ticker).length + 1 := by
      rw [List.length_append, List.length_singleton]
    refine h.write hrun hphase ((recordLine r ticker).length + 1) ?_ ?_ (Or.inr rfl)
    · rw [← hlength, List.take_length]
    · rw [if_pos (Nat.le_succ _)]
  | tearRecord n hrun hphase =>
    refine h.write hrun hphase n ?_ ?_ (Or.inl rfl)
    · dsimp only
    · dsimp only
  | tear | die | finish =>
    refine h.go rfl rfl (fun r' hr => ?_) fun r' hr => ?_
    all_goals cases hr

/-! ## The exact checkpoint -/

/-- The run passes over the ticker next. -/
def Skips (s : Backfill) (ticker : String) : Prop :=
  ∃ r rest, s.run = some r ∧ r.phase = .idle ∧ r.todo = ticker :: rest ∧ ticker ∈ r.done

/-- The run asks for a page of the ticker next. -/
def Fetches (s : Backfill) (ticker : String) : Prop :=
  ∃ r pass, s.run = some r ∧ r.phase = .fetching ticker pass ∧ pass.pages < r.maxTradePages

/-- The checkpoint says which tickers are complete, and the run goes by it. -/
structure Exact (serde : Serde) (s : Backfill) : Prop where
  loads : ∀ ticker, ticker ∈ loadCheckpoint serde.toJsonLib s.checkpoint ↔ s.Completed ticker
  skips : ∀ ticker, s.Skips ticker → s.Completed ticker
  fetches : ∀ ticker, s.Fetches ticker → ¬ s.Completed ticker

/-- Runs over lists without repetitions, each resumed unless nothing has been recorded. -/
def Resumed (s : Backfill) : Action → Prop
  | .start tickers resume _ => tickers.Nodup ∧ (resume = true ∨ s.checkpoint = [])
  | _ => True

/-- The first `n` bytes of the line that is to be written are whole characters. -/
def WholeCharacters (s : Backfill) (n : ℕ) : Prop :=
  ∀ r ticker, s.run = some r → r.phase = .recording ticker →
    ∃ cs, (recordLine r ticker ++ [10]).take n = Utf8.bytes cs

/-- A resumed step that does not stop at the page cap, writes to the checkpoint only where a line
begins, and leaves whole characters there. -/
def Undamaged (s : Backfill) : Action → Prop
  | .start tickers resume maxTradePages => s.Resumed (.start tickers resume maxTradePages)
  | .stopAtCap => False
  | .record => Lines.Ended 10 s.checkpoint
  | .tearRecord n => Lines.Ended 10 s.checkpoint ∧ s.WholeCharacters n
  | _ => True

end Backfill

/-- The ticker a run is at. -/
def BackfillPhase.ticker : BackfillPhase → Option String
  | .idle => none
  | .fetching ticker _ => some ticker
  | .writing ticker _ _ _ => some ticker
  | .recording ticker => some ticker

namespace Backfill

variable {serde : Serde} {s s' : Backfill} {a : Action} {ticker : String}

/-- The run comes to no ticker that is complete unless it passes over it. -/
structure Fresh (s : Backfill) (r : BackfillRun) : Prop where
  nodup : r.todo.Nodup
  todo : ∀ ticker ∈ r.todo, s.Completed ticker → ticker ∈ r.done
  current : ∀ ticker, r.phase.ticker = some ticker → ticker ∉ r.todo ∧ ¬ s.Completed ticker

/-- What is known of every state that is reached by undamaged steps. -/
structure Logged (s : Backfill) : Prop where
  tracked : s.Tracked
  text : ∃ cs, s.checkpoint = Utf8.bytes cs
  lines : ∀ x ∈ s.recorded, ∃ trades, checkpointLine x.1 trades ∈ Lines.split 10 13 s.checkpoint
  fresh : ∀ r, s.run = some r → s.Fresh r

theorem Logged.empty : Logged .empty where
  tracked := .empty
  text := ⟨[], rfl⟩
  lines := by simp [Backfill.empty]
  fresh := by
    intro r hr
    cases hr

theorem Logged.mem_load (h : s.Logged) (lib : JsonLib) (hc : s.Completed ticker) :
    ticker ∈ loadCheckpoint lib s.checkpoint := by
  obtain ⟨v, hv, -⟩ := hc
  obtain ⟨trades, hline⟩ := h.lines _ hv
  exact mem_loadCheckpoint lib h.text hline

theorem Logged.exact (h : s.Logged) : s.Exact serde where
  loads ticker := ⟨fun hmem => CheckpointLog.of_mem h.tracked.log hmem, h.mem_load serde.toJsonLib⟩
  skips := by
    rintro ticker ⟨r, rest, hrun, -, -, hdone⟩
    exact h.tracked.done r hrun ticker hdone
  fetches := by
    rintro ticker ⟨r, pass, hrun, hphase, -⟩
    have hticker : r.phase.ticker = some ticker := by rw [hphase]; rfl
    exact ((h.fresh r hrun).current ticker hticker).2

/-- A step that writes nothing to the checkpoint. -/
theorem Logged.go (h : s.Logged) (htracked : s'.Tracked) (hlog : s'.checkpoint = s.checkpoint)
    (hrecorded : s'.recorded = s.recorded) (hfresh : ∀ r, s'.run = some r → s.Fresh r) :
    s'.Logged where
  tracked := htracked
  text := by rw [hlog]; exact h.text
  lines := by rw [hlog, hrecorded]; exact h.lines
  fresh := by
    intro r hr
    obtain ⟨hnodup, htodo, hcurrent⟩ := hfresh r hr
    have hcompleted (ticker : String) : s'.Completed ticker ↔ s.Completed ticker := by
      rw [Completed, Completed, hrecorded]
    refine ⟨hnodup, fun ticker hmem hc => htodo ticker hmem ((hcompleted ticker).1 hc), ?_⟩
    intro ticker hticker
    rw [hcompleted]
    exact hcurrent ticker hticker

/-- A run that stays at its ticker comes to no other one. -/
theorem Fresh.go {r r' : BackfillRun} (h : s.Fresh r) (htodo : r'.todo = r.todo)
    (hdone : r'.done = r.done) (hticker : r'.phase.ticker = r.phase.ticker) : s.Fresh r' where
  nodup := by rw [htodo]; exact h.nodup
  todo := by rw [htodo, hdone]; exact h.todo
  current := by rw [htodo, hticker]; exact h.current

/-- The first bytes of a line are written where a line begins. -/
theorem Logged.write (h : s.Logged) (htracked : s'.Tracked) {r : BackfillRun} (hr : s.run = some r)
    (hphase : r.phase = .recording ticker) (n : ℕ) (hended : Lines.Ended 10 s.checkpoint)
    (htext : ∃ cs, (recordLine r ticker ++ [10]).take n = Utf8.bytes cs)
    (hlog : s'.checkpoint = s.checkpoint ++ (recordLine r ticker ++ [10]).take n)
    (hrecorded : s'.recorded = if (recordLine r ticker).length ≤ n
      then s.recorded ++ [(ticker, s.visit)] else s.recorded)
    (hrun : s'.run = none ∨ s'.run = some { r with phase := .idle }) : s'.Logged where
  tracked := htracked
  text := by
    obtain ⟨cs, hcs⟩ := h.text
    obtain ⟨ds, hds⟩ := htext
    exact ⟨cs ++ ds, by rw [hlog, hcs, hds, Utf8.bytes_append]⟩
  lines := by
    rw [hlog, hrecorded, Lines.split_append hended]
    have hold : ∀ x ∈ s.recorded, ∃ trades, checkpointLine x.1 trades ∈
        Lines.split 10 13 s.checkpoint ++
          Lines.split 10 13 ((recordLine r ticker ++ [10]).take n) := by
      intro x hx
      obtain ⟨trades, hline⟩ := h.lines x hx
      exact ⟨trades, List.mem_append_left _ hline⟩
    split_ifs with hn
    · refine List.forall_mem_append.2 ⟨hold, ?_⟩
      simp only [List.mem_singleton, forall_eq]
      exact ⟨r.perTicker ticker, List.mem_append_right _ (mem_split_take ticker _ hn)⟩
    · exact hold
  fresh := by
    intro r' hr'
    rcases hrun with hrun | hrun
    · rw [hrun] at hr'
      cases hr'
    · rw [hrun] at hr'
      cases hr'
      have hfresh := h.fresh r hr
      have hcurrent : ticker ∉ r.todo := (hfresh.current ticker (by rw [hphase]; rfl)).1
      refine ⟨hfresh.nodup, fun ticker' hmem hc => ?_, fun ticker' hticker => by cases hticker⟩
      obtain ⟨v, hv, hcomplete⟩ := hc
      apply hfresh.todo ticker' hmem
      refine ⟨v, ?_, hcomplete⟩
      have hne : ticker' ≠ ticker := fun heq => hcurrent (heq ▸ hmem)
      rw [hrecorded] at hv
      split_ifs at hv
      · rcases List.mem_append.1 hv with hv | hv
        · exact hv
        · rw [List.mem_singleton, Prod.mk.injEq] at hv
          exact absurd hv.1 hne
      · exact hv

theorem Logged.step (h : s.Logged) (hs : Step serde s a s') (ha : s.Undamaged a) : s'.Logged := by
  have htracked : s'.Tracked := by
    apply h.tracked.step hs
    rintro rfl
    exact ha
  cases hs with
  | start tickers resume maxTradePages hrun =>
    refine h.go htracked rfl rfl fun r' hr => ?_
    cases hr
    refine ⟨ha.1, fun ticker hmem hc => ?_, fun ticker hticker => by cases hticker⟩
    rcases ha.2 with rfl | hnil
    · exact h.mem_load serde.toJsonLib hc
    · obtain ⟨v, hv, -⟩ := hc
      obtain ⟨trades, hline⟩ := h.lines _ hv
      rw [hnil] at hline
      cases hline
  | @skip r ticker rest hrun hphase htodo hdone =>
    refine h.go htracked rfl rfl fun r' hr => ?_
    cases hr
    obtain ⟨hnodup, hknown, hcurrent⟩ := h.fresh r hrun
    rw [htodo] at hnodup hknown
    refine ⟨hnodup.of_cons, fun ticker' hmem => hknown ticker' (List.mem_cons_of_mem _ hmem), ?_⟩
    intro ticker' hticker
    have hidle : r.phase.ticker = some ticker' := hticker
    rw [hphase] at hidle
    cases hidle
  | @begin r ticker rest hrun hphase htodo hdone =>
    refine h.go htracked rfl rfl fun r' hr => ?_
    cases hr
    obtain ⟨hnodup, hknown, -⟩ := h.fresh r hrun
    rw [htodo] at hnodup hknown
    refine ⟨hnodup.of_cons, fun ticker' hmem => hknown ticker' (List.mem_cons_of_mem _ hmem), ?_⟩
    intro ticker' hticker
    cases hticker
    exact ⟨(List.nodup_cons.1 hnodup).1, fun hc => hdone (hknown ticker List.mem_cons_self hc)⟩
  | stopAtCap => exact ha.elim
  | @receive r ticker pass page hrun hphase hcap =>
    refine h.go htracked rfl rfl fun r' hr => ?_
    cases hr
    exact (h.fresh r hrun).go rfl rfl (by rw [hphase]; rfl)
  | @duplicate r ticker pass rt rest cursor hrun hphase hseen =>
    refine h.go htracked rfl rfl fun r' hr => ?_
    cases hr
    exact (h.fresh r hrun).go rfl rfl (by rw [hphase]; rfl)
  | @append r ticker pass rt rest cursor today recvTs hrun hphase hseen hsafe writer dir happend =>
    refine h.go htracked rfl rfl fun r' hr => ?_
    cases hr
    exact (h.fresh r hrun).go rfl rfl (by rw [hphase]; rfl)
  | @nextPage r ticker pass cursor c hrun hphase hcursor =>
    refine h.go htracked rfl rfl fun r' hr => ?_
    cases hr
    exact (h.fresh r hrun).go rfl rfl (by rw [hphase]; rfl)
  | @endOfTape r ticker pass cursor hrun hphase hcursor =>
    refine h.go htracked rfl rfl fun r' hr => ?_
    cases hr
    exact (h.fresh r hrun).go rfl rfl (by rw [hphase]; rfl)
  | @record r ticker hrun hphase =>
    have hall : (recordLine r ticker ++ [10]).take ((recordLine r ticker).length + 1) =
        recordLine r ticker ++ [10] := by
      rw [List.take_of_length_le]
      rw [List.length_append, List.length_singleton]
    refine h.write htracked hrun hphase ((recordLine r ticker).length + 1) ha ?_ ?_ ?_ (Or.inr rfl)
    · have hnewline : Utf8.bytes ['\n'] = [10] := rfl
      rw [hall, recordLine, checkpointLine, ← hnewline]
      exact ⟨_, (Utf8.bytes_append _ _).symm⟩
    · rw [hall]
    · rw [if_pos (Nat.le_succ _)]
  | tearRecord n hrun hphase =>
    obtain ⟨hended, hchars⟩ := ha
    refine h.write htracked hrun hphase n hended (hchars _ _ hrun hphase) ?_ ?_ (Or.inl rfl)
    · dsimp only
    · dsimp only
  | tear | die | finish =>
    refine h.go htracked rfl rfl fun r' hr => ?_
    cases hr

theorem Logged.of_reachable (h : Reachable serde Undamaged s) : s.Logged := by
  induction h with
  | empty => exact .empty
  | step _ ha hs ih => exact ih.step hs ha

/-- In every state that is reached by undamaged steps, through any number of crashes, the checkpoint
holds exactly the complete tickers, and they are the ones that are not fetched again. -/
theorem checkpoint_exact (serde : Serde) {s : Backfill} (h : Reachable serde Undamaged s) :
    s.Exact serde :=
  (Logged.of_reachable h).exact

/-! ## A backfill of two tickers that dies twice -/

theorem daySample_valid : (1 ≤ 5 ∧ 5 ≤ 12) ∧ 1 ≤ 30 ∧ 30 ≤ daysInMonth 2026 5 := by decide

def daySample : Date := ⟨2026, 5, 30, daySample_valid⟩

/-- A fetched trade. -/
def sampleTrade (ticker tradeId : String) : RestTrade :=
  ⟨tradeId, ticker, "1", "0.5000", "0.5000", "yes", none, "2026-05-30T12:00:00Z"⟩

/-- The whole visit of a ticker whose tape is one trade. -/
def visitOf (ticker : String) : Visit :=
  ⟨[⟨[sampleTrade ticker "a"], none⟩], [sampleTrade ticker "a"]⟩

theorem complete_visitOf (ticker : String) : (visitOf ticker).Complete where
  ended := ⟨_, rfl, rfl⟩
  written := by simp [visitOf]

/-- What is on the disk and in the past of a state that is reached, and the run it is in. -/
structure Holding (checkpoint : List UInt8) (recorded : List (String × Visit))
    (run : Option BackfillRun) (s : Backfill) : Prop where
  reachable : Reachable .sample Undamaged s
  checkpoint : s.checkpoint = checkpoint
  recorded : s.recorded = recorded
  run : s.run = run

namespace Holding

variable {checkpoint : List UInt8} {recorded : List (String × Visit)} {done rest : List String}
  {perTicker : String → UInt64}

/-- A resumed run starts and knows which tickers are complete. -/
theorem start (h : Holding checkpoint recorded none s) :
    ∃ s' done, Holding checkpoint recorded
      (some ⟨done, 9, fun _ => 0, ["K", "L"], .idle⟩) s' ∧
      ∀ ticker, ticker ∈ done ↔ ∃ v, (ticker, v) ∈ recorded ∧ v.Complete := by
  have hexact : s.Exact .sample := (Logged.of_reachable h.reachable).exact
  have hstarted := Reachable.step (a := .start ["K", "L"] true 9) h.reachable
    ⟨by decide, Or.inl rfl⟩ (.start ["K", "L"] true 9 h.run)
  refine ⟨_, _, ⟨hstarted, h.checkpoint, h.recorded, rfl⟩, fun ticker => ?_⟩
  rw [← h.recorded]
  exact hexact.loads ticker

theorem skip (h : Holding checkpoint recorded
      (some ⟨done, 9, perTicker, ticker :: rest, .idle⟩) s) (hdone : ticker ∈ done) :
    ∃ s', Holding checkpoint recorded (some ⟨done, 9, perTicker, rest, .idle⟩) s' :=
  ⟨_, Reachable.step (a := .skip) h.reachable trivial (.skip h.run rfl rfl hdone), h.checkpoint,
    h.recorded, rfl⟩

theorem begin (h : Holding checkpoint recorded
      (some ⟨done, 9, perTicker, ticker :: rest, .idle⟩) s) (hdone : ticker ∉ done) :
    ∃ s', Holding checkpoint recorded
      (some ⟨done, 9, perTicker, rest, .fetching ticker .new⟩) s' ∧ s'.visit = ⟨[], []⟩ :=
  ⟨_, ⟨Reachable.step (a := .begin) h.reachable trivial (.begin h.run rfl rfl hdone), h.checkpoint,
    h.recorded, rfl⟩, rfl⟩

/-- The only page of the tape comes, and its trade is appended. -/
theorem append (h : Holding checkpoint recorded
      (some ⟨done, 9, perTicker, rest, .fetching ticker .new⟩) s) (hvisit : s.visit = ⟨[], []⟩)
    (hsafe : isSafeSegment ticker = true) :
    ∃ s' pass, Holding checkpoint recorded (some ⟨done, 9,
      Function.update perTicker ticker (perTicker ticker + 1), rest,
      .writing ticker pass [] none⟩) s' ∧ s'.visit = visitOf ticker := by
  have hreceived := Reachable.step (a := .receive ⟨[sampleTrade ticker "a"], none⟩) h.reachable
    trivial (.receive ⟨[sampleTrade ticker "a"], none⟩ h.run rfl (by decide : 0 < 9))
  have happended := Reachable.step (a := .append daySample .sample) hreceived trivial
    (.append daySample .sample rfl rfl List.not_mem_nil hsafe Prod.mk.eta.symm)
  refine ⟨_, _, ⟨happended, h.checkpoint, h.recorded, rfl⟩, ?_⟩
  dsimp only
  rw [hvisit]
  rfl

theorem endOfTape {pass : Pass} (h : Holding checkpoint recorded
      (some ⟨done, 9, perTicker, rest, .writing ticker pass [] none⟩) s) :
    ∃ s', Holding checkpoint recorded
      (some ⟨done, 9, perTicker, rest, .recording ticker⟩) s' ∧ s'.visit = s.visit :=
  ⟨_, ⟨Reachable.step (a := .endOfTape) h.reachable trivial (.endOfTape h.run rfl rfl),
    h.checkpoint, h.recorded, rfl⟩, rfl⟩

/-- A ticker that is not complete is fetched up to its checkpoint line. -/
theorem fetch (h : Holding checkpoint recorded
      (some ⟨done, 9, perTicker, ticker :: rest, .idle⟩) s) (hdone : ticker ∉ done)
    (hsafe : isSafeSegment ticker = true) :
    ∃ s', Holding checkpoint recorded (some ⟨done, 9,
      Function.update perTicker ticker (perTicker ticker + 1), rest, .recording ticker⟩) s' ∧
      s'.visit = visitOf ticker := by
  obtain ⟨s₁, h₁, hvisit₁⟩ := h.begin hdone
  obtain ⟨s₂, pass, h₂, hvisit₂⟩ := h₁.append hvisit₁ hsafe
  obtain ⟨s₃, h₃, hvisit₃⟩ := h₂.endOfTape
  exact ⟨s₃, h₃, hvisit₃.trans hvisit₂⟩

theorem die {r : BackfillRun} (h : Holding checkpoint recorded (some r) s) :
    ∃ s', Holding checkpoint recorded none s' :=
  ⟨_, Reachable.step (a := .die) h.reachable trivial (.die h.run), h.checkpoint, h.recorded, rfl⟩

theorem record (h : Holding checkpoint recorded
      (some ⟨done, 9, perTicker, rest, .recording ticker⟩) s) (hvisit : s.visit = visitOf ticker)
    (hended : Lines.Ended 10 checkpoint) :
    ∃ s', Holding (checkpoint ++ (checkpointLine ticker (perTicker ticker) ++ [10]))
      (recorded ++ [(ticker, visitOf ticker)]) (some ⟨done, 9, perTicker, rest, .idle⟩) s' := by
  have hlog : Lines.Ended 10 s.checkpoint := by rw [h.checkpoint]; exact hended
  have hrecorded := Reachable.step (a := .record) h.reachable hlog (.record h.run rfl)
  refine ⟨_, hrecorded, ?_, ?_, rfl⟩
  · exact congrArg (· ++ (checkpointLine ticker (perTicker ticker) ++ [10])) h.checkpoint
  · dsimp only
    rw [h.recorded, hvisit]

/-- The run dies after the first bytes of the checkpoint line, which are whole characters. -/
theorem tearRecord (h : Holding checkpoint recorded
      (some ⟨done, 9, perTicker, rest, .recording ticker⟩) s)
    (hended : Lines.Ended 10 checkpoint) {n : ℕ}
    (hshort : n < (checkpointLine ticker (perTicker ticker)).length)
    (hchars : ∃ cs, (checkpointLine ticker (perTicker ticker) ++ [10]).take n = Utf8.bytes cs) :
    ∃ s', Holding (checkpoint ++ (checkpointLine ticker (perTicker ticker) ++ [10]).take n)
      recorded none s' := by
  have hwhole : s.WholeCharacters n := by
    intro r ticker' hrun hphase
    rw [h.run] at hrun
    cases hrun
    cases hphase
    exact hchars
  have hlog : Lines.Ended 10 s.checkpoint := by rw [h.checkpoint]; exact hended
  have htorn := Reachable.step (a := .tearRecord n) h.reachable ⟨hlog, hwhole⟩
    (.tearRecord n h.run rfl)
  refine ⟨_, htorn, ?_, ?_, rfl⟩
  · exact congrArg (· ++ (checkpointLine ticker (perTicker ticker) ++ [10]).take n) h.checkpoint
  · dsimp only
    rw [recordLine, if_neg (Nat.not_le.2 hshort), h.recorded]

end Holding

/-- The checkpoint after `K` is recorded and the line of `L` is torn. -/
def twiceDiedLog : List UInt8 :=
  checkpointLine "K" 1 ++ [10] ++ (checkpointLine "L" 1 ++ [10]).take 5

theorem checkpoint_exact_resumed : ∃ s : Backfill, s.checkpoint = twiceDiedLog ∧
    s.Fetches "L" ∧ s.recorded = [("K", visitOf "K")] ∧ s.Exact .sample := by
  have hempty : Holding [] [] none .empty := ⟨.empty, rfl, rfl, rfl⟩
  have hended : Lines.Ended 10 (checkpointLine "K" 1 ++ [10]) := Or.inr List.getLast?_concat
  have hone : ∀ ticker, (∃ v, (ticker, v) ∈ [("K", visitOf "K")] ∧ v.Complete) ↔ ticker = "K" := by
    intro ticker
    constructor
    · rintro ⟨v, hv, -⟩
      cases List.mem_singleton.1 hv
      rfl
    · rintro rfl
      exact ⟨_, List.mem_singleton_self _, complete_visitOf "K"⟩
  have hnot {done : List String}
      (h : "L" ∈ done ↔ ∃ v, ("L", v) ∈ [("K", visitOf "K")] ∧ v.Complete) : "L" ∉ done :=
    fun hmem => absurd ((hone "L").1 (h.1 hmem)) (by decide)
  -- The first run records `K` and dies in the page of `L`.
  obtain ⟨s₁, done, h₁, hdone₁⟩ := hempty.start
  obtain ⟨s₂, h₂, hvisit₂⟩ := h₁.fetch (by rw [hdone₁]; simp) (by decide)
  obtain ⟨s₃, h₃⟩ := h₂.record hvisit₂ (Or.inl rfl)
  obtain ⟨s₄, h₄, hvisit₄⟩ := h₃.begin (by rw [hdone₁]; simp)
  obtain ⟨s₅, pass, h₅, -⟩ := h₄.append hvisit₄ (by decide)
  obtain ⟨s₆, h₆⟩ := h₅.die
  -- The second one passes over `K`, fetches `L` and dies in its checkpoint line.
  obtain ⟨s₇, done', h₇, hdone₇⟩ := h₆.start
  obtain ⟨s₈, h₈⟩ := h₇.skip ((hdone₇ "K").2 ((hone "K").2 rfl))
  obtain ⟨s₉, h₉, -⟩ := h₈.fetch (hnot (hdone₇ "L")) (by decide)
  have hchars : (checkpointLine "L" 1 ++ [10]).take 5 = Utf8.bytes ['{', '"', 't', 'i', 'c'] := by
    decide
  obtain ⟨t₁, k₁⟩ := h₉.tearRecord hended (by decide) ⟨_, hchars⟩
  -- The third one passes over `K` and fetches `L` again.
  obtain ⟨t₂, done'', k₂, hdone₂⟩ := k₁.start
  obtain ⟨t₃, k₃⟩ := k₂.skip ((hdone₂ "K").2 ((hone "K").2 rfl))
  obtain ⟨t₄, k₄, -⟩ := k₃.begin (hnot (hdone₂ "L"))
  exact ⟨t₄, k₄.checkpoint, ⟨_, _, k₄.run, rfl, (by decide : 0 < 9)⟩, k₄.recorded,
    checkpoint_exact .sample k₄.reachable⟩

/-! ## A run that stops at the page cap -/

/-- A run over the ticker `K` with a cap of one page. -/
def runSample (todo : List String) (phase : BackfillPhase) : BackfillRun :=
  ⟨[], 1, fun _ => 0, todo, phase⟩

/-- The directory while the run is at a point of its visit. -/
def visitSample (todo : List String) (phase : BackfillPhase) (pages : List TradesPage) : Backfill :=
  ⟨[], fun _ => [], some (runSample todo phase), ⟨pages, []⟩, []⟩

/-- The directory after the run has got one page and has written its line. -/
def recordedSample (page : TradesPage) : Backfill where
  checkpoint := [] ++ (checkpointLine "K" 0 ++ [10])
  trades := fun _ => []
  run := some (runSample [] .idle)
  visit := ⟨[page], []⟩
  recorded := [("K", ⟨[page], []⟩)]

/-- A run gets an empty page, whatever its cursor is. -/
theorem reachable_received (allowed : Backfill → Action → Prop) (cursor : Option String)
    (hstart : allowed .empty (.start ["K"] true 1)) (hbegin : ∀ s, allowed s .begin)
    (hreceive : ∀ s page, allowed s (.receive page)) :
    Reachable .sample allowed
      (visitSample [] (.writing "K" ⟨[], none, 1, .new⟩ [] cursor) [⟨[], cursor⟩]) := by
  have hstarted : Reachable .sample allowed (visitSample ["K"] .idle []) :=
    .step .empty hstart (.start ["K"] true 1 rfl)
  have hbegun : Reachable .sample allowed (visitSample [] (.fetching "K" .new) []) :=
    .step hstarted (hbegin _)
      (@Step.begin _ _ (runSample ["K"] .idle) "K" [] rfl rfl rfl List.not_mem_nil)
  exact .step hbegun (hreceive _ ⟨[], cursor⟩)
    (@Step.receive _ _ (runSample [] (.fetching "K" .new)) "K" .new ⟨[], cursor⟩ rfl rfl
      Nat.zero_lt_one)

/-- A run that stops at the page cap records its ticker all the same, and the ticker's tape, of
which there was more, is passed over from then on. -/
theorem capped_ticker_is_recorded :
    Reachable .sample Resumed (recordedSample ⟨[], some "next"⟩) ∧
      ¬ (recordedSample ⟨[], some "next"⟩).Exact .sample := by
  constructor
  · have hstart : Resumed .empty (.start ["K"] true 1) := ⟨List.nodup_singleton _, Or.inl rfl⟩
    have hreceived :=
      reachable_received Resumed (some "next") hstart (fun _ => trivial) fun _ _ => trivial
    have hnext : Reachable .sample Resumed
        (visitSample [] (.fetching "K" ⟨[], some "next", 1, .new⟩) [⟨[], some "next"⟩]) :=
      .step (a := .nextPage) hreceived trivial
        (@Step.nextPage _ _ (runSample [] (.writing "K" ⟨[], none, 1, .new⟩ [] (some "next"))) "K"
          ⟨[], none, 1, .new⟩ (some "next") "next" rfl rfl (by decide))
    have hcapped : Reachable .sample Resumed
        (visitSample [] (.recording "K") [⟨[], some "next"⟩]) :=
      .step (a := .stopAtCap) hnext trivial
        (@Step.stopAtCap _ _ (runSample [] (.fetching "K" ⟨[], some "next", 1, .new⟩)) "K"
          ⟨[], some "next", 1, .new⟩ rfl rfl le_rfl)
    exact .step (a := .record) hcapped trivial
      (@Step.record _ _ (runSample [] (.recording "K")) "K" rfl rfl)
  · intro hexact
    have hline : checkpointLine "K" 0 ∈
        Lines.split 10 13 (recordedSample ⟨[], some "next"⟩).checkpoint := by
      have hmem := mem_split_take "K" 0 (Nat.le_succ _)
      rwa [List.take_of_length_le (by simp)] at hmem
    have htext : ∃ cs, (recordedSample ⟨[], some "next"⟩).checkpoint = Utf8.bytes cs := by
      have hnewline : Utf8.bytes ['\n'] = [10] := rfl
      rw [recordedSample, checkpointLine, ← hnewline, List.nil_append, ← Utf8.bytes_append]
      exact ⟨_, rfl⟩
    obtain ⟨v, hv, ⟨page, hlast, hcursor⟩, -⟩ :=
      (hexact.loads "K").1 (mem_loadCheckpoint _ htext hline)
    cases List.mem_singleton.1 hv
    cases hlast
    revert hcursor
    decide

end Backfill

end Snapevent
