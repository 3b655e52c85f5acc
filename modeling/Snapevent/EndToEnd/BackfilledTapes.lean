import Snapevent.Cli.BackfillCheckpoint
import Snapevent.EndToEnd.TradeReplay

/-!
# Backfilling trade tapes

The backfill of a list of tickers from their trade tapes through any number of crashes, and what is
replayed from the processed directory in the end.  The files only grow, so a trade is safe once its
line stands in one of them; a ticker is left only when all its trades are safe.
-/

namespace Snapevent

variable {serde : Serde}

/-! ## Tapes -/

/-- The pages from a cursor to the end of a tape. -/
inductive Follows (page : Option String → TradesPage) : Option String → List TradesPage → Prop
  | last {c} (h : (page c).further = none) : Follows page c [page c]
  | next {c c' pages} (h : (page c).further = some c') (hrest : Follows page (some c') pages) :
    Follows page c (page c :: pages)

/-- A paged tape of well-formed trades with distinct ids. -/
structure TradeTape (serde : Serde) where
  page : Option String → TradesPage
  pages : List TradesPage
  follows : Follows page none pages
  core : List Trade
  wellFormed : (pages.flatMap (·.trades)).map (RestTrade.toCore serde) = core.map .ok
  distinct : ((pages.flatMap (·.trades)).map (·.tradeId)).Nodup

namespace TradeTape

variable (tape : TradeTape serde)

def trades : List RestTrade := tape.pages.flatMap (·.trades)

variable {tape}

theorem mem_trades {page : TradesPage} (hpage : page ∈ tape.pages) {rt : RestTrade}
    (hrt : rt ∈ page.trades) : rt ∈ tape.trades :=
  List.mem_flatMap.2 ⟨page, hpage, hrt⟩

theorem eq_of_tradeId {rt rt' : RestTrade} (h : rt ∈ tape.trades) (h' : rt' ∈ tape.trades)
    (hid : rt.tradeId = rt'.tradeId) : rt = rt' :=
  List.inj_on_of_nodup_map tape.distinct h h' hid

theorem toCore_of_mem {rt : RestTrade} (h : rt ∈ tape.trades) :
    ∃ t ∈ tape.core, rt.toCore serde = .ok t := by
  have hmem : rt.toCore serde ∈ tape.core.map Except.ok := by
    rw [← tape.wellFormed]
    exact List.mem_map_of_mem h
  obtain ⟨t, ht, heq⟩ := List.mem_map.1 hmem
  exact ⟨t, ht, heq.symm⟩

theorem exists_of_mem_core {t : Trade} (h : t ∈ tape.core) :
    ∃ rt ∈ tape.trades, rt.toCore serde = .ok t := by
  have hmem : (.ok t : Except String Trade) ∈ tape.trades.map (RestTrade.toCore serde) := by
    rw [trades, tape.wellFormed]
    exact List.mem_map_of_mem h
  exact List.mem_map.1 hmem

end TradeTape

theorem RestTrade.tradeId_toCore {rt : RestTrade} {t : Trade} (h : rt.toCore serde = .ok t) :
    t.tradeId = some rt.tradeId := by
  rw [toCore] at h
  obtain ⟨price, -, h⟩ := FoldM.bind_ok h
  obtain ⟨count, -, h⟩ := FoldM.bind_ok h
  obtain ⟨takerSide, -, h⟩ := FoldM.bind_ok h
  obtain ⟨takerBookSide, -, h⟩ := FoldM.bind_ok h
  obtain ⟨ts, -, h⟩ := FoldM.bind_ok h
  cases h
  rfl

theorem TradeTape.nodup_core (tape : TradeTape serde) : (tape.core.map (·.tradeId)).Nodup := by
  let idOf : Except String Trade → Option String := fun r => r.toOption.bind (·.tradeId)
  have hids : tape.core.map (·.tradeId) = (tape.trades.map (·.tradeId)).map some := by
    calc tape.core.map (·.tradeId) = (tape.core.map .ok).map idOf := by rw [List.map_map]; rfl
      _ = tape.trades.map fun rt => idOf (rt.toCore serde) := by
        rw [← tape.wellFormed, List.map_map]
        rfl
      _ = (tape.trades.map (·.tradeId)).map some := by
        rw [List.map_map]
        apply List.map_congr_left
        intro rt hrt
        obtain ⟨t, -, ht⟩ := tape.toCore_of_mem hrt
        rw [ht]
        exact RestTrade.tradeId_toCore ht
  rw [hids]
  exact tape.distinct.map (Option.some_injective _)

/-! ## Kept trades -/

section Kept

variable {tape : TradeTape serde} {dir dir' : Directory} {rt : RestTrade}

/-- The line of the trade stands in some file. -/
def RestTrade.Kept (serde : Serde) (dir : Directory) (rt : RestTrade) : Prop :=
  ∃ path recvTs, Lines.Stands 10 (serde.lineBytes (tradeToEnvelope serde rt recvTs))
    (dir.contents path)

/-- The envelopes of the trades of a tape. -/
def TradeTape.Envelopes (tape : TradeTape serde) (env : Envelope) : Prop :=
  ∃ rt ∈ tape.trades, ∃ recvTs, env = tradeToEnvelope serde rt recvTs

/-- Files that hold nothing but lines of the tape's trades, some of them torn. -/
structure TradeTape.Files (tape : TradeTape serde) (dir : Directory) : Prop where
  nodup : (dir.map (·.1)).Nodup
  torn : ∀ path, TornFile serde tape.Envelopes (dir.contents path)

theorem tradeToEnvelope_ok {t : Trade} (h : rt.toCore serde = .ok t) (recvTs : Timestamp) :
    tradeToEnvelope serde rt recvTs = .new recvTs none none (.trade t) := by
  rw [tradeToEnvelope, h]

theorem TradeTape.storable {env : Envelope} (h : tape.Envelopes env) : serde.Storable env := by
  obtain ⟨rt, hrt, recvTs, rfl⟩ := h
  obtain ⟨t, -, ht⟩ := tape.toCore_of_mem hrt
  rw [tradeToEnvelope_ok ht]
  exact ⟨⟨trivial, rfl⟩, trivial⟩

theorem TradeTape.files_empty (tape : TradeTape serde) : tape.Files [] :=
  ⟨List.nodup_nil, fun _ => TornLog.Log.nil⟩

/-- The first bytes of a line of the tape are written to the file of the day. -/
theorem TradeTape.Files.write (h : tape.Files dir) (hrt : rt ∈ tape.trades) {today : Date}
    (recvTs : Timestamp) (n : ℕ)
    (hnodup : (dir.map (·.1)).Nodup → (dir'.map (·.1)).Nodup)
    (hcontents : ∀ path, dir'.contents path = dir.contents path ++ if path = dayFile today then
      (serde.lineBytes (tradeToEnvelope serde rt recvTs) ++ [10]).take n else []) :
    tape.Files dir' where
  nodup := hnodup h.nodup
  torn := by
    intro path
    rw [hcontents]
    split_ifs with hpath
    · exact (h.torn path).append ⟨rt, hrt, recvTs, rfl⟩ n
    · rw [List.append_nil]
      exact h.torn path

theorem RestTrade.Kept.grow (h : rt.Kept serde dir)
    (hgrow : ∀ path, ∃ more, dir'.contents path = dir.contents path ++ more) :
    rt.Kept serde dir' := by
  obtain ⟨path, recvTs, hstands⟩ := h
  obtain ⟨more, hmore⟩ := hgrow path
  refine ⟨path, recvTs, ?_⟩
  rw [hmore]
  exact hstands.append more

/-- The kept trades of a tape are replayed once each. -/
theorem TradeTape.replaysOnce (tape : TradeTape serde) (ticker : String) (hfiles : tape.Files dir)
    (hfit : ∀ t ∈ tape.core, t.count.centi.toNat < 2 ^ 63)
    (hkept : ∀ rt ∈ tape.trades, rt.Kept serde dir) :
    ReplaysOnce ticker (dir.files serde) tape.core := by
  apply replaysOnce_of_items ticker ?_ tape.nodup_core hfit
  · intro env henv
    obtain ⟨path, henv⟩ := (Directory.mem_readItems_files hfiles.nodup).1 henv
    obtain ⟨rt, hrt, recvTs, rfl⟩ := (hfiles.torn path).of_mem (fun _ => tape.storable) henv
    obtain ⟨t, hmem, ht⟩ := tape.toCore_of_mem hrt
    rw [tradeToEnvelope_ok ht]
    exact ⟨rfl, t, hmem, rfl⟩
  · intro t ht
    obtain ⟨rt, hrt, hcore⟩ := tape.exists_of_mem_core ht
    obtain ⟨path, recvTs, hstands⟩ := hkept rt hrt
    refine ⟨tradeToEnvelope serde rt recvTs, ?_, by rw [tradeToEnvelope_ok hcore]; rfl⟩
    rw [Directory.mem_readItems_files hfiles.nodup]
    exact ⟨path, mem_of_stands (tape.storable ⟨rt, hrt, recvTs, rfl⟩) hstands⟩
  · intro t ht
    obtain ⟨rt, -, hcore⟩ := tape.exists_of_mem_core ht
    rw [RestTrade.tradeId_toCore hcore]
    rfl

end Kept

/-! ## The invariant of a run -/

/-- What is left of a tape after a page with this cursor. -/
def Left (page : Option String → TradesPage) (cursor : Option String) (rest : List TradesPage) :
    Prop :=
  match cursor.filter (!·.isEmpty) with
  | none => rest = []
  | some c => Follows page (some c) rest

theorem Follows.left {page : Option String → TradesPage} {c : Option String}
    {pages : List TradesPage} (h : Follows page c pages) :
    ∃ rest, pages = page c :: rest ∧ Left page (page c).cursor rest := by
  cases h with
  | last h =>
    refine ⟨[], rfl, ?_⟩
    rw [TradesPage.further] at h
    rw [Left, h]
  | @next _ c' rest h hrest =>
    refine ⟨rest, rfl, ?_⟩
    rw [TradesPage.further] at h
    rw [Left, h]
    exact hrest

namespace TradeTape

variable (tape : TradeTape serde) (dir : Directory)

def AllKept : Prop := ∀ rt ∈ tape.trades, rt.Kept serde dir

/-- Where a pass over the tape is: the trades of the pages it has got are kept or pending. -/
structure At (pass : Pass) (pending : List RestTrade) (rest : List TradesPage) : Prop where
  opened : pass.writer.Opened dir
  seen : ∀ id ∈ pass.seen, ∃ rt ∈ tape.trades, rt.tradeId = id ∧ rt.Kept serde dir
  pages : ∃ got, tape.pages = got ++ rest ∧
    ∀ page ∈ got, ∀ rt ∈ page.trades, rt.Kept serde dir ∨ rt ∈ pending
  pending : ∀ rt ∈ pending, rt ∈ tape.trades

variable {tape dir} {dir' : Directory} {pass : Pass} {rt : RestTrade} {pending : List RestTrade}
  {rest : List TradesPage}

theorem AllKept.grow (h : tape.AllKept dir)
    (hgrow : ∀ path, ∃ more, dir'.contents path = dir.contents path ++ more) :
    tape.AllKept dir' := fun rt hrt => (h rt hrt).grow hgrow

namespace At

theorem begin (tape : TradeTape serde) (dir : Directory) : tape.At dir .new [] tape.pages where
  opened := JsonlWriter.opened_new dir
  seen := by simp [Pass.new]
  pages := ⟨[], rfl, by simp⟩
  pending := by simp

theorem go (h : tape.At dir pass pending rest) {pass' : Pass} (hseen : pass'.seen = pass.seen)
    (hwriter : pass'.writer = pass.writer) : tape.At dir pass' pending rest where
  opened := by rw [hwriter]; exact h.opened
  seen := by rw [hseen]; exact h.seen
  pages := h.pages
  pending := h.pending

theorem receive {page : TradesPage} (h : tape.At dir pass [] (page :: rest)) :
    tape.At dir pass page.trades rest where
  opened := h.opened
  seen := h.seen
  pages := by
    obtain ⟨got, hgot, hkept⟩ := h.pages
    refine ⟨got ++ [page], by rw [hgot, List.append_assoc]; rfl, fun page' hpage rt hrt => ?_⟩
    rcases List.mem_append.1 hpage with hpage | hpage
    · exact Or.inl ((hkept page' hpage rt hrt).resolve_right List.not_mem_nil)
    · rw [List.mem_singleton] at hpage
      exact Or.inr (hpage ▸ hrt)
  pending := by
    obtain ⟨got, hgot, -⟩ := h.pages
    intro rt hrt
    apply mem_trades ?_ hrt
    rw [hgot]
    exact List.mem_append_right _ List.mem_cons_self

theorem advance (h : tape.At dir pass (rt :: pending) rest) (hkept : rt.Kept serde dir) :
    tape.At dir pass pending rest where
  opened := h.opened
  seen := h.seen
  pages := by
    obtain ⟨got, hgot, hpages⟩ := h.pages
    refine ⟨got, hgot, fun page hpage rt' hrt => ?_⟩
    rcases hpages page hpage rt' hrt with hold | hpending
    · exact Or.inl hold
    · rcases List.mem_cons.1 hpending with rfl | hpending
      · exact Or.inl hkept
      · exact Or.inr hpending
  pending := fun rt' hrt => h.pending rt' (List.mem_cons_of_mem _ hrt)

/-- A trade whose id the pass has seen is kept: the ids of a tape are distinct. -/
theorem kept_of_seen (h : tape.At dir pass (rt :: pending) rest) (hseen : rt.tradeId ∈ pass.seen) :
    rt.Kept serde dir := by
  obtain ⟨rt', hrt', hid, hkept⟩ := h.seen _ hseen
  rwa [tape.eq_of_tradeId hrt' (h.pending rt List.mem_cons_self) hid] at hkept

theorem append (h : tape.At dir pass (rt :: pending) rest) {writer : JsonlWriter}
    (hopened : writer.Opened dir') (hkept : rt.Kept serde dir')
    (hgrow : ∀ path, ∃ more, dir'.contents path = dir.contents path ++ more) :
    tape.At dir' { pass with seen := rt.tradeId :: pass.seen, writer } pending rest := by
  have hgrown : tape.At dir' { pass with seen := rt.tradeId :: pass.seen, writer }
      (rt :: pending) rest := by
    refine ⟨hopened, fun id hid => ?_, ?_, h.pending⟩
    · rcases List.mem_cons.1 hid with rfl | hid
      · exact ⟨rt, h.pending rt List.mem_cons_self, rfl, hkept⟩
      · obtain ⟨rt', hrt', hid', hold⟩ := h.seen id hid
        exact ⟨rt', hrt', hid', hold.grow hgrow⟩
    · obtain ⟨got, hgot, hpages⟩ := h.pages
      refine ⟨got, hgot, fun page hpage rt' hrt => ?_⟩
      exact (hpages page hpage rt' hrt).imp_left fun hold => hold.grow hgrow
  exact hgrown.advance hkept

theorem allKept (h : tape.At dir pass [] []) : tape.AllKept dir := by
  obtain ⟨got, hgot, hpages⟩ := h.pages
  rw [List.append_nil] at hgot
  intro rt hrt
  obtain ⟨page, hpage, hrt⟩ := List.mem_flatMap.1 hrt
  rw [hgot] at hpage
  exact (hpages page hpage rt hrt).resolve_right List.not_mem_nil

end At

end TradeTape

/-- Where a run is on the tape of its ticker. -/
def BackfillPhase.Reads (tapes : String → TradeTape serde) (dirs : String → Directory) :
    BackfillPhase → Prop
  | .idle => True
  | .fetching ticker pass => ∃ rest, Follows (tapes ticker).page pass.cursor rest ∧
      (tapes ticker).At (dirs ticker) pass [] rest
  | .writing ticker pass pending cursor => ∃ rest, Left (tapes ticker).page cursor rest ∧
      (tapes ticker).At (dirs ticker) pass pending rest
  | .recording ticker => (tapes ticker).AllKept (dirs ticker)

namespace Backfill

variable {tapes : String → TradeTape serde} {tickers : List String} {s s' : Backfill} {a : Action}
  {ticker : String}

/-- Every page is what the exchange has for the cursor, every run goes over the same tickers, and
every one after something was recorded is resumed. -/
def Served (tapes : String → TradeTape serde) (tickers : List String) (s : Backfill) :
    Action → Prop
  | .start tickers' resume _ => tickers' = tickers ∧ (resume = true ∨ s.checkpoint = [])
  | .receive page => ∀ r ticker pass, s.run = some r → r.phase = .fetching ticker pass →
      page = (tapes ticker).page pass.cursor
  | _ => True

/-- A served step that does not stop at the page cap and appends no trade behind a broken line,
unless the trade is kept already. -/
def Intact (tapes : String → TradeTape serde) (tickers : List String) (s : Backfill) :
    Action → Prop
  | .stopAtCap => False
  | .append today _ => ∀ r ticker pass rt rest cursor, s.run = some r →
      r.phase = .writing ticker pass (rt :: rest) cursor →
      Lines.Ended 10 ((s.trades ticker).contents (dayFile today)) ∨
        rt.Kept serde (s.trades ticker)
  | a => Served tapes tickers s a

/-- What is known of every state that is reached by intact steps. -/
structure Recovering (tapes : String → TradeTape serde) (tickers : List String) (s : Backfill) :
    Prop where
  tracked : s.Tracked
  files : ∀ ticker, (tapes ticker).Files (s.trades ticker)
  phase : ∀ r, s.run = some r → r.phase.Reads tapes s.trades
  recorded : ∀ x ∈ s.recorded, (tapes x.1).AllKept (s.trades x.1)
  progress : ∀ r, s.run = some r → ∀ ticker ∈ tickers,
    ticker ∈ r.todo ∨ r.phase.ticker = some ticker ∨ (tapes ticker).AllKept (s.trades ticker)

namespace Recovering

theorem empty : Recovering tapes tickers .empty where
  tracked := .empty
  files := fun ticker => (tapes ticker).files_empty
  phase := by
    intro r hr
    cases hr
  recorded := by simp [Backfill.empty]
  progress := by
    intro r hr
    cases hr

theorem allKept_of_done (h : Recovering tapes tickers s) {r : BackfillRun} (hr : s.run = some r)
    (hdone : ticker ∈ r.done) : (tapes ticker).AllKept (s.trades ticker) := by
  obtain ⟨v, hv, -⟩ := h.tracked.done r hr ticker hdone
  exact h.recorded _ hv

/-- A step that writes no trade. -/
theorem go (h : Recovering tapes tickers s) (htracked : s'.Tracked) (htrades : s'.trades = s.trades)
    (hrecorded : ∀ x ∈ s'.recorded, x ∈ s.recorded ∨ (tapes x.1).AllKept (s.trades x.1))
    (hphase : ∀ r, s'.run = some r → r.phase.Reads tapes s.trades)
    (hprogress : ∀ r, s'.run = some r → ∀ ticker ∈ tickers, ticker ∈ r.todo ∨
      r.phase.ticker = some ticker ∨ (tapes ticker).AllKept (s.trades ticker)) :
    Recovering tapes tickers s' where
  tracked := htracked
  files := by rw [htrades]; exact h.files
  phase := by rw [htrades]; exact hphase
  recorded := by
    rw [htrades]
    intro x hx
    exact (hrecorded x hx).elim (h.recorded x) id
  progress := by rw [htrades]; exact hprogress

/-- A step that writes the first bytes of a trade's line. -/
theorem write (h : Recovering tapes tickers s) (htracked : s'.Tracked) {dir : Directory}
    (htrades : s'.trades = Function.update s.trades ticker dir) (hrecorded : s'.recorded = s.recorded)
    (hfiles : (tapes ticker).Files dir)
    (hgrow : ∀ path, ∃ more, dir.contents path = (s.trades ticker).contents path ++ more)
    (hphase : ∀ r, s'.run = some r → r.phase.Reads tapes s'.trades)
    (hprogress : ∀ r, s'.run = some r → ∀ ticker ∈ tickers, ticker ∈ r.todo ∨
      r.phase.ticker = some ticker ∨ (tapes ticker).AllKept (s.trades ticker)) :
    Recovering tapes tickers s' := by
  have hkeep (ticker' : String) (hkept : (tapes ticker').AllKept (s.trades ticker')) :
      (tapes ticker').AllKept (s'.trades ticker') := by
    rw [htrades]
    by_cases heq : ticker' = ticker
    · subst heq
      rw [Function.update_self]
      exact hkept.grow hgrow
    · rwa [Function.update_of_ne heq]
  refine ⟨htracked, fun ticker' => ?_, hphase, fun x hx => ?_, fun r hr ticker' hmem => ?_⟩
  · rw [htrades]
    by_cases heq : ticker' = ticker
    · subst heq
      rwa [Function.update_self]
    · rw [Function.update_of_ne heq]
      exact h.files ticker'
  · rw [hrecorded] at hx
    exact hkeep x.1 (h.recorded x hx)
  · exact (hprogress r hr ticker' hmem).imp_right fun hp => hp.imp_right (hkeep ticker')

/-- A run that stays at its ticker has the same tickers ahead. -/
theorem progress_of_eq (h : Recovering tapes tickers s) {r r' : BackfillRun} (hr : s.run = some r)
    (htodo : r'.todo = r.todo) (hticker : r'.phase.ticker = r.phase.ticker) :
    ∀ ticker ∈ tickers, ticker ∈ r'.todo ∨ r'.phase.ticker = some ticker ∨
      (tapes ticker).AllKept (s.trades ticker) := by
  rw [htodo, hticker]
  exact h.progress r hr

/-- A pass writes the first bytes of its next line. -/
theorem tear_spec (h : Recovering tapes tickers s) {pass : Pass} {rt : RestTrade}
    {pending : List RestTrade} {rest : List TradesPage} {today : Date} {recvTs : Timestamp} {n : ℕ}
    {writer : JsonlWriter} {dir : Directory}
    (hat : (tapes ticker).At (s.trades ticker) pass (rt :: pending) rest)
    (htear : pass.writer.writeBytes today
      ((serde.lineBytes (tradeToEnvelope serde rt recvTs) ++ [10]).take n) (s.trades ticker) =
        (writer, dir)) :
    writer.Opened dir ∧ (tapes ticker).Files dir ∧
      ∀ path, ∃ more, dir.contents path = (s.trades ticker).contents path ++ more := by
  obtain ⟨hopened, hnodup, hcontents⟩ := JsonlWriter.writeBytes_spec hat.opened htear
  refine ⟨hopened, ?_, fun path => ⟨_, hcontents path⟩⟩
  exact (h.files ticker).write (hat.pending rt List.mem_cons_self) recvTs n hnodup hcontents

/-- A trade that is appended is kept, unless its line runs into a broken one. -/
theorem kept_of_append {rt : RestTrade} {today : Date} {recvTs : Timestamp} {w writer : JsonlWriter}
    {dir dir' : Directory} (hw : w.Opened dir)
    (happend : w.append today (serde.lineBytes (tradeToEnvelope serde rt recvTs)) dir =
      (writer, dir'))
    (hintact : Lines.Ended 10 (dir.contents (dayFile today)) ∨ rt.Kept serde dir) :
    rt.Kept serde dir' := by
  rw [JsonlWriter.append_eq] at happend
  obtain ⟨-, -, hcontents⟩ := JsonlWriter.writeBytes_spec hw happend
  rcases hintact with hended | hkept
  · refine ⟨dayFile today, recvTs, ?_⟩
    rw [hcontents, if_pos rfl]
    exact hended.stands _
  · exact hkept.grow fun path => ⟨_, hcontents path⟩

theorem step (h : Recovering tapes tickers s) (hs : Step serde s a s')
    (ha : Intact tapes tickers s a) : Recovering tapes tickers s' := by
  have htracked : s'.Tracked := by
    apply h.tracked.step hs
    rintro rfl
    exact ha
  cases hs with
  | start tickers' resume maxTradePages hrun =>
    refine h.go htracked rfl (fun x hx => Or.inl hx) (fun r' hr => ?_) fun r' hr ticker hmem => ?_
    · cases hr
      trivial
    · cases hr
      left
      rw [ha.1]
      exact hmem
  | @skip r ticker rest hrun hphase htodo hdone =>
    refine h.go htracked rfl (fun x hx => Or.inl hx) (fun r' hr => ?_) fun r' hr ticker' hmem => ?_
    · cases hr
      exact h.phase r hrun
    · cases hr
      rcases h.progress r hrun ticker' hmem with hleft | hdone'
      · rw [htodo] at hleft
        rcases List.mem_cons.1 hleft with rfl | hleft
        · exact Or.inr (Or.inr (h.allKept_of_done hrun hdone))
        · exact Or.inl hleft
      · exact Or.inr hdone'
  | @begin r ticker rest hrun hphase htodo hdone =>
    refine h.go htracked rfl (fun x hx => Or.inl hx) (fun r' hr => ?_) fun r' hr ticker' hmem => ?_
    · cases hr
      exact ⟨_, (tapes ticker).follows, .begin _ _⟩
    · cases hr
      rcases h.progress r hrun ticker' hmem with hleft | hcurrent | hkept
      · rw [htodo] at hleft
        rcases List.mem_cons.1 hleft with rfl | hleft
        · exact Or.inr (Or.inl rfl)
        · exact Or.inl hleft
      · rw [hphase] at hcurrent
        cases hcurrent
      · exact Or.inr (Or.inr hkept)
  | stopAtCap => exact ha.elim
  | @receive r ticker pass page hrun hphase hcap =>
    refine h.go htracked rfl (fun x hx => Or.inl hx) (fun r' hr => ?_) fun r' hr => ?_
    · cases hr
      have hreads := h.phase r hrun
      rw [hphase] at hreads
      obtain ⟨rest, hfollows, hat⟩ := hreads
      obtain ⟨rest, rfl, hleft⟩ := hfollows.left
      rw [ha r ticker pass hrun hphase]
      exact ⟨rest, hleft, hat.receive.go rfl rfl⟩
    · cases hr
      exact h.progress_of_eq hrun rfl (by rw [hphase]; rfl)
  | @duplicate r ticker pass rt rest cursor hrun hphase hseen =>
    refine h.go htracked rfl (fun x hx => Or.inl hx) (fun r' hr => ?_) fun r' hr => ?_
    · cases hr
      have hreads := h.phase r hrun
      rw [hphase] at hreads
      obtain ⟨left, hleft, hat⟩ := hreads
      exact ⟨left, hleft, hat.advance (hat.kept_of_seen hseen)⟩
    · cases hr
      exact h.progress_of_eq hrun rfl (by rw [hphase]; rfl)
  | @append r ticker pass rt rest cursor today recvTs hrun hphase hseen hsafe writer dir happend =>
    have hreads := h.phase r hrun
    rw [hphase] at hreads
    obtain ⟨left, hleft, hat⟩ := hreads
    have hkept := kept_of_append hat.opened happend (ha r ticker pass rt rest cursor hrun hphase)
    rw [JsonlWriter.append_eq, ← List.take_length (l := _ ++ [10])] at happend
    obtain ⟨hopened, hfiles, hgrow⟩ := h.tear_spec hat happend
    refine h.write htracked rfl rfl hfiles hgrow (fun r' hr => ?_) fun r' hr => ?_
    · cases hr
      refine ⟨left, hleft, ?_⟩
      dsimp only
      rw [Function.update_self]
      exact hat.append hopened hkept hgrow
    · cases hr
      exact h.progress_of_eq hrun rfl (by rw [hphase]; rfl)
  | @tear r ticker pass rt rest cursor today recvTs n hrun hphase hseen hsafe writer dir htear =>
    have hreads := h.phase r hrun
    rw [hphase] at hreads
    obtain ⟨left, hleft, hat⟩ := hreads
    obtain ⟨-, hfiles, hgrow⟩ := h.tear_spec hat htear
    refine h.write htracked rfl rfl hfiles hgrow (fun r' hr => ?_) fun r' hr => ?_
    all_goals cases hr
  | @nextPage r ticker pass cursor c hrun hphase hcursor =>
    refine h.go htracked rfl (fun x hx => Or.inl hx) (fun r' hr => ?_) fun r' hr => ?_
    · cases hr
      have hreads := h.phase r hrun
      rw [hphase] at hreads
      obtain ⟨left, hleft, hat⟩ := hreads
      rw [Left, hcursor] at hleft
      exact ⟨left, hleft, hat.go rfl rfl⟩
    · cases hr
      exact h.progress_of_eq hrun rfl (by rw [hphase]; rfl)
  | @endOfTape r ticker pass cursor hrun hphase hcursor =>
    refine h.go htracked rfl (fun x hx => Or.inl hx) (fun r' hr => ?_) fun r' hr => ?_
    · cases hr
      have hreads := h.phase r hrun
      rw [hphase] at hreads
      obtain ⟨left, hleft, hat⟩ := hreads
      rw [Left, hcursor] at hleft
      subst hleft
      exact hat.allKept
    · cases hr
      exact h.progress_of_eq hrun rfl (by rw [hphase]; rfl)
  | @record r ticker hrun hphase =>
    have hkept := h.phase r hrun
    rw [hphase] at hkept
    refine h.go htracked rfl (fun x hx => ?_) (fun r' hr => ?_) fun r' hr ticker' hmem => ?_
    · refine (List.mem_append.1 hx).imp_right fun hx => ?_
      rw [List.mem_singleton.1 hx]
      exact hkept
    · cases hr
      trivial
    · cases hr
      rcases h.progress r hrun ticker' hmem with hleft | hcurrent | hdone
      · exact Or.inl hleft
      · rw [hphase] at hcurrent
        cases hcurrent
        exact Or.inr (Or.inr hkept)
      · exact Or.inr (Or.inr hdone)
  | @tearRecord r ticker n hrun hphase =>
    have hkept := h.phase r hrun
    rw [hphase] at hkept
    refine h.go htracked rfl (fun x hx => ?_) (fun r' hr => ?_) fun r' hr => ?_
    · dsimp only at hx
      split_ifs at hx
      · refine (List.mem_append.1 hx).imp_right fun hx => ?_
        rw [List.mem_singleton.1 hx]
        exact hkept
      · exact Or.inl hx
    all_goals cases hr
  | die | finish =>
    refine h.go htracked rfl (fun x hx => Or.inl hx) (fun r' hr => ?_) fun r' hr => ?_
    all_goals cases hr

theorem of_reachable (h : Reachable serde (Intact tapes tickers) s) :
    Recovering tapes tickers s := by
  induction h with
  | empty => exact .empty
  | step _ ha hs ih => exact ih.step hs ha

end Recovering

/-- However many runs have died and wherever they have torn a line, once a run is finished every
tape is replayed from its processed files, each trade once. -/
theorem every_tape_replays_once (tapes : String → TradeTape serde) (tickers : List String)
    {s s' : Backfill} (h : Reachable serde (Intact tapes tickers) s)
    (hfinish : Step serde s .finish s')
    (hfit : ∀ ticker ∈ tickers, ∀ t ∈ (tapes ticker).core, t.count.centi.toNat < 2 ^ 63) :
    ∀ ticker ∈ tickers,
      ReplaysOnce ticker ((s'.trades ticker).files serde) (tapes ticker).core := by
  have hrecovering := Recovering.of_reachable h
  intro ticker hmem
  cases hfinish with
  | @finish r hrun hphase htodo =>
    refine (tapes ticker).replaysOnce ticker (hrecovering.files ticker) (hfit ticker hmem) ?_
    rcases hrecovering.progress r hrun ticker hmem with hleft | hcurrent | hkept
    · rw [htodo] at hleft
      cases hleft
    · rw [hphase] at hcurrent
      cases hcurrent
    · exact hkept

/-! ## A tape that takes three runs -/

/-- Two pages, the first of two trades. -/
def pagedSample : TradeTape .sample where
  page cursor := if cursor = none then ⟨[sampleTrade "K" "a", sampleTrade "K" "b"], some "c"⟩
    else ⟨[sampleTrade "K" "d"], none⟩
  pages := [⟨[sampleTrade "K" "a", sampleTrade "K" "b"], some "c"⟩, ⟨[sampleTrade "K" "d"], none⟩]
  follows := .next rfl (.last rfl)
  core := ["a", "b", "d"].map fun tradeId =>
    { ticker := ⟨"K"⟩, ts := .sample, price := ⟨500000⟩, count := ⟨100⟩, takerSide := .yes
      takerBookSide := none, tradeId := some tradeId }
  wellFormed := rfl
  distinct := by decide

/-- The line of a trade. -/
def tradeLine (tradeId : String) : List UInt8 :=
  Serde.sample.lineBytes (tradeToEnvelope .sample (sampleTrade "K" tradeId) .sample)

/-- Between two runs nothing has been recorded yet. -/
structure Resting (checkpoint bytes : List UInt8) (s : Backfill) : Prop where
  reachable : Reachable .sample (Intact (fun _ => pagedSample) ["K"]) s
  run : s.run = none
  checkpoint : s.checkpoint = checkpoint
  bytes : (s.trades "K").contents (dayFile daySample) = bytes
  recorded : s.recorded = []

/-- A run has trades of a page before it. -/
structure Midway (checkpoint bytes : List UInt8) (seen : List String) (pages : ℕ)
    (trades : List RestTrade) (cursor : Option String) (s : Backfill) : Prop where
  reachable : Reachable .sample (Intact (fun _ => pagedSample) ["K"]) s
  run : ∃ done perTicker asked w, s.run = some ⟨done, 2, perTicker, [],
    .writing "K" ⟨seen, asked, pages, w⟩ trades cursor⟩ ∧ w.Opened (s.trades "K") ∧
      perTicker "K" = .ofNat seen.length
  checkpoint : s.checkpoint = checkpoint
  bytes : (s.trades "K").contents (dayFile daySample) = bytes
  recorded : s.recorded = []

section ThreeRuns

variable {checkpoint bytes : List UInt8} {seen : List String} {pages : ℕ}
  {trades : List RestTrade} {cursor : Option String} {tradeId : String}

theorem Resting.receive (h : Resting checkpoint bytes s) :
    ∃ s', Midway checkpoint bytes [] 1 [sampleTrade "K" "a", sampleTrade "K" "b"] (some "c")
      s' := by
  have hnone : "K" ∉ s.doneBefore Serde.sample.toJsonLib true := by
    intro hmem
    obtain ⟨v, hv, -⟩ := CheckpointLog.of_mem (Recovering.of_reachable h.reachable).tracked.log hmem
    rw [h.recorded] at hv
    cases hv
  have hstarted := Reachable.step (a := .start ["K"] true 2) h.reachable ⟨rfl, Or.inl rfl⟩
    (.start ["K"] true 2 h.run)
  have hbegun := Reachable.step (a := .begin) hstarted trivial (.begin rfl rfl rfl hnone)
  have hreceived := Reachable.step (a := .receive (pagedSample.page none)) hbegun
    (by rintro r ticker pass hrun hphase; cases hrun; cases hphase; rfl)
    (.receive (pagedSample.page none) rfl rfl Nat.zero_lt_two)
  exact ⟨_, hreceived, ⟨_, _, _, _, rfl, JsonlWriter.opened_new _, rfl⟩, h.checkpoint, h.bytes,
    h.recorded⟩

theorem Midway.append
    (h : Midway checkpoint bytes seen pages (sampleTrade "K" tradeId :: trades) cursor s)
    (hseen : tradeId ∉ seen)
    (hintact : Lines.Ended 10 bytes ∨ Lines.Stands 10 (tradeLine tradeId) bytes) :
    ∃ s', Midway checkpoint (bytes ++ (tradeLine tradeId ++ [10])) (tradeId :: seen) pages trades
      cursor s' := by
  obtain ⟨done, perTicker, asked, w, hrun, hopened, hcount⟩ := h.run
  obtain ⟨⟨writer, dir⟩, happend⟩ :
      ∃ p, w.append daySample (tradeLine tradeId) (s.trades "K") = p := ⟨_, rfl⟩
  obtain ⟨hopened', -, hcontents⟩ := JsonlWriter.writeBytes_spec hopened happend
  have hallowed : Intact (fun _ => pagedSample) ["K"] s (.append daySample .sample) := by
    intro r ticker pass rt rest cursor hr hphase
    rw [hrun] at hr
    cases hr
    cases hphase
    rw [h.bytes]
    refine hintact.imp_right fun hstands => ⟨dayFile daySample, .sample, ?_⟩
    rw [h.bytes]
    exact hstands
  refine ⟨_, Reachable.step h.reachable hallowed
    (.append daySample .sample hrun rfl hseen (by decide) happend),
    ⟨_, _, _, _, rfl, ?_, ?_⟩, h.checkpoint, ?_, h.recorded⟩
  · dsimp only
    rwa [Function.update_self]
  · rw [Function.update_self]
    dsimp only
    rw [hcount, List.length_cons, UInt64.ofNat_add]
    rfl
  · dsimp only
    rw [Function.update_self, hcontents, if_pos rfl, h.bytes]

/-- The run dies after the first bytes of a line. -/
theorem Midway.tear
    (h : Midway checkpoint bytes seen pages (sampleTrade "K" tradeId :: trades) cursor s)
    (hseen : tradeId ∉ seen) (n : ℕ) :
    ∃ s', Resting checkpoint (bytes ++ (tradeLine tradeId ++ [10]).take n) s' := by
  obtain ⟨done, perTicker, asked, w, hrun, hopened, hcount⟩ := h.run
  obtain ⟨⟨writer, dir⟩, htear⟩ : ∃ p, w.writeBytes daySample ((tradeLine tradeId ++ [10]).take n)
      (s.trades "K") = p := ⟨_, rfl⟩
  obtain ⟨-, -, hcontents⟩ := JsonlWriter.writeBytes_spec hopened htear
  refine ⟨_, Reachable.step (a := .tear daySample .sample n) h.reachable trivial
    (.tear daySample .sample n hrun rfl hseen (by decide) htear), rfl, h.checkpoint, ?_, h.recorded⟩
  dsimp only
  rw [Function.update_self, hcontents, if_pos rfl, h.bytes]

theorem Midway.next (h : Midway checkpoint bytes seen 1 [] (some "c") s) :
    ∃ s', Midway checkpoint bytes seen 2 [sampleTrade "K" "d"] none s' := by
  obtain ⟨done, perTicker, asked, w, hrun, hopened, hcount⟩ := h.run
  have hnext := Reachable.step (a := .nextPage) h.reachable trivial (.nextPage hrun rfl rfl)
  have hreceived := Reachable.step (a := .receive (pagedSample.page (some "c"))) hnext
    (by rintro r ticker pass hrun' hphase; cases hrun'; cases hphase; rfl)
    (.receive (pagedSample.page (some "c")) rfl rfl Nat.one_lt_two)
  exact ⟨_, hreceived, ⟨_, _, _, _, rfl, hopened, hcount⟩, h.checkpoint, h.bytes, h.recorded⟩

theorem ended_line (before line : List UInt8) : Lines.Ended 10 (before ++ (line ++ [10])) := by
  rw [← List.append_assoc]
  exact Or.inr List.getLast?_concat

/-- The tape is appended to its end, where a line may begin once its first trade is written. -/
theorem Resting.exists_appended (h : Resting checkpoint bytes s)
    (hintact : Lines.Ended 10 bytes ∨ Lines.Stands 10 (tradeLine "a") bytes) :
    ∃ s', Midway checkpoint (bytes ++ Lines.join 10 (["a", "b", "d"].map tradeLine))
      ["d", "b", "a"] 2 [] none s' := by
  obtain ⟨s₁, h₁⟩ := h.receive
  obtain ⟨s₂, h₂⟩ := h₁.append (by decide) hintact
  obtain ⟨s₃, h₃⟩ := h₂.append (by decide) (Or.inl (ended_line _ _))
  obtain ⟨s₄, h₄⟩ := h₃.next
  obtain ⟨s₅, h₅⟩ := h₄.append (by decide) (Or.inl (ended_line _ _))
  refine ⟨s₅, ?_⟩
  simpa [Lines.join, List.append_assoc] using h₅

theorem Midway.endOfTape (h : Midway checkpoint bytes seen 2 [] none s) :
    ∃ s' r, Reachable .sample (Intact (fun _ => pagedSample) ["K"]) s' ∧ s'.run = some r ∧
      r.phase = .recording "K" ∧ r.todo = [] ∧
      recordLine r "K" = checkpointLine "K" (.ofNat seen.length) ∧ s'.checkpoint = checkpoint ∧
      (s'.trades "K").contents (dayFile daySample) = bytes ∧ s'.recorded = [] := by
  obtain ⟨done, perTicker, asked, w, hrun, hopened, hcount⟩ := h.run
  have hended := Reachable.step (a := .endOfTape) h.reachable trivial (.endOfTape hrun rfl rfl)
  refine ⟨_, _, hended, rfl, rfl, rfl, ?_, h.checkpoint, h.bytes, h.recorded⟩
  exact congrArg (checkpointLine "K") hcount

/-- The run dies after the first bytes of its checkpoint line. -/
theorem Midway.tearRecord (h : Midway checkpoint bytes seen 2 [] none s) (n : ℕ)
    (hn : n < (checkpointLine "K" (.ofNat seen.length)).length) :
    ∃ s', Resting (checkpoint ++ (checkpointLine "K" (.ofNat seen.length) ++ [10]).take n)
      bytes s' := by
  obtain ⟨s', r, hreachable, hrun, hphase, -, hline, hcheckpoint, hbytes, hrecorded⟩ := h.endOfTape
  have htorn := Reachable.step (a := .tearRecord n) hreachable trivial (.tearRecord n hrun hphase)
  refine ⟨_, htorn, rfl, ?_, hbytes, ?_⟩
  · dsimp only
    rw [hcheckpoint, hline]
  · dsimp only
    rw [hline, if_neg (Nat.not_le.2 hn), hrecorded]

theorem Midway.finish (h : Midway checkpoint bytes seen 2 [] none s) :
    ∃ s₁ s₂, Reachable .sample (Intact (fun _ => pagedSample) ["K"]) s₁ ∧
      Step .sample s₁ .finish s₂ ∧
      s₂.checkpoint = checkpoint ++ (checkpointLine "K" (.ofNat seen.length) ++ [10]) ∧
      (s₂.trades "K").contents (dayFile daySample) = bytes := by
  obtain ⟨s', r, hreachable, hrun, hphase, htodo, hline, hcheckpoint, hbytes, -⟩ := h.endOfTape
  have hrecorded := Reachable.step (a := .record) hreachable trivial (.record hrun hphase)
  refine ⟨_, _, hrecorded, .finish rfl rfl htodo, ?_, hbytes⟩
  dsimp only
  rw [hcheckpoint, hline]

end ThreeRuns

/-- The file of the day after one run died in the line of its second trade, one in its checkpoint
line, and the third went to the end. -/
def threeRunsFile : List UInt8 :=
  tradeLine "a" ++ [10] ++ (tradeLine "b" ++ [10]).take 1 ++
    Lines.join 10 (["a", "b", "d", "a", "b", "d"].map tradeLine)

/-- The resumed run appends a trade that is kept behind the broken line, and the rest where lines
begin; the last run writes the checkpoint line behind a broken one. -/
theorem every_tape_replays_once_resumed : ∃ s s',
    Reachable .sample (Intact (fun _ => pagedSample) ["K"]) s ∧ Step .sample s .finish s' ∧
      (s'.trades "K").contents (dayFile daySample) = threeRunsFile ∧
      s'.checkpoint = (checkpointLine "K" 3).take 5 ++ (checkpointLine "K" 3 ++ [10]) ∧
      ∀ ticker ∈ ["K"], ReplaysOnce ticker ((s'.trades ticker).files .sample) pagedSample.core := by
  have hempty : Resting [] [] .empty := ⟨.empty, rfl, rfl, rfl, rfl⟩
  obtain ⟨s₁, h₁⟩ := hempty.receive
  obtain ⟨s₂, h₂⟩ := h₁.append (by decide) (Or.inl (Or.inl rfl))
  obtain ⟨s₃, h₃⟩ := h₂.tear (by decide) 1
  have hstands : Lines.Stands 10 (tradeLine "a")
      ([] ++ (tradeLine "a" ++ [10]) ++ (tradeLine "b" ++ [10]).take 1) :=
    (Lines.Ended.stands (Or.inl rfl) _).append _
  obtain ⟨s₄, h₄⟩ := h₃.exists_appended (Or.inr hstands)
  obtain ⟨s₅, h₅⟩ := h₄.tearRecord 5 (by decide)
  have hended : Lines.Ended 10 ([] ++ (tradeLine "a" ++ [10]) ++ (tradeLine "b" ++ [10]).take 1 ++
      Lines.join 10 (["a", "b", "d"].map tradeLine)) := by
    have hlast := ended_line ([] ++ (tradeLine "a" ++ [10]) ++ (tradeLine "b" ++ [10]).take 1 ++
      Lines.join 10 (["a", "b"].map tradeLine)) (tradeLine "d")
    simpa [Lines.join] using hlast
  obtain ⟨s₆, h₆⟩ := h₅.exists_appended (Or.inl hended)
  obtain ⟨s, s', hs, hfinish, hcheckpoint, hbytes⟩ := h₆.finish
  refine ⟨s, s', hs, hfinish, hbytes.trans ?_, hcheckpoint, ?_⟩
  · simp [threeRunsFile, Lines.join]
  · exact every_tape_replays_once (fun _ => pagedSample) ["K"] hs hfinish (by decide)

/-! ## A tape of one trade -/

/-- A fetched trade. -/
def tradeSample : RestTrade :=
  ⟨"t", "K", "1", "0.5000", "0.5000", "yes", none, "2026-05-30T12:00:00Z"⟩

/-- Its only page. -/
def pageSample : TradesPage := ⟨[tradeSample], none⟩

def tapeSample : TradeTape .sample where
  page := fun _ => pageSample
  pages := [pageSample]
  follows := .last rfl
  core := [{ ticker := ⟨"K"⟩, ts := .sample, price := ⟨500000⟩, count := ⟨100⟩, takerSide := .yes
             takerBookSide := none, tradeId := some "t" }]
  wellFormed := rfl
  distinct := List.nodup_singleton _

/-- The directory while no run goes. -/
def restSample (dirs : String → Directory) (v : Visit) : Backfill := ⟨[], dirs, none, v, []⟩

/-- A run has got the page. -/
def pendingSample (dirs : String → Directory) : Backfill :=
  ⟨[], dirs, some (runSample [] (.writing "K" ⟨[], none, 1, .new⟩ [tradeSample] none)),
    ⟨[pageSample], []⟩, []⟩

/-- The line of the trade. -/
def lineSample : List UInt8 := Serde.sample.lineBytes (tradeToEnvelope .sample tradeSample .sample)

theorem Reachable.mono {allowed allowed' : Backfill → Action → Prop} (h : Reachable serde allowed s)
    (hle : ∀ s a, allowed s a → allowed' s a) : Reachable serde allowed' s := by
  induction h with
  | empty => exact .empty
  | step _ ha hs ih => exact .step ih (hle _ _ ha) hs

theorem reachable_pending {dirs : String → Directory} {v : Visit}
    (h : Reachable .sample (Intact (fun _ => tapeSample) ["K"]) (restSample dirs v)) :
    Reachable .sample (Intact (fun _ => tapeSample) ["K"]) (pendingSample dirs) := by
  have hstarted : Reachable .sample (Intact (fun _ => tapeSample) ["K"])
      { restSample dirs v with run := some (runSample ["K"] .idle) } :=
    .step (a := .start ["K"] true 1) h ⟨rfl, Or.inl rfl⟩ (.start ["K"] true 1 rfl)
  have hbegun : Reachable .sample (Intact (fun _ => tapeSample) ["K"])
      ⟨[], dirs, some (runSample [] (.fetching "K" .new)), ⟨[], []⟩, []⟩ :=
    .step (a := .begin) hstarted trivial
      (@Step.begin _ _ (runSample ["K"] .idle) "K" [] rfl rfl rfl List.not_mem_nil)
  exact .step (a := .receive pageSample) hbegun (fun _ _ _ _ _ => rfl)
    (@Step.receive _ _ (runSample [] (.fetching "K" .new)) "K" .new pageSample rfl rfl
      Nat.zero_lt_one)

/-- The run appends the trade and finishes. -/
theorem exists_finished {allowed : Backfill → Action → Prop}
    (hle : ∀ s a, Intact (fun _ => tapeSample) ["K"] s a → allowed s a) {dirs : String → Directory}
    (h : Reachable .sample allowed (pendingSample dirs))
    (ha : allowed (pendingSample dirs) (.append daySample .sample)) :
    ∃ s s', Reachable .sample allowed s ∧ Step .sample s .finish s' ∧
      s'.trades "K" = (JsonlWriter.new.append daySample lineSample (dirs "K")).2 := by
  have happended := Reachable.step h ha
    (@Step.append _ _ (runSample [] (.writing "K" ⟨[], none, 1, .new⟩ [tradeSample] none)) "K"
      ⟨[], none, 1, .new⟩ tradeSample [] none daySample .sample rfl rfl List.not_mem_nil (by decide)
      _ _ rfl)
  have hended := Reachable.step (a := .endOfTape) happended (hle _ _ trivial)
    (.endOfTape rfl rfl rfl)
  have hrecorded := Reachable.step (a := .record) hended (hle _ _ trivial) (.record rfl rfl)
  refine ⟨_, _, hrecorded, .finish rfl rfl rfl, ?_⟩
  exact Function.update_self "K" _ dirs

theorem served_of_intact (s : Backfill) (a : Action) (ha : Intact tapes tickers s a) :
    Served tapes tickers s a := by
  cases a with
  | stopAtCap => exact ha.elim
  | append => trivial
  | _ => exact ha

/-- A first line that is appended behind a part of a broken one cannot be read. -/
theorem unreadable_torn {today : Date} {part : List UInt8} {env first : Envelope}
    (hpart : part <+: serde.lineBytes env) (hne : part ≠ []) {torn dir : Directory}
    (htorn : torn = (JsonlWriter.new.writeBytes today part []).2)
    (hdir : dir = (JsonlWriter.new.append today (serde.lineBytes first) torn).2)
    {i : ReadItem} (hi : i ∈ readItems (dir.files serde)) : ∃ e, i = .error e := by
  obtain ⟨-, hnodup, hcontents⟩ :=
    JsonlWriter.writeBytes_spec (JsonlWriter.opened_new []) (Prod.mk.eta.symm)
  obtain ⟨-, hnodup', hcontents'⟩ :=
    JsonlWriter.writeBytes_spec (JsonlWriter.opened_new torn) (Prod.mk.eta.symm)
  rw [← htorn] at hnodup hcontents
  rw [← JsonlWriter.append_eq, ← hdir] at hnodup' hcontents'
  obtain ⟨path, hi⟩ := (Directory.mem_readItems_files (hnodup' (hnodup List.nodup_nil))).1 hi
  rw [hcontents', hcontents] at hi
  split_ifs at hi with hpath
  · have hbroken : ∃ e, readEnvelopes (serde.fileLines (serde.fileBytes [] ++ part ++
        serde.fileBytes [first])) = [].map .ok ++ .error e :: [].map .ok :=
      readEnvelopes_broken (by simp) hpart hne (by simp)
    obtain ⟨e, he⟩ := hbroken
    rw [Serde.fileBytes_singleton] at he
    have hread : i ∈ readEnvelopes (serde.fileLines
        (serde.fileBytes [] ++ part ++ (serde.lineBytes first ++ [10]))) := hi
    rw [he] at hread
    exact ⟨e, List.mem_singleton.1 hread⟩
  · cases hi

/-- The directory after a run has died with one byte of the trade's line written. -/
def tornSample : JsonlWriter × Directory :=
  JsonlWriter.new.writeBytes daySample ((lineSample ++ [10]).take 1) []

theorem take_lineSample : (lineSample ++ [10]).take 1 <+: lineSample ∧
    (lineSample ++ [10]).take 1 ≠ [] := by
  have hne : lineSample ≠ [] := Serde.lineBytes_ne_nil _ _
  have hpos : 1 ≤ lineSample.length := List.length_pos_of_ne_nil hne
  rw [List.take_append_of_le_length hpos]
  refine ⟨List.take_prefix 1 lineSample, fun hnil => ?_⟩
  have hlength := congrArg List.length hnil
  rw [List.length_take, List.length_nil] at hlength
  omega

/-- One byte of a ticker's first line has reached the disk; the resumed run appends the trade behind
it, completes the ticker, and nothing is replayed. -/
theorem torn_first_line_loses_trade : ∃ s s',
    Reachable .sample (Served (fun _ => tapeSample) ["K"]) s ∧ Step .sample s .finish s' ∧
      ¬ ReplaysOnce "K" ((s'.trades "K").files .sample) tapeSample.core := by
  have hpending : Reachable .sample (Intact (fun _ => tapeSample) ["K"])
      (pendingSample fun _ => []) := reachable_pending .empty
  have htorn : Reachable .sample (Intact (fun _ => tapeSample) ["K"])
      (restSample (Function.update (fun _ => []) "K" tornSample.2) ⟨[pageSample], []⟩) :=
    .step (a := .tear daySample .sample 1) hpending trivial
      (@Step.tear _ _ (runSample [] (.writing "K" ⟨[], none, 1, .new⟩ [tradeSample] none)) "K"
        ⟨[], none, 1, .new⟩ tradeSample [] none daySample .sample 1 rfl rfl List.not_mem_nil
        (by decide) tornSample.1 tornSample.2 rfl)
  have hresumed := (reachable_pending htorn).mono served_of_intact
  obtain ⟨s, s', hs, hfinish, hfiles⟩ := exists_finished served_of_intact hresumed trivial
  refine ⟨s, s', hs, hfinish, fun hreplays => ?_⟩
  rw [Function.update_self] at hfiles
  obtain ⟨hpart, hne⟩ := take_lineSample
  have hnone := eq_nil_of_unreadable (fun i hi => unreadable_torn hpart hne rfl hfiles hi) hreplays
  cases hnone

end Backfill

end Snapevent
