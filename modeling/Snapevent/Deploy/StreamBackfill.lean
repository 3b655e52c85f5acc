import Mathlib.Logic.Function.Basic
import Snapevent.Core.Ids
import Snapevent.Lib.Machine
import Snapevent.Lib.Strides

/-!
# The streaming backfill

What `stream-backfill.sh` does with a range of close times.  It enumerates the archived markets once,
then walks the range tier by tier in chunks: it backfills a chunk, processes it, uploads a tarball,
looks whether it is there, removes the local files and records the chunk as done.  A run may end at
any point, by a failing command or a kill, and a later run goes on with the chunks that are not
recorded; two runs do not overlap.  The trades of a market are texts.  Of a chunk's remote files the
copied market list is left out; the record of a chunk is written at once.
-/

namespace Snapevent

inductive Tier
  | archive
  | live
  deriving DecidableEq, Repr

/-- A line of `markets.jsonl`: the market, when it closes, and whether enough of it was traded. -/
structure MarketLine where
  ticker : String
  closeTime : Option ℤ
  traded : Bool
  deriving DecidableEq, Repr

/-- Whether a market closes in a window that is open at its end. -/
def marketCloseInWindow (closeTime min max : Option ℤ) : Bool :=
  if min.isNone && max.isNone then true
  else
    match closeTime with
    | none => false
    | some ts => min.all (· ≤ ts) && max.all (ts < ·)

/-- The settings: the range and the width of a chunk in days. -/
structure StreamSettings where
  minClose : ℤ
  maxClose : ℤ
  chunkDays : ℕ
  deriving DecidableEq, Repr

namespace StreamSettings

variable (cfg : StreamSettings)

def step : ℤ := cfg.chunkDays * 86400

/-- Where the chunk from `lo` ends. -/
def chunkEnd (lo : ℤ) : ℤ := min (lo + cfg.step) cfg.maxClose

end StreamSettings

/-- The date of an instant, as the number of its day. -/
def dayLabel (ts : ℤ) : ℤ := ts / 86400

/-- A chunk is named by its tier and its date. -/
abbrev ChunkName := Tier × ℤ

/-- The directories of the markets of a chunk, each with its trades. -/
abbrev MarketDirs := List (String × List String)

/-- The local files of a chunk: the capture, its processed form and the tarball. -/
structure ChunkFiles where
  capture : Option MarketDirs
  processed : MarketDirs
  tar : Option MarketDirs
  deriving DecidableEq, Repr

def ChunkFiles.none : ChunkFiles := ⟨.none, [], .none⟩

/-- The markets there is something of. -/
def ChunkFiles.tickers (f : ChunkFiles) : List String :=
  (f.capture.getD [] ++ f.processed ++ f.tar.getD []).map (·.1)

/-- Where a run is with a chunk. -/
inductive ChunkPhase
  | backfilling
  | fetching (todo : List String)
  | processing (todo : MarketDirs)
  | uploading
  | verifying
  | removing
  | recording
  deriving DecidableEq, Repr

/-- Where a run is. -/
inductive StreamPhase
  | enumerating (todo : List MarketLine)
  | entering (tier : Tier)
  | looping (tier : Tier) (lo : ℤ)
  | chunk (tier : Tier) (lo : ℤ) (phase : ChunkPhase)
  deriving DecidableEq, Repr

/-- The run is writing the enumeration. -/
def StreamPhase.isEnumerating : StreamPhase → Bool
  | .enumerating _ => true
  | _ => false

/-- The files of the backfill and where its run is.  As history, what the enumeration has listed, and
what the markets of a chunk answered when they were last asked for their trades. -/
structure StreamBackfill where
  metaFile : List MarketLine
  metaTorn : Bool
  done : List ChunkName
  files : ChunkName → ChunkFiles
  remote : ChunkName → Option MarketDirs
  run : Option StreamPhase
  listed : List MarketLine
  answers : ChunkName → Option MarketDirs

/-- Write the directory of a market, over what was there. -/
def MarketDirs.put (dirs : MarketDirs) (d : String × List String) : MarketDirs :=
  dirs.filter (·.1 ≠ d.1) ++ [d]

namespace StreamBackfill

def empty : StreamBackfill where
  metaFile := []
  metaTorn := false
  done := []
  files := fun _ => .none
  remote := fun _ => none
  run := none
  listed := []
  answers := fun _ => none

variable (s : StreamBackfill)

/-- The enumeration has left a file with something in it. -/
def metaThere : Bool := s.metaTorn || !s.metaFile.isEmpty

/-- The tickers of the enumerated markets that close in a window. -/
def archived (lo hi : ℤ) : List String :=
  (s.metaFile.filter fun m => marketCloseInWindow m.closeTime (some lo) (some hi) && m.traded).map
    (·.ticker)

def goto (p : StreamPhase) : StreamBackfill := { s with run := some p }

def withFiles (k : ChunkName) (f : ChunkFiles) : StreamBackfill :=
  { s with files := Function.update s.files k f }

/-- What happens in a step.  `start` comes with what the enumeration lists if it is made, `list` with
the markets a backfill finds, `fetch` with the trades of the next one, `remove` with the files that are
left, and `die` with whether a line of the enumeration is torn. -/
inductive Action
  | start (lines : List MarketLine)
  | writeMeta
  | enumerated
  | skipArchive
  | enter
  | skip
  | clear
  | list (tickers : List String)
  | fetch (trades : List String)
  | fetched
  | process
  | tar
  | upload
  | verify
  | remove (left : ChunkFiles)
  | removed
  | record
  | nextTier
  | finish
  | die (torn : Bool)
  deriving DecidableEq, Repr

/-- One step. -/
inductive Step (cfg : StreamSettings) (s : StreamBackfill) : Action → StreamBackfill → Prop
  | enumerate (lines : List MarketLine) (hrun : s.run = none) (hmeta : s.metaThere = false)
      (hnodup : (lines.map (·.ticker)).Nodup) :
    Step cfg s (.start lines) { s with run := some (.enumerating lines), listed := lines }
  | start (lines : List MarketLine) (hrun : s.run = none) (hmeta : s.metaThere = true) :
    Step cfg s (.start lines) (s.goto (.entering .archive))
  | writeMeta {m todo} (hrun : s.run = some (.enumerating (m :: todo))) :
    Step cfg s .writeMeta
      { s with metaFile := s.metaFile ++ [m], run := some (.enumerating todo) }
  | enumerated (hrun : s.run = some (.enumerating [])) :
    Step cfg s .enumerated (s.goto (.entering .archive))
  | skipArchive (hrun : s.run = some (.entering .archive)) (hmeta : s.metaThere = false) :
    Step cfg s .skipArchive (s.goto (.entering .live))
  | enter {tier} (hrun : s.run = some (.entering tier))
      (hmeta : tier = .archive → s.metaThere = true) :
    Step cfg s .enter (s.goto (.looping tier cfg.minClose))
  | skip {tier lo} (hrun : s.run = some (.looping tier lo)) (hlt : lo < cfg.maxClose)
      (hdone : (tier, dayLabel lo) ∈ s.done) :
    Step cfg s .skip (s.goto (.looping tier (cfg.chunkEnd lo)))
  | clear {tier lo} (hrun : s.run = some (.looping tier lo)) (hlt : lo < cfg.maxClose)
      (hdone : (tier, dayLabel lo) ∉ s.done) :
    Step cfg s .clear ((s.goto (.chunk tier lo .backfilling)).withFiles (tier, dayLabel lo)
      { s.files (tier, dayLabel lo) with capture := none })
  | list {tier lo} (tickers : List String) (hrun : s.run = some (.chunk tier lo .backfilling))
      (hnodup : tickers.Nodup)
      (harchive : tier = .archive →
        s.metaTorn = false ∧ tickers = s.archived lo (cfg.chunkEnd lo)) :
    Step cfg s (.list tickers)
      { (s.goto (.chunk tier lo (.fetching tickers))).withFiles (tier, dayLabel lo)
          { s.files (tier, dayLabel lo) with capture := some [] } with
        answers := Function.update s.answers (tier, dayLabel lo) (some []) }
  | fetch {tier lo t todo capture answers} (trades : List String)
      (hrun : s.run = some (.chunk tier lo (.fetching (t :: todo))))
      (hcapture : (s.files (tier, dayLabel lo)).capture = some capture)
      (hanswers : s.answers (tier, dayLabel lo) = some answers) :
    Step cfg s (.fetch trades)
      { (s.goto (.chunk tier lo (.fetching todo))).withFiles (tier, dayLabel lo)
          { s.files (tier, dayLabel lo) with
            capture := some (if trades = [] then capture else capture ++ [(t, trades)]) } with
        answers := Function.update s.answers (tier, dayLabel lo) (some (answers ++ [(t, trades)])) }
  | fetched {tier lo capture} (hrun : s.run = some (.chunk tier lo (.fetching [])))
      (hcapture : (s.files (tier, dayLabel lo)).capture = some capture) :
    Step cfg s .fetched
      (s.goto (.chunk tier lo (if capture = [] then .removing else .processing capture)))
  | process {tier lo d todo} (hrun : s.run = some (.chunk tier lo (.processing (d :: todo)))) :
    Step cfg s .process ((s.goto (.chunk tier lo (.processing todo))).withFiles (tier, dayLabel lo)
      { s.files (tier, dayLabel lo) with
        processed := (s.files (tier, dayLabel lo)).processed.put d })
  | tar {tier lo} (hrun : s.run = some (.chunk tier lo (.processing []))) :
    Step cfg s .tar ((s.goto (.chunk tier lo .uploading)).withFiles (tier, dayLabel lo)
      { s.files (tier, dayLabel lo) with tar := some (s.files (tier, dayLabel lo)).processed })
  | upload {tier lo tarball} (hrun : s.run = some (.chunk tier lo .uploading))
      (htar : (s.files (tier, dayLabel lo)).tar = some tarball) :
    Step cfg s .upload { s.goto (.chunk tier lo .verifying) with
      remote := Function.update s.remote (tier, dayLabel lo) (some tarball) }
  | verify {tier lo} (hrun : s.run = some (.chunk tier lo .verifying))
      (hthere : (s.remote (tier, dayLabel lo)).isSome) :
    Step cfg s .verify (s.goto (.chunk tier lo .removing))
  | remove {tier lo} (left : ChunkFiles) (hrun : s.run = some (.chunk tier lo .removing))
      (hleft : left.tickers ⊆ (s.files (tier, dayLabel lo)).tickers) :
    Step cfg s (.remove left) (s.withFiles (tier, dayLabel lo) left)
  | removed {tier lo} (hrun : s.run = some (.chunk tier lo .removing)) :
    Step cfg s .removed
      ((s.goto (.chunk tier lo .recording)).withFiles (tier, dayLabel lo) .none)
  | record {tier lo} (hrun : s.run = some (.chunk tier lo .recording)) :
    Step cfg s .record { s.goto (.looping tier (cfg.chunkEnd lo)) with
      done := s.done ++ [(tier, dayLabel lo)] }
  | nextTier {lo} (hrun : s.run = some (.looping .archive lo)) (hend : cfg.maxClose ≤ lo) :
    Step cfg s .nextTier (s.goto (.entering .live))
  | finish {lo} (hrun : s.run = some (.looping .live lo)) (hend : cfg.maxClose ≤ lo) :
    Step cfg s .finish { s with run := none }
  | die {p} (torn : Bool) (hrun : s.run = some p) (htorn : torn = true → p.isEnumerating) :
    Step cfg s (.die torn) { s with run := none, metaTorn := s.metaTorn || torn }

/-- The backfill under some settings. -/
def machine (cfg : StreamSettings) : Machine StreamBackfill Action := ⟨.empty, Step cfg⟩

/-- The enumeration is not ended while it is being written. -/
def Undisturbed (s : StreamBackfill) : Action → Prop
  | .die _ => ∀ todo, s.run ≠ some (.enumerating todo)
  | _ => True

/-- Two days, on each of which one market with one trade closes. -/
def streamDays : StreamSettings := ⟨0, 172800, 1⟩

def streamMarkets : List MarketLine := [⟨"A", some 5, true⟩, ⟨"B", some 86405, true⟩]

/-- A first run over those days dies with the first tarball made, and a second one goes to the end. -/
theorem exists_streamed : ∃ s₀ s₁ s₂ s₃ : StreamBackfill,
    (machine streamDays).Reachable Undisturbed s₀ ∧ s₀.run = none ∧
    s₀.files (.archive, 0) ≠ .none ∧
    (machine streamDays).Reachable Undisturbed s₁ ∧ (.archive, 0) ∈ s₁.done ∧
    s₁.files (.archive, 1) ≠ .none ∧
    (machine streamDays).Reachable Undisturbed s₂ ∧ Step streamDays s₂ .finish s₃ ∧
    [(.archive, 0), (.archive, 1)] ⊆ s₂.done ∧ s₃.listed = streamMarkets := by
  have h : (machine streamDays).Reachable Undisturbed .empty := .init
  have h := h.step (Step.enumerate streamMarkets rfl rfl (by decide)) trivial
  have h := h.step (Step.writeMeta rfl) trivial
  have h := h.step (Step.writeMeta rfl) trivial
  have h := h.step (Step.enumerated rfl) trivial
  have h := h.step (Step.enter rfl fun _ => rfl) trivial
  have h := h.step (Step.clear rfl (by decide) (by decide)) trivial
  have h := h.step (Step.list ["A"] rfl (by decide) fun _ => ⟨rfl, by decide⟩) trivial
  have h := h.step (Step.fetch ["1"] rfl rfl rfl) trivial
  have h := h.step (Step.fetched rfl rfl) trivial
  have h := h.step (Step.process rfl) trivial
  have h := h.step (Step.tar rfl) trivial
  have h₀ := h.step (Step.die false rfl nofun) (by rintro todo ⟨⟩)
  -- The second run does the first day again.
  have h := h₀.step (Step.start [] rfl rfl) trivial
  have h := h.step (Step.enter rfl fun _ => rfl) trivial
  have h := h.step (Step.clear rfl (by decide) (by decide)) trivial
  have h := h.step (Step.list ["A"] rfl (by decide) fun _ => ⟨rfl, by decide⟩) trivial
  have h := h.step (Step.fetch ["1"] rfl rfl rfl) trivial
  have h := h.step (Step.fetched rfl rfl) trivial
  have h := h.step (Step.process rfl) trivial
  have h := h.step (Step.tar rfl) trivial
  have h := h.step (Step.upload rfl rfl) trivial
  have h := h.step (Step.verify rfl rfl) trivial
  have h := h.step (Step.removed rfl) trivial
  have h := h.step (Step.record rfl) trivial
  have h := h.step (Step.clear rfl (by decide) (by decide)) trivial
  have h := h.step (Step.list ["B"] rfl (by decide) fun _ => ⟨rfl, by decide⟩) trivial
  have h₁ := h.step (Step.fetch ["2"] rfl rfl rfl) trivial
  have h := h₁.step (Step.fetched rfl rfl) trivial
  have h := h.step (Step.process rfl) trivial
  have h := h.step (Step.tar rfl) trivial
  have h := h.step (Step.upload rfl rfl) trivial
  have h := h.step (Step.verify rfl rfl) trivial
  have h := h.step (Step.removed rfl) trivial
  have h := h.step (Step.record rfl) trivial
  -- The live tier has no markets of these days.
  have h := h.step (Step.nextTier rfl (by decide)) trivial
  have h := h.step (Step.enter rfl nofun) trivial
  have h := h.step (Step.clear rfl (by decide) (by decide)) trivial
  have h := h.step (Step.list [] rfl (by decide) nofun) trivial
  have h := h.step (Step.fetched rfl rfl) trivial
  have h := h.step (Step.removed rfl) trivial
  have h := h.step (Step.record rfl) trivial
  have h := h.step (Step.clear rfl (by decide) (by decide)) trivial
  have h := h.step (Step.list [] rfl (by decide) nofun) trivial
  have h := h.step (Step.fetched rfl rfl) trivial
  have h := h.step (Step.removed rfl) trivial
  have h := h.step (Step.record rfl) trivial
  exact ⟨_, _, _, _, h₀, rfl, by decide, h₁, by decide, by decide, h, Step.finish rfl (by decide),
    by decide, rfl⟩

end StreamBackfill

end Snapevent
