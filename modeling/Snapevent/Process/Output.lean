import Mathlib.Logic.Function.Basic
import Snapevent.Process.Collected

/-!
# The output directory of a ticker

The files a run leaves (`process.rs`, `writer.rs`, `manifest.rs`).  Four tables and the manifest are
always written, the raw and verify tables and the read errors only when they have rows, and no file
is ever removed.  A directory maps names to contents; the versions, the source directory and the
clock reading of a manifest are left out.
-/

namespace Snapevent

/-- Output columnar format. -/
inductive Format
  | parquet
  | feather
  deriving DecidableEq, Repr

/-- The extension of a format, without the dot. -/
def Format.extension : Format → String
  | parquet => "parquet"
  | feather => "feather"

/-- What a manifest says. -/
structure Manifest where
  ticker : String
  format : String
  sourceFiles : List SourceFile
  recvExtent : Extent
  counts : Counts
  readErrors : ℕ
  complete : Bool
  notes : List String
  twoSided : Bool
  twoSidedSnapshots : ℕ
  verifyChecks : ℕ
  verifyMismatches : ℕ
  verifySkipped : ℕ
  underflows : ℕ
  spanUs : Option ℤ
  holeUs : Option ℤ

/-- The content of an output file. -/
inductive OutputFile
  | bookEvents (rows : BookEventsTable)
  | bookTop (rows : BookTopTable)
  | trades (rows : TradesTable)
  | gaps (rows : GapsTable)
  | raw (rows : RawTable)
  | verify (rows : List VerifyOutcomeRow)
  | readErrors (errors : List ReadError)
  | manifest (m : Manifest)

/-- The files of one directory. -/
abbrev OutputDir := String → Option OutputFile

namespace TickerOutput

variable (format : Format) (out : TickerOutput)

/-- The advisories of a manifest. -/
def notes : List String :=
  let ext := format.extension
  let counts := out.outcome.counts
  (if 0 < counts.gaps then
    [toString counts.gaps ++ " gap marker(s) recorded in gaps." ++ ext ++
      "; holes are expected and preserved"] else []) ++
  (if 0 < counts.raw then
    [toString counts.raw ++ " raw fallback(s) preserved in raw." ++ ext ++
      " (undecoded at capture); review before deleting the source"] else []) ++
  (if out.readErrors.isEmpty then [] else
    [toString out.readErrors.length ++ " unreadable line(s) saved to read_errors.jsonl; " ++
      "investigate before deleting the source"]) ++
  (if 0 < out.verifyMismatches then
    [toString out.verifyMismatches ++ " verify mismatch(es): the replayed book diverged from the " ++
      "venue's REST orderbook at those instants; see verify." ++ ext ++
      " + the verify_mismatch gaps rows"] else []) ++
  (if 0 < out.underflows then
    [toString out.underflows ++ " book underflow(s): deltas drove levels strictly below zero " ++
      "during replay -- consistency signal, see manifest"] else []) ++
  [if out.outcome.complete then
    "all source records decoded into the structured tables; the raw capture files are safe to " ++
      "drop once these outputs are verified"
  else "output is INCOMPLETE (raw fallbacks and/or read errors present); do NOT delete the raw " ++
    "capture files until the items above are reviewed"]

def manifest : Manifest :=
  { ticker := out.outcome.ticker, format := format.extension, sourceFiles := out.sourceFiles
    recvExtent := out.recvExtent, counts := out.outcome.counts
    readErrors := out.readErrors.length, complete := out.outcome.complete
    notes := out.notes format, twoSided := 0 < out.twoSidedSnapshots
    twoSidedSnapshots := out.twoSidedSnapshots, verifyChecks := out.verifyChecks
    verifyMismatches := out.verifyMismatches, verifySkipped := out.verifySkipped
    underflows := out.underflows, spanUs := out.spanUs, holeUs := out.holeUs }

/-- The files of a run in the order they are written. -/
def writes : List (String × OutputFile) :=
  let ext := format.extension
  [("book_events." ++ ext, .bookEvents out.bookEvents), ("book_top." ++ ext, .bookTop out.bookTop),
    ("trades." ++ ext, .trades out.trades), ("gaps." ++ ext, .gaps out.gaps)] ++
  (if 0 < out.outcome.counts.raw then [("raw." ++ ext, .raw out.raw)] else []) ++
  (if 0 < out.outcome.counts.verify then [("verify." ++ ext, .verify out.verify)] else []) ++
  (if out.readErrors.isEmpty then [] else [("read_errors.jsonl", .readErrors out.readErrors)]) ++
  [("manifest.json", .manifest (out.manifest format))]

end TickerOutput

/-- Write files one after another, each over what had its name. -/
def writeFiles (dir : OutputDir) (files : List (String × OutputFile)) : OutputDir :=
  files.foldl (fun dir f => Function.update dir f.1 (some f.2)) dir

/-- The capture files of a ticker. -/
structure TickerCapture where
  orderbookFiles : List CaptureFile
  tradeFiles : List CaptureFile

/-- Process a capture into a directory; every failure comes before the first write. -/
def processInto (format : Format) (ticker : String) (c : TickerCapture) (dir : OutputDir) :
    Except String (Option TickerOutcome) × OutputDir :=
  match processTicker ticker c.orderbookFiles c.tradeFiles with
  | .error e => (.error e, dir)
  | .ok none => (.ok none, dir)
  | .ok (some out) => (.ok (some out.outcome), writeFiles dir (out.writes format))

/-- A directory without files. -/
def emptyDir : OutputDir := fun _ => none

/-- What runs on some versions of a capture leave, one after another. -/
def processAll (format : Format) (ticker : String) (history : List TickerCapture) : OutputDir :=
  history.foldl (fun dir c => (processInto format ticker c dir).2) emptyDir

/-! ## Stale files -/

/-- The files other than the manifest. -/
def dataFiles (dir : OutputDir) : OutputDir :=
  fun name => if name = "manifest.json" then none else dir name

/-- The files that are written on demand are there when the manifest beside them counts rows. -/
def ManifestAgrees (format : Format) (dir : OutputDir) : Prop :=
  ∀ m, dir "manifest.json" = some (.manifest m) →
    ((dir ("raw." ++ format.extension)).isSome ↔ 0 < m.counts.raw) ∧
    ((dir ("verify." ++ format.extension)).isSome ↔ 0 < m.counts.verify) ∧
    ((dir "read_errors.jsonl").isSome ↔ 0 < m.readErrors)

/-- After a run the data files are those of a run into an empty directory, and agree with the
manifest. -/
structure NoStaleOutput (format : Format) (ticker : String) (dir : OutputDir) (c : TickerCapture) :
    Prop where
  fresh : dataFiles (processInto format ticker c dir).2 =
    dataFiles (processInto format ticker c emptyDir).2
  agrees : ManifestAgrees format (processInto format ticker c dir).2

namespace TickerCapture

variable (c : TickerCapture)

/-- What is read from the files. -/
def items : List ReadItem := readItems c.orderbookFiles ++ readItems c.tradeFiles

/-- Some record is a raw fallback. -/
def HasRaw : Prop := ∃ env r, Except.ok env ∈ c.items ∧ env.kind = .raw r

/-- Some record is a verify observation. -/
def HasVerify : Prop := ∃ env v, Except.ok env ∈ c.items ∧ env.kind = .verify v

/-- Some line cannot be decoded. -/
def HasUnreadable : Prop := ∃ e, Except.error e ∈ c.items

/-- The data files of a run on the capture. -/
def Writes (format : Format) (name : String) : Prop :=
  name ∈ ["book_events.", "book_top.", "trades.", "gaps."].map (· ++ format.extension) ∨
    (name = "raw." ++ format.extension ∧ c.HasRaw) ∨
    (name = "verify." ++ format.extension ∧ c.HasVerify) ∨
    (name = "read_errors.jsonl" ∧ c.HasUnreadable)

/-- The capture is processed without an error. -/
def Succeeds (ticker : String) : Prop :=
  ∃ out, processTicker ticker c.orderbookFiles c.tradeFiles = .ok (some out)

end TickerCapture

/-! ## What writing changes -/

section WriteFiles

variable {dir : OutputDir} {files : List (String × OutputFile)} {name : String}

theorem writeFiles_of_notMem (h : name ∉ files.map Prod.fst) :
    writeFiles dir files name = dir name := by
  induction files generalizing dir with
  | nil => rfl
  | cons f files ih =>
    rw [List.map_cons, List.mem_cons, not_or] at h
    rw [writeFiles, List.foldl_cons]
    exact (ih h.2).trans (Function.update_of_ne h.1 _ _)

theorem writeFiles_of_mem (h : name ∈ files.map Prod.fst) (dir' : OutputDir) :
    writeFiles dir files name = writeFiles dir' files name := by
  induction files generalizing dir dir' with
  | nil => cases h
  | cons f files ih =>
    rw [writeFiles, writeFiles, List.foldl_cons, List.foldl_cons]
    by_cases hlater : name ∈ files.map Prod.fst
    · exact ih hlater _
    · obtain rfl : name = f.1 := (List.mem_cons.mp h).resolve_right hlater
      refine (writeFiles_of_notMem hlater).trans ?_
      refine Eq.trans ?_ (writeFiles_of_notMem hlater).symm
      rw [Function.update_self, Function.update_self]

theorem isSome_writeFiles :
    (writeFiles dir files name).isSome ↔ name ∈ files.map Prod.fst ∨ (dir name).isSome := by
  induction files generalizing dir with
  | nil => simp [writeFiles]
  | cons f files ih =>
    rw [writeFiles, List.foldl_cons]
    refine ih.trans ?_
    by_cases hname : name = f.1
    · simp [hname]
    · simp [hname]

end WriteFiles

/-! ## What a run writes -/

section Writes

variable {ticker : String} {c : TickerCapture} {out : TickerOutput}

theorem flatMap_ne_nil {α β : Type*} {f : α → List β} {l : List α} :
    l.flatMap f ≠ [] ↔ ∃ a ∈ l, f a ≠ [] := by
  simp

theorem rawRows_ne_nil {channel : String} {i : ReadItem} :
    rawRows channel i ≠ [] ↔ ∃ env r, i = .ok env ∧ env.kind = .raw r := by
  cases i with
  | error e => simp [rawRows]
  | ok env => cases hk : env.kind <;> simp [rawRows, hk]

theorem observationsOf_ne_nil {i : ReadItem} :
    observationsOf i ≠ [] ↔ ∃ env v, i = .ok env ∧ env.kind = .verify v := by
  cases i with
  | error e => simp [observationsOf]
  | ok env => cases hk : env.kind <;> simp [observationsOf, hk]

theorem readErrorsOf_ne_nil {i : ReadItem} : readErrorsOf i ≠ [] ↔ ∃ e, i = .error e := by
  cases i with
  | error e => simp [readErrorsOf]
  | ok env => simp [readErrorsOf]

section Processed

variable (h : processTicker ticker c.orderbookFiles c.tradeFiles = .ok (some out))

include h

theorem raw_pos_iff : 0 < out.outcome.counts.raw ↔ c.HasRaw := by
  have hcount : out.outcome.counts.raw = out.raw.length := by
    obtain ⟨st, -, rfl⟩ := processTicker_eq_some h
    rfl
  have hitems : out.raw ≠ [] ↔ ∃ i ∈ c.items, ∃ env r, i = .ok env ∧ env.kind = .raw r := by
    rw [(accounts_of_processTicker h).raw, ne_eq, List.append_eq_nil_iff, not_and_or, ← ne_eq,
      ← ne_eq, flatMap_ne_nil, flatMap_ne_nil]
    simp only [rawRows_ne_nil, TickerCapture.items, List.mem_append, or_and_right, exists_or]
  rw [hcount, List.length_pos_iff, hitems]
  constructor
  · rintro ⟨_, hmem, env, r, rfl, hk⟩
    exact ⟨env, r, hmem, hk⟩
  · rintro ⟨env, r, hmem, hk⟩
    exact ⟨_, hmem, env, r, rfl, hk⟩

theorem verify_pos_iff : 0 < out.outcome.counts.verify ↔ c.HasVerify := by
  have hcount : out.outcome.counts.verify = (out.verify.map (·.observation)).length := by
    obtain ⟨st, -, rfl⟩ := processTicker_eq_some h
    exact (List.length_map _).symm
  rw [hcount, List.length_pos_iff, (accounts_of_processTicker h).verify, flatMap_ne_nil]
  simp only [observationsOf_ne_nil]
  constructor
  · rintro ⟨_, hmem, env, v, rfl, hk⟩
    exact ⟨env, v, hmem, hk⟩
  · rintro ⟨env, v, hmem, hk⟩
    exact ⟨_, hmem, env, v, rfl, hk⟩

theorem readErrors_ne_nil_iff : out.readErrors ≠ [] ↔ c.HasUnreadable := by
  rw [(accounts_of_processTicker h).readErrors, flatMap_ne_nil]
  simp only [readErrorsOf_ne_nil]
  constructor
  · rintro ⟨_, hmem, e, rfl⟩
    exact ⟨e, hmem⟩
  · rintro ⟨e, hmem⟩
    exact ⟨_, hmem, e, rfl⟩

theorem mem_writes_iff {format : Format} {name : String} :
    name ∈ (out.writes format).map Prod.fst ↔ c.Writes format name ∨ name = "manifest.json" := by
  have herrors : ¬ out.readErrors.isEmpty = true ↔ c.HasUnreadable := by
    rw [List.isEmpty_iff]
    exact readErrors_ne_nil_iff h
  have hif {p : Prop} [Decidable p] (f : String × OutputFile) :
      name ∈ (if p then [f] else []).map Prod.fst ↔ name = f.1 ∧ p := by
    split_ifs with hp <;> simp [hp]
  have hif' {p : Prop} [Decidable p] (f : String × OutputFile) :
      name ∈ (if p then [] else [f]).map Prod.fst ↔ name = f.1 ∧ ¬ p := by
    split_ifs with hp <;> simp [hp]
  simp only [TickerOutput.writes, List.map_append, List.mem_append, hif, hif', raw_pos_iff h,
    verify_pos_iff h, herrors, TickerCapture.Writes, or_assoc]
  simp

end Processed

end Writes

/-! ## The names on demand -/

section Names

variable {c : TickerCapture} {format : Format}

theorem writes_raw_iff : c.Writes format ("raw." ++ format.extension) ↔ c.HasRaw := by
  cases format <;> simp [TickerCapture.Writes, Format.extension]

theorem writes_verify_iff : c.Writes format ("verify." ++ format.extension) ↔ c.HasVerify := by
  cases format <;> simp [TickerCapture.Writes, Format.extension]

theorem writes_readErrors_iff : c.Writes format "read_errors.jsonl" ↔ c.HasUnreadable := by
  cases format <;> simp [TickerCapture.Writes, Format.extension]

theorem onDemand_ne_manifest (format : Format) : "raw." ++ format.extension ≠ "manifest.json" ∧
    "verify." ++ format.extension ≠ "manifest.json" ∧ "read_errors.jsonl" ≠ "manifest.json" := by
  cases format <;> decide

theorem not_writes_manifest : ¬ c.Writes format "manifest.json" := by
  cases format <;> simp [TickerCapture.Writes, Format.extension]

/-- The captures differ in the files on demand only. -/
theorem writes_subset_iff (format : Format) {c' : TickerCapture} :
    (∀ name, c.Writes format name → c'.Writes format name) ↔
      (c.HasRaw → c'.HasRaw) ∧ (c.HasVerify → c'.HasVerify) ∧
        (c.HasUnreadable → c'.HasUnreadable) := by
  constructor
  · intro h
    exact ⟨fun hc => writes_raw_iff.mp (h _ (writes_raw_iff.mpr hc)),
      fun hc => writes_verify_iff.mp (h _ (writes_verify_iff.mpr hc)),
      fun hc => writes_readErrors_iff.mp (h _ (writes_readErrors_iff.mpr hc))⟩
  · rintro ⟨hraw, hverify, hunreadable⟩ name (htable | ⟨hname, hc⟩ | ⟨hname, hc⟩ | ⟨hname, hc⟩)
    · exact Or.inl htable
    · exact Or.inr (Or.inl ⟨hname, hraw hc⟩)
    · exact Or.inr (Or.inr (Or.inl ⟨hname, hverify hc⟩))
    · exact Or.inr (Or.inr (Or.inr ⟨hname, hunreadable hc⟩))

end Names

/-! ## When nothing stale is left -/

section NoStale

variable {format : Format} {ticker : String} {c : TickerCapture} {out : TickerOutput}

theorem processInto_eq (h : processTicker ticker c.orderbookFiles c.tradeFiles = .ok (some out))
    (dir : OutputDir) : (processInto format ticker c dir).2 = writeFiles dir (out.writes format) := by
  rw [processInto, h]

/-- The file names of a directory after a run. -/
theorem isSome_processInto (dir : OutputDir) (name : String) :
    ((processInto format ticker c dir).2 name).isSome ↔
      (c.Succeeds ticker ∧ (c.Writes format name ∨ name = "manifest.json")) ∨
        (dir name).isSome := by
  cases h : processTicker ticker c.orderbookFiles c.tradeFiles with
  | error e => simp [processInto, TickerCapture.Succeeds, h]
  | ok result =>
    cases result with
    | none => simp [processInto, TickerCapture.Succeeds, h]
    | some out =>
      have hok : c.Succeeds ticker := ⟨out, h⟩
      rw [processInto_eq h, isSome_writeFiles, mem_writes_iff h, and_iff_right hok]

theorem isSome_processAll (history : List TickerCapture) (name : String) :
    (processAll format ticker history name).isSome ↔
      ∃ c ∈ history, c.Succeeds ticker ∧ (c.Writes format name ∨ name = "manifest.json") := by
  have hfrom (dir : OutputDir) :
      ((history.foldl (fun dir c => (processInto format ticker c dir).2) dir) name).isSome ↔
        (∃ c ∈ history, c.Succeeds ticker ∧ (c.Writes format name ∨ name = "manifest.json")) ∨
          (dir name).isSome := by
    induction history generalizing dir with
    | nil => simp
    | cons c history ih =>
      rw [List.foldl_cons, ih, isSome_processInto, List.exists_mem_cons_iff, ← or_assoc]
      exact or_congr_left or_comm
  rw [processAll, hfrom]
  simp [emptyDir]

variable (h : processTicker ticker c.orderbookFiles c.tradeFiles = .ok (some out))

include h

/-- The data files are those of a fresh run when the run writes over every file it finds. -/
theorem dataFiles_eq_iff (dir : OutputDir) :
    dataFiles (processInto format ticker c dir).2 =
        dataFiles (processInto format ticker c emptyDir).2 ↔
      ∀ name, (dir name).isSome → c.Writes format name ∨ name = "manifest.json" := by
  rw [processInto_eq h, processInto_eq h]
  constructor
  · intro heq name hsome
    by_contra hnot
    have hname := congrFun heq name
    rw [← mem_writes_iff h] at hnot
    have hmanifest : name ≠ "manifest.json" := fun heq =>
      hnot ((mem_writes_iff h).mpr (Or.inr heq))
    rw [dataFiles, dataFiles, if_neg hmanifest, if_neg hmanifest, writeFiles_of_notMem hnot,
      writeFiles_of_notMem hnot] at hname
    rw [hname] at hsome
    cases hsome
  · intro hover
    funext name
    rw [dataFiles, dataFiles]
    split_ifs with hmanifest
    · rfl
    · by_cases hmem : name ∈ (out.writes format).map Prod.fst
      · exact writeFiles_of_mem hmem emptyDir
      · rw [writeFiles_of_notMem hmem, writeFiles_of_notMem hmem]
        cases hdir : dir name with
        | none => rfl
        | some f => exact absurd ((mem_writes_iff h).mpr (hover name (by rw [hdir]; rfl))) hmem

theorem processInto_manifest (dir : OutputDir) :
    (processInto format ticker c dir).2 "manifest.json" =
      some (.manifest (out.manifest format)) := by
  rw [processInto_eq h, TickerOutput.writes, writeFiles, List.foldl_append, List.foldl_cons,
    List.foldl_nil, Function.update_self]

/-- Files that are those of a fresh run agree with the manifest. -/
theorem manifestAgrees_of_eq {dir : OutputDir}
    (heq : dataFiles (processInto format ticker c dir).2 =
      dataFiles (processInto format ticker c emptyDir).2) :
    ManifestAgrees format (processInto format ticker c dir).2 := by
  have hok : c.Succeeds ticker := ⟨out, h⟩
  have hfile {name : String} (hname : name ≠ "manifest.json") :
      ((processInto format ticker c dir).2 name).isSome ↔ c.Writes format name := by
    have hfresh := congrFun heq name
    rw [dataFiles, dataFiles, if_neg hname, if_neg hname] at hfresh
    rw [hfresh, isSome_processInto]
    simp [emptyDir, hok, hname]
  obtain ⟨hraw, hverify, herrors⟩ := onDemand_ne_manifest format
  intro m hm
  rw [processInto_manifest h] at hm
  cases hm
  rw [hfile hraw, hfile hverify, hfile herrors, writes_raw_iff, writes_verify_iff,
    writes_readErrors_iff, ← raw_pos_iff h, ← verify_pos_iff h, ← readErrors_ne_nil_iff h,
    ← List.length_pos_iff]
  exact ⟨Iff.rfl, Iff.rfl, Iff.rfl⟩

theorem noStaleOutput_iff (dir : OutputDir) : NoStaleOutput format ticker dir c ↔
    ∀ name, (dir name).isSome → c.Writes format name ∨ name = "manifest.json" := by
  rw [← dataFiles_eq_iff h]
  exact ⟨fun hstale => hstale.fresh, fun heq => ⟨heq, manifestAgrees_of_eq h heq⟩⟩

end NoStale

/-- A run leaves nothing stale in a directory exactly when it writes over every data file it finds
there.  After earlier runs in its format that is so exactly when its capture has a raw fallback, a
verify record and an unreadable line whenever one of the captures they succeeded on had one. -/
theorem reprocess_no_stale_output (format : Format) (ticker : String) (current : TickerCapture)
    (hok : current.Succeeds ticker) :
    (∀ dir, NoStaleOutput format ticker dir current ↔
      ∀ name, (dir name).isSome → current.Writes format name ∨ name = "manifest.json") ∧
    ∀ history, NoStaleOutput format ticker (processAll format ticker history) current ↔
      ∀ c ∈ history, c.Succeeds ticker → (c.HasRaw → current.HasRaw) ∧
        (c.HasVerify → current.HasVerify) ∧ (c.HasUnreadable → current.HasUnreadable) := by
  obtain ⟨out, h⟩ := hok
  refine ⟨noStaleOutput_iff h, fun history => ?_⟩
  rw [noStaleOutput_iff h]
  simp only [isSome_processAll]
  constructor
  · intro hover c hc hsucceeds
    refine (writes_subset_iff format).mp fun name hwrites => ?_
    have hwritten := hover name ⟨c, hc, hsucceeds, Or.inl hwrites⟩
    exact hwritten.resolve_right fun hname => not_writes_manifest (hname ▸ hwrites)
  · rintro hsubset name ⟨c, hc, hsucceeds, hwrites | hname⟩
    · exact Or.inl ((writes_subset_iff format).mpr (hsubset c hc hsucceeds) name hwrites)
    · exact Or.inr hname

/-- A capture with a gap marker, as one line. -/
def markerCapture : TickerCapture :=
  { orderbookFiles := [{
      path := "orderbook/2026-07-03.jsonl"
      lines := [.text "\x7b\x7d" (.ok (.new epoch none none (.gap
        { reason := .reconnect, ticker := ⟨"A"⟩, channel := "orderbook", lastSeq := none
          observedSeq := none, detail := "" })))] }]
    tradeFiles := [] }

/-- That capture while its line is being written. -/
def tornCapture : TickerCapture :=
  { orderbookFiles := [{
      path := "orderbook/2026-07-03.jsonl"
      lines := [.text "\x7b" (.error "EOF while parsing an object")] }]
    tradeFiles := [] }

/-- A capture with a raw fallback and a verify observation. -/
def mixedCapture : TickerCapture :=
  { orderbookFiles := [{
      path := "orderbook/2026-07-03.jsonl"
      lines := [
        .text "\x7b\x7d" (.ok (.new epoch none none (.raw
          { rawType := some "orderbook_delta", ticker := some ⟨"A"⟩, error := "missing field side"
            payload := .null }))),
        .text "\x7b\x7d" (.ok (.new epoch none none (.verify
          { ticker := ⟨"A"⟩, ts := epoch, yes := [], no := [] })))] }]
    tradeFiles := [] }

theorem reprocess_no_stale_output_mixed :
    NoStaleOutput .parquet "A" (processAll .parquet "A" [markerCapture, mixedCapture])
      mixedCapture := by
  have hraw : mixedCapture.HasRaw := ⟨_, _, List.mem_of_getElem? (i := 0) rfl, rfl⟩
  have hverify : mixedCapture.HasVerify := ⟨_, _, List.mem_of_getElem? (i := 1) rfl, rfl⟩
  have hread : ∀ c ∈ [markerCapture, mixedCapture], c.items.all (·.isOk) = true := by decide
  have hwhole : ∀ c ∈ [markerCapture, mixedCapture], ¬ c.HasUnreadable := by
    rintro c hc ⟨e, he⟩
    exact Bool.false_ne_true (List.all_eq_true.1 (hread c hc) _ he)
  exact ((reprocess_no_stale_output .parquet "A" mixedCapture ⟨_, rfl⟩).2 _).mpr
    fun c hc _ => ⟨fun _ => hraw, fun _ => hverify, fun h => absurd h (hwhole c hc)⟩

/-- The read errors of a capture that was processed with a torn line stay when the line is whole. -/
theorem reprocess_keeps_read_errors :
    ¬ ∀ (format : Format) (ticker : String) (history : List TickerCapture)
      (current : TickerCapture), current.Succeeds ticker →
      NoStaleOutput format ticker (processAll format ticker history) current := by
  intro h
  have hfresh := (h .parquet "A" [tornCapture] markerCapture ⟨_, rfl⟩).fresh
  have hfile := congrArg Option.isSome (congrFun hfresh "read_errors.jsonl")
  exact absurd hfile (by decide)

end Snapevent
