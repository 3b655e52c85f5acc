import Snapevent.Core.Stored
import Snapevent.Load.Replay

/-!
# The manifest at open time

What the loader reads of `manifest.json` and how it decides whether a directory is complete
(`manifest.rs`, `Loader::open`).  Members it does not act on are skipped.  The texts of the
decoder's errors and the quoted form of a text are parameters.
-/

namespace Snapevent

/-- The newest processed schema that is read. -/
def SUPPORTED_SCHEMA_VERSION : ℕ := 1

/-- The part of a manifest the loader acts on. -/
structure LoadManifest where
  schemaVersion : UInt16
  ticker : String
  format : String
  complete : Bool
  readErrors : UInt64
  counts : List (String × UInt64)
  deriving DecidableEq

/-- The texts of the errors of `open`. -/
structure ManifestTexts where
  decode : String → String
  quoted : String → String

/-- The value a map holds for a key; of repeated keys the last counts. -/
def lastOf {α : Type} (key : String) (members : List (String × α)) : Option α :=
  members.reverse.lookup key

/-! ## Reading -/

def manifestKeys : List String :=
  ["schema_version", "ticker", "format", "complete", "read_errors", "counts"]

/-- The members of a manifest: those with known keys stand once, an array lists them in order. -/
def manifestFields : Json → Option (List (String × Json))
  | .object members =>
    if ∀ key ∈ manifestKeys, (members.map (·.1)).count key ≤ 1 then some members else none
  | .array xs => if xs.length ≤ manifestKeys.length then some (manifestKeys.zip xs) else none
  | _ => none

/-- A field that has a default when it is missing. -/
def defaulted {α : Type} (fields : List (String × Json)) (key : String) (read : Json → Option α)
    (default : α) : Option α :=
  match fields.lookup key with
  | none => some default
  | some v => read v

def readBool : Json → Option Bool
  | .bool b => some b
  | _ => none

/-- A map from texts. -/
def readMap {α : Type} (read : Json → Option α) : Json → Option (List (String × α))
  | .object members => members.mapM fun m => (read m.2).map (Prod.mk m.1)
  | _ => none

def JsonLib.readManifest (lib : JsonLib) (v : Json) : Option LoadManifest := do
  let fields ← manifestFields v
  return { schemaVersion := ← required fields "schema_version" lib.readU16
           ticker := ← required fields "ticker" readString
           format := ← required fields "format" readString
           complete := ← required fields "complete" readBool
           readErrors := ← defaulted fields "read_errors" lib.readU64 0
           counts := ← defaulted fields "counts" (readMap lib.readU64) [] }

namespace LoadManifest

variable (m : LoadManifest)

/-- A manifest of an unknown schema or of tables in another format is refused. -/
def check (texts : ManifestTexts) (path : String) : Except LoadError LoadManifest :=
  if SUPPORTED_SCHEMA_VERSION < m.schemaVersion.toNat then
    .error (.unsupportedSchema m.schemaVersion.toNat SUPPORTED_SCHEMA_VERSION)
  else if m.format ≠ "parquet" then
    .error (.manifest path
      ("format " ++ texts.quoted m.format ++ " not supported (v1 reads parquet only)"))
  else .ok m

/-- Read and check the file at `path`. -/
def «open» (lib : JsonLib) (texts : ManifestTexts) (path : String) :
    Except String String → Except LoadError LoadManifest
  | .error source => .error (.io path source)
  | .ok text =>
    match (Json.parse text.toList).bind lib.readManifest with
    | none => .error (.manifest path (texts.decode text))
    | some m => m.check texts path

def raw : UInt64 := (lastOf "raw" m.counts).getD 0

/-- Why the directory is incomplete, if it is. -/
def completeness : Option (List String) :=
  if m.complete then none
  else
    let reasons :=
      (if 0 < m.readErrors then
        [toString m.readErrors.toNat ++ " undecodable source lines (read_errors.jsonl)"] else []) ++
      (if 0 < m.raw then [toString m.raw.toNat ++ " raw fallback records (raw table)"] else [])
    some (if reasons.isEmpty then ["manifest says complete=false"] else reasons)

end LoadManifest

/-- The tables of a processed directory. -/
structure ProcessedTables where
  gaps : RowSource GapRow
  book : RowSource BookEventRow
  trades : RowSource TradeRow

/-- Open a processed directory: its verdict is decided, nothing is acknowledged. -/
def Loader.open (lib : JsonLib) (texts : ManifestTexts) (dir : String)
    (manifest : Except String String) (tables : ProcessedTables) : Except LoadError Loader := do
  let m ← LoadManifest.open lib texts (dir ++ "/manifest.json") manifest
  return { gaps := tables.gaps, book := tables.book, trades := tables.trades
           incomplete := m.completeness, acknowledged := false }

/-! ## The verdict -/

namespace LoadManifest

variable {m : LoadManifest}

theorem completeness_eq_none : m.completeness = none ↔ m.complete = true := by
  rw [completeness]
  split_ifs with h
  · simp [h]
  · simp [h]

theorem ne_nil_of_completeness {reasons : List String} (h : m.completeness = some reasons) :
    reasons ≠ [] := by
  rw [completeness] at h
  split_ifs at h with hc
  all_goals
    cases h
    simp

theorem check_eq_ok {texts : ManifestTexts} {path : String} {m' : LoadManifest} :
    m.check texts path = .ok m' ↔
      m' = m ∧ m.schemaVersion.toNat ≤ SUPPORTED_SCHEMA_VERSION ∧ m.format = "parquet" := by
  rw [check]
  split_ifs with hv hf
  · simp [not_le.2 hv]
  · simp [hf]
  · rw [not_not] at hf
    simp [hf, not_lt.1 hv, eq_comm]

end LoadManifest

/-! ## Unknown members -/

theorem lookup_filter {α : Type} {key : String} {keys : List String} (h : key ∈ keys)
    (members : List (String × α)) :
    (members.filter (·.1 ∈ keys)).lookup key = members.lookup key := by
  induction members with
  | nil => rfl
  | cons m members ih =>
    obtain ⟨k, v⟩ := m
    rw [List.lookup_cons, List.filter_cons]
    by_cases hkey : key = k
    · have hmem : k ∈ keys := hkey ▸ h
      simp [hmem, hkey]
    · have hne : (key == k) = false := by simpa using hkey
      rw [hne]
      by_cases hmem : k ∈ keys
      · simpa [hmem, List.lookup_cons, hne] using ih
      · simpa [hmem] using ih

theorem count_filter_keys {α : Type} {key : String} {keys : List String} (h : key ∈ keys)
    (members : List (String × α)) :
    ((members.filter (·.1 ∈ keys)).map (·.1)).count key = (members.map (·.1)).count key := by
  induction members with
  | nil => rfl
  | cons m members ih =>
    rw [List.filter_cons]
    by_cases hmem : m.1 ∈ keys
    · simp only [hmem, decide_true, if_true, List.map_cons, List.count_cons, ih]
    · have hne : m.1 ≠ key := fun heq => hmem (heq ▸ h)
      simp only [hmem, decide_false, Bool.false_eq_true, if_false, List.map_cons, List.count_cons, ih]
      simp [hne]

/-- The reader does not see members it does not know. -/
theorem JsonLib.readManifest_filter (lib : JsonLib) {keys : List String}
    (h : ∀ key ∈ manifestKeys, key ∈ keys) (members : List (String × Json)) :
    lib.readManifest (.object (members.filter (·.1 ∈ keys))) =
      lib.readManifest (.object members) := by
  have hcount : (∀ key ∈ manifestKeys,
        ((members.filter (·.1 ∈ keys)).map (·.1)).count key ≤ 1) ↔
      ∀ key ∈ manifestKeys, (members.map (·.1)).count key ≤ 1 :=
    forall₂_congr fun key hkey => by rw [count_filter_keys (h key hkey)]
  rw [JsonLib.readManifest, JsonLib.readManifest, manifestFields, manifestFields]
  simp only [hcount]
  by_cases hdup : ∀ key ∈ manifestKeys, (members.map (·.1)).count key ≤ 1
  · rw [if_pos hdup, if_pos hdup]
    simp only [Option.bind_eq_bind, Option.bind_some, required, defaulted]
    rw [lookup_filter (h "schema_version" (by decide)), lookup_filter (h "ticker" (by decide)),
      lookup_filter (h "format" (by decide)), lookup_filter (h "complete" (by decide)),
      lookup_filter (h "read_errors" (by decide)), lookup_filter (h "counts" (by decide))]
  · rw [if_neg hdup, if_neg hdup]

end Snapevent
