import Snapevent.Load.Manifest
import Snapevent.Process.Output

/-!
# Two readers of one manifest

The dataset index of the Python package reads `manifest.json` with coercions where the Rust loader
reads it by type (`index.py`, `manifest.rs`).  Whatever the loader opens, the index lists with the
same verdict; what processing wrote, both refuse or accept for the same reason.  The event date of
an entry is left out.
-/

namespace Snapevent

/-- An integer of at most 4300 digits; a longer one raises a `ValueError` in Python. -/
def JsonNumber.shortInteger (n : JsonNumber) : Bool :=
  match n.read with
  | .natural k | .negated k => k < 10 ^ 4300
  | .decimal => true

/-- What `json.loads` raises. -/
inductive LoadsError
  | value
  | recursion
  deriving DecidableEq, Repr

/-- The parts of the Python library that are not computed here: a JSON text is read at least when it
is a document of short integers and of a nesting that the interpreter's stack holds; what `int`,
`str` and `bool` make of values that are not of the type. -/
structure PyLib where
  maxDepth : ℕ
  loads : String → Except LoadsError Json
  loads_eq : ∀ text v, Json.parse text.toList = some v → v.depth ≤ maxDepth →
    v.everyNumber JsonNumber.shortInteger = true → loads text = .ok v
  int : Json → Option ℤ
  str : Json → String
  bool : Json → Bool

namespace PyLib

variable (py : PyLib)

/-- `int(v)`. -/
def toInt (v : Json) : Option ℤ :=
  match v with
  | .number n =>
    match n.read with
    | .natural k => some k
    | .negated k => some (-k)
    | .decimal => py.int v
  | _ => py.int v

/-- `str(v)`. -/
def toStr : Json → String
  | .string s => s
  | v => py.str v

/-- `bool(v)`. -/
def toBool : Json → Bool
  | .bool b => b
  | v => py.bool v

end PyLib

/-- Why there is no entry; a `RecursionError` is not caught. -/
inductive IndexError
  | recursion
  | unreadable (path exc : String)
  | malformed (path : String)
  | unsupportedSchema (path : String) (found supported : ℤ)
  | unsupportedFormat (path fmt : String)
  deriving DecidableEq, Repr

/-- A processed directory as its manifest describes it. -/
structure IndexEntry where
  ticker : String
  path : String
  tables : List (String × ℤ)
  complete : Bool
  reasons : List String
  verifyChecks : Option ℤ
  verifyMismatches : Option ℤ
  underflows : Option ℤ
  deriving DecidableEq, Repr

namespace PyLib

variable (py : PyLib)

/-- A member as a number, or nothing when it is missing. -/
def optionalInt (raw : List (String × Json)) (key : String) : Option (Option ℤ) :=
  match lastOf key raw with
  | none => some none
  | some v => (py.toInt v).map some

/-- The fields of an entry and what the checks look at. -/
structure RawEntry where
  version : ℤ
  ticker : String
  fmt : String
  complete : Bool
  readErrors : ℤ
  counts : List (String × ℤ)
  verifyChecks : Option ℤ
  verifyMismatches : Option ℤ
  underflows : Option ℤ
  deriving DecidableEq

/-- The members that are looked at. -/
def rawEntry : Json → Option RawEntry
  | .object raw => do
    return { version := ← (lastOf "schema_version" raw).bind py.toInt
             ticker := ← (lastOf "ticker" raw).map py.toStr
             fmt := ← (lastOf "format" raw).map py.toStr
             complete := ← (lastOf "complete" raw).map py.toBool
             readErrors := ← (lastOf "read_errors" raw).bind py.toInt
             counts := ← (lastOf "counts" raw).bind (readMap py.toInt)
             verifyChecks := ← py.optionalInt raw "verify_checks"
             verifyMismatches := ← py.optionalInt raw "verify_mismatches"
             underflows := ← py.optionalInt raw "underflows" }
  | _ => none

namespace RawEntry

variable (e : RawEntry)

def raw : ℤ := (lastOf "raw" e.counts).getD 0

/-- Why the directory is incomplete. -/
def reasons : List String :=
  if e.complete then []
  else
    let reasons :=
      (if e.readErrors ≠ 0 then [toString e.readErrors ++ " read error(s)"] else []) ++
      (if e.raw ≠ 0 then [toString e.raw ++ " raw fallback record(s)"] else [])
    if reasons.isEmpty then ["manifest marked incomplete"] else reasons

end RawEntry

/-- Read and check the manifest of a directory. -/
def readEntry (dir : String) (file : Except String String) : Except IndexError IndexEntry :=
  let path := dir ++ "/manifest.json"
  match file with
  | .error exc => .error (.unreadable path exc)
  | .ok text =>
    match py.loads text with
    | .error .recursion => .error .recursion
    | .error .value => .error (.unreadable path "invalid JSON")
    | .ok v =>
      match py.rawEntry v with
      | none => .error (.malformed path)
      | some e =>
        if (SUPPORTED_SCHEMA_VERSION : ℤ) < e.version then
          .error (.unsupportedSchema dir e.version SUPPORTED_SCHEMA_VERSION)
        else if e.fmt ≠ "parquet" then .error (.unsupportedFormat path e.fmt)
        else .ok
          { ticker := e.ticker, path := dir, tables := e.counts, complete := e.complete
            reasons := e.reasons, verifyChecks := e.verifyChecks
            verifyMismatches := e.verifyMismatches, underflows := e.underflows }

end PyLib

/-! ## What the strict reader reads -/

theorem lastOf_eq_lookup {α : Type} {key : String} {members : List (String × α)}
    (h : (members.map (·.1)).count key ≤ 1) : lastOf key members = members.lookup key := by
  induction members with
  | nil => rfl
  | cons m members ih =>
    obtain ⟨k, v⟩ := m
    rw [lastOf, List.reverse_cons, List.lookup_append, List.lookup_cons]
    rw [List.map_cons, List.count_cons] at h
    by_cases hkey : key = k
    · subst hkey
      have hnone : key ∉ members.map (·.1) := by
        rw [← List.count_eq_zero]
        simp only [beq_self_eq_true, if_true] at h
        omega
      have hrev : members.reverse.lookup key = none := by
        rw [List.lookup_eq_none_iff]
        intro p hp
        have hne : key ≠ p.1 := fun heq =>
          hnone (heq ▸ List.mem_map_of_mem (List.mem_reverse.1 hp))
        simpa using hne
      simp [hrev]
    · have hne : (key == k) = false := by simpa using hkey
      have hih := ih (by omega)
      rw [lastOf] at hih
      rw [hih, hne]
      simp [List.lookup_cons, hne]

theorem lastOf_map {α β : Type} (f : α → β) (key : String) (members : List (String × α)) :
    lastOf key (members.map fun m => (m.1, f m.2)) = (lastOf key members).map f := by
  rw [lastOf, lastOf, ← List.map_reverse]
  induction members.reverse with
  | nil => rfl
  | cons m members ih =>
    obtain ⟨k, v⟩ := m
    rw [List.map_cons, List.lookup_cons, List.lookup_cons, ih]
    cases key == k <;> rfl

namespace PyLib

variable {lib : JsonLib} (py : PyLib)

theorem toInt_of_readU64 {v : Json} {n : UInt64} (h : lib.readU64 v = some n) :
    py.toInt v = some (n.toNat : ℤ) := by
  cases v with
  | number x =>
    rw [JsonLib.readU64, JsonLib.value, JsonLib.number] at h
    have hfloat :
        (((lib.float x.chars).map Number.float).map Value.number).bind Value.asU64 = none := by
      cases lib.float x.chars <;> rfl
    rw [toInt]
    cases hx : x.read with
    | natural k =>
      simp only [hx] at h
      split_ifs at h with hk
      · simp only [Option.map_some, Option.bind_some, Value.asU64, Option.some.injEq] at h
        rw [← h, UInt64.toNat_ofNat', Nat.mod_eq_of_lt hk]
      · rw [hfloat] at h
        cases h
    | negated k =>
      simp only [hx] at h
      split_ifs at h with hk
      · cases h
      · rw [hfloat] at h
        cases h
    | decimal =>
      simp only [hx] at h
      rw [hfloat] at h
      cases h
  | null | bool | string => cases h
  | array xs =>
    rw [JsonLib.readU64, JsonLib.value] at h
    cases hx : lib.elements xs <;> simp [hx, Value.asU64] at h
  | object xs =>
    rw [JsonLib.readU64, JsonLib.value] at h
    cases hx : lib.fields xs <;> simp [hx, Value.asU64] at h

theorem toInt_of_readU16 {v : Json} {n : UInt16} (h : lib.readU16 v = some n) :
    py.toInt v = some (n.toNat : ℤ) := by
  obtain ⟨k, hk, hn⟩ := Option.bind_eq_some_iff.1 h
  split_ifs at hn with hlt
  have hnat : n.toNat = k.toNat := by
    rw [← Option.some.inj hn, UInt16.toNat_ofNat', Nat.mod_eq_of_lt hlt]
  rw [py.toInt_of_readU64 hk, hnat]

theorem toStr_of_readString {v : Json} {s : String} (h : readString v = some s) :
    py.toStr v = s := by
  cases v with
  | string => exact Option.some.inj h
  | _ => cases h

theorem toBool_of_readBool {v : Json} {b : Bool} (h : readBool v = some b) : py.toBool v = b := by
  cases v with
  | bool => exact Option.some.inj h
  | _ => cases h

/-- Counts that are read by type are read by coercion. -/
theorem readMap_of_readMap {v : Json} {counts : List (String × UInt64)}
    (h : readMap lib.readU64 v = some counts) :
    readMap py.toInt v = some (counts.map fun c => (c.1, (c.2.toNat : ℤ))) := by
  cases v with
  | object members =>
    rw [readMap] at h ⊢
    induction members generalizing counts with
    | nil =>
      cases h
      rfl
    | cons m members ih =>
      simp only [List.mapM_cons, Option.bind_eq_bind, Option.bind_eq_some_iff,
        Option.map_eq_some_iff] at h
      obtain ⟨c, ⟨n, hn, rfl⟩, rest, hrest, hcounts⟩ := h
      cases hcounts
      simp [List.mapM_cons, py.toInt_of_readU64 hn, ih hrest]
  | _ => cases h

end PyLib

/-! ## One verdict -/

/-- The members that stand only in newer manifests. -/
def optionalKeys : List String := ["verify_checks", "verify_mismatches", "underflows"]

/-- The index tells of a directory what the loader tells. -/
structure SameVerdict (m : LoadManifest) (e : IndexEntry) : Prop where
  ticker : e.ticker = m.ticker
  tables : e.tables = m.counts.map fun c => (c.1, (c.2.toNat : ℤ))
  complete : e.complete = true ↔ m.completeness = none
  reasons : e.reasons.length = (m.completeness.getD []).length

theorem defaulted_of_isSome {α : Type} {fields : List (String × Json)} {key : String}
    {read : Json → Option α} {default a : α} (h : (fields.lookup key).isSome)
    (ha : defaulted fields key read default = some a) : (fields.lookup key).bind read = some a := by
  obtain ⟨v, hv⟩ := Option.isSome_iff_exists.1 h
  rw [defaulted, hv] at ha
  rw [hv]
  exact ha

/-- What is read by type is read by coercion. -/
theorem bind_of_bind {α β : Type} {read : Json → Option α} {coerce : Json → Option β} {f : α → β}
    (hread : ∀ v a, read v = some a → coerce v = some (f a)) {o : Option Json} {a : α}
    (h : o.bind read = some a) : o.bind coerce = some (f a) := by
  obtain ⟨v, rfl, hv⟩ := Option.bind_eq_some_iff.1 h
  exact hread v a hv

theorem map_of_bind {α : Type} {read : Json → Option α} {coerce : Json → α}
    (hread : ∀ v a, read v = some a → coerce v = a) {o : Option Json} {a : α}
    (h : o.bind read = some a) : o.map coerce = some a := by
  obtain ⟨v, rfl, hv⟩ := Option.bind_eq_some_iff.1 h
  rw [Option.map_some, hread v a hv]

section Verdict

variable (py : PyLib) {lib : JsonLib} (texts : ManifestTexts) {members : List (String × Json)}
  {m : LoadManifest}

/-- What the index makes of a manifest the loader can read. -/
theorem rawEntry_of_readManifest (hm : lib.readManifest (.object members) = some m)
    (hpresent : ∀ key ∈ ["read_errors", "counts"], (members.lookup key).isSome)
    (hopt : ∀ key ∈ optionalKeys, (py.optionalInt members key).isSome) :
    ∃ e, py.rawEntry (.object members) = some e ∧ e.version = m.schemaVersion.toNat ∧
      e.ticker = m.ticker ∧ e.fmt = m.format ∧ e.complete = m.complete ∧
      e.readErrors = m.readErrors.toNat ∧
      e.counts = m.counts.map fun c => (c.1, (c.2.toNat : ℤ)) := by
  rw [JsonLib.readManifest, manifestFields] at hm
  split_ifs at hm with honce
  · simp only [Option.bind_eq_bind, Option.bind_some, Option.bind_eq_some_iff] at hm
    obtain ⟨version, hversion, ticker, hticker, format, hformat, complete, hcomplete, readErrors,
      hreadErrors, counts, hcounts, heq⟩ := hm
    cases heq
    have hlast (key : String) (hkey : key ∈ manifestKeys) : lastOf key members = members.lookup key :=
      lastOf_eq_lookup (honce key hkey)
    have herrors := defaulted_of_isSome (hpresent "read_errors" (by decide)) hreadErrors
    have hcounted := defaulted_of_isSome (hpresent "counts" (by decide)) hcounts
    obtain ⟨checks, hchecks⟩ := Option.isSome_iff_exists.1 (hopt "verify_checks" (by decide))
    obtain ⟨mismatches, hmismatches⟩ :=
      Option.isSome_iff_exists.1 (hopt "verify_mismatches" (by decide))
    obtain ⟨underflows, hunderflows⟩ := Option.isSome_iff_exists.1 (hopt "underflows" (by decide))
    rw [required, ← hlast _ (by decide)] at hversion hticker hformat hcomplete
    rw [← hlast _ (by decide)] at herrors hcounted
    refine ⟨⟨version.toNat, ticker, format, complete, readErrors.toNat,
      counts.map fun c => (c.1, (c.2.toNat : ℤ)), checks, mismatches, underflows⟩, ?_, rfl, rfl, rfl,
      rfl, rfl, rfl⟩
    rw [PyLib.rawEntry, bind_of_bind (fun _ _ => py.toInt_of_readU16) hversion,
      map_of_bind (fun _ _ => py.toStr_of_readString) hticker,
      map_of_bind (fun _ _ => py.toStr_of_readString) hformat,
      map_of_bind (fun _ _ => py.toBool_of_readBool) hcomplete,
      bind_of_bind (fun _ _ => py.toInt_of_readU64) herrors,
      bind_of_bind (fun _ _ => py.readMap_of_readMap) hcounted, hchecks, hmismatches, hunderflows]
    rfl
  · cases hm

theorem length_reasons {e : PyLib.RawEntry} (hcomplete : e.complete = m.complete)
    (herrors : e.readErrors = m.readErrors.toNat)
    (hcounts : e.counts = m.counts.map fun c => (c.1, (c.2.toNat : ℤ))) :
    e.reasons.length = (m.completeness.getD []).length := by
  have hraw : e.raw = m.raw.toNat := by
    rw [PyLib.RawEntry.raw, hcounts, lastOf_map (fun n : UInt64 => (n.toNat : ℤ)), LoadManifest.raw]
    cases lastOf "raw" m.counts <;> rfl
  have hpos (n : UInt64) : (n.toNat : ℤ) ≠ 0 ↔ 0 < n := by
    rw [Int.natCast_ne_zero, UInt64.lt_iff_toNat_lt]
    exact Nat.pos_iff_ne_zero.symm
  rw [PyLib.RawEntry.reasons, LoadManifest.completeness, hcomplete]
  by_cases hc : m.complete = true
  · rw [if_pos hc, if_pos hc]
    rfl
  · simp only [hc, herrors, hraw, hpos, Bool.false_eq_true, if_false, Option.getD_some]
    by_cases h : 0 < m.readErrors <;> by_cases h' : 0 < m.raw <;> simp [h, h']

end Verdict

/-! ## What processing writes -/

/-- What a manifest says of its making: the version of the tool, the time, the capture directory,
and how an instant is printed. -/
structure Making where
  toolVersion : String
  processedAt : String
  sourceDir : String
  timeText : ℤ → Option String

def intJson (n : ℤ) : Json := .number (.ofInt n)

/-- A value that is written as `null` when there is none. -/
def nullable (v : Option Json) : Json := v.getD .null

def SourceFile.json (f : SourceFile) : Json :=
  .object [("channel", .string f.channel), ("path", .string f.path), ("records", natJson f.records)]

def Counts.json (c : Counts) : Json :=
  .object [("book_events", natJson c.bookEvents), ("book_top", natJson c.bookTop),
    ("trades", natJson c.trades), ("gaps", natJson c.gaps), ("raw", natJson c.raw),
    ("verify", natJson c.verify)]

/-- The members of a manifest as they are written. -/
def Manifest.members (making : Making) (m : Manifest) : List (String × Json) :=
  [("schema_version", natJson SUPPORTED_SCHEMA_VERSION),
    ("tool_version", .string making.toolVersion), ("ticker", .string m.ticker),
    ("format", .string m.format), ("processed_at", .string making.processedAt),
    ("source_dir", .string making.sourceDir),
    ("source_files", .array (m.sourceFiles.map SourceFile.json)),
    ("first_recv_ts_us", nullable (m.recvExtent.1.map intJson)),
    ("last_recv_ts_us", nullable (m.recvExtent.2.map intJson)),
    ("first_recv_ts", nullable ((m.recvExtent.1.bind making.timeText).map .string)),
    ("last_recv_ts", nullable ((m.recvExtent.2.bind making.timeText).map .string)),
    ("counts", m.counts.json), ("read_errors", natJson m.readErrors),
    ("complete", .bool m.complete), ("notes", .array (m.notes.map .string)),
    ("two_sided", .bool m.twoSided), ("two_sided_snapshots", natJson m.twoSidedSnapshots),
    ("verify_checks", natJson m.verifyChecks),
    ("verify_mismatches", natJson m.verifyMismatches),
    ("verify_skipped", natJson m.verifySkipped), ("underflows", natJson m.underflows),
    ("span_us", nullable (m.spanUs.map intJson)), ("hole_us", nullable (m.holeUs.map intJson))]

/-- The keys of a manifest in the order they are written. -/
def writtenKeys : List String :=
  ["schema_version", "tool_version", "ticker", "format", "processed_at", "source_dir",
    "source_files", "first_recv_ts_us", "last_recv_ts_us", "first_recv_ts", "last_recv_ts", "counts",
    "read_errors", "complete", "notes", "two_sided", "two_sided_snapshots", "verify_checks",
    "verify_mismatches", "verify_skipped", "underflows", "span_us", "hole_us"]

theorem nodup_writtenKeys : writtenKeys.Nodup := by
  decide

/-- The counts of a manifest are machine words. -/
structure Manifest.Fits (m : Manifest) : Prop where
  readErrors : m.readErrors < 2 ^ 64
  bookEvents : m.counts.bookEvents < 2 ^ 64
  bookTop : m.counts.bookTop < 2 ^ 64
  trades : m.counts.trades < 2 ^ 64
  gaps : m.counts.gaps < 2 ^ 64
  raw : m.counts.raw < 2 ^ 64
  verify : m.counts.verify < 2 ^ 64

/-- What the loader reads of a manifest that was written. -/
def Manifest.loaded (m : Manifest) : LoadManifest :=
  { schemaVersion := 1, ticker := m.ticker, format := m.format, complete := m.complete
    readErrors := UInt64.ofNat m.readErrors
    counts := [("book_events", UInt64.ofNat m.counts.bookEvents),
      ("book_top", UInt64.ofNat m.counts.bookTop), ("trades", UInt64.ofNat m.counts.trades),
      ("gaps", UInt64.ofNat m.counts.gaps), ("raw", UInt64.ofNat m.counts.raw),
      ("verify", UInt64.ofNat m.counts.verify)] }

theorem readManifest_members (lib : JsonLib) (making : Making) {m : Manifest} (h : m.Fits) :
    lib.readManifest (.object (m.members making)) = some m.loaded := by
  have hkeys : ∀ key ∈ manifestKeys, ((m.members making).map (·.1)).count key ≤ 1 := fun key _ =>
    List.nodup_iff_count_le_one.1 nodup_writtenKeys key
  have hcount {n : ℕ} (hn : n < 2 ^ 64) : lib.readU64 (natJson n) = some (UInt64.ofNat n) := by
    have hread := lib.readU64_natJson (UInt64.ofNat n)
    rwa [UInt64.toNat_ofNat', Nat.mod_eq_of_lt hn] at hread
  have hversion : lib.readU16 (natJson SUPPORTED_SCHEMA_VERSION) = some 1 := lib.readU16_natJson 1
  rw [JsonLib.readManifest, manifestFields, if_pos hkeys]
  simp [required, defaulted, Manifest.members, List.lookup_cons, hversion, readString, readBool,
    hcount h.readErrors, Counts.json, readMap, List.mapM_cons, hcount h.bookEvents, hcount h.bookTop,
    hcount h.trades, hcount h.gaps, hcount h.raw, hcount h.verify, Manifest.loaded]

/-! ## Members that neither reader knows -/

theorem lastOf_filter {α : Type} {key : String} {keys : List String} (h : key ∈ keys)
    (members : List (String × α)) : lastOf key (members.filter (·.1 ∈ keys)) = lastOf key members := by
  rw [lastOf, lastOf, ← List.filter_reverse, lookup_filter h]

theorem PyLib.optionalInt_filter (py : PyLib) {key : String} {keys : List String} (h : key ∈ keys)
    (members : List (String × Json)) :
    py.optionalInt (members.filter (·.1 ∈ keys)) key = py.optionalInt members key := by
  rw [PyLib.optionalInt, PyLib.optionalInt, lastOf_filter h]

theorem PyLib.toInt_natJson (py : PyLib) (n : ℕ) : py.toInt (natJson n) = some (n : ℤ) := by
  simp only [PyLib.toInt, natJson, JsonNumber.read_ofNat]

theorem PyLib.isSome_optionalInt_members (py : PyLib) (making : Making) (m : Manifest) :
    ∀ key ∈ optionalKeys, (py.optionalInt (m.members making) key).isSome := by
  simp [optionalKeys, PyLib.optionalInt, lastOf, Manifest.members, List.lookup_cons,
    PyLib.toInt_natJson]

/-! ## A processed directory -/

section Processed

variable (lib : JsonLib) (texts : ManifestTexts) (py : PyLib) {format : Format} {ticker : String}
  {c : TickerCapture} {out : TickerOutput}

theorem complete_eq_false_iff
    (hout : processTicker ticker c.orderbookFiles c.tradeFiles = .ok (some out)) :
    out.outcome.complete = false ↔ c.HasRaw ∨ c.HasUnreadable := by
  have hraw : c.HasRaw ↔ out.raw ≠ [] := by
    rw [← raw_pos_iff hout, ← List.length_pos_iff]
    obtain ⟨st, -, rfl⟩ := processTicker_eq_some hout
    rfl
  rw [← Bool.not_eq_true, (accounts_of_processTicker hout).complete_iff,
    ← readErrors_ne_nil_iff hout, hraw, not_and_or, or_comm]

/-- A reader that knows the written members finds them in a manifest with further members. -/
structure Extends (members written : List (String × Json)) : Prop where
  filter : members.filter (·.1 ∈ writtenKeys) = written

end Processed

/-- A Python library without values to coerce. -/
def PyLib.plain : PyLib :=
  { maxDepth := 900
    loads := fun text => match Json.parse text.toList with
      | some v => if v.depth ≤ 900 then .ok v else .error .recursion
      | none => .error .value
    loads_eq := fun _ _ h hdepth _ => by rw [h]; exact if_pos hdepth
    int := fun _ => none, str := fun _ => "", bool := fun _ => true }

/-- Where the manifest of `tornCapture` was made. -/
def tornMaking : Making :=
  { toolVersion := "0.3.0", processedAt := "2026-07-04T00:00:00+00:00", sourceDir := "data/A"
    timeText := fun _ => none }

theorem exists_tornOutput : ∃ out, processTicker "A" tornCapture.orderbookFiles
    tornCapture.tradeFiles = .ok (some out) ∧ (out.manifest .parquet).Fits ∧
    (Json.object ((out.manifest .parquet).members tornMaking)).depth ≤ 3 ∧
    (Json.object ((out.manifest .parquet).members tornMaking)).everyNumber
      JsonNumber.shortInteger = true :=
  ⟨_, rfl, ⟨by decide, by decide, by decide, by decide, by decide, by decide, by decide⟩,
    by decide +kernel, by decide +kernel⟩

theorem parse_ofList_print (v : Json) : Json.parse (String.ofList v.print).toList = some v := by
  rw [String.toList_ofList, Json.parse_print]

end Snapevent
