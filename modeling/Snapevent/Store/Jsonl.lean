import Snapevent.Core.Calendar
import Snapevent.Core.Stored
import Snapevent.Lib.JsonBytes
import Snapevent.Process.Collected

/-!
# Day files

The files of one stream byte for byte: the writer that appends a line to the file of the day
(`lib.rs`), the lines a reader finds in a file (`reader.rs`), and what is left of a line that was
broken off.
-/

namespace Snapevent

/-! ## Bytes and lines -/

namespace Serde

variable (serde : Serde)

/-- The bytes of an envelope's line. -/
def lineBytes (env : Envelope) : List UInt8 := Utf8.bytes (serde.lineText env)

/-- A line as the reader gets it. -/
def readRaw (bs : List UInt8) : Line :=
  match Utf8.decode bs with
  | some text => .text text (serde.decode text)
  | none => .io "stream did not contain valid UTF-8"

/-- The lines of a file. -/
def fileLines (bs : List UInt8) : List Line := (Lines.split 10 13 bs).map serde.readRaw

/-- The envelope is one the library can write, of a version this build supports. -/
structure Writable (env : Envelope) : Prop where
  held : env.kind.Held serde.toJsonLib
  supported : env.validate = .ok ()

/-- The line of the envelope is also one that is read. -/
structure Storable (env : Envelope) : Prop extends Writable serde env where
  shallow : env.kind.Shallow

end Serde

/-! ## The writer -/

/-- The files of a stream directory with their bytes, in the order they were created. -/
abbrev Directory := List (String × List UInt8)

namespace Directory

/-- Open a file for appending; it is created when it does not exist. -/
def openFile (path : String) (dir : Directory) : Directory :=
  if path ∈ dir.map (·.1) then dir else dir ++ [(path, [])]

/-- Write at the end of a file. -/
def write (path : String) (bs : List UInt8) (dir : Directory) : Directory :=
  dir.map fun f => if f.1 = path then (f.1, f.2 ++ bs) else f

/-- Keep the first bytes of a file. -/
def truncate (path : String) (n : ℕ) (dir : Directory) : Directory :=
  dir.map fun f => if f.1 = path then (f.1, f.2.take n) else f

/-- The bytes of a file; none when it does not exist. -/
def contents (path : String) (dir : Directory) : List UInt8 := (dir.lookup path).getD []

/-- The files as the reader gets them, in the order of their names. -/
def files (serde : Serde) (dir : Directory) : List CaptureFile :=
  (dir.map fun f => ⟨f.1, serde.fileLines f.2⟩).insertionSort fun a b => a.path ≤ b.path

section Write

variable {path : String} {dir : Directory}

theorem openFile_of_mem (h : path ∈ dir.map (·.1)) : dir.openFile path = dir := if_pos h

theorem openFile_of_notMem (h : path ∉ dir.map (·.1)) : dir.openFile path = dir ++ [(path, [])] :=
  if_neg h

theorem write_append (path : String) (bs : List UInt8) (dir dir' : Directory) :
    write path bs (dir ++ dir') = dir.write path bs ++ dir'.write path bs := List.map_append

theorem write_of_notMem (h : path ∉ dir.map (·.1)) (bs : List UInt8) : dir.write path bs = dir := by
  rw [write]
  conv_rhs => rw [← List.map_id dir]
  apply List.map_congr_left
  intro f hf
  have hne : f.1 ≠ path := fun heq => h (heq ▸ List.mem_map_of_mem hf)
  rw [if_neg hne]
  rfl

theorem write_singleton (path : String) (bs bs' : List UInt8) :
    write path bs' [(path, bs)] = [(path, bs ++ bs')] := by
  simp [write]

end Write

end Directory

/-- The name of the file of a day. -/
def dayFile (day : Date) : String := day.text ++ ".jsonl"

/-- An append-only writer that rotates to a fresh file each day. -/
structure JsonlWriter where
  currentDay : Option Date
  currentPath : Option String

namespace JsonlWriter

def new : JsonlWriter := ⟨none, none⟩

def rotateIfNeeded (w : JsonlWriter) (day : Date) (dir : Directory) : JsonlWriter × Directory :=
  if w.currentDay = some day ∧ w.currentPath.isSome then (w, dir)
  else (⟨some day, some (dayFile day)⟩, dir.openFile (dayFile day))

/-- Append one record as a line. -/
def append (w : JsonlWriter) (today : Date) (record : List UInt8) (dir : Directory) :
    JsonlWriter × Directory :=
  let (w, dir) := w.rotateIfNeeded today dir
  match w.currentPath with
  | some path => (w, dir.write path (record ++ [10]))
  | none => (w, dir)

end JsonlWriter

/-! ## Stored lines are lines -/

namespace Serde

variable {serde : Serde} {env : Envelope} {n : ℕ}

theorem lineText_eq (serde : Serde) (env : Envelope) : ∃ text, serde.lineText env = '{' :: text := by
  rw [lineText, envelopeJson, Json.print]
  exact ⟨_, rfl⟩

theorem lineBytes_ne_nil (serde : Serde) (env : Envelope) : serde.lineBytes env ≠ [] := by
  obtain ⟨text, htext⟩ := lineText_eq serde env
  apply Utf8.bytes_ne_nil
  rw [htext]
  exact List.cons_ne_nil _ _

/-- A line has no control byte in it, so it stands for itself between newlines. -/
theorem plain_lineBytes (serde : Serde) (env : Envelope) :
    Lines.Plain 10 13 (serde.lineBytes env) := by
  have hvisible {b : UInt8} (hb : b ∈ serde.lineBytes env) : 32 ≤ b.toNat :=
    Utf8.visible_of_mem_bytes (Json.print_visible _) hb
  constructor
  · intro hmem
    exact absurd (hvisible hmem) (by decide)
  · intro hlast
    exact absurd (hvisible (List.mem_of_getLast? hlast)) (by decide)

theorem notBlank_of_brace {text : String} {cs : List Char} (h : text.toList = '{' :: cs) :
    text.toList.all isWhiteSpace = false := by
  rw [h, List.all_cons]
  rfl

theorem lineText_notBlank (serde : Serde) (env : Envelope) :
    (String.ofList (serde.lineText env)).toList.all isWhiteSpace = false := by
  obtain ⟨text, htext⟩ := lineText_eq serde env
  have htoList := (String.toList_ofList (l := serde.lineText env)).trans htext
  exact notBlank_of_brace htoList

/-- What the line with this number is read as: a payload that is nested too deep makes it an error.
-/
def storedItem (serde : Serde) (n : ℕ) (env : Envelope) : ReadItem :=
  let text := String.ofList (serde.lineText env)
  if env.kind.Shallow then .ok env
  else .error ⟨n, "json parse: " ++ serde.lineError text, text⟩

theorem storedItem_eq_ok_iff : serde.storedItem n env = .ok env ↔ env.kind.Shallow := by
  rw [storedItem]
  split_ifs with hshallow
  · exact iff_of_true rfl hshallow
  · exact iff_of_false nofun hshallow

/-- A line of an envelope is read as one item. -/
theorem readLine_lineBytes (h : serde.Writable env) (n : ℕ) :
    readLine n (serde.readRaw (serde.lineBytes env)) = some (serde.storedItem n env) := by
  have hblank := lineText_notBlank serde env
  rw [readRaw, lineBytes, Utf8.decode_bytes]
  dsimp only
  rw [decode_lineText h.held, storedItem]
  split_ifs
  · rw [readLine, hblank, h.supported]
    rfl
  · rw [readLine, hblank]
    rfl

theorem readLine_stored (h : serde.Storable env) (n : ℕ) :
    readLine n (serde.readRaw (serde.lineBytes env)) = some (.ok env) := by
  rw [readLine_lineBytes h.toWritable, storedItem_eq_ok_iff.2 h.shallow]

/-! ### Broken lines -/

theorem readLine_undecodable {text : String} (hhead : (Utf8.bytes text.toList).head? = some 123)
    (hparse : Json.parse text.toList = none) (n : ℕ) :
    ∃ e, readLine n (.text text (serde.decode text)) = some (.error e) := by
  obtain ⟨cs, hcs⟩ := Json.exists_of_head hhead
  have hdecode : serde.decode text = .error (serde.lineError text) := by
    rw [decode, Json.parseWithin_of_parse_eq_none hparse]
    rfl
  refine ⟨⟨n, "json parse: " ++ serde.lineError text, text⟩, ?_⟩
  rw [hdecode, readLine, notBlank_of_brace hcs]
  rfl

theorem readLine_torn {line : List UInt8} (hhead : line.head? = some 123)
    (hparse : ∀ text, line = Utf8.bytes text → Json.parse text = none) (n : ℕ) :
    ∃ e, readLine n (serde.readRaw line) = some (.error e) := by
  rw [readRaw]
  cases hdecode : Utf8.decode line with
  | none => exact ⟨_, rfl⟩
  | some text =>
    have hline : line = Utf8.bytes text.toList := Utf8.decode_eq_some_iff.1 hdecode
    rw [hline] at hhead
    exact readLine_undecodable hhead (hparse _ hline) n

section Part

variable {part : List UInt8} (hpart : part <+: serde.lineBytes env) (hne : part ≠ [])

include hpart hne

theorem head_of_part : part.head? = some 123 := Json.head_of_part hpart hne

theorem readLine_merged {before : List UInt8} (hbefore : before.head? = some 123) (n : ℕ) :
    ∃ e, readLine n (serde.readRaw (before ++ part)) = some (.error e) := by
  apply readLine_torn
  · rw [List.head?_append, hbefore]
    rfl
  · intro text htext
    exact Json.parse_merged (k := "v") rfl rfl _ hbefore hpart hne htext

theorem readLine_part (h : serde.Writable env) (n : ℕ) :
    (∃ e, readLine n (serde.readRaw part) = some (.error e)) ∨
      (part = serde.lineBytes env ∧ readLine n (serde.readRaw part) = some (.ok env)) := by
  by_cases hfull : part = serde.lineBytes env
  · subst hfull
    rw [readLine_lineBytes h, storedItem]
    split_ifs
    · exact .inr ⟨rfl, rfl⟩
    · exact .inl ⟨_, rfl⟩
  · left
    apply readLine_torn (head_of_part hpart hne)
    intro text htext
    exact Json.parse_part hpart hfull htext

end Part

end Serde

/-! ## Reading a file -/

/-- Decode each non-blank line, the first of which has the number `n`. -/
def readFrom (n : ℕ) (lines : List Line) : List ReadItem :=
  (lines.zipIdx n).filterMap fun l => readLine l.2 l.1

theorem readEnvelopes_eq (lines : List Line) : readEnvelopes lines = readFrom 1 lines := rfl

@[simp] theorem readFrom_nil (n : ℕ) : readFrom n [] = [] := rfl

theorem readFrom_cons (n : ℕ) (line : Line) (lines : List Line) :
    readFrom n (line :: lines) = (readLine n line).toList ++ readFrom (n + 1) lines := by
  rw [readFrom, List.zipIdx_cons, List.filterMap_cons]
  cases hline : readLine n line <;> rfl

theorem readFrom_append (n : ℕ) (lines lines' : List Line) :
    readFrom n (lines ++ lines') = readFrom n lines ++ readFrom (n + lines.length) lines' := by
  rw [readFrom, List.zipIdx_append, List.filterMap_append]
  rfl

section Stored

variable {serde : Serde} {envs : List Envelope}

/-- What stored lines are read as, the first of which has the number `n`. -/
def Serde.storedItems (serde : Serde) (n : ℕ) (envs : List Envelope) : List ReadItem :=
  (envs.zipIdx n).map fun e => serde.storedItem e.2 e.1

@[simp] theorem Serde.storedItems_nil (serde : Serde) (n : ℕ) : serde.storedItems n [] = [] := rfl

theorem Serde.storedItems_cons (serde : Serde) (n : ℕ) (env : Envelope) (envs : List Envelope) :
    serde.storedItems n (env :: envs) = serde.storedItem n env :: serde.storedItems (n + 1) envs :=
  rfl

theorem Serde.length_storedItems (serde : Serde) (n : ℕ) (envs : List Envelope) :
    (serde.storedItems n envs).length = envs.length := by
  rw [storedItems, List.length_map, List.length_zipIdx]

theorem Serde.storedItems_append (serde : Serde) (n : ℕ) (envs envs' : List Envelope) :
    serde.storedItems n (envs ++ envs') =
      serde.storedItems n envs ++ serde.storedItems (n + envs.length) envs' := by
  rw [storedItems, List.zipIdx_append, List.map_append]
  rfl

/-- Stored lines come back as the envelopes exactly when no payload is nested too deep. -/
theorem Serde.storedItems_eq_iff {n : ℕ} :
    serde.storedItems n envs = envs.map .ok ↔ ∀ env ∈ envs, env.kind.Shallow := by
  induction envs generalizing n with
  | nil => simp
  | cons env envs ih =>
    rw [storedItems_cons, List.map_cons, List.cons.injEq, storedItem_eq_ok_iff, ih,
      List.forall_mem_cons]

theorem readFrom_written (h : ∀ env ∈ envs, serde.Writable env) (n : ℕ) :
    readFrom n ((envs.map serde.lineBytes).map serde.readRaw) = serde.storedItems n envs := by
  induction envs generalizing n with
  | nil => rfl
  | cons env envs ih =>
    rw [List.forall_mem_cons] at h
    rw [List.map_cons, List.map_cons, readFrom_cons, Serde.readLine_lineBytes h.1, ih h.2]
    rfl

/-- The file of some envelopes, one line each. -/
def Serde.fileBytes (serde : Serde) (envs : List Envelope) : List UInt8 :=
  Lines.join 10 (envs.map serde.lineBytes)

theorem Serde.fileBytes_append (serde : Serde) (envs envs' : List Envelope) :
    serde.fileBytes (envs ++ envs') = serde.fileBytes envs ++ serde.fileBytes envs' := by
  rw [fileBytes, List.map_append, Lines.join_append]
  rfl

theorem Serde.fileBytes_singleton (serde : Serde) (env : Envelope) :
    serde.fileBytes [env] = serde.lineBytes env ++ [10] := by
  simp [fileBytes]

theorem Serde.fileLines_append (serde : Serde) (envs : List Envelope) (rest : List UInt8) :
    serde.fileLines (serde.fileBytes envs ++ rest) =
      (envs.map serde.lineBytes).map serde.readRaw ++ serde.fileLines rest := by
  have hplain : ∀ line ∈ envs.map serde.lineBytes, Lines.Plain 10 13 line := by
    intro line hline
    obtain ⟨env, -, rfl⟩ := List.mem_map.1 hline
    exact plain_lineBytes serde env
  rw [fileLines, fileBytes, Lines.split_join_append hplain, List.map_append]
  rfl

theorem Serde.fileLines_fileBytes (serde : Serde) (envs : List Envelope) :
    serde.fileLines (serde.fileBytes envs) = (envs.map serde.lineBytes).map serde.readRaw := by
  have happend := serde.fileLines_append envs []
  rw [List.append_nil] at happend
  rw [happend]
  exact List.append_nil _

theorem readEnvelopes_written (h : ∀ env ∈ envs, serde.Writable env) :
    readEnvelopes (serde.fileLines (serde.fileBytes envs)) = serde.storedItems 1 envs := by
  rw [serde.fileLines_fileBytes, readEnvelopes_eq, readFrom_written h]

/-- A file of stored lines is read as its envelopes. -/
theorem readEnvelopes_fileBytes (h : ∀ env ∈ envs, serde.Storable env) :
    readEnvelopes (serde.fileLines (serde.fileBytes envs)) = envs.map .ok := by
  rw [readEnvelopes_written fun env henv => (h env henv).toWritable]
  exact Serde.storedItems_eq_iff.2 fun env henv => (h env henv).shallow

end Stored

end Snapevent
