import Snapevent.Lib.TornLog
import Snapevent.Store.Torn

/-!
# A directory of torn day files

The day files of a stream after any number of writers, each of which may have been broken off in the
middle of a line.  Whatever is read from them was written, and a line that was written where a line
begins is read.
-/

namespace Snapevent

/-! ## The writer -/

namespace JsonlWriter

/-- What a writer leaves that has written these bytes to the file of a day. -/
def writeBytes (w : JsonlWriter) (today : Date) (bs : List UInt8) (dir : Directory) :
    JsonlWriter × Directory :=
  let (w, dir) := w.rotateIfNeeded today dir
  match w.currentPath with
  | some path => (w, dir.write path bs)
  | none => (w, dir)

theorem append_eq (w : JsonlWriter) (today : Date) (record : List UInt8) (dir : Directory) :
    w.append today record dir = w.writeBytes today (record ++ [10]) dir := rfl

/-- The file a writer has open is that of its day, and it is in the directory. -/
def Opened (w : JsonlWriter) (dir : Directory) : Prop :=
  ∀ path, w.currentPath = some path →
    ∃ day, w.currentDay = some day ∧ path = dayFile day ∧ path ∈ dir.map (·.1)

theorem opened_new (dir : Directory) : new.Opened dir := by
  intro path hpath
  cases hpath

section WriteBytes

variable {w w' : JsonlWriter} {today : Date} {bs : List UInt8} {dir dir' : Directory}

theorem rotateIfNeeded_spec (today : Date) (hw : w.Opened dir) :
    ∃ dir', w.rotateIfNeeded today dir = (⟨some today, some (dayFile today)⟩, dir') ∧
      (dir' = dir ∨ dir' = dir.openFile (dayFile today)) ∧ dayFile today ∈ dir'.map (·.1) := by
  by_cases hopen : w.currentDay = some today ∧ w.currentPath.isSome
  · obtain ⟨hday, hsome⟩ := hopen
    obtain ⟨path, hpath⟩ := Option.isSome_iff_exists.1 hsome
    obtain ⟨day, hday', rfl, hmem⟩ := hw path hpath
    rw [hday, Option.some.injEq] at hday'
    subst hday'
    refine ⟨dir, ?_, Or.inl rfl, hmem⟩
    rw [rotateIfNeeded, if_pos ⟨hday, hsome⟩]
    obtain ⟨currentDay, currentPath⟩ := w
    rw [show currentDay = some today from hday, show currentPath = _ from hpath]
  · refine ⟨dir.openFile (dayFile today), ?_, Or.inr rfl, Directory.mem_openFile _ _⟩
    rw [rotateIfNeeded, if_neg hopen]

theorem writeBytes_spec (hw : w.Opened dir) (h : w.writeBytes today bs dir = (w', dir')) :
    w'.Opened dir' ∧ ((dir.map (·.1)).Nodup → (dir'.map (·.1)).Nodup) ∧
      (∀ path, dir'.contents path = dir.contents path ++ if path = dayFile today then bs else []) := by
  obtain ⟨dir₁, hrotate, hdir₁, hmem⟩ := rotateIfNeeded_spec today hw
  rw [writeBytes, hrotate] at h
  cases h
  refine ⟨?_, ?_, ?_⟩
  · intro path hpath
    cases hpath
    exact ⟨today, rfl, rfl, Directory.mem_write hmem bs⟩
  · intro hnodup
    rw [Directory.names_write]
    rcases hdir₁ with rfl | rfl
    · exact hnodup
    · rw [Directory.openFile]
      split_ifs with hold
      · exact hnodup
      · rw [List.map_append, List.map_singleton, ← List.concat_eq_append, List.nodup_concat]
        exact ⟨hold, hnodup⟩
  · intro path
    have hcontents : dir₁.contents path = dir.contents path := by
      rcases hdir₁ with rfl | rfl
      · rfl
      · exact Directory.contents_openFile _ _ _
    by_cases hpath : path = dayFile today
    · rw [if_pos hpath, hpath, Directory.contents_write hmem, ← hpath, hcontents]
    · rw [if_neg hpath, Directory.contents_write_of_ne hpath, hcontents, List.append_nil]

end WriteBytes

end JsonlWriter

/-! ## What is read -/

/-- A part of the line of an envelope for which `Q` holds. -/
def LinePart (serde : Serde) (Q : Envelope → Prop) (part : List UInt8) : Prop :=
  part ≠ [] ∧ ∃ env, Q env ∧ part <+: serde.lineBytes env

/-- A file of torn lines of envelopes for which `Q` holds. -/
abbrev TornFile (serde : Serde) (Q : Envelope → Prop) (file : List UInt8) : Prop :=
  TornLog.Log 123 10 13 (LinePart serde Q) file

section TornFile

variable {serde : Serde} {Q : Envelope → Prop} {file : List UInt8} {env : Envelope}

theorem notMem_lineBytes (serde : Serde) (env : Envelope) {b : UInt8} (hb : b.toNat < 32) :
    b ∉ serde.lineBytes env := by
  intro hmem
  have hvisible : 32 ≤ b.toNat := Utf8.visible_of_mem_bytes (Json.print_visible _) hmem
  omega

theorem lineParts (serde : Serde) (Q : Envelope → Prop) :
    TornLog.Parts 123 10 13 (LinePart serde Q) where
  head := by
    rintro part ⟨hne, env, -, hpart⟩
    exact Serde.head_of_part hpart hne
  nl_notMem := by
    rintro part ⟨-, env, -, hpart⟩ hmem
    exact notMem_lineBytes serde env (by decide) (hpart.subset hmem)
  cr_notMem := by
    rintro part ⟨-, env, -, hpart⟩ hmem
    exact notMem_lineBytes serde env (by decide) (hpart.subset hmem)

theorem TornFile.append (h : TornFile serde Q file) (henv : Q env) (n : ℕ) :
    TornFile serde Q (file ++ (serde.lineBytes env ++ [10]).take n) := by
  by_cases hlt : (serde.lineBytes env).length < n
  · rw [List.take_of_length_le (by rw [List.length_append]; exact hlt)]
    exact TornLog.Log.write (lineParts serde Q)
      ⟨serde.lineBytes_ne_nil env, env, henv, List.prefix_refl _⟩ h
  · rw [List.take_append_of_le_length (not_lt.1 hlt)]
    by_cases hnil : (serde.lineBytes env).take n = []
    · rw [hnil, List.append_nil]
      exact h
    · exact TornLog.Log.tear (lineParts serde Q) ⟨hnil, env, henv, List.take_prefix _ _⟩ h

/-- A piece that is read as an envelope is its whole line. -/
theorem of_readLine (hQ : ∀ env, Q env → serde.Storable env) {line : List UInt8} {n : ℕ}
    (h : TornLog.Piece 123 10 13 (LinePart serde Q) line)
    (hread : readLine n (serde.readRaw line) = some (.ok env)) : Q env := by
  obtain ⟨before, part, rfl, ⟨hne, env', henv, hpart⟩, hbefore⟩ := h.split
  rcases hbefore with rfl | hbefore
  · rw [List.nil_append] at hread
    rcases Serde.readLine_part hpart hne (hQ env' henv).toWritable n with ⟨e, he⟩ | ⟨-, hok⟩
    · rw [he] at hread
      cases hread
    · rw [hok] at hread
      cases hread
      exact henv
  · obtain ⟨e, he⟩ := Serde.readLine_merged hpart hne hbefore n
    rw [he] at hread
    cases hread

theorem of_mem_readEnvelopes {lines : List Line} {i : ReadItem} (h : i ∈ readEnvelopes lines) :
    ∃ n, ∃ line ∈ lines, readLine n line = some i := by
  obtain ⟨x, hx, hread⟩ := List.mem_filterMap.1 h
  exact ⟨x.2, x.1, List.fst_mem_of_mem_zipIdx hx, hread⟩

theorem mem_readEnvelopes {lines : List Line} {i : ReadItem} {line : Line} (h : line ∈ lines)
    (hread : ∀ n, readLine n line = some i) : i ∈ readEnvelopes lines := by
  obtain ⟨k, hk, rfl⟩ := List.mem_iff_getElem.1 h
  refine List.mem_filterMap.2 ⟨(lines[k], 1 + k), ?_, hread _⟩
  rw [List.mem_iff_getElem?]
  exact ⟨k, by simp [hk]⟩

theorem TornFile.of_mem (h : TornFile serde Q file) (hQ : ∀ env, Q env → serde.Storable env)
    (hmem : .ok env ∈ readEnvelopes (serde.fileLines file)) : Q env := by
  obtain ⟨n, line, hline, hread⟩ := of_mem_readEnvelopes hmem
  obtain ⟨bs, hbs, rfl⟩ := List.mem_map.1 hline
  exact of_readLine hQ (h.piece_of_mem hbs) hread

theorem mem_of_stands (h : serde.Storable env)
    (hstands : Lines.Stands 10 (serde.lineBytes env) file) :
    .ok env ∈ readEnvelopes (serde.fileLines file) :=
  mem_readEnvelopes (List.mem_map_of_mem (hstands.mem_split (serde.plain_lineBytes env)))
    (Serde.readLine_stored h)

end TornFile

namespace Directory

variable {serde : Serde} {dir : Directory} {i : ReadItem}

theorem contents_of_mem (h : (dir.map (·.1)).Nodup) {f : String × List UInt8} (hf : f ∈ dir) :
    dir.contents f.1 = f.2 := by
  have hlookup : dir.lookup f.1 = some f.2 := by
    induction dir with
    | nil => cases hf
    | cons g dir ih =>
      obtain ⟨hg, hdir⟩ := List.nodup_cons.1 h
      rcases List.mem_cons.1 hf with rfl | hf
      · exact List.lookup_cons_self
      · have hne : f.1 ≠ g.1 := by
          intro heq
          exact hg (List.mem_map.2 ⟨f, hf, heq⟩)
        rw [List.lookup_cons, show (f.1 == g.1) = false by simpa using hne]
        exact ih hdir hf
  rw [contents, hlookup]
  rfl

theorem mem_readItems_files (h : (dir.map (·.1)).Nodup) :
    i ∈ readItems (dir.files serde) ↔
      ∃ path, i ∈ readEnvelopes (serde.fileLines (dir.contents path)) := by
  rw [readItems, List.mem_flatMap, files]
  constructor
  · rintro ⟨f, hf, hi⟩
    rw [List.mem_insertionSort] at hf
    obtain ⟨g, hg, rfl⟩ := List.mem_map.1 hf
    exact ⟨g.1, by rwa [contents_of_mem h hg]⟩
  · rintro ⟨path, hi⟩
    cases hlookup : dir.lookup path with
    | none =>
      rw [contents, hlookup] at hi
      cases hi
    | some bs =>
      rw [contents, hlookup] at hi
      refine ⟨⟨path, serde.fileLines bs⟩, ?_, hi⟩
      rw [List.mem_insertionSort]
      obtain ⟨before, after, hdir, -⟩ := List.lookup_eq_some_iff.1 hlookup
      refine List.mem_map.2 ⟨(path, bs), ?_, rfl⟩
      rw [hdir]
      exact List.mem_append_right _ List.mem_cons_self

end Directory

end Snapevent
