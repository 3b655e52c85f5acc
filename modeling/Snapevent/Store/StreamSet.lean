import Snapevent.Process.Ticker

/-!
# Capture trees

The append-only writers of a capture (`lib.rs`, `stream_set.rs`): every `(ticker, channel)` stream
has a directory of day files under the base directory.  A tree is the files in the order they were
created; a stored line stands in it with what the JSON decoder will make of its text.
-/

namespace Snapevent

/-- A stream key that cannot be a directory name. -/
inductive StoreError
  | unsafeKey (key : String)
  deriving DecidableEq, Repr

/-- Whether `s` is safe to use as a single path segment. -/
def isSafeSegment (s : String) : Bool :=
  !s.isEmpty && s != "." && s != ".." && !s.toList.contains '/' && !s.toList.contains '\\' &&
    !s.toList.contains ':' && !s.toList.contains (Char.ofNat 0)

/-- A file of a capture tree. -/
structure StreamFile where
  ticker : String
  channel : String
  path : String
  lines : List Line

/-- The files of a base directory. -/
abbrev Tree := List StreamFile

namespace Tree

/-- Append a line to a file, which is created when it does not exist. -/
def appendLine (ticker channel path : String) (line : Line) : Tree → Tree
  | [] => [⟨ticker, channel, path, [line]⟩]
  | f :: tree =>
    if f.ticker = ticker ∧ f.channel = channel ∧ f.path = path then
      { f with lines := f.lines ++ [line] } :: tree
    else f :: appendLine ticker channel path line tree

/-- Append a record's line to its stream, in the file of `day`. -/
def append (tree : Tree) (ticker channel day : String) (line : Line) : Except StoreError Tree :=
  if !isSafeSegment ticker then .error (.unsafeKey ticker)
  else if !isSafeSegment channel then .error (.unsafeKey channel)
  else .ok (tree.appendLine ticker channel (day ++ ".jsonl") line)

/-- The files of one stream, in the order of their names. -/
def files (tree : Tree) (ticker channel : String) : List CaptureFile :=
  ((tree.filter fun f => f.ticker = ticker ∧ f.channel = channel).map
    fun f => ⟨f.path, f.lines⟩).insertionSort fun a b => a.path ≤ b.path

/-- The ticker directories, in the order of their names. -/
def tickers (tree : Tree) : List String :=
  ((tree.map (·.ticker)).dedup).insertionSort (· ≤ ·)

/-! ### What an append changes -/

section AppendLine

variable {ticker channel path : String} {line : Line} {tree : Tree}

theorem mem_appendLine {f : StreamFile} (hf : f ∈ tree.appendLine ticker channel path line) :
    f ∈ tree ∨ (f.ticker = ticker ∧ f.channel = channel ∧ ∃ lines, f.lines = lines ++ [line] ∧
      ∀ l ∈ lines, ∃ g ∈ tree, g.ticker = ticker ∧ g.channel = channel ∧ l ∈ g.lines) := by
  induction tree with
  | nil =>
    rw [appendLine, List.mem_singleton] at hf
    subst hf
    exact Or.inr ⟨rfl, rfl, [], rfl, by simp⟩
  | cons g tree ih =>
    rw [appendLine] at hf
    split_ifs at hf with hg
    · rcases List.mem_cons.1 hf with rfl | hf
      · exact Or.inr ⟨hg.1, hg.2.1, g.lines, rfl,
          fun l hl => ⟨g, List.mem_cons_self, hg.1, hg.2.1, hl⟩⟩
      · exact Or.inl (List.mem_cons_of_mem g hf)
    · rcases List.mem_cons.1 hf with rfl | hf
      · exact Or.inl List.mem_cons_self
      · rcases ih hf with hf | ⟨ht, hc, lines, hlines, hold⟩
        · exact Or.inl (List.mem_cons_of_mem g hf)
        · refine Or.inr ⟨ht, hc, lines, hlines, fun l hl => ?_⟩
          obtain ⟨h, hh, hstream⟩ := hold l hl
          exact ⟨h, List.mem_cons_of_mem g hh, hstream⟩

theorem stream_mem_appendLine :
    (ticker, channel) ∈
      (tree.appendLine ticker channel path line).map fun f => (f.ticker, f.channel) := by
  induction tree with
  | nil => simp [appendLine]
  | cons g tree ih =>
    rw [appendLine]
    split_ifs with hg
    · simp [hg]
    · exact List.mem_cons_of_mem _ ih

theorem stream_mem_appendLine_of_mem {key : String × String}
    (h : key ∈ tree.map fun f => (f.ticker, f.channel)) :
    key ∈ (tree.appendLine ticker channel path line).map fun f => (f.ticker, f.channel) := by
  induction tree with
  | nil => simp at h
  | cons g tree ih =>
    rw [appendLine]
    rw [List.map_cons, List.mem_cons] at h
    split_ifs with hg
    · exact List.mem_cons.2 h
    · exact List.mem_cons.2 (h.imp_right ih)

end AppendLine

/-! ### The lines of a file -/

/-- The stream and the name of a file. -/
def key (f : StreamFile) : String × String × String := (f.ticker, f.channel, f.path)

/-- The lines of the file with this key. -/
def linesOf (k : String × String × String) : Tree → List Line
  | [] => []
  | f :: tree => if key f = k then f.lines else linesOf k tree

section LinesOf

variable {ticker channel path : String} {line : Line} {tree : Tree}

theorem key_eq_iff {f : StreamFile} :
    key f = (ticker, channel, path) ↔ f.ticker = ticker ∧ f.channel = channel ∧ f.path = path := by
  rw [key, Prod.mk.injEq, Prod.mk.injEq]

theorem linesOf_appendLine (k : String × String × String) :
    linesOf k (tree.appendLine ticker channel path line) =
      linesOf k tree ++ if (ticker, channel, path) = k then [line] else [] := by
  induction tree with
  | nil => rfl
  | cons f tree ih =>
    unfold appendLine
    by_cases hf : key f = (ticker, channel, path)
    · rw [if_pos (key_eq_iff.1 hf), linesOf, linesOf, ← hf]
      show (if key f = k then f.lines ++ [line] else linesOf k tree) = _
      split_ifs
      · rfl
      · rw [List.append_nil]
    · rw [if_neg (mt key_eq_iff.2 hf), linesOf, linesOf, ih]
      split_ifs with hk hk'
      · exact absurd (hk.trans hk'.symm) hf
      · rw [List.append_nil]
      · rfl
      · rfl

theorem key_appendLine : (tree.appendLine ticker channel path line).map key =
    if (ticker, channel, path) ∈ tree.map key then tree.map key
    else tree.map key ++ [(ticker, channel, path)] := by
  induction tree with
  | nil => rfl
  | cons f tree ih =>
    unfold appendLine
    by_cases hf : key f = (ticker, channel, path)
    · rw [if_pos (key_eq_iff.1 hf), if_pos (by simp [hf])]
      rfl
    · rw [if_neg (mt key_eq_iff.2 hf), List.map_cons, ih, List.map_cons]
      have hne : (ticker, channel, path) ≠ key f := Ne.symm hf
      simp only [List.mem_cons, hne, false_or]
      split_ifs <;> rfl

theorem nodup_appendLine (h : (tree.map key).Nodup) :
    ((tree.appendLine ticker channel path line).map key).Nodup := by
  rw [key_appendLine]
  split_ifs with hmem
  · exact h
  · rw [← List.concat_eq_append, List.nodup_concat]
    exact ⟨hmem, h⟩

theorem linesOf_of_mem (h : (tree.map key).Nodup) {f : StreamFile} (hf : f ∈ tree) :
    linesOf (key f) tree = f.lines := by
  induction tree with
  | nil => cases hf
  | cons g tree ih =>
    obtain ⟨hg, htree⟩ := List.nodup_cons.1 h
    rw [linesOf]
    cases List.mem_cons.1 hf with
    | inl hfg => rw [hfg, if_pos rfl]
    | inr hf =>
      have hne : key g ≠ key f := fun heq => hg (by rw [heq]; exact List.mem_map_of_mem hf)
      rw [if_neg hne]
      exact ih htree hf

end LinesOf

end Tree

end Snapevent
