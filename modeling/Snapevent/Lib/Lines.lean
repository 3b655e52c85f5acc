import Mathlib.Data.List.Basic

/-!
# Texts in lines

A text is cut into lines after each separator; what follows the last separator is a line when it is
not empty.  A carriage return before a separator belongs to the separator.  A log of lines that
each end in a separator loses whole lines and at most one partial line when it is cut off.
-/

namespace Lines

variable {α : Type} [DecidableEq α]

/-- A line without the carriage return before its separator. -/
def chomp (cr : α) (line : List α) : List α :=
  if line.getLast? = some cr then line.dropLast else line

/-- The lines of a text, of which `line` has been read. -/
def splitFrom (nl cr : α) (line : List α) : List α → List (List α)
  | [] => if line = [] then [] else [line]
  | c :: text => if c = nl then chomp cr line :: splitFrom nl cr [] text
      else splitFrom nl cr (line ++ [c]) text

/-- The lines of a text. -/
def split (nl cr : α) (text : List α) : List (List α) := splitFrom nl cr [] text

/-- The text of some lines, each ended by a separator. -/
def join (nl : α) (lines : List (List α)) : List α := lines.flatMap (· ++ [nl])

/-- Nothing stands after the last separator. -/
def Ended (nl : α) (text : List α) : Prop := text = [] ∨ text.getLast? = some nl

instance (nl : α) (text : List α) : Decidable (Ended nl text) :=
  inferInstanceAs (Decidable (_ ∨ _))

/-- The text has the line between two of its separators, or before its first. -/
def Stands (nl : α) (line text : List α) : Prop :=
  ∃ before after, text = before ++ (line ++ nl :: after) ∧ Ended nl before

/-- A line that stands for itself between separators. -/
structure Plain (nl cr : α) (line : List α) : Prop where
  nl_notMem : nl ∉ line
  last : line.getLast? ≠ some cr

variable {nl cr : α} {line rest text : List α} {lines : List (List α)}

/-! ### Joining -/

omit [DecidableEq α] in
@[simp] theorem join_nil : join nl [] = [] := rfl

omit [DecidableEq α] in
@[simp] theorem join_cons : join nl (line :: lines) = line ++ nl :: join nl lines := by
  simp [join]

omit [DecidableEq α] in
@[simp] theorem join_append (lines lines' : List (List α)) :
    join nl (lines ++ lines') = join nl lines ++ join nl lines' :=
  List.flatMap_append

omit [DecidableEq α] in
theorem ended_join (lines : List (List α)) : Ended nl (join nl lines) := by
  rcases List.eq_nil_or_concat lines with rfl | ⟨lines, line, rfl⟩
  · exact Or.inl rfl
  · right
    simp

omit [DecidableEq α] in
/-- A log that is cut off keeps whole lines and a part of the next one. -/
theorem take_join (lines : List (List α)) (n : ℕ) :
    ∃ k part, (join nl lines).take n = join nl (lines.take k) ++ part ∧
      (part ≠ [] → ∃ line, lines[k]? = some line ∧ part <+: line) := by
  induction lines generalizing n with
  | nil => exact ⟨0, [], by simp, fun h => absurd rfl h⟩
  | cons line lines ih =>
    by_cases hn : n ≤ line.length
    · refine ⟨0, line.take n, ?_, fun _ => ⟨line, rfl, List.take_prefix n line⟩⟩
      rw [join_cons, List.take_append_of_le_length hn]
      rfl
    · obtain ⟨k, part, htake, hpart⟩ := ih (n - line.length - 1)
      refine ⟨k + 1, part, ?_, hpart⟩
      obtain ⟨m, hm⟩ : ∃ m, n - line.length = m + 1 := ⟨n - line.length - 1, by omega⟩
      rw [join_cons, List.take_append, List.take_of_length_le (by omega), hm, List.take_succ_cons,
        List.take_succ_cons, join_cons, List.append_assoc, List.cons_append, ← htake]
      congr 3
      omega

/-! ### Splitting -/

theorem chomp_of_last (h : line.getLast? ≠ some cr) : chomp cr line = line := if_neg h

theorem splitFrom_append_of_notMem (h : nl ∉ text) (line rest : List α) :
    splitFrom nl cr line (text ++ rest) = splitFrom nl cr (line ++ text) rest := by
  induction text generalizing line with
  | nil => rw [List.nil_append, List.append_nil]
  | cons c text ih =>
    rw [List.mem_cons, not_or] at h
    rw [List.cons_append, splitFrom, if_neg (Ne.symm h.1), ih h.2, List.append_assoc]
    rfl

theorem splitFrom_of_notMem (h : nl ∉ text) (line : List α) :
    splitFrom nl cr line text = if line ++ text = [] then [] else [line ++ text] := by
  have happend : splitFrom nl cr line (text ++ []) = _ := splitFrom_append_of_notMem h line []
  rw [List.append_nil] at happend
  rw [happend, splitFrom]

theorem splitFrom_append (h : nl ∉ text) (line : List α) :
    splitFrom nl cr line (text ++ nl :: rest) = chomp cr (line ++ text) :: split nl cr rest := by
  rw [splitFrom_append_of_notMem h, splitFrom, if_pos rfl]
  rfl

theorem split_part (h : nl ∉ text) (hne : text ≠ []) : split nl cr text = [text] := by
  rw [split, splitFrom_of_notMem h, List.nil_append, if_neg hne]

@[simp] theorem split_nil : split nl cr [] = [] := rfl

theorem split_line (h : Plain nl cr line) : split nl cr (line ++ nl :: rest) =
    line :: split nl cr rest := by
  rw [split, splitFrom_append h.nl_notMem, List.nil_append, chomp_of_last h.last]

theorem splitFrom_concat (line text rest : List α) :
    splitFrom nl cr line (text ++ nl :: rest) =
      splitFrom nl cr line (text ++ [nl]) ++ split nl cr rest := by
  induction text generalizing line with
  | nil =>
    rw [List.nil_append, List.nil_append, splitFrom, splitFrom, if_pos rfl, if_pos rfl]
    rfl
  | cons c text ih =>
    rw [List.cons_append, List.cons_append, splitFrom, splitFrom]
    by_cases hc : c = nl
    · rw [if_pos hc, if_pos hc, ih]
      rfl
    · rw [if_neg hc, if_neg hc, ih]

theorem split_append (h : Ended nl text) (rest : List α) :
    split nl cr (text ++ rest) = split nl cr text ++ split nl cr rest := by
  rcases h with rfl | hlast
  · rfl
  · obtain ⟨text, rfl⟩ := List.getLast?_eq_some_iff.1 hlast
    rw [List.append_assoc]
    exact splitFrom_concat [] text rest

theorem split_join_append (h : ∀ line ∈ lines, Plain nl cr line) (rest : List α) :
    split nl cr (join nl lines ++ rest) = lines ++ split nl cr rest := by
  induction lines with
  | nil => rfl
  | cons line lines ih =>
    rw [List.forall_mem_cons] at h
    rw [join_cons, List.append_assoc, List.cons_append, split_line h.1, ih h.2]
    rfl

/-! ### Lines that stand -/

omit [DecidableEq α] in
theorem Stands.append (h : Stands nl line text) (rest : List α) : Stands nl line (text ++ rest) := by
  obtain ⟨before, after, rfl, hended⟩ := h
  exact ⟨before, after ++ rest, by simp, hended⟩

omit [DecidableEq α] in
theorem Ended.stands (h : Ended nl text) (line : List α) : Stands nl line (text ++ (line ++ [nl])) :=
  ⟨text, [], rfl, h⟩

theorem Stands.mem_split (h : Stands nl line text) (hplain : Plain nl cr line) :
    line ∈ split nl cr text := by
  obtain ⟨before, after, rfl, hended⟩ := h
  rw [split_append hended, split_line hplain]
  exact List.mem_append_right _ List.mem_cons_self

end Lines
