import Snapevent.Lib.Lines

/-!
# Logs of torn lines

Writers append lines to a log, each where the log happens to end, and each may be broken off in the
middle of a line.  A line of the log is then a line that was written, or ends with a part of one
that runs into what an earlier writer has left.
-/

namespace TornLog

variable {α : Type} {first nl cr : α} {P Q : List α → Prop} {text part : List α}

/-- What is written of a line begins with the mark every line begins with, and has neither a
separator nor a carriage return in it. -/
structure Parts (first nl cr : α) (P : List α → Prop) : Prop where
  head : ∀ part, P part → part.head? = some first
  nl_notMem : ∀ part, P part → nl ∉ part
  cr_notMem : ∀ part, P part → cr ∉ part

/-- A part of a line behind parts that were broken off before it. -/
structure Piece (first nl cr : α) (P : List α → Prop) (text : List α) : Prop where
  split : ∃ before part, text = before ++ part ∧ P part ∧
    (before = [] ∨ before.head? = some first)
  nl_notMem : nl ∉ text
  cr_notMem : cr ∉ text

/-- A log: pieces that were ended, and at most one that was not. -/
def Log (first nl cr : α) (P : List α → Prop) (text : List α) : Prop :=
  ∃ pieces tail, text = Lines.join nl pieces ++ tail ∧
    (∀ piece ∈ pieces, Piece first nl cr P piece) ∧ (tail = [] ∨ Piece first nl cr P tail)

section Piece

theorem Parts.piece (h : Parts first nl cr P) (hpart : P part) : Piece first nl cr P part :=
  ⟨⟨[], part, rfl, hpart, Or.inl rfl⟩, h.nl_notMem part hpart, h.cr_notMem part hpart⟩

theorem Piece.mono (h : Piece first nl cr P text) (hPQ : ∀ part, P part → Q part) :
    Piece first nl cr Q text := by
  obtain ⟨before, part, htext, hpart, hbefore⟩ := h.split
  exact ⟨⟨before, part, htext, hPQ part hpart, hbefore⟩, h.nl_notMem, h.cr_notMem⟩

theorem Piece.plain (h : Piece first nl cr P text) : Lines.Plain nl cr text :=
  ⟨h.nl_notMem, fun hlast => h.cr_notMem (List.mem_of_getLast? hlast)⟩

variable (hP : Parts first nl cr P)

include hP

theorem Piece.head (h : Piece first nl cr P text) : text.head? = some first := by
  obtain ⟨before, part, rfl, hpart, rfl | hbefore⟩ := h.split
  · exact hP.head part hpart
  · rw [List.head?_append, hbefore]
    rfl

theorem Piece.append (h : Piece first nl cr P text) (hpart : P part) :
    Piece first nl cr P (text ++ part) where
  split := ⟨text, part, rfl, hpart, Or.inr (h.head hP)⟩
  nl_notMem := List.not_mem_append h.nl_notMem (hP.nl_notMem part hpart)
  cr_notMem := List.not_mem_append h.cr_notMem (hP.cr_notMem part hpart)

end Piece

namespace Log

theorem nil : Log first nl cr P [] := ⟨[], [], rfl, by simp, Or.inl rfl⟩

theorem mono (h : Log first nl cr P text) (hPQ : ∀ part, P part → Q part) :
    Log first nl cr Q text := by
  obtain ⟨pieces, tail, htext, hpieces, htail⟩ := h
  exact ⟨pieces, tail, htext, fun piece hmem => (hpieces piece hmem).mono hPQ,
    htail.imp_right (·.mono hPQ)⟩

variable (hP : Parts first nl cr P) (hpart : P part)

include hP hpart

/-- The part goes on with the tail. -/
theorem exists_tail (h : Log first nl cr P text) :
    ∃ pieces tail, text ++ part = Lines.join nl pieces ++ tail ∧
      (∀ piece ∈ pieces, Piece first nl cr P piece) ∧ Piece first nl cr P tail := by
  obtain ⟨pieces, tail, rfl, hpieces, htail⟩ := h
  refine ⟨pieces, tail ++ part, List.append_assoc _ _ _, hpieces, ?_⟩
  rcases htail with rfl | htail
  · exact hP.piece hpart
  · exact htail.append hP hpart

theorem tear (h : Log first nl cr P text) : Log first nl cr P (text ++ part) := by
  obtain ⟨pieces, tail, htext, hpieces, htail⟩ := h.exists_tail hP hpart
  exact ⟨pieces, tail, htext, hpieces, Or.inr htail⟩

theorem write (h : Log first nl cr P text) : Log first nl cr P (text ++ (part ++ [nl])) := by
  obtain ⟨pieces, tail, htext, hpieces, htail⟩ := h.exists_tail hP hpart
  refine ⟨pieces ++ [tail], [], ?_, List.forall_mem_append.2 ⟨hpieces, by simpa using htail⟩,
    Or.inl rfl⟩
  rw [← List.append_assoc, htext, Lines.join_append, List.append_nil, Lines.join_cons,
    Lines.join_nil, List.append_assoc]

end Log

theorem Log.piece_of_mem [DecidableEq α] (h : Log first nl cr P text) {line : List α}
    (hline : line ∈ Lines.split nl cr text) : Piece first nl cr P line := by
  obtain ⟨pieces, tail, rfl, hpieces, htail⟩ := h
  rw [Lines.split_join_append fun piece hmem => (hpieces piece hmem).plain, List.mem_append] at hline
  rcases hline with hline | hline
  · exact hpieces line hline
  · rcases htail with rfl | htail
    · cases hline
    · by_cases hne : tail = []
      · rw [hne] at hline
        cases hline
      · rw [Lines.split_part htail.nl_notMem hne, List.mem_singleton] at hline
        rwa [hline]

end TornLog
