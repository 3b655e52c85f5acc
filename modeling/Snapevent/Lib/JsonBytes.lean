import Snapevent.Lib.JsonTorn
import Snapevent.Lib.Utf8

/-!
# Torn JSON lines

The bytes of a log whose lines are the texts of objects.  A line that is broken off is the text of
nothing, and neither is one that runs into what an earlier writer has left, in whatever character
either of them was broken off.
-/

namespace Json

variable {members : List (String × Json)} {before part : List UInt8} {text : List Char}

theorem head_bytes_object (members : List (String × Json)) :
    ∃ rest, Utf8.bytes (object members).print = 123 :: rest := by
  obtain ⟨cs, hcs⟩ : ∃ cs, (object members).print = '{' :: cs := by
    cases members with
    | nil => exact ⟨_, by rw [print]⟩
    | cons m members => exact ⟨_, by rw [print]⟩
  refine ⟨Utf8.bytes cs, ?_⟩
  rw [hcs, Utf8.bytes_cons]
  rfl

theorem exists_of_head (h : (Utf8.bytes text).head? = some 123) : ∃ rest, text = '{' :: rest := by
  obtain ⟨rest, hrest⟩ := List.head?_eq_some_iff.1 h
  rw [← List.nil_append (123 :: rest)] at hrest
  obtain ⟨ds, es, hds, -, htext⟩ := Utf8.exists_of_bytes_eq (by decide) hrest
  obtain rfl : ds = [] := by
    by_contra hne
    exact Utf8.bytes_ne_nil hne hds.symm
  exact ⟨es, htext⟩

section Part

variable (hpart : part <+: Utf8.bytes (object members).print) (hne : part ≠ [])

include hpart hne

theorem head_of_part : part.head? = some 123 := by
  obtain ⟨rest, hrest⟩ := head_bytes_object members
  cases part with
  | nil => exact absurd rfl hne
  | cons b part =>
    rw [hrest, List.cons_prefix_cons] at hpart
    rw [hpart.1]
    rfl

/-- Where a part is the end of a text, it is made of whole characters. -/
theorem exists_chars (h : before ++ part = Utf8.bytes text) :
    ∃ cs ds, before = Utf8.bytes cs ∧ part = Utf8.bytes ds ∧ ds <+: (object members).print ∧
      ds ≠ [] ∧ text = cs ++ ds := by
  obtain ⟨rest, rfl⟩ := List.head?_eq_some_iff.1 (head_of_part hpart hne)
  obtain ⟨cs, es, hcs, hes, htext⟩ := Utf8.exists_of_bytes_eq (by decide) h.symm
  have hbrace : (123 :: rest : List UInt8) = Utf8.bytes ('{' :: es) := by
    rw [hes, Utf8.bytes_cons]
    rfl
  refine ⟨cs, '{' :: es, hcs, hbrace, ?_, List.cons_ne_nil _ _, htext⟩
  rw [hbrace] at hpart
  exact Utf8.prefix_of_bytes hpart

omit hne in
theorem parse_part (hfull : part ≠ Utf8.bytes (object members).print)
    (h : part = Utf8.bytes text) : parse text = none := by
  rw [h] at hpart
  apply parse_of_prefix_object (Utf8.prefix_of_bytes hpart)
  rintro rfl
  exact hfull h

end Part

/-- A part that goes on with a broken text is the text of nothing with it. -/
theorem parse_merged {k : String} {c : Char} {cs : List Char} (hk : k.toList = c :: cs)
    (hc : c.isAlpha = true) (v : Json) (hbefore : before.head? = some 123)
    (hpart : part <+: Utf8.bytes (object ((k, v) :: members)).print) (hne : part ≠ [])
    (h : before ++ part = Utf8.bytes text) : parse text = none := by
  obtain ⟨bs, ds, rfl, -, hprefix, hds, rfl⟩ := exists_chars hpart hne h
  obtain ⟨bs, rfl⟩ := exists_of_head hbefore
  exact parse_append_part hk hc v members hprefix hds bs

end Json
