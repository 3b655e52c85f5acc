import Snapevent.Lib.Json

/-!
# JSON texts that run into each other

A text that is broken off and continued by a part of the text of an object, as a line that a crash
has torn and a later writer has continued, is the text of nothing.
-/

namespace Json

/-- A string inside a document. -/
def StringUse.Inner : StringUse → Prop
  | .key .. => True
  | .value stack => stack ≠ []

/-- An object has been opened, and no literal is left that an object could continue. -/
def State.Begun : State → Prop
  | .value stack => stack ≠ []
  | .string use _ _ => use.Inner
  | .literal _ rest _ => '{' ∉ rest
  | _ => True

theorem stepValue_begun {stack : List Frame} {c : Char} {τ : State}
    (hc : c = '{' ∨ stack ≠ []) (h : stepValue stack c = some τ) : τ.Begun := by
  rcases hc with rfl | hstack
  · cases h
    trivial
  · rw [stepValue] at h
    split_ifs at h
    all_goals cases h
    all_goals first | trivial | exact hstack | (show '{' ∉ _; decide)

theorem stepDone_begun {stack : List Frame} {v : Json} {c : Char} {τ : State}
    (h : stepDone stack v c = some τ) : τ.Begun := by
  rw [stepDone.eq_def] at h
  by_cases hblank : isBlank c = true
  · rw [if_pos hblank] at h
    cases h
    trivial
  · rw [if_neg hblank] at h
    rcases stack with _ | ⟨xs | ⟨members, k⟩, stack⟩ <;> dsimp only at h
    · cases h
    · split_ifs at h <;> cases h <;> simp [State.Begun]
    · split_ifs at h <;> cases h <;> simp [State.Begun]

section String

variable {use : StringUse} (huse : use.Inner) {chars : List Char} {τ : State}

include huse

theorem endHex_begun {high : Option ℕ} {value : ℕ} (h : endHex use chars high value = some τ) :
    τ.Begun := by
  rw [endHex.eq_def] at h
  split at h <;> split_ifs at h <;> cases h <;> exact huse

theorem stepString_begun {c : Char} {e : Escape} (h : stepString use chars c e = some τ) :
    τ.Begun := by
  cases e with
  | none =>
    simp only [stepString] at h
    split_ifs at h <;> cases h
    · cases use <;> trivial
    all_goals exact huse
  | start =>
    simp only [stepString] at h
    split_ifs at h
    · cases h; exact huse
    · obtain ⟨d, -, rfl⟩ := Option.map_eq_some_iff.1 h
      exact huse
  | hex high digits value =>
    simp only [stepString] at h
    obtain ⟨d, -, h⟩ := Option.bind_eq_some_iff.1 h
    split_ifs at h
    · exact endHex_begun huse h
    · cases h; exact huse
  | high value => simp only [stepString] at h; split_ifs at h; cases h; exact huse
  | highStart value => simp only [stepString] at h; split_ifs at h; cases h; exact huse

end String

theorem State.Begun.step {σ τ : State} {c : Char} (hσ : σ.Begun) (h : step σ c = some τ) :
    τ.Begun := by
  cases σ with
  | value stack => exact stepValue_begun (Or.inr hσ) h
  | firstElement stack =>
    rw [Json.step] at h
    split_ifs at h
    · cases h; trivial
    · cases h; trivial
    · exact stepValue_begun (Or.inr (by simp)) h
  | key stack members first =>
    rw [Json.step] at h
    split_ifs at h <;> cases h <;> trivial
  | colon stack members k =>
    rw [Json.step] at h
    split_ifs at h <;> cases h
    · trivial
    · exact List.cons_ne_nil _ _
  | string use chars e => exact stepString_begun hσ h
  | number stack chars =>
    rw [Json.step] at h
    split_ifs at h
    · cases h; trivial
    · obtain ⟨v, -, h⟩ := Option.bind_eq_some_iff.1 h
      exact stepDone_begun h
  | literal stack rest v =>
    rw [Json.step.eq_def] at h
    dsimp only at h
    split at h
    · cases h
    · split_ifs at h
      cases h
      trivial
    · split_ifs at h
      cases h
      exact fun hmem => hσ (List.mem_cons_of_mem _ hmem)
  | done stack v => exact stepDone_begun h

theorem State.Begun.run {σ τ : State} {text : List Char} (hσ : σ.Begun)
    (h : Json.run σ text = some τ) : τ.Begun := by
  induction text generalizing σ with
  | nil => cases h; exact hσ
  | cons c text ih =>
    rw [run_cons] at h
    obtain ⟨ρ, hρ, h⟩ := Option.bind_eq_some_iff.1 h
    exact ih (hσ.step hρ) h

section Letter

variable {c : Char} (hc : c.isAlpha = true)

include hc

theorem ne_of_isAlpha {d : Char} (hd : d.isAlpha = false) : c ≠ d := by
  rintro rfl
  rw [hc] at hd
  cases hd

theorem isBlank_of_isAlpha : isBlank c = false := by
  simp [isBlank, ne_of_isAlpha hc (d := ' ') rfl, ne_of_isAlpha hc (d := '\n') rfl,
    ne_of_isAlpha hc (d := '\t') rfl, ne_of_isAlpha hc (d := '\r') rfl]

theorem escape_of_isAlpha : escape c = [c] := by
  have hcode : ¬ c.toNat < 32 := by
    have hlower (m : UInt32) (hm : 32 ≤ m.toNat) (h : m ≤ c.val) : ¬ c.toNat < 32 :=
      not_lt_of_ge (le_trans hm (UInt32.le_iff_toNat_le.1 h))
    rcases Bool.or_eq_true_iff.1 hc with hupper | hlow
    · exact hlower 65 (by decide) (of_decide_eq_true hupper).1
    · exact hlower 97 (by decide) (of_decide_eq_true (Bool.and_eq_true_iff.1 hlow).1)
  rw [escape, if_neg (ne_of_isAlpha hc rfl), if_neg (ne_of_isAlpha hc rfl),
    if_neg (ne_of_isAlpha hc rfl), if_neg (ne_of_isAlpha hc rfl), if_neg (ne_of_isAlpha hc rfl),
    if_neg (ne_of_isAlpha hc rfl), if_neg (ne_of_isAlpha hc rfl), if_neg hcode]

theorem stepDone_of_isAlpha (stack : List Frame) (v : Json) : stepDone stack v c = none := by
  rw [stepDone.eq_def, isBlank_of_isAlpha hc]
  rcases stack with _ | ⟨xs | ⟨members, k⟩, stack⟩
  · rfl
  · simp [ne_of_isAlpha hc (d := ',') rfl, ne_of_isAlpha hc (d := ']') rfl]
  · simp [ne_of_isAlpha hc (d := ',') rfl, ne_of_isAlpha hc (d := '}') rfl]

theorem step_close_of_isAlpha (use : StringUse) (chars : List Char) :
    step (use.close chars) c = none := by
  cases use with
  | key stack members =>
    rw [StringUse.close, step, isBlank_of_isAlpha hc]
    simp [ne_of_isAlpha hc (d := ':') rfl]
  | value stack => exact stepDone_of_isAlpha hc _ _

end Letter

/-! ## Texts that are broken off -/

/-- A document has been read, though its last number may go on. -/
def State.Closed : State → Prop
  | .done stack _ => stack = []
  | .number stack _ => stack = []
  | _ => False

theorem State.document_closed {σ : State} {v : Json} (h : σ.document = some v) : σ.Closed := by
  cases σ with
  | done stack v' =>
    cases stack with
    | nil => rfl
    | cons f stack => cases h
  | number stack chars =>
    cases stack with
    | nil => rfl
    | cons f stack => cases h
  | _ => cases h

theorem stepDone_closed {v : Json} {c : Char} {τ : State} (h : stepDone [] v c = some τ) :
    τ.Closed := by
  rw [stepDone.eq_def] at h
  split_ifs at h
  cases h
  rfl

theorem State.Closed.step {σ τ : State} {c : Char} (hσ : σ.Closed) (h : Json.step σ c = some τ) :
    τ.Closed := by
  cases σ with
  | done stack v =>
    cases (show stack = [] from hσ)
    exact stepDone_closed h
  | number stack chars =>
    cases (show stack = [] from hσ)
    rw [Json.step] at h
    split_ifs at h
    · cases h
      rfl
    · obtain ⟨v, -, h⟩ := Option.bind_eq_some_iff.1 h
      exact stepDone_closed h
  | _ => cases hσ

theorem State.Closed.step_brace {σ : State} (hσ : σ.Closed) : Json.step σ '}' = none := by
  cases σ with
  | done stack v =>
    cases (show stack = [] from hσ)
    rfl
  | number stack chars =>
    cases (show stack = [] from hσ)
    rw [Json.step]
    cases readNumber chars with
    | none => rfl
    | some v => rfl
  | _ => cases hσ

theorem State.Closed.run_brace {σ : State} (hσ : σ.Closed) (text : List Char) :
    Json.run σ (text ++ ['}']) = none := by
  induction text generalizing σ with
  | nil =>
    rw [List.nil_append, run_cons, hσ.step_brace]
    rfl
  | cons c text ih =>
    rw [List.cons_append, run_cons]
    cases hstep : Json.step σ c with
    | none => rfl
    | some τ => exact ih (hσ.step hstep)

theorem printMembers_ends (members : List (String × Json)) :
    ∃ text, printMembers members = text ++ ['}'] := by
  induction members with
  | nil => exact ⟨[], by rw [printMembers]; rfl⟩
  | cons m members ih =>
    obtain ⟨text, htext⟩ := ih
    refine ⟨',' :: (printString m.1 ++ ':' :: (m.2.print ++ text)), ?_⟩
    rw [printMembers, htext]
    simp

theorem print_object_ends (members : List (String × Json)) :
    ∃ text, (object members).print = text ++ ['}'] := by
  cases members with
  | nil => exact ⟨['{'], by rw [print]; rfl⟩
  | cons m members =>
    obtain ⟨text, htext⟩ := printMembers_ends members
    refine ⟨'{' :: (printString m.1 ++ ':' :: (m.2.print ++ text)), ?_⟩
    rw [print, htext]
    simp

/-- Where the text of an object can be read, a part of it ends no document. -/
theorem document_of_part {σ : State} {part : List Char} {members : List (String × Json)}
    (h : part <+: (object members).print) (hne : part ≠ (object members).print)
    (hrun : (run σ (object members).print).isSome) : (run σ part).bind State.document = none := by
  obtain ⟨rest, hrest⟩ := h
  obtain ⟨text, htext⟩ := print_object_ends members
  cases hpart : run σ part with
  | none => rfl
  | some ρ =>
    rw [Option.bind_some]
    cases hdocument : ρ.document with
    | none => rfl
    | some v =>
      exfalso
      have hclosed : ρ.Closed := State.document_closed hdocument
      rcases List.eq_nil_or_concat rest with rfl | ⟨rest, c, rfl⟩
      · exact hne (by simpa using hrest)
      · rw [List.concat_eq_append] at hrest
        have hbrace : c = '}' := by
          rw [htext, ← List.append_assoc] at hrest
          simpa using congrArg List.getLast? hrest
        rw [← hrest, run_append, hpart, Option.bind_some, hbrace, hclosed.run_brace rest] at hrun
        cases hrun

/-- The text of an object that is broken off is the text of nothing. -/
theorem parse_of_prefix_object {part : List Char} {members : List (String × Json)}
    (h : part <+: (object members).print) (hne : part ≠ (object members).print) :
    parse part = none := by
  apply document_of_part h hne
  have hfull := parse_print (object members)
  rw [parse] at hfull
  obtain ⟨σ, hσ, -⟩ := Option.bind_eq_some_iff.1 hfull
  rw [hσ]
  rfl

/-! ## Texts that run into an object -/

theorem stepDone_brace (stack : List Frame) (v : Json) : stepDone stack v '{' = none := by
  rcases stack with _ | ⟨xs | ⟨members, k⟩, stack⟩ <;> rfl

section Object

variable {k : String} {c : Char} {cs : List Char} (hk : k.toList = c :: cs) (hc : c.isAlpha = true)
  (v : Json) (members : List (String × Json)) {part : List Char}
  (hpart : part <+: (object ((k, v) :: members)).print)

include hpart

theorem run_part_inside (f : Frame) (stack : List Frame) :
    (run (.value (f :: stack)) part).bind State.document = none := by
  obtain ⟨τ, hrun, hread⟩ := (object ((k, v) :: members)).run_print (f :: stack)
  by_cases hfull : part = (object ((k, v) :: members)).print
  · rw [hfull, hrun, Option.bind_some]
    cases hread with
    | done => rfl
    | number hv => cases hv
  · apply document_of_part hpart hfull
    rw [hrun]
    rfl

variable (hne : part ≠ [])

include hne

theorem part_eq_cons : ∃ rest, part = '{' :: rest := by
  cases part with
  | nil => exact absurd rfl hne
  | cons d rest =>
    have hhead : d = '{' := by
      rw [print, List.cons_prefix_cons] at hpart
      exact hpart.1
    exact ⟨rest, by rw [hhead]⟩

include hk hc

/-- Inside a string a part of an object whose first key begins with a letter ends it at most, and
the letter is refused. -/
theorem run_part_string {use : StringUse} (huse : use.Inner) (chars : List Char) :
    (run (.string use chars .none) part).bind State.document = none := by
  obtain ⟨rest, hprint⟩ : ∃ rest, (object ((k, v) :: members)).print = '{' :: '"' :: c :: rest := by
    rw [print, printString, hk, List.flatMap_cons, escape_of_isAlpha hc]
    exact ⟨_, rfl⟩
  have hbrace : Json.step (.string use chars .none) '{' =
    some (.string use (chars ++ ['{']) .none) := rfl
  have hquote : Json.step (.string use (chars ++ ['{']) .none) '"' =
    some (use.close (chars ++ ['{'])) := rfl
  rw [hprint] at hpart
  rcases part with _ | ⟨d, _ | ⟨d', _ | ⟨d'', rest'⟩⟩⟩
  · exact absurd rfl hne
  · rw [List.cons_prefix_cons] at hpart
    rw [hpart.1, run_cons, hbrace]
    rfl
  · simp only [List.cons_prefix_cons] at hpart
    rw [hpart.1, hpart.2.1, run_cons, hbrace, Option.bind_some, run_cons, hquote, Option.bind_some,
      run_nil, Option.bind_some]
    cases use with
    | key stack members => rfl
    | value stack =>
      cases stack with
      | nil => exact absurd rfl huse
      | cons f stack => rfl
  · simp only [List.cons_prefix_cons] at hpart
    rw [hpart.1, hpart.2.1, hpart.2.2.1, run_cons, hbrace, Option.bind_some, run_cons, hquote,
      Option.bind_some, run_cons, step_close_of_isAlpha hc]
    rfl

/-- After an object has been opened, a part of an object whose first key begins with a letter ends
no document: where a value is expected it stays inside the open container, inside a string its
first quote ends the string before the letter, and elsewhere its brace is refused. -/
theorem State.Begun.run_part {σ : State} (hσ : σ.Begun) :
    (Json.run σ part).bind State.document = none := by
  obtain ⟨rest, hrest⟩ := part_eq_cons v members hpart hne
  have hrefused (h : Json.step σ '{' = none) : (Json.run σ part).bind State.document = none := by
    rw [hrest, run_cons, h]
    rfl
  cases σ with
  | value stack =>
    cases stack with
    | nil => exact absurd rfl hσ
    | cons f stack => exact run_part_inside v members hpart f stack
  | firstElement stack =>
    have hfirst : Json.step (.firstElement stack) '{' =
      Json.step (.value (.array [] :: stack)) '{' := rfl
    rw [hrest, run_cons, hfirst, ← run_cons, ← hrest]
    exact run_part_inside v members hpart _ stack
  | string use chars e =>
    cases e with
    | none => exact run_part_string hk hc v members hpart hne hσ chars
    | start => exact hrefused rfl
    | hex high digits value => exact hrefused rfl
    | high value => exact hrefused rfl
    | highStart value => exact hrefused rfl
  | literal stack rest v' =>
    apply hrefused
    rw [Json.step.eq_def]
    dsimp only
    split
    · rfl
    · rw [if_neg]
      rintro rfl
      exact hσ List.mem_cons_self
    · rw [if_neg]
      rintro rfl
      exact hσ List.mem_cons_self
  | number stack chars =>
    apply hrefused
    rw [Json.step]
    cases readNumber chars with
    | none => rfl
    | some v' => exact stepDone_brace stack v'
  | done stack v' => exact hrefused (stepDone_brace stack v')
  | key stack members first => exact hrefused rfl
  | colon stack members k => exact hrefused rfl

theorem parse_append_part (text : List Char) : parse ('{' :: text ++ part) = none := by
  rw [parse, run_append]
  cases hrun : run (.value []) ('{' :: text) with
  | none => rfl
  | some σ =>
    rw [run_cons] at hrun
    obtain ⟨ρ, hρ, hrun⟩ := Option.bind_eq_some_iff.1 hrun
    have hbegun : ρ.Begun := stepValue_begun (Or.inl rfl) hρ
    exact (hbegun.run hrun).run_part hk hc v members hpart hne

end Object

end Json
