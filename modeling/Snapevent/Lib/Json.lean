import Mathlib.Data.List.Basic
import Mathlib.Data.Nat.Basic
import Mathlib.Tactic.SplitIfs

/-!
# JSON texts

JSON documents, their compact text, and the parser as a machine that takes one character at a time:
its state is the stack of arrays and objects that are open, with what it expects next.  Because the
machine runs over a text the way a fold does, what it does with a text put after another one is
what it does with the second from the state that the first has left behind.
-/

/-! ## Number literals -/

namespace Json

/-- A non-empty run of digits. -/
def isDigits (cs : List Char) : Bool := !cs.isEmpty && cs.all (·.isDigit)

/-- The exponent of a number literal, which may be left out. -/
def isExponent : List Char → Bool
  | [] => true
  | e :: cs => (e == 'e' || e == 'E') &&
    match cs with
    | '+' :: ds => isDigits ds
    | '-' :: ds => isDigits ds
    | ds => isDigits ds

/-- The fraction of a number literal, which may be left out, and its exponent. -/
def isFraction : List Char → Bool
  | '.' :: cs => isDigits (cs.takeWhile (·.isDigit)) && isExponent (cs.dropWhile (·.isDigit))
  | cs => isExponent cs

/-- A number literal without a sign: its whole part has no leading zero. -/
def isUnsigned : List Char → Bool
  | '0' :: cs => isFraction cs
  | cs => isDigits (cs.takeWhile (·.isDigit)) && isFraction (cs.dropWhile (·.isDigit))

/-- A number literal. -/
def isNumber : List Char → Bool
  | '-' :: cs => isUnsigned cs
  | cs => isUnsigned cs

/-- A character that occurs in number literals. -/
def isNumberChar (c : Char) : Bool :=
  c.isDigit || c == '-' || c == '+' || c == '.' || c == 'e' || c == 'E'

theorem forall_of_isDigits {cs : List Char} (h : isDigits cs = true) :
    ∀ c ∈ cs, isNumberChar c = true := by
  simp only [isDigits, Bool.and_eq_true, List.all_eq_true] at h
  intro c hc
  simp [isNumberChar, h.2 c hc]

theorem forall_of_isExponent {cs : List Char} (h : isExponent cs = true) :
    ∀ c ∈ cs, isNumberChar c = true := by
  rcases cs with _ | ⟨e, cs⟩
  · simp
  · simp only [isExponent, Bool.and_eq_true, Bool.or_eq_true, beq_iff_eq] at h
    refine List.forall_mem_cons.2 ⟨by simp [isNumberChar]; tauto, ?_⟩
    split at h
    · exact List.forall_mem_cons.2 ⟨rfl, forall_of_isDigits h.2⟩
    · exact List.forall_mem_cons.2 ⟨rfl, forall_of_isDigits h.2⟩
    · exact forall_of_isDigits h.2

theorem forall_of_parts {cs : List Char} (h : isDigits (cs.takeWhile (·.isDigit)) = true)
    (h' : ∀ c ∈ cs.dropWhile (·.isDigit), isNumberChar c = true) :
    ∀ c ∈ cs, isNumberChar c = true := by
  rw [← List.takeWhile_append_dropWhile (p := (·.isDigit)) (l := cs)]
  exact List.forall_mem_append.2 ⟨forall_of_isDigits h, h'⟩

theorem forall_of_isFraction {cs : List Char} (h : isFraction cs = true) :
    ∀ c ∈ cs, isNumberChar c = true := by
  rw [isFraction.eq_def] at h
  split at h
  · rw [Bool.and_eq_true] at h
    exact List.forall_mem_cons.2 ⟨rfl, forall_of_parts h.1 (forall_of_isExponent h.2)⟩
  · exact forall_of_isExponent h

theorem forall_of_isUnsigned {cs : List Char} (h : isUnsigned cs = true) :
    ∀ c ∈ cs, isNumberChar c = true := by
  rw [isUnsigned.eq_def] at h
  split at h
  · exact List.forall_mem_cons.2 ⟨rfl, forall_of_isFraction h⟩
  · rw [Bool.and_eq_true] at h
    exact forall_of_parts h.1 (forall_of_isFraction h.2)

theorem forall_of_isNumber {cs : List Char} (h : isNumber cs = true) :
    ∀ c ∈ cs, isNumberChar c = true := by
  rw [isNumber.eq_def] at h
  split at h
  · exact List.forall_mem_cons.2 ⟨rfl, forall_of_isUnsigned h⟩
  · exact forall_of_isUnsigned h

theorem head_of_isNumber {cs : List Char} (h : isNumber cs = true) :
    ∃ c rest, cs = c :: rest ∧ (c == '-' || c.isDigit) = true := by
  rw [isNumber.eq_def] at h
  split at h
  · exact ⟨_, _, rfl, rfl⟩
  · rw [isUnsigned.eq_def] at h
    split at h
    · exact ⟨_, _, rfl, rfl⟩
    · rcases cs with _ | ⟨c, cs⟩
      · cases h
      · refine ⟨c, cs, rfl, ?_⟩
        cases hc : c.isDigit
        · simp [isDigits, hc] at h
        · simp

end Json

/-- A number literal. -/
structure JsonNumber where
  chars : List Char
  isNumber : Json.isNumber chars = true
  deriving DecidableEq

/-- A JSON document as it is written: a number is its literal, an object the list of its members. -/
inductive Json
  | null
  | bool (b : Bool)
  | number (n : JsonNumber)
  | string (s : String)
  | array (xs : List Json)
  | object (members : List (String × Json))

namespace Json

/-! ## Compact texts -/

/-- The lower-case hexadecimal digit `n`. -/
def hexDigit (n : ℕ) : Char := if n < 10 then Char.ofNat (48 + n) else Char.ofNat (87 + n)

/-- The text of one character of a string. -/
def escape (c : Char) : List Char :=
  if c = '"' then ['\\', '"']
  else if c = '\\' then ['\\', '\\']
  else if c = Char.ofNat 8 then ['\\', 'b']
  else if c = '\t' then ['\\', 't']
  else if c = '\n' then ['\\', 'n']
  else if c = Char.ofNat 12 then ['\\', 'f']
  else if c = '\r' then ['\\', 'r']
  else if c.toNat < 32 then ['\\', 'u', '0', '0', hexDigit (c.toNat / 16), hexDigit (c.toNat % 16)]
  else [c]

/-- The text of a string. -/
def printString (s : String) : List Char := '"' :: s.toList.flatMap escape ++ ['"']

mutual

/-- The compact text of a document. -/
def print : Json → List Char
  | null => "null".toList
  | bool true => "true".toList
  | bool false => "false".toList
  | number n => n.chars
  | string s => printString s
  | array [] => ['[', ']']
  | array (x :: xs) => '[' :: (x.print ++ printElements xs)
  | object [] => ['{', '}']
  | object ((k, v) :: members) => '{' :: (printString k ++ ':' :: (v.print ++ printMembers members))

/-- The text of the remaining elements of an array. -/
def printElements : List Json → List Char
  | [] => [']']
  | x :: xs => ',' :: (x.print ++ printElements xs)

/-- The text of the remaining members of an object. -/
def printMembers : List (String × Json) → List Char
  | [] => ['}']
  | (k, v) :: members => ',' :: (printString k ++ ':' :: (v.print ++ printMembers members))

end

/-! ## The parser -/

/-- White space between tokens. -/
def isBlank (c : Char) : Bool := c == ' ' || c == '\n' || c == '\t' || c == '\r'

/-- A container that is open: the elements of an array so far, or the members of an object so far
with the key whose value is being read. -/
inductive Frame
  | array (xs : List Json)
  | object (members : List (String × Json)) (key : String)

/-- What a string that is being read is for. -/
inductive StringUse
  | key (stack : List Frame) (members : List (String × Json))
  | value (stack : List Frame)

/-- Where in an escape sequence a string is being read. -/
inductive Escape
  | none
  | start
  | hex (high : Option ℕ) (digits value : ℕ)
  | high (value : ℕ)
  | highStart (value : ℕ)

/-- What the parser expects next. -/
inductive State
  | value (stack : List Frame)
  | firstElement (stack : List Frame)
  | key (stack : List Frame) (members : List (String × Json)) (first : Bool)
  | colon (stack : List Frame) (members : List (String × Json)) (key : String)
  | string (use : StringUse) (chars : List Char) (escape : Escape)
  | number (stack : List Frame) (chars : List Char)
  | literal (stack : List Frame) (rest : List Char) (v : Json)
  | done (stack : List Frame) (v : Json)

/-- A character where a value is expected. -/
def stepValue (stack : List Frame) (c : Char) : Option State :=
  if isBlank c then some (.value stack)
  else if c = '{' then some (.key stack [] true)
  else if c = '[' then some (.firstElement stack)
  else if c = '"' then some (.string (.value stack) [] .none)
  else if c = 'n' then some (.literal stack "ull".toList null)
  else if c = 't' then some (.literal stack "rue".toList (bool true))
  else if c = 'f' then some (.literal stack "alse".toList (bool false))
  else if c == '-' || c.isDigit then some (.number stack [c])
  else none

/-- A character after a value. -/
def stepDone (stack : List Frame) (v : Json) (c : Char) : Option State :=
  if isBlank c then some (.done stack v)
  else match stack with
  | .array xs :: stack =>
    if c = ',' then some (.value (.array (xs ++ [v]) :: stack))
    else if c = ']' then some (.done stack (array (xs ++ [v])))
    else none
  | .object members k :: stack =>
    if c = ',' then some (.key stack (members ++ [(k, v)]) false)
    else if c = '}' then some (.done stack (object (members ++ [(k, v)])))
    else none
  | [] => none

/-- The value of a hexadecimal digit. -/
def hexValue (c : Char) : Option ℕ :=
  if c.isDigit then some (c.toNat - 48)
  else if 'a' ≤ c ∧ c ≤ 'f' then some (c.toNat - 87)
  else if 'A' ≤ c ∧ c ≤ 'F' then some (c.toNat - 55)
  else none

/-- The character a one-letter escape sequence stands for. -/
def unescape (c : Char) : Option Char :=
  if c = '"' then some '"' else if c = '\\' then some '\\' else if c = '/' then some '/'
  else if c = 'b' then some (Char.ofNat 8) else if c = 'f' then some (Char.ofNat 12)
  else if c = 'n' then some '\n' else if c = 'r' then some '\r' else if c = 't' then some '\t'
  else none

/-- The end of a four-digit escape sequence: a character, or the first half of a surrogate pair. -/
def endHex (use : StringUse) (chars : List Char) (high : Option ℕ) (value : ℕ) : Option State :=
  match high with
  | none =>
    if 0xDC00 ≤ value ∧ value ≤ 0xDFFF then none
    else if 0xD800 ≤ value ∧ value ≤ 0xDBFF then some (.string use chars (.high value))
    else some (.string use (chars ++ [Char.ofNat value]) .none)
  | some h =>
    if 0xDC00 ≤ value ∧ value ≤ 0xDFFF then
      some (.string use (chars ++ [Char.ofNat (0x10000 + (h - 0xD800) * 0x400 + (value - 0xDC00))])
        .none)
    else none

/-- The state after the closing quote of a string. -/
def StringUse.close (chars : List Char) : StringUse → State
  | key stack members => .colon stack members (String.ofList chars)
  | value stack => .done stack (string (String.ofList chars))

/-- A character inside a string. -/
def stepString (use : StringUse) (chars : List Char) (c : Char) : Escape → Option State
  | .none =>
    if c = '"' then some (use.close chars)
    else if c = '\\' then some (.string use chars .start)
    else if c.toNat < 32 then none
    else some (.string use (chars ++ [c]) .none)
  | .start =>
    if c = 'u' then some (.string use chars (.hex none 0 0))
    else (unescape c).map fun c => .string use (chars ++ [c]) .none
  | .hex high digits value =>
    (hexValue c).bind fun d =>
      if digits = 3 then endHex use chars high (16 * value + d)
      else some (.string use chars (.hex high (digits + 1) (16 * value + d)))
  | .high value => if c = '\\' then some (.string use chars (.highStart value)) else none
  | .highStart value => if c = 'u' then some (.string use chars (.hex (some value) 0 0)) else none

/-- The number of a literal. -/
def readNumber (chars : List Char) : Option Json :=
  if h : isNumber chars = true then some (number ⟨chars, h⟩) else none

/-- Take one character. -/
def step : State → Char → Option State
  | .value stack, c => stepValue stack c
  | .firstElement stack, c =>
    if isBlank c then some (.firstElement stack)
    else if c = ']' then some (.done stack (array []))
    else stepValue (.array [] :: stack) c
  | .key stack members first, c =>
    if isBlank c then some (.key stack members first)
    else if c = '"' then some (.string (.key stack members) [] .none)
    else if c = '}' ∧ first then some (.done stack (object []))
    else none
  | .colon stack members k, c =>
    if isBlank c then some (.colon stack members k)
    else if c = ':' then some (.value (.object members k :: stack))
    else none
  | .string use chars escape, c => stepString use chars c escape
  | .number stack chars, c =>
    if isNumberChar c then some (.number stack (chars ++ [c]))
    else (readNumber chars).bind fun v => stepDone stack v c
  | .literal stack rest v, c =>
    match rest with
    | [] => none
    | [d] => if c = d then some (.done stack v) else none
    | d :: rest => if c = d then some (.literal stack rest v) else none
  | .done stack v, c => stepDone stack v c

/-- Take the characters of a text. -/
def run (σ : State) (text : List Char) : Option State := text.foldlM step σ

/-- The document of a text that has been read to its end. -/
def State.document : State → Option Json
  | .done [] v => some v
  | .number [] chars => readNumber chars
  | _ => none

/-- The document of a text. -/
def parse (text : List Char) : Option Json := (run (.value []) text).bind State.document

/-! ## Nesting and numbers -/

mutual

/-- How many arrays and objects stand in each other. -/
def depth : Json → ℕ
  | null => 0
  | bool _ => 0
  | number _ => 0
  | string _ => 0
  | array xs => depthElements xs + 1
  | object members => depthMembers members + 1

def depthElements : List Json → ℕ
  | [] => 0
  | x :: xs => max x.depth (depthElements xs)

def depthMembers : List (String × Json) → ℕ
  | [] => 0
  | (_, v) :: members => max v.depth (depthMembers members)

end

/-- The document of a text, for a reader that gives up where more than `limit` arrays and objects
stand in each other. -/
def parseWithin (limit : ℕ) (text : List Char) : Option Json :=
  (parse text).filter (·.depth ≤ limit)

theorem parseWithin_of_parse_eq_none {limit : ℕ} {text : List Char} (h : parse text = none) :
    parseWithin limit text = none := by
  rw [parseWithin, h]
  rfl

theorem parseWithin_eq_some_iff {limit : ℕ} {text : List Char} {v : Json} :
    parseWithin limit text = some v ↔ parse text = some v ∧ v.depth ≤ limit := by
  rw [parseWithin, Option.filter_eq_some_iff, decide_eq_true_iff]

mutual

/-- Every number in the document passes. -/
def everyNumber (p : JsonNumber → Bool) : Json → Bool
  | null => true
  | bool _ => true
  | number n => p n
  | string _ => true
  | array xs => everyNumberOf p xs
  | object members => everyMember p members

def everyNumberOf (p : JsonNumber → Bool) : List Json → Bool
  | [] => true
  | x :: xs => x.everyNumber p && everyNumberOf p xs

def everyMember (p : JsonNumber → Bool) : List (String × Json) → Bool
  | [] => true
  | (_, v) :: members => v.everyNumber p && everyMember p members

end

/-! ## What is printed is read back -/

section Run

variable {σ τ : State} {text rest : List Char} {c : Char}

theorem run_append (σ : State) (text rest : List Char) :
    run σ (text ++ rest) = (run σ text).bind (run · rest) := List.foldlM_append

theorem run_cons (σ : State) (c : Char) (text : List Char) :
    run σ (c :: text) = (step σ c).bind (run · text) := List.foldlM_cons

@[simp] theorem run_nil (σ : State) : run σ [] = some σ := rfl

end Run

theorem hexValue_hexDigit {n : ℕ} (h : n < 16) : hexValue (hexDigit n) = some n := by
  decide +revert

theorem run_escape (use : StringUse) (chars : List Char) (c : Char) :
    run (.string use chars .none) (escape c) = some (.string use (chars ++ [c]) .none) := by
  by_cases h1 : c = '"'
  · subst h1; rfl
  by_cases h2 : c = '\\'
  · subst h2; rfl
  by_cases h3 : c = Char.ofNat 8
  · subst h3; rfl
  by_cases h4 : c = '\t'
  · subst h4; rfl
  by_cases h5 : c = '\n'
  · subst h5; rfl
  by_cases h6 : c = Char.ofNat 12
  · subst h6; rfl
  by_cases h7 : c = '\r'
  · subst h7; rfl
  rw [escape, if_neg h1, if_neg h2, if_neg h3, if_neg h4, if_neg h5, if_neg h6, if_neg h7]
  by_cases h8 : c.toNat < 32
  · have hhigh := hexValue_hexDigit (n := c.toNat / 16) (by omega)
    have hlow := hexValue_hexDigit (n := c.toNat % 16) (by omega)
    have hvalue : 16 * (c.toNat / 16) + c.toNat % 16 = c.toNat := by omega
    have hzero : hexValue '0' = some 0 := rfl
    rw [if_pos h8]
    simp [run_cons, step, stepString, hhigh, hlow, hzero, endHex, hvalue]
    omega
  · rw [if_neg h8]
    simp [run_cons, step, stepString, h1, h2, h8]

theorem run_escapes (use : StringUse) (chars cs : List Char) :
    run (.string use chars .none) (cs.flatMap escape) = some (.string use (chars ++ cs) .none) := by
  induction cs generalizing chars with
  | nil => simp
  | cons c cs ih =>
    rw [List.flatMap_cons, run_append, run_escape, Option.bind_some, ih, List.append_assoc]
    rfl

theorem run_printString_value (stack : List Frame) (s : String) :
    run (.value stack) (printString s) = some (.done stack (string s)) := by
  have hopen : step (.value stack) '"' = some (.string (.value stack) [] .none) := rfl
  rw [printString, List.cons_append, run_cons, hopen, Option.bind_some, run_append, run_escapes]
  simp [run_cons, step, stepString, StringUse.close]

theorem run_printString_key (stack : List Frame) (members : List (String × Json)) (first : Bool)
    (k : String) :
    run (.key stack members first) (printString k) = some (.colon stack members k) := by
  have hopen : step (.key stack members first) '"' = some (.string (.key stack members) [] .none) :=
    rfl
  rw [printString, List.cons_append, run_cons, hopen, Option.bind_some, run_append, run_escapes]
  simp [run_cons, step, stepString, StringUse.close]

theorem run_number (stack : List Frame) (chars cs : List Char)
    (h : ∀ c ∈ cs, isNumberChar c = true) :
    run (.number stack chars) cs = some (.number stack (chars ++ cs)) := by
  induction cs generalizing chars with
  | nil => simp
  | cons c cs ih =>
    rw [List.forall_mem_cons] at h
    rw [run_cons, step, if_pos h.1, Option.bind_some, ih _ h.2, List.append_assoc]
    rfl

/-- The value `v` has been read, though the text may have to go on to show that a number is over. -/
inductive Read (stack : List Frame) (v : Json) : State → Prop
  | done : Read stack v (.done stack v)
  | number {n} : v = .number n → Read stack v (.number stack n.chars)

theorem readNumber_chars (n : JsonNumber) : readNumber n.chars = some (number n) :=
  dif_pos n.isNumber

section Read

variable {stack : List Frame} {v : Json} {σ : State}

theorem Read.step (h : Read stack v σ) {c : Char} (hc : isNumberChar c = false) :
    step σ c = stepDone stack v c := by
  cases h with
  | done => rfl
  | number hv =>
    rw [Json.step, hc, readNumber_chars, hv]
    rfl

theorem Read.document (h : Read [] v σ) : σ.document = some v := by
  cases h with
  | done => rfl
  | number hv => rw [State.document, readNumber_chars, hv]

end Read

theorem isBlank_of_numberHead {c : Char} (hc : (c == '-' || c.isDigit) = true) :
    isBlank c = false := by
  rw [← Bool.not_eq_true]
  intro hblank
  simp only [isBlank, Bool.or_eq_true, beq_iff_eq] at hblank
  rcases hblank with ((rfl | rfl) | rfl) | rfl <;> cases hc

theorem stepValue_of_numberHead (stack : List Frame) {c : Char}
    (hc : (c == '-' || c.isDigit) = true) : stepValue stack c = some (.number stack [c]) := by
  have hne {d : Char} (hd : (d == '-' || d.isDigit) = false) : c ≠ d := by
    rintro rfl
    rw [hc] at hd
    cases hd
  rw [stepValue, isBlank_of_numberHead hc, if_neg Bool.false_ne_true, if_neg (hne rfl),
    if_neg (hne rfl), if_neg (hne rfl), if_neg (hne rfl), if_neg (hne rfl), if_neg (hne rfl),
    if_pos hc]

theorem run_print_number (stack : List Frame) (n : JsonNumber) :
    run (.value stack) n.chars = some (.number stack n.chars) := by
  obtain ⟨c, rest, hchars, hc⟩ := head_of_isNumber n.isNumber
  have hall := forall_of_isNumber n.isNumber
  rw [hchars, List.forall_mem_cons] at hall
  have hstep : step (.value stack) c = some (.number stack [c]) := stepValue_of_numberHead stack hc
  rw [hchars, run_cons, hstep, Option.bind_some, run_number _ _ _ hall.2]
  rfl

theorem print_head (v : Json) : ∃ c rest, v.print = c :: rest ∧ isBlank c = false ∧ c ≠ ']' := by
  rcases v with _ | b | n | s | xs | members
  · exact ⟨_, _, by rw [print]; rfl, rfl, by decide⟩
  · cases b
    · exact ⟨_, _, by rw [print]; rfl, rfl, by decide⟩
    · exact ⟨_, _, by rw [print]; rfl, rfl, by decide⟩
  · obtain ⟨c, rest, hchars, hc⟩ := head_of_isNumber n.isNumber
    refine ⟨c, rest, by rw [print, hchars], isBlank_of_numberHead hc, ?_⟩
    rintro rfl
    cases hc
  · exact ⟨_, _, by rw [print, printString]; rfl, rfl, by decide⟩
  · cases xs with
    | nil => exact ⟨_, _, by rw [print], rfl, by decide⟩
    | cons x xs => exact ⟨_, _, by rw [print], rfl, by decide⟩
  · rcases members with _ | ⟨⟨k, v⟩, members⟩
    · exact ⟨_, _, by rw [print], rfl, by decide⟩
    · exact ⟨_, _, by rw [print], rfl, by decide⟩

/-- In an array that has just been opened the first element is read like any value. -/
theorem run_firstElement (stack : List Frame) (x : Json) (rest : List Char) :
    run (.firstElement stack) (x.print ++ rest) =
      run (.value (.array [] :: stack)) (x.print ++ rest) := by
  obtain ⟨c, cs, hprint, hblank, hclose⟩ := x.print_head
  rw [hprint, List.cons_append, run_cons, run_cons, step, step, hblank, if_neg hclose]
  rfl

mutual

/-- The text of a value is read as the value. -/
theorem run_print (v : Json) (stack : List Frame) :
    ∃ σ, run (.value stack) v.print = some σ ∧ Read stack v σ := by
  match v with
  | null => exact ⟨_, by rw [print]; rfl, .done⟩
  | bool true => exact ⟨_, by rw [print]; rfl, .done⟩
  | bool false => exact ⟨_, by rw [print]; rfl, .done⟩
  | number n => exact ⟨_, by rw [print, run_print_number], .number rfl⟩
  | string s => exact ⟨_, by rw [print, run_printString_value], .done⟩
  | array [] => exact ⟨_, by rw [print]; rfl, .done⟩
  | array (x :: xs) =>
    obtain ⟨σ, hx, hread⟩ := run_print x (.array [] :: stack)
    refine ⟨_, ?_, .done⟩
    have hopen : step (.value stack) '[' = some (.firstElement stack) := rfl
    rw [print, run_cons, hopen, Option.bind_some, run_firstElement, run_append, hx,
      Option.bind_some, run_printElements xs stack [] x hread]
    rfl
  | object [] => exact ⟨_, by rw [print]; rfl, .done⟩
  | object ((k, v) :: members) =>
    obtain ⟨σ, hv, hread⟩ := run_print v (.object [] k :: stack)
    refine ⟨_, ?_, .done⟩
    have hopen : step (.value stack) '{' = some (.key stack [] true) := rfl
    have hcolon : step (.colon stack [] k) ':' = some (.value (.object [] k :: stack)) := rfl
    rw [print, run_cons, hopen, Option.bind_some, run_append, run_printString_key,
      Option.bind_some, run_cons, hcolon, Option.bind_some, run_append, hv, Option.bind_some,
      run_printMembers members stack [] k v hread]
    rfl

theorem run_printElements (xs : List Json) (stack : List Frame) (before : List Json) (x : Json)
    {σ : State} (h : Read (.array before :: stack) x σ) :
    run σ (printElements xs) = some (.done stack (array (before ++ x :: xs))) := by
  match xs with
  | [] =>
    rw [printElements, run_cons, h.step rfl]
    rfl
  | y :: xs =>
    have hcomma : stepDone (.array before :: stack) x ',' =
      some (.value (.array (before ++ [x]) :: stack)) := rfl
    obtain ⟨τ, hy, hread⟩ := run_print y (.array (before ++ [x]) :: stack)
    rw [printElements, run_cons, h.step rfl, hcomma, Option.bind_some, run_append, hy,
      Option.bind_some, run_printElements xs stack _ y hread, List.append_assoc]
    rfl

theorem run_printMembers (members : List (String × Json)) (stack : List Frame)
    (before : List (String × Json)) (k : String) (v : Json) {σ : State}
    (h : Read (.object before k :: stack) v σ) :
    run σ (printMembers members) = some (.done stack (object (before ++ (k, v) :: members))) := by
  match members with
  | [] =>
    rw [printMembers, run_cons, h.step rfl]
    rfl
  | (k', v') :: members =>
    have hcomma : stepDone (.object before k :: stack) v ',' =
      some (.key stack (before ++ [(k, v)]) false) := rfl
    have hcolon : step (.colon stack (before ++ [(k, v)]) k') ':' =
      some (.value (.object (before ++ [(k, v)]) k' :: stack)) := rfl
    obtain ⟨τ, hv, hread⟩ := run_print v' (.object (before ++ [(k, v)]) k' :: stack)
    rw [printMembers, run_cons, h.step rfl, hcomma, Option.bind_some, run_append,
      run_printString_key, Option.bind_some, run_cons, hcolon, Option.bind_some, run_append, hv,
      Option.bind_some, run_printMembers members stack _ k' v' hread, List.append_assoc]
    rfl

end

theorem parse_print (v : Json) : parse v.print = some v := by
  obtain ⟨σ, hrun, hread⟩ := v.run_print []
  rw [parse, hrun, Option.bind_some, hread.document]

theorem parseWithin_print (limit : ℕ) (v : Json) :
    parseWithin limit v.print = if v.depth ≤ limit then some v else none := by
  rw [parseWithin, parse_print]
  by_cases h : v.depth ≤ limit
  · rw [if_pos h]
    exact Option.filter_some_pos (decide_eq_true h)
  · rw [if_neg h]
    exact Option.filter_some_neg (by simpa using h)

/-! ## The characters of a text -/

theorem isNumberChar_visible {c : Char} (h : isNumberChar c = true) : 32 ≤ c.toNat := by
  simp only [isNumberChar, Char.isDigit, Bool.or_eq_true, Bool.and_eq_true, decide_eq_true_eq,
    beq_iff_eq] at h
  rcases h with ((((⟨h, -⟩ | rfl) | rfl) | rfl) | rfl) | rfl
  · exact le_trans (by decide) (UInt32.le_iff_toNat_le.1 h)
  all_goals decide

theorem hexDigit_visible {n : ℕ} (h : n < 16) : 32 ≤ (hexDigit n).toNat := by
  decide +revert

theorem visible_of_all {cs : List Char} (h : cs.all (32 ≤ ·.toNat) = true) :
    ∀ d ∈ cs, 32 ≤ d.toNat := by
  simpa using h

theorem escape_visible (c : Char) : ∀ d ∈ escape c, 32 ≤ d.toNat := by
  rw [escape]
  split_ifs with h1 h2 h3 h4 h5 h6 h7 h8
  · exact visible_of_all (by decide)
  · exact visible_of_all (by decide)
  · exact visible_of_all (by decide)
  · exact visible_of_all (by decide)
  · exact visible_of_all (by decide)
  · exact visible_of_all (by decide)
  · exact visible_of_all (by decide)
  · have hhigh := hexDigit_visible (n := c.toNat / 16) (by omega)
    have hlow := hexDigit_visible (n := c.toNat % 16) (by omega)
    simp [hhigh, hlow]
  · simpa using h8

theorem printString_visible (s : String) : ∀ d ∈ printString s, 32 ≤ d.toNat := by
  have hbody : ∀ d ∈ s.toList.flatMap escape, 32 ≤ d.toNat := fun d hd => by
    obtain ⟨c, -, hd⟩ := List.mem_flatMap.1 hd
    exact escape_visible c d hd
  rw [printString]
  exact List.forall_mem_append.2 ⟨List.forall_mem_cons.2 ⟨by decide, hbody⟩,
    visible_of_all (by decide)⟩

mutual

/-- A compact text has no control characters, so it stands on one line. -/
theorem print_visible (v : Json) : ∀ d ∈ v.print, 32 ≤ d.toNat := by
  match v with
  | null => rw [print]; exact visible_of_all (by decide)
  | bool true => rw [print]; exact visible_of_all (by decide)
  | bool false => rw [print]; exact visible_of_all (by decide)
  | number n =>
    rw [print]
    exact fun d hd => isNumberChar_visible (forall_of_isNumber n.isNumber d hd)
  | string s => rw [print]; exact printString_visible s
  | array [] => rw [print]; exact visible_of_all (by decide)
  | array (x :: xs) =>
    rw [print]
    exact List.forall_mem_cons.2 ⟨by decide,
      List.forall_mem_append.2 ⟨print_visible x, printElements_visible xs⟩⟩
  | object [] => rw [print]; exact visible_of_all (by decide)
  | object ((k, v) :: members) =>
    rw [print]
    exact List.forall_mem_cons.2 ⟨by decide, List.forall_mem_append.2 ⟨printString_visible k,
      List.forall_mem_cons.2 ⟨by decide,
        List.forall_mem_append.2 ⟨print_visible v, printMembers_visible members⟩⟩⟩⟩

theorem printElements_visible (xs : List Json) : ∀ d ∈ printElements xs, 32 ≤ d.toNat := by
  match xs with
  | [] => rw [printElements]; exact visible_of_all (by decide)
  | x :: xs =>
    rw [printElements]
    exact List.forall_mem_cons.2 ⟨by decide,
      List.forall_mem_append.2 ⟨print_visible x, printElements_visible xs⟩⟩

theorem printMembers_visible (members : List (String × Json)) :
    ∀ d ∈ printMembers members, 32 ≤ d.toNat := by
  match members with
  | [] => rw [printMembers]; exact visible_of_all (by decide)
  | (k, v) :: members =>
    rw [printMembers]
    exact List.forall_mem_cons.2 ⟨by decide, List.forall_mem_append.2 ⟨printString_visible k,
      List.forall_mem_cons.2 ⟨by decide,
        List.forall_mem_append.2 ⟨print_visible v, printMembers_visible members⟩⟩⟩⟩

end

end Json
