import Mathlib.Algebra.Order.Ring.Int
import Mathlib.Order.Lattice
import Snapevent.Lib.Machine

/-!
# Extraction of day tarballs

What `extract_day_tars` does below the destination (`tars.py`), call after call, when any call may
fail or be killed.  A tar is extracted piece by piece into a staging directory, which is renamed to
the directory of the day only where `extractall` returns; so the test for an extracted day never
takes what a failed extraction left for a day.  `extractall` takes a cut or damaged header behind
the first one for the end of the tar.  The date of an entry is left out.
-/

namespace Snapevent

/-- `s.removesuffix(end)`. -/
def removesuffix (s : String) (tail : String) : String :=
  if tail.toList.isSuffixOf s.toList then
    String.ofList (s.toList.take (s.toList.length - tail.toList.length))
  else s

/-- One day tarball, unopened: the directory it is in and its name. -/
structure TarEntry where
  dir : String
  name : String
  deriving DecidableEq, Repr

namespace TarEntry

variable (e : TarEntry)

/-- The name of the directory the tar is extracted to. -/
def day : String := removesuffix e.name ".tar.gz"

/-- The name of its staging directory. -/
def staging : String := ".extracting-" ++ e.day

/-- The index lists only names that begin with a date, so none that begins with a dot. -/
def Listed : Prop := e.name.toList.head?.any (· ≠ '.') = true

instance decidableListed : Decidable e.Listed := inferInstanceAs (Decidable (_ = true))

theorem day_ne_staging {e : TarEntry} (h : e.Listed) (e' : TarEntry) : e.day ≠ e'.staging := by
  intro heq
  have hstaging : e'.staging.toList = '.' :: ("extracting-".toList ++ e'.day.toList) := by
    simp only [staging, String.toList_append]
    rfl
  generalize "extracting-".toList ++ e'.day.toList = cs' at hstaging
  rw [← heq] at hstaging
  unfold Listed at h
  unfold day removesuffix at hstaging
  cases hname : e.name.toList with
  | nil => simp [hname] at h
  | cons c cs =>
    have hc : c ≠ '.' := by simpa [hname] using h
    split_ifs at hstaging
    · rw [String.toList_ofList, hname] at hstaging
      generalize (c :: cs).length - ".tar.gz".toList.length = k at hstaging
      cases k with
      | zero => simp at hstaging
      | succ k => simp [hc] at hstaging
    · simp [hname, hc] at hstaging

end TarEntry

/-- What the tars hold: the files packed into each, piece by piece as they are written, how many
pieces lie before the place where reading it stops, and whether `extractall` takes that place for
the end of the tar instead of raising. -/
structure Tarballs (μ : Type) where
  files : TarEntry → List μ
  readable : TarEntry → ℕ
  ends : TarEntry → Bool

namespace Tarballs

variable {μ : Type} (tars : Tarballs μ) (e : TarEntry)

/-- What is written of a tar when nothing else fails. -/
def pieces : List μ := (tars.files e).take (tars.readable e)

/-- No header and no piece of the tar is cut or damaged. -/
def Intact : Prop := tars.ends e = true ∧ (tars.files e).length ≤ tars.readable e

theorem pieces_of_intact {tars : Tarballs μ} {e : TarEntry} (h : tars.Intact e) :
    tars.pieces e = tars.files e :=
  List.take_of_length_le h.2

end Tarballs

/-- Where a call is with its next entry: not begun, removing the directory of the day, preparing the
staging directory, extracting with so many pieces written, or removing what was extracted because of
an exception. -/
inductive ExtractPhase
  | idle
  | replacing
  | staging
  | extracting (n : ℕ)
  | raising
  deriving DecidableEq, Repr

/-- A call: its arguments, what it has for its result, the entries it has still to extract, and, as
history, what it found below the destination. -/
structure ExtractCall (μ : Type) where
  entries : List TarEntry
  overwrite : Bool
  out : List String
  todo : List TarEntry
  phase : ExtractPhase
  found : String → Option (List μ)

/-- The directories below the destination, each with the pieces it holds, and the call that is made.
-/
structure TarExtraction (μ : Type) where
  dest : String → Option (List μ)
  call : Option (ExtractCall μ)

namespace TarExtraction

/-- What happens in a step.  `die` is the end of a call that does not return. -/
inductive TarAction
  | call
  | skip
  | replace
  | unlink
  | replaced
  | absent
  | clear
  | cleared
  | mkdir
  | write
  | fail
  | discard
  | rename
  | finish
  | die
  deriving DecidableEq, Repr

variable {μ : Type}

/-- One step.  A directory that is removed is removed in parts. -/
inductive Step (tars : Tarballs μ) (s : TarExtraction μ) : TarAction → TarExtraction μ → Prop
  | call (entries : List TarEntry) (overwrite : Bool) (hcall : s.call = none)
      (hlisted : ∀ e ∈ entries, e.Listed) :
    Step tars s .call { s with call := some ⟨entries, overwrite, [], entries, .idle, s.dest⟩ }
  | skip {c e rest} (hcall : s.call = some c) (hphase : c.phase = .idle)
      (htodo : c.todo = e :: rest) (hexists : (s.dest e.day).isSome)
      (hoverwrite : c.overwrite = false) :
    Step tars s .skip { s with call := some { c with out := c.out ++ [e.day], todo := rest } }
  | replace {c e rest} (hcall : s.call = some c) (hphase : c.phase = .idle)
      (htodo : c.todo = e :: rest) (hexists : (s.dest e.day).isSome)
      (hoverwrite : c.overwrite = true) :
    Step tars s .replace { s with call := some { c with phase := .replacing } }
  | unlink {c e rest ms} (left : List μ) (hcall : s.call = some c) (hphase : c.phase = .replacing)
      (htodo : c.todo = e :: rest) (hday : s.dest e.day = some ms) (hleft : left.Sublist ms) :
    Step tars s .unlink { s with dest := Function.update s.dest e.day (some left) }
  | replaced {c e rest} (hcall : s.call = some c) (hphase : c.phase = .replacing)
      (htodo : c.todo = e :: rest) :
    Step tars s .replaced
      ⟨Function.update s.dest e.day none, some { c with phase := .staging }⟩
  | absent {c e rest} (hcall : s.call = some c) (hphase : c.phase = .idle)
      (htodo : c.todo = e :: rest) (hday : s.dest e.day = none) :
    Step tars s .absent { s with call := some { c with phase := .staging } }
  | clear {c e rest ms} (left : List μ) (hcall : s.call = some c) (hphase : c.phase = .staging)
      (htodo : c.todo = e :: rest) (hstaging : s.dest e.staging = some ms)
      (hleft : left.Sublist ms) :
    Step tars s .clear { s with dest := Function.update s.dest e.staging (some left) }
  | cleared {c e rest} (hcall : s.call = some c) (hphase : c.phase = .staging)
      (htodo : c.todo = e :: rest) :
    Step tars s .cleared { s with dest := Function.update s.dest e.staging none }
  | mkdir {c e rest} (hcall : s.call = some c) (hphase : c.phase = .staging)
      (htodo : c.todo = e :: rest) (hstaging : s.dest e.staging = none) :
    Step tars s .mkdir
      ⟨Function.update s.dest e.staging (some []), some { c with phase := .extracting 0 }⟩
  | write {c e rest n x ms} (hcall : s.call = some c) (hphase : c.phase = .extracting n)
      (htodo : c.todo = e :: rest) (hx : (tars.pieces e)[n]? = some x)
      (hstaging : s.dest e.staging = some ms) :
    Step tars s .write
      ⟨Function.update s.dest e.staging (some (ms ++ [x])),
        some { c with phase := .extracting (n + 1) }⟩
  | fail {c n} (hcall : s.call = some c) (hphase : c.phase = .extracting n) :
    Step tars s .fail { s with call := some { c with phase := .raising } }
  | discard {c e rest} (left : Option (List μ)) (hcall : s.call = some c)
      (hphase : c.phase = .raising) (htodo : c.todo = e :: rest) :
    Step tars s .discard { s with dest := Function.update s.dest e.staging left }
  | rename {c e rest n ms} (hcall : s.call = some c) (hphase : c.phase = .extracting n)
      (htodo : c.todo = e :: rest) (hall : n = (tars.pieces e).length)
      (hends : tars.ends e = true) (hstaging : s.dest e.staging = some ms) :
    Step tars s .rename
      ⟨Function.update (Function.update s.dest e.staging none) e.day (some ms),
        some { c with out := c.out ++ [e.day], todo := rest, phase := .idle }⟩
  | finish {c} (hcall : s.call = some c) (hphase : c.phase = .idle) (htodo : c.todo = []) :
    Step tars s .finish { s with call := none }
  | die {c} (hcall : s.call = some c) : Step tars s .die { s with call := none }

/-- Nothing is below the destination, and no call is made. -/
def empty : TarExtraction μ where
  dest := fun _ => none
  call := none

def machine (tars : Tarballs μ) : Machine (TarExtraction μ) TarAction where
  init := empty
  Step := Step tars

/-- No call ends while it removes the directory of a day it is to replace.  If one did, what it
leaves would pass for the day from then on. -/
def ReplacesWhole (s : TarExtraction μ) (a : TarAction) : Prop :=
  a = .die → ∀ c, s.call = some c → c.phase ≠ .replacing

variable {tars : Tarballs μ} {s s' : TarExtraction μ} {a : TarAction} {c : ExtractCall μ}

/-! ## The call -/

/-- The variables of a call: what it returns so far and what is left are the days it was asked for,
and it only replaces what it may overwrite. -/
structure CallRecorded (c : ExtractCall μ) : Prop where
  listed : ∀ e ∈ c.entries, e.Listed
  days : c.out ++ c.todo.map (·.day) = c.entries.map (·.day)
  left : ∀ e ∈ c.todo, e ∈ c.entries
  overwrite : c.phase = .replacing → c.overwrite = true

namespace CallRecorded

theorem next {e : TarEntry} {rest : List TarEntry} (h : CallRecorded c)
    (htodo : c.todo = e :: rest) (phase : ExtractPhase) (hphase : phase ≠ .replacing) :
    CallRecorded { c with out := c.out ++ [e.day], todo := rest, phase := phase } where
  listed := h.listed
  days := by
    have := h.days
    rw [htodo, List.map_cons] at this
    rw [List.append_assoc]
    exact this
  left := fun e' he => h.left e' (htodo ▸ List.mem_cons_of_mem _ he)
  overwrite := fun hp => absurd hp hphase

theorem setPhase (h : CallRecorded c) (phase : ExtractPhase)
    (hoverwrite : phase = .replacing → c.overwrite = true) :
    CallRecorded { c with phase := phase } where
  listed := h.listed
  days := h.days
  left := h.left
  overwrite := hoverwrite

theorem head_listed {e : TarEntry} {rest : List TarEntry} (h : CallRecorded c)
    (htodo : c.todo = e :: rest) : e.Listed :=
  h.listed e (h.left e (htodo ▸ List.mem_cons_self))

end CallRecorded

theorem callRecorded_step (h : ∀ c, s.call = some c → CallRecorded c) (hs : Step tars s a s') :
    ∀ c, s'.call = some c → CallRecorded c := by
  cases hs with
  | call entries overwrite hcall hlisted =>
    rintro _ ⟨⟩
    exact ⟨hlisted, rfl, fun _ he => he, fun hp => by cases hp⟩
  | skip hcall hphase htodo =>
    rintro _ ⟨⟩
    have := (h _ hcall).next htodo .idle (by simp)
    rwa [← hphase] at this
  | replace hcall _ _ _ hoverwrite =>
    rintro _ ⟨⟩
    exact (h _ hcall).setPhase .replacing fun _ => hoverwrite
  | unlink | clear | cleared | discard => exact h
  | replaced hcall | absent hcall | mkdir hcall | write hcall | fail hcall =>
    rintro _ ⟨⟩
    exact (h _ hcall).setPhase _ (by simp)
  | rename hcall _ htodo =>
    rintro _ ⟨⟩
    exact (h _ hcall).next htodo .idle (by simp)
  | finish | die =>
    rintro _ ⟨⟩

/-! ## The directories -/

/-- The directory of the day is being replaced. -/
def Replaced (s : TarExtraction μ) (day : String) : Prop :=
  ∃ c e rest, s.call = some c ∧ c.phase = .replacing ∧ c.todo = e :: rest ∧ e.day = day

/-- All that an extraction which returned wrote of a tar of the day: every file of it where the tar
is intact. -/
def Holds (tars : Tarballs μ) (day : String) (ms : List μ) : Prop :=
  ∃ e, e.day = day ∧ tars.ends e = true ∧ ms = tars.pieces e ∧ (tars.Intact e → ms = tars.files e)

/-- What holds below the destination. -/
structure DaysWhole (tars : Tarballs μ) (s : TarExtraction μ) : Prop where
  whole : ∀ {e : TarEntry}, e.Listed → ∀ {ms}, s.dest e.day = some ms →
    Replaced s e.day ∨ Holds tars e.day ms
  absent : ∀ {c e rest}, s.call = some c → c.todo = e :: rest → c.phase ≠ .idle →
    c.phase ≠ .replacing → s.dest e.day = none
  staged : ∀ {c e rest n}, s.call = some c → c.todo = e :: rest → c.phase = .extracting n →
    s.dest e.staging = some ((tars.pieces e).take n)

/-- The day directories are as they were. -/
def SameDays (s s' : TarExtraction μ) : Prop :=
  ∀ e : TarEntry, e.Listed → s'.dest e.day = s.dest e.day

theorem update_staging {dest : String → Option (List μ)} {e : TarEntry} (he : e.Listed)
    (e' : TarEntry) (v : Option (List μ)) : Function.update dest e'.staging v e.day = dest e.day :=
  Function.update_of_ne (TarEntry.day_ne_staging he e') _ _

theorem sameDays_of_staging {e : TarEntry} {v : Option (List μ)}
    (hdest : s'.dest = Function.update s.dest e.staging v) : SameDays s s' := by
  intro e' he'
  rw [hdest, update_staging he']

theorem sameDays_of_eq (hdest : s'.dest = s.dest) : SameDays s s' := fun _ _ => by rw [hdest]

/-- What a step does to the directories of the days: nothing, or it removes the one that is being
replaced, or it puts the staging directory in its place. -/
theorem Step.days (hs : Step tars s a s') : SameDays s s' ∨
    (∃ c e rest v, s.call = some c ∧ c.phase = .replacing ∧ c.todo = e :: rest ∧
      s'.dest = Function.update s.dest e.day v) ∨
    (∃ c e rest, s.call = some c ∧ c.todo = e :: rest ∧
      c.phase = .extracting (tars.pieces e).length ∧ tars.ends e = true ∧
      s'.call = some { c with out := c.out ++ [e.day], todo := rest, phase := .idle } ∧
      s'.dest = Function.update (Function.update s.dest e.staging none) e.day
        (s.dest e.staging)) := by
  cases hs with
  | call | skip | replace | absent | fail | finish | die => exact .inl (sameDays_of_eq rfl)
  | clear | cleared | mkdir | write | discard => exact .inl (sameDays_of_staging rfl)
  | unlink left hcall hphase htodo | replaced hcall hphase htodo =>
    exact .inr (.inl ⟨_, _, _, _, hcall, hphase, htodo, rfl⟩)
  | rename hcall hphase htodo hall hends hstaging =>
    refine .inr (.inr ⟨_, _, _, hcall, htodo, hall ▸ hphase, hends, rfl, ?_⟩)
    rw [hstaging]

theorem Replaced.step {day : String} (h : Replaced s day) (ha : ReplacesWhole s a)
    (hs : Step tars s a s') : Replaced s' day ∨ s'.dest day = none := by
  obtain ⟨c, e, rest, hc, hphase, htodo, rfl⟩ := h
  cases hs with
  | call _ _ hcall => simp [hc] at hcall
  | unlink => exact .inl ⟨c, e, rest, hc, hphase, htodo, rfl⟩
  | replaced hcall _ htodo' =>
    obtain rfl : c = _ := Option.some.inj (hc.symm.trans hcall)
    obtain ⟨rfl, -⟩ := List.cons.inj (htodo.symm.trans htodo')
    exact .inr (Function.update_self _ _ _)
  | die => exact absurd hphase (ha rfl c hc)
  | skip hcall hphase' | replace hcall hphase' | absent hcall hphase' | clear _ hcall hphase'
  | cleared hcall hphase' | mkdir hcall hphase' | write hcall hphase' | fail hcall hphase'
  | discard _ hcall hphase' | rename hcall hphase' | finish hcall hphase' =>
    obtain rfl : c = _ := Option.some.inj (hc.symm.trans hcall)
    rw [hphase] at hphase'
    cases hphase'

namespace DaysWhole

theorem step_whole (h : DaysWhole tars s) (ha : ReplacesWhole s a) (hs : Step tars s a s')
    {e : TarEntry} (he : e.Listed) {ms : List μ} (hms : s'.dest e.day = some ms) :
    Replaced s' e.day ∨ Holds tars e.day ms := by
  have keep : Replaced s e.day → Replaced s' e.day := fun hr =>
    (hr.step ha hs).resolve_right (by simp [hms])
  obtain hsame | ⟨c, e', rest, v, hcall, hphase, htodo, hdest⟩ |
    ⟨c, e', rest, hcall, htodo, hphase, hends, -, hdest⟩ := hs.days
  · exact (h.whole he (hsame e he ▸ hms)).imp_left keep
  · by_cases hday : e.day = e'.day
    · exact .inl (keep ⟨c, e', rest, hcall, hphase, htodo, hday.symm⟩)
    · rw [hdest, Function.update_of_ne hday] at hms
      exact (h.whole he hms).imp_left keep
  · by_cases hday : e.day = e'.day
    · rw [hdest, hday, Function.update_self, h.staged hcall htodo hphase, List.take_length] at hms
      obtain rfl := Option.some.inj hms
      exact .inr ⟨e', hday.symm, hends, rfl, Tarballs.pieces_of_intact⟩
    · rw [hdest, Function.update_of_ne hday, update_staging he] at hms
      exact (h.whole he hms).imp_left keep

theorem step (h : DaysWhole tars s) (hrec : ∀ c, s.call = some c → CallRecorded c)
    (ha : ReplacesWhole s a) (hs : Step tars s a s') : DaysWhole tars s' where
  whole := h.step_whole ha hs
  absent := by
    intro c e rest hc htodo hidle hreplacing
    cases hs with
    | call =>
      cases hc
      exact absurd rfl hidle
    | replace =>
      cases hc
      exact absurd rfl hreplacing
    | rename =>
      cases hc
      exact absurd rfl hidle
    | finish | die => cases hc
    | skip _ hphase =>
      cases hc
      exact absurd hphase hidle
    | unlink _ hcall hphase =>
      obtain rfl : _ = c := Option.some.inj (hcall.symm.trans hc)
      exact absurd hphase hreplacing
    | replaced hcall _ htodo' =>
      cases hc
      obtain ⟨rfl, -⟩ := List.cons.inj (htodo.symm.trans htodo')
      exact Function.update_self _ _ _
    | absent _ _ htodo' hday =>
      cases hc
      obtain ⟨rfl, -⟩ := List.cons.inj (htodo.symm.trans htodo')
      exact hday
    | clear | cleared | discard =>
      have he := (hrec c hc).head_listed htodo
      exact (update_staging he _ _).trans (h.absent hc htodo hidle hreplacing)
    | mkdir hcall hphase | write hcall hphase =>
      cases hc
      have he := (hrec _ hcall).head_listed htodo
      refine (update_staging he _ _).trans (h.absent hcall htodo ?_ ?_)
      all_goals simp [hphase]
    | fail hcall hphase =>
      cases hc
      refine h.absent hcall htodo ?_ ?_
      all_goals simp [hphase]
  staged := by
    intro c e rest n hc htodo hn
    cases hs with
    | finish | die => cases hc
    | call | replace | replaced | absent | fail | rename =>
      cases hc
      cases hn
    | skip _ hphase =>
      cases hc
      cases hphase.symm.trans hn
    | unlink _ hcall hphase | clear _ hcall hphase | cleared hcall hphase
    | discard _ hcall hphase =>
      obtain rfl : _ = c := Option.some.inj (hcall.symm.trans hc)
      cases hphase.symm.trans hn
    | mkdir _ _ htodo' =>
      cases hc
      cases hn
      obtain ⟨rfl, -⟩ := List.cons.inj (htodo.symm.trans htodo')
      exact Function.update_self _ _ _
    | write hcall hphase htodo' hx hstaging =>
      cases hc
      cases hn
      obtain ⟨rfl, -⟩ := List.cons.inj (htodo.symm.trans htodo')
      have htake := Option.some.inj (hstaging.symm.trans (h.staged hcall htodo' hphase))
      rw [List.take_add_one, hx, ← htake]
      exact Function.update_self _ _ _

end DaysWhole

/-- What a call has for its result is there, unless it is being replaced for a later entry of the
same day; and a call that overwrites nothing leaves what it found. -/
structure Delivered (s : TarExtraction μ) : Prop where
  out : ∀ {c}, s.call = some c → ∀ {e : TarEntry}, e.Listed → e.day ∈ c.out →
    (s.dest e.day).isSome ∨ (c.phase ≠ .idle ∧ ∃ e' rest, c.todo = e' :: rest ∧ e'.day = e.day)
  found : ∀ {c}, s.call = some c → c.overwrite = false → ∀ {e : TarEntry}, e.Listed → ∀ {ms},
    c.found e.day = some ms → s.dest e.day = some ms

namespace Delivered

/-- Nothing happens to a directory while the call goes on with its entry. -/
theorem out_of_same (h : Delivered s) (hc : s.call = some c) {e : TarEntry} (he : e.Listed)
    (hout : e.day ∈ c.out) {v : Option (List μ)} (hsame : v = s.dest e.day) {phase : ExtractPhase}
    (hphase : phase ≠ .idle) :
    v.isSome ∨ (phase ≠ .idle ∧ ∃ e' rest, c.todo = e' :: rest ∧ e'.day = e.day) := by
  rw [hsame]
  exact (h.out hc he hout).imp_right fun hr => ⟨hphase, hr.2⟩

theorem step_out (h : Delivered s) (hs : Step tars s a s') {c' : ExtractCall μ}
    (hc : s'.call = some c') {e : TarEntry} (he : e.Listed) (hout : e.day ∈ c'.out) :
    (s'.dest e.day).isSome ∨
      (c'.phase ≠ .idle ∧ ∃ e' rest, c'.todo = e' :: rest ∧ e'.day = e.day) := by
  cases hs with
  | call =>
    cases hc
    cases hout
  | finish | die => cases hc
  | skip hcall hphase htodo hexists =>
    cases hc
    rcases List.mem_append.1 hout with hout | hout
    · exact .inl ((h.out hcall he hout).resolve_right fun hidle => hidle.1 hphase)
    · exact .inl (List.mem_singleton.1 hout ▸ hexists)
  | replace hcall hphase | absent hcall hphase =>
    cases hc
    exact .inl ((h.out hcall he hout).resolve_right fun hidle => hidle.1 hphase)
  | @unlink _ e' _ _ _ hcall hphase htodo =>
    obtain rfl : _ = c' := Option.some.inj (hcall.symm.trans hc)
    by_cases hday : e.day = e'.day
    · exact .inr ⟨by simp [hphase], e', _, htodo, hday.symm⟩
    · exact h.out_of_same hcall he hout (Function.update_of_ne hday _ _) (by simp [hphase])
  | @replaced _ e' _ hcall hphase htodo =>
    cases hc
    by_cases hday : e.day = e'.day
    · exact .inr ⟨by simp, e', _, htodo, hday.symm⟩
    · exact h.out_of_same hcall he hout (Function.update_of_ne hday _ _) (by simp)
  | clear _ hcall hphase | cleared hcall hphase | discard _ hcall hphase =>
    obtain rfl : _ = c' := Option.some.inj (hcall.symm.trans hc)
    exact h.out_of_same hcall he hout (update_staging he _ _) (by simp [hphase])
  | mkdir hcall | write hcall =>
    cases hc
    exact h.out_of_same hcall he hout (update_staging he _ _) (by simp)
  | fail hcall =>
    cases hc
    exact h.out_of_same hcall he hout rfl (by simp)
  | @rename _ e' _ _ ms hcall _ htodo =>
    cases hc
    by_cases hday : e.day = e'.day
    · exact .inl (by simp [hday])
    · have hout := (List.mem_append.1 hout).resolve_right fun hm => hday (List.mem_singleton.1 hm)
      have hold : (s.dest e.day).isSome := by
        refine (h.out hcall he hout).resolve_right ?_
        rintro ⟨-, e'', rest, htodo', hday'⟩
        obtain ⟨rfl, -⟩ := List.cons.inj (htodo.symm.trans htodo')
        exact hday hday'.symm
      have hsame : Function.update (Function.update s.dest e'.staging none) e'.day (some ms) e.day =
          s.dest e.day :=
        (Function.update_of_ne hday _ _).trans (update_staging he e' none)
      exact .inl (by rwa [← hsame] at hold)

theorem step_found (h : Delivered s) (hwhole : DaysWhole tars s)
    (hrec : ∀ c, s.call = some c → CallRecorded c) (hs : Step tars s a s') {c' : ExtractCall μ}
    (hc : s'.call = some c') (hoverwrite : c'.overwrite = false) {e : TarEntry} (he : e.Listed)
    {ms : List μ} (hms : c'.found e.day = some ms) : s'.dest e.day = some ms := by
  cases hs with
  | call =>
    cases hc
    exact hms
  | finish | die => cases hc
  | skip hcall | replace hcall | absent hcall | fail hcall =>
    cases hc
    exact h.found hcall hoverwrite he hms
  | unlink _ hcall hphase =>
    have := (hrec _ hcall).overwrite hphase
    rw [Option.some.inj (hcall.symm.trans hc), hoverwrite] at this
    cases this
  | replaced hcall hphase =>
    cases hc
    cases hoverwrite.symm.trans ((hrec _ hcall).overwrite hphase)
  | clear | cleared | discard =>
    exact (update_staging he _ _).trans (h.found hc hoverwrite he hms)
  | mkdir hcall | write hcall =>
    cases hc
    exact (update_staging he _ _).trans (h.found hcall hoverwrite he hms)
  | @rename _ e' _ _ _ hcall hphase htodo =>
    cases hc
    have hold := h.found hcall hoverwrite he hms
    by_cases hday : e.day = e'.day
    · have hnone := hwhole.absent hcall htodo (by simp [hphase]) (by simp [hphase])
      rw [← hday, hold] at hnone
      cases hnone
    · exact (Function.update_of_ne hday _ _).trans ((update_staging he _ _).trans hold)

end Delivered

/-- What holds in every state that is reached. -/
structure Sound (tars : Tarballs μ) (s : TarExtraction μ) : Prop where
  recorded : ∀ c, s.call = some c → CallRecorded c
  days : DaysWhole tars s
  delivered : Delivered s

theorem sound_invariant (tars : Tarballs μ) :
    Machine.Invariant (machine tars) ReplacesWhole (Sound tars) where
  init :=
    { recorded := fun _ hc => by cases hc
      days :=
        { whole := fun _ _ hms => by cases hms
          absent := fun hc => by cases hc
          staged := fun hc => by cases hc }
      delivered :=
        { out := fun hc => by cases hc
          found := fun hc => by cases hc } }
  step _ h ha hs :=
    { recorded := callRecorded_step h.recorded hs
      days := h.days.step h.recorded ha hs
      delivered := ⟨h.delivered.step_out hs, h.delivered.step_found h.days h.recorded hs⟩ }

/-- Wherever calls fail or are killed, except while one removes a directory it is to overwrite: a
day directory that is there and is not being replaced holds all that one extraction which returned
wrote of a tar of its day, a call that is about to return has the directories of its entries in
their order and all of them are there, and a call that overwrites nothing leaves the directories it
found. -/
theorem day_directories_whole (h : (machine tars).Reachable ReplacesWhole s) :
    (∀ e : TarEntry, e.Listed → ∀ ms, s.dest e.day = some ms →
      Replaced s e.day ∨ Holds tars e.day ms) ∧
    (∀ c, s.call = some c → c.phase = .idle → c.todo = [] →
      c.out = c.entries.map (·.day) ∧ ∀ e ∈ c.entries, ∃ ms, s.dest e.day = some ms ∧
        Holds tars e.day ms) ∧
    ∀ c, s.call = some c → c.overwrite = false → ∀ e : TarEntry, e.Listed → ∀ ms,
      c.found e.day = some ms → s.dest e.day = some ms := by
  obtain ⟨hrec, hdays, hdelivered⟩ := (sound_invariant tars).holds h
  refine ⟨fun e he ms hms => hdays.whole he hms, fun c hc hidle htodo => ?_,
    fun c hc hoverwrite e he ms hms => hdelivered.found hc hoverwrite he hms⟩
  have hout : c.out = c.entries.map (·.day) := by
    have := (hrec c hc).days
    rwa [htodo, List.map_nil, List.append_nil] at this
  refine ⟨hout, fun e he => ?_⟩
  have hlisted := (hrec c hc).listed e he
  have hmem : e.day ∈ c.out := hout ▸ List.mem_map_of_mem he
  have hsome := (hdelivered.out hc hlisted hmem).resolve_right fun hr => hr.1 hidle
  obtain ⟨ms, hms⟩ := Option.isSome_iff_exists.1 hsome
  refine ⟨ms, hms, (hdays.whole hlisted hms).resolve_left ?_⟩
  rintro ⟨c', e', rest, hc', hphase, -⟩
  rw [Option.some.inj (hc.symm.trans hc'), hphase] at hidle
  cases hidle

/-! ## Two tars that are extracted at the second call -/

/-- The call is made for the entries and is in a phase of the first of `todo`. -/
def callAt (entries : List TarEntry) (out : List String) (todo : List TarEntry)
    (phase : ExtractPhase) (found : String → Option (List μ)) : Option (ExtractCall μ) :=
  some ⟨entries, false, out, todo, phase, found⟩

section

variable {entries rest : List TarEntry} {out : List String} {e : TarEntry}
variable {dest found : String → Option (List μ)} {n : ℕ}

/-- With nothing failing, the pieces are written one after the other. -/
theorem reachable_written (hn : n ≤ (tars.pieces e).length)
    (h : (machine tars).Reachable ReplacesWhole
      ⟨dest, callAt entries out (e :: rest) (.extracting 0) found⟩) :
    ∃ dest', (∀ e' : TarEntry, e'.Listed → dest' e'.day = dest e'.day) ∧
      (machine tars).Reachable ReplacesWhole
        ⟨dest', callAt entries out (e :: rest) (.extracting n) found⟩ := by
  induction n with
  | zero => exact ⟨dest, fun _ _ => rfl, h⟩
  | succ n ih =>
    obtain ⟨dest', hsame, h'⟩ := ih (by omega)
    have hstaging := (sound_invariant tars).holds h' |>.days.staged rfl rfl rfl
    have hx : (tars.pieces e)[n]? = some (tars.pieces e)[n] := List.getElem?_eq_getElem hn
    have h' := h'.step (Step.write rfl rfl rfl hx hstaging) (by simp [ReplacesWhole])
    exact ⟨_, fun e' he' => (update_staging he' e _).trans (hsame e' he'), h'⟩

/-- A day that is not there can be extracted as far as its tar can be read. -/
theorem reachable_extracting (hn : n ≤ (tars.pieces e).length) (hday : dest e.day = none)
    (h : (machine tars).Reachable ReplacesWhole
      ⟨dest, callAt entries out (e :: rest) .idle found⟩) :
    ∃ dest', (∀ e' : TarEntry, e'.Listed → dest' e'.day = dest e'.day) ∧
      (machine tars).Reachable ReplacesWhole
        ⟨dest', callAt entries out (e :: rest) (.extracting n) found⟩ := by
  have h := h.step (Step.absent rfl rfl rfl hday) (by simp [ReplacesWhole])
  have h := h.step (Step.cleared rfl rfl rfl) (by simp [ReplacesWhole])
  have h := h.step (Step.mkdir rfl rfl rfl (Function.update_self _ _ _)) (by simp [ReplacesWhole])
  obtain ⟨dest', hsame, h⟩ := reachable_written hn h
  refine ⟨dest', fun e' he' => (hsame e' he').trans ?_, h⟩
  exact (update_staging he' e _).trans (update_staging he' e _)

theorem reachable_renamed (hends : tars.ends e = true) (hday : dest e.day = none)
    (h : (machine tars).Reachable ReplacesWhole
      ⟨dest, callAt entries out (e :: rest) .idle found⟩) :
    ∃ dest', (∀ e' : TarEntry, e'.Listed → e'.day ≠ e.day → dest' e'.day = dest e'.day) ∧
      (machine tars).Reachable ReplacesWhole
        ⟨dest', callAt entries (out ++ [e.day]) rest .idle found⟩ := by
  obtain ⟨dest', hsame, h⟩ := reachable_extracting le_rfl hday h
  have hstaging := (sound_invariant tars).holds h |>.days.staged rfl rfl rfl
  have h := h.step (Step.rename rfl rfl rfl rfl hends hstaging) (by simp [ReplacesWhole])
  refine ⟨_, fun e' he' hne => ?_, h⟩
  exact (Function.update_of_ne hne _ _).trans ((update_staging he' e _).trans (hsame e' he'))

end

/-- The header behind the first file of the second tar is damaged. -/
def sampleTars : Tarballs String where
  files := fun _ => ["manifest.json", "trades.parquet"]
  readable := fun e => if e.day = "2026-08-02" then 1 else 2
  ends := fun _ => true

def sampleEntries : List TarEntry :=
  [⟨"D:/data", "2026-08-01.tar.gz"⟩, ⟨"D:/data", "2026-08-02.tar.gz"⟩]

/-- The first call is killed with both files of the first tar written; the second is about to
return. -/
theorem exists_extracted : ∃ s c, (machine sampleTars).Reachable ReplacesWhole s ∧
    s.call = some c ∧ c.phase = .idle ∧ c.todo = [] ∧ c.entries = sampleEntries := by
  have hlisted : ∀ e ∈ sampleEntries, e.Listed := by decide
  have h : (machine sampleTars).Reachable ReplacesWhole empty := .init
  have h := h.step (Step.call sampleEntries false rfl hlisted) (by simp [ReplacesWhole])
  obtain ⟨dest, hsame, h⟩ := reachable_extracting (n := 2) (by decide) rfl h
  have h := h.step (Step.die rfl) (by simp [ReplacesWhole, callAt])
  have h := h.step (Step.call sampleEntries false rfl hlisted) (by simp [ReplacesWhole])
  obtain ⟨dest', hsame', h⟩ := reachable_renamed rfl (hsame _ (by decide)) h
  have hsecond := (hsame' _ (hlisted _ (.tail _ (.head _))) (by decide)).trans (hsame _ (by decide))
  obtain ⟨dest'', -, h⟩ := reachable_renamed rfl hsecond h
  exact ⟨_, _, h, rfl, rfl, rfl, rfl⟩

theorem day_directories_whole_extracted : ∃ s c, (machine sampleTars).Reachable ReplacesWhole s ∧
    s.call = some c ∧ c.out = ["2026-08-01", "2026-08-02"] ∧
    s.dest "2026-08-01" = some ["manifest.json", "trades.parquet"] ∧
    s.dest "2026-08-02" = some ["manifest.json"] := by
  obtain ⟨s, c, h, hc, hphase, htodo, hentries⟩ := exists_extracted
  obtain ⟨hout, hall⟩ := (day_directories_whole h).2.1 c hc hphase htodo
  have hdays : sampleEntries.map (·.day) = ["2026-08-01", "2026-08-02"] := by decide
  rw [hentries] at hout hall
  have hdest : ∀ e ∈ sampleEntries, s.dest e.day = some (["manifest.json", "trades.parquet"].take
      (if e.day = "2026-08-02" then 1 else 2)) := by
    intro e he
    obtain ⟨ms, hms, e', hday, -, rfl, -⟩ := hall e he
    rw [hms, ← hday]
    rfl
  exact ⟨s, c, h, hc, hout.trans hdays, hdest _ (.head _), hdest _ (.tail _ (.head _))⟩

end TarExtraction

end Snapevent
