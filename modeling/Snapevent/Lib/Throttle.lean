import Mathlib.Algebra.Order.Ring.Int
import Mathlib.Order.Lattice
import Mathlib.Data.List.Basic

/-!
# Throttled messages

A message with a key is sent unless one with its key was sent less than a window ago; when the
stamps are cleared the next message of every key is sent again.  A stamp may fail to be stored, and
stamps that are cleared may stay.  The log has its newest event first, and everything the throttle
goes by can be read off it.
-/

namespace Throttle

variable {κ : Type}

/-- What became of the stamp of a message: it is there, its place was emptied, or it is as
before. -/
inductive Stored
  | ok
  | emptied
  | refused
  deriving DecidableEq, Repr

/-- A message is sent or held back, or the stamps are cleared, but for those that are left. -/
inductive Event (κ : Type)
  | sent (key : κ) (t : ℤ) (stored : Stored)
  | held (key : κ) (t : ℤ)
  | cleared (left : List κ)
  deriving DecidableEq, Repr

/-- What a stamp that is stored says; an emptied one reads as zero. -/
def Stored.stamp (t : ℤ) : Stored → Option ℤ
  | .ok => some t
  | .emptied => some 0
  | .refused => none

/-! ## The last stamp of a key -/

section LastStamp

variable {key : κ} {t last : ℤ} {stored : Stored} {log : List (Event κ)} {e : Event κ}

/-- The event leaves a stamp of the key. -/
def Event.Stamps (key : κ) : Event κ → Prop
  | .sent k _ stored => k = key ∧ stored ≠ .refused
  | _ => False

/-- The event removes the stamp of the key. -/
def Event.Removes (key : κ) : Event κ → Prop
  | .cleared left => key ∉ left
  | _ => False

/-- The last stamp of a key: a message has left it, no later one has left another, and it has not
been removed. -/
def LastStamp (key : κ) (last : ℤ) (log : List (Event κ)) : Prop :=
  ∃ after sentAt stored before, log = after ++ .sent key sentAt stored :: before ∧
    Stored.stamp sentAt stored = some last ∧ ∀ e ∈ after, ¬ e.Removes key ∧ ¬ e.Stamps key

theorem Stored.ne_refused {v : ℤ} (h : stored.stamp t = some v) : stored ≠ .refused := by
  rintro rfl
  cases h

/-- An event that leaves the stamp of the key alone. -/
theorem lastStamp_cons (he : ¬ e.Removes key ∧ ¬ e.Stamps key) :
    LastStamp key last (e :: log) ↔ LastStamp key last log := by
  constructor
  · rintro ⟨after, sentAt, stored, before, hlog, hstamp, hafter⟩
    cases after with
    | nil =>
      obtain ⟨rfl, -⟩ := List.cons.inj hlog
      exact absurd ⟨rfl, Stored.ne_refused hstamp⟩ he.2
    | cons a after =>
      exact ⟨after, sentAt, stored, before, (List.cons.inj hlog).2, hstamp,
        fun x hx => hafter x (List.mem_cons_of_mem _ hx)⟩
  · rintro ⟨after, sentAt, stored, before, rfl, hstamp, hafter⟩
    refine ⟨e :: after, sentAt, stored, before, rfl, hstamp, fun x hx => ?_⟩
    rcases List.mem_cons.1 hx with rfl | hx
    · exact he
    · exact hafter x hx

theorem lastStamp_sent {v : ℤ} (hv : stored.stamp t = some v) :
    LastStamp key last (.sent key t stored :: log) ↔ last = v := by
  constructor
  · rintro ⟨after, sentAt, stored', before, hlog, hstamp, hafter⟩
    cases after with
    | nil =>
      obtain ⟨heq, -⟩ := List.cons.inj hlog
      cases heq
      exact Option.some.inj (hstamp.symm.trans hv)
    | cons a after =>
      obtain ⟨rfl, -⟩ := List.cons.inj hlog
      exact absurd ⟨rfl, Stored.ne_refused hv⟩ (hafter _ List.mem_cons_self).2
  · rintro rfl
    exact ⟨[], t, stored, log, rfl, hv, nofun⟩

theorem not_lastStamp_removed (he : e.Removes key) : ¬ LastStamp key last (e :: log) := by
  rintro ⟨after, sentAt, stored, before, hlog, -, hafter⟩
  cases after with
  | nil =>
    obtain ⟨rfl, -⟩ := List.cons.inj hlog
    exact he
  | cons a after =>
    obtain ⟨rfl, -⟩ := List.cons.inj hlog
    exact (hafter _ List.mem_cons_self).1 he

end LastStamp

/-! ## The throttle -/

variable [DecidableEq κ]

/-- The stamps, the newest of a key first, and the log. -/
structure State (κ : Type) where
  stamps : List (κ × ℤ)
  log : List (Event κ)

namespace State

/-- The message is due: its key has no stamp, or one that is old enough. -/
def Due (window : ℤ) (s : State κ) (key : κ) (t : ℤ) : Prop :=
  ∀ last ∈ s.stamps.lookup key, window ≤ t - last

instance instDecidableDue (window : ℤ) (s : State κ) (key : κ) (t : ℤ) :
    Decidable (s.Due window key t) :=
  inferInstanceAs (Decidable (∀ last ∈ s.stamps.lookup key, window ≤ t - last))

/-- Send a message or hold it back. -/
def offer (window : ℤ) (s : State κ) (key : κ) (t : ℤ) (stored : Stored) : State κ :=
  if s.Due window key t then
    { stamps := ((stored.stamp t).map fun stamp => (key, stamp)).toList ++ s.stamps
      log := .sent key t stored :: s.log }
  else { s with log := .held key t :: s.log }

/-- Clear the stamps, if there are any, but for those that cannot be removed. -/
def clear (s : State κ) (left : List κ) : State κ :=
  if s.stamps = [] then s
  else { stamps := s.stamps.filter (·.1 ∈ left), log := .cleared left :: s.log }

end State

/-! ## The log -/

/-- The stamps that stand after a log. -/
def stampsOf : List (Event κ) → List (κ × ℤ)
  | [] => []
  | .sent key t stored :: log =>
    ((stored.stamp t).map fun stamp => (key, stamp)).toList ++ stampsOf log
  | .held _ _ :: log => stampsOf log
  | .cleared left :: log => (stampsOf log).filter (·.1 ∈ left)

/-- The event was right when the log was what it is behind it. -/
def Right (window : ℤ) (log : List (Event κ)) : Event κ → Prop
  | .sent key t _ => ∀ last ∈ (stampsOf log).lookup key, window ≤ t - last
  | .held key t => ∃ last ∈ (stampsOf log).lookup key, t - last < window
  | .cleared _ => stampsOf log ≠ []

/-- Every event of the log was right. -/
def Regular (window : ℤ) : List (Event κ) → Prop
  | [] => True
  | e :: log => Right window log e ∧ Regular window log

/-- The stamps are those of the log, and the log is regular. -/
structure Kept (window : ℤ) (s : State κ) : Prop where
  stamps : s.stamps = stampsOf s.log
  regular : Regular window s.log

variable {window : ℤ} {s : State κ} {key : κ} {t last : ℤ} {stored : Stored}
  {log after before : List (Event κ)} {e : Event κ}

theorem Kept.empty : Kept window (⟨[], []⟩ : State κ) := ⟨rfl, trivial⟩

theorem Kept.offer (h : Kept window s) : Kept window (s.offer window key t stored) := by
  rw [State.offer]
  split_ifs with hdue
  · rw [State.Due, h.stamps] at hdue
    exact ⟨by rw [stampsOf, h.stamps], hdue, h.regular⟩
  · have hheld : ∃ last ∈ (stampsOf s.log).lookup key, t - last < window := by
      simpa only [State.Due, h.stamps, not_forall, not_le, exists_prop] using hdue
    exact ⟨h.stamps, hheld, h.regular⟩

theorem Kept.clear (h : Kept window s) (left : List κ) : Kept window (s.clear left) := by
  rw [State.clear]
  split_ifs with hnone
  · exact h
  · exact ⟨by rw [stampsOf, h.stamps], fun hempty => hnone (h.stamps.trans hempty), h.regular⟩

theorem Regular.tail (h : Regular window log) (hlog : log = after ++ e :: before) :
    Regular window before := by
  induction after generalizing log with
  | nil =>
    subst hlog
    exact h.2
  | cons a after ih =>
    subst hlog
    exact ih h.2 rfl

theorem Regular.right (h : Regular window log) (hlog : log = after ++ e :: before) :
    Right window before e := by
  induction after generalizing log with
  | nil =>
    subst hlog
    exact h.1
  | cons a after ih =>
    subst hlog
    exact ih h.2 rfl

/-! ## What a regular log says -/

theorem lookup_filter_left (left : List κ) (stamps : List (κ × ℤ)) :
    (stamps.filter (·.1 ∈ left)).lookup key = if key ∈ left then stamps.lookup key else none := by
  induction stamps with
  | nil => simp
  | cons stamp stamps ih =>
    obtain ⟨k, v⟩ := stamp
    rw [List.filter_cons, List.lookup_cons]
    by_cases hk : key = k
    · subst hk
      by_cases hleft : key ∈ left
      · simp [hleft]
      · simpa [hleft] using ih
    · rw [beq_eq_false_iff_ne.2 hk]
      by_cases hleft : k ∈ left
      · simpa [hleft, List.lookup_cons, beq_eq_false_iff_ne.2 hk] using ih
      · simpa [hleft] using ih

theorem lookup_stampsOf : (stampsOf log).lookup key = some last ↔ LastStamp key last log := by
  induction log with
  | nil => simp [stampsOf, LastStamp]
  | cons e log ih =>
    cases e with
    | sent k t stored =>
      cases hstamp : stored.stamp t with
      | none =>
        have hrefused : stored = .refused := by
          cases stored with
          | ok | emptied => cases hstamp
          | refused => rfl
        have he : ¬ (Event.sent k t stored).Removes key ∧ ¬ (Event.sent k t stored).Stamps key :=
          ⟨id, fun hk => hk.2 hrefused⟩
        rw [stampsOf, hstamp, lastStamp_cons he]
        exact ih
      | some v =>
        rw [stampsOf, hstamp]
        show ((k, v) :: stampsOf log).lookup key = some last ↔ _
        by_cases hk : k = key
        · subst hk
          rw [lastStamp_sent hstamp, List.lookup_cons_self, Option.some.injEq, eq_comm]
        · have he : ¬ (Event.sent k t stored).Removes key ∧ ¬ (Event.sent k t stored).Stamps key :=
            ⟨id, fun hstamps => hk hstamps.1⟩
          rw [lastStamp_cons he, ← ih, List.lookup_cons, beq_eq_false_iff_ne.2 (Ne.symm hk)]
    | held k t =>
      have he : ¬ (Event.held k t).Removes key ∧ ¬ (Event.held k t).Stamps key := ⟨id, id⟩
      rw [stampsOf, lastStamp_cons he]
      exact ih
    | cleared left =>
      rw [stampsOf, lookup_filter_left]
      split_ifs with hleft
      · have he : ¬ (Event.cleared left).Removes key ∧ ¬ (Event.cleared left).Stamps key :=
          ⟨fun hnot => hnot hleft, id⟩
        rw [lastStamp_cons he]
        exact ih
      · simp [not_lastStamp_removed (e := .cleared left) hleft]

/-- The event does not set the throttle of the key back: it neither removes its stamp nor empties
it. -/
def Event.Spares (key : κ) : Event κ → Prop
  | .sent k _ stored => k = key → stored ≠ .emptied
  | .held _ _ => True
  | .cleared left => key ∈ left

/-- The stamp of a message that has left one is not set back. -/
theorem Regular.exists_stamp {between : List (Event κ)} {t₁ : ℤ} (hwindow : 0 ≤ window)
    (h : Regular window (between ++ .sent key t₁ .ok :: before))
    (hbetween : ∀ e ∈ between, e.Spares key) :
    ∃ last, t₁ ≤ last ∧
      (stampsOf (between ++ .sent key t₁ .ok :: before)).lookup key = some last := by
  induction between with
  | nil => exact ⟨t₁, le_rfl, List.lookup_cons_self⟩
  | cons e between ih =>
    rw [List.forall_mem_cons] at hbetween
    obtain ⟨last, hle, hlast⟩ := ih h.2 hbetween.2
    have hright := h.1
    cases e with
    | sent k t stored =>
      by_cases hk : k = key
      · subst hk
        cases stored with
        | ok =>
          have hspaced := hright last hlast
          exact ⟨t, by omega, List.lookup_cons_self⟩
        | emptied => exact absurd rfl (hbetween.1 rfl)
        | refused => exact ⟨last, hle, hlast⟩
      · refine ⟨last, hle, ?_⟩
        have hne : (key == k) = false := beq_eq_false_iff_ne.2 (Ne.symm hk)
        rw [List.cons_append, stampsOf]
        cases stored with
        | ok | emptied =>
          rw [Stored.stamp, Option.map_some, Option.toList_some, List.singleton_append,
            List.lookup_cons, hne]
          exact hlast
        | refused => exact hlast
    | held k t => exact ⟨last, hle, hlast⟩
    | cleared left =>
      refine ⟨last, hle, ?_⟩
      have hleft : key ∈ left := hbetween.1
      rw [List.cons_append, stampsOf, lookup_filter_left, if_pos hleft]
      exact hlast

/-- Two messages of one key are a window apart, whatever was sent and held back between them, as
long as the stamp of the first is not set back. -/
theorem Regular.spaced (h : Regular window log) {between : List (Event κ)} {t₁ t₂ : ℤ}
    (hwindow : 0 ≤ window)
    (hlog : log = after ++ .sent key t₂ stored :: (between ++ .sent key t₁ .ok :: before))
    (hbetween : ∀ e ∈ between, e.Spares key) : window ≤ t₂ - t₁ := by
  obtain ⟨last, hle, hlast⟩ := (h.tail hlog).exists_stamp hwindow hbetween
  have hspaced := h.right hlog last hlast
  omega

theorem Regular.held (h : Regular window log) (hlog : log = after ++ .held key t :: before) :
    ∃ last, LastStamp key last before ∧ t - last < window := by
  obtain ⟨last, hlast, hlt⟩ := h.right hlog
  exact ⟨last, lookup_stampsOf.1 hlast, hlt⟩

/-- The stamps are cleared when a message has left one that has not been removed. -/
theorem Regular.cleared (h : Regular window log) {left : List κ}
    (hlog : log = after ++ .cleared left :: before) :
    ∃ key last, LastStamp key last before := by
  obtain ⟨⟨key, last⟩, rest, hstamps⟩ := List.exists_cons_of_ne_nil (h.right hlog)
  exact ⟨key, last, lookup_stampsOf.1 (by rw [hstamps, List.lookup_cons_self])⟩

end Throttle
