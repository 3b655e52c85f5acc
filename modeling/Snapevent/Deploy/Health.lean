import Mathlib.Algebra.Order.Ring.Int
import Mathlib.Order.Lattice
import Snapevent.Lib.Machine
import Snapevent.Lib.Throttle

/-!
# The watchdog

The script a timer runs (`kdp-health.sh`): it looks at the disk, the units, the active captures
and the journal, and pushes an alert for each problem unless one about the same subject was pushed
within the throttle window.  The subject is the text without its numbers.  A run without a problem
clears the stamps.  The checksum of the subject stays a parameter; times are what `date +%s` says.
-/

namespace Snapevent

/-! ## The problems -/

/-- The settings of the watchdog. -/
structure HealthCfg where
  webhook : Bool
  dataDir : String
  diskFloorGib : ℕ
  staleSeconds : ℤ
  errorWindowMin : ℕ
  errorFloor : ℕ
  alertThrottleSec : ℤ

/-- What a run sees: the free space, the failed units as one text, the active captures with the age
of their newest file, and the errors in the journal with the first of them. -/
structure Observed where
  availGib : Option ℕ
  failed : String
  sessions : List (String × Option ℤ)
  errs : ℕ
  worst : String

/-- What can be wrong. -/
inductive Problem
  | lowDisk (availGib : ℕ)
  | failedUnits (failed : String)
  | silent (session : String)
  | stale (session : String) (age : ℤ)
  | errors (errs : ℕ) (worst : String)
  deriving DecidableEq, Repr

/-- The words and numbers of an alert. -/
def Problem.parts (cfg : HealthCfg) : Problem → List String
  | .lowDisk availGib => ["low disk: ", toString availGib, " GiB free on ", cfg.dataDir, " (floor ",
      toString cfg.diskFloorGib, " GiB)"]
  | .failedUnits failed => ["failed systemd unit(s): ", failed]
  | .silent session => ["capture ", session, " is active but has produced no jsonl yet"]
  | .stale session age => ["capture ", session, " stale: no new data for ", toString age, "s (> ",
      toString cfg.staleSeconds, "s)"]
  | .errors errs worst => [toString errs, " ERROR line(s) in the kdp journal over ",
      toString cfg.errorWindowMin, "min (floor ", toString cfg.errorFloor, "); first: ", worst]

/-- The text of an alert. -/
def Problem.message (cfg : HealthCfg) (p : Problem) : String := String.join (p.parts cfg)

/-- What is wrong with one active capture. -/
def sessionProblem (cfg : HealthCfg) : String × Option ℤ → Option Problem
  | (session, none) => some (.silent session)
  | (session, some age) => if cfg.staleSeconds < age then some (.stale session age) else none

/-- The problems of a run, in the order they are alerted. -/
def problems (cfg : HealthCfg) (o : Observed) : List Problem :=
  (o.availGib.filter (· < cfg.diskFloorGib)).toList.map .lowDisk ++
    (if o.failed = "" then [] else [.failedUnits o.failed]) ++
    o.sessions.filterMap (sessionProblem cfg) ++
    (if 0 < cfg.errorFloor ∧ cfg.errorFloor < o.errs then [.errors o.errs o.worst] else [])

/-! ## The subject of an alert -/

/-- A letter or a blank. -/
def keepsChar (c : Char) : Bool := ('A' ≤ c && c ≤ 'Z') || ('a' ≤ c && c ≤ 'z') || c == ' '

/-- The text without anything but letters and blanks. -/
def subject (message : String) : List Char := message.toList.filter keepsChar

/-- Two problems that differ in their numbers alone. -/
inductive Problem.SameSubject : Problem → Problem → Prop
  | lowDisk (a b : ℕ) : SameSubject (.lowDisk a) (.lowDisk b)
  | stale (session : String) (a b : ℤ) : SameSubject (.stale session a) (.stale session b)
  | errors (a b : ℕ) (worst : String) : SameSubject (.errors a worst) (.errors b worst)
  | refl (p : Problem) : SameSubject p p

theorem subject_append (a b : String) : subject (a ++ b) = subject a ++ subject b := by
  rw [subject, String.toList_append, List.filter_append]
  rfl

theorem subject_join (parts : List String) :
    subject (String.join parts) = (parts.map subject).flatten := by
  have hfold : ∀ acc : String, subject (parts.foldl (· ++ ·) acc) =
      subject acc ++ (parts.map subject).flatten := by
    induction parts with
    | nil => simp
    | cons part parts ih =>
      intro acc
      rw [List.foldl_cons, ih, subject_append, List.map_cons, List.flatten_cons, List.append_assoc]
  exact hfold ""

theorem keepsChar_of_isDigit {c : Char} (h : c.isDigit = true) : keepsChar c = false := by
  have hle : c ≤ '9' := by
    simp only [Char.isDigit, Bool.and_eq_true, decide_eq_true_eq] at h
    exact h.2
  have hA : ¬ 'A' ≤ c := fun hc => absurd (Char.le_trans hc hle) (by decide)
  have ha : ¬ 'a' ≤ c := fun hc => absurd (Char.le_trans hc hle) (by decide)
  have hblank : c ≠ ' ' := by
    rintro rfl
    cases h
  simp [keepsChar, hA, ha, hblank]

theorem filter_toDigits (n : ℕ) : (Nat.toDigits 10 n).filter keepsChar = [] := by
  rw [List.filter_eq_nil_iff]
  intro c hc
  rw [keepsChar_of_isDigit (Nat.isDigit_of_mem_toDigits (by decide) (by decide) hc)]
  decide

theorem subject_nat (n : ℕ) : subject (toString n) = [] := by
  show (String.ofList (Nat.toDigits 10 n)).toList.filter keepsChar = []
  rw [String.toList_ofList, filter_toDigits]

theorem subject_int (z : ℤ) : subject (toString z) = [] := by
  cases z with
  | ofNat n => exact subject_nat n
  | negSucc n =>
    show subject ("-" ++ toString (n + 1)) = []
    rw [subject_append, subject_nat]
    decide

theorem Problem.SameSubject.subject_eq {cfg : HealthCfg} {p q : Problem} (h : p.SameSubject q) :
    subject (p.message cfg) = subject (q.message cfg) := by
  rw [message, message, subject_join, subject_join]
  cases h with
  | lowDisk a b => simp only [parts, List.map_cons, subject_nat a, subject_nat b]
  | stale session a b => simp only [parts, List.map_cons, subject_int a, subject_int b]
  | errors a b worst => simp only [parts, List.map_cons, subject_nat a, subject_nat b]
  | refl => rfl

/-! ## The runs -/

/-- Where the script is: between two runs, or with the problems still to be alerted and whether
there were any. -/
inductive HealthPhase
  | idle
  | alerting (todo : List Problem) (any : Bool)
  deriving DecidableEq, Repr

/-- The watchdog with its stamps and the log of what it pushed. -/
structure Health where
  phase : HealthPhase
  throttle : Throttle.State String

namespace Health

open Throttle

section Keys

variable (cksum : List Char → String) (cfg : HealthCfg)

/-- The key of an alert. -/
def alertKey (p : Problem) : String := cksum (subject (p.message cfg))

inductive Action
  | check (o : Observed)
  | alert (t : ℤ) (stored : Stored)
  | finish (left : List String)
  | die

/-- One step; the script may end anywhere, and the removal of the stamps may leave some. -/
inductive Step (s : Health) : Action → Health → Prop
  | check (o : Observed) (hphase : s.phase = .idle) :
    Step s (.check o) { s with phase := .alerting (problems cfg o) (problems cfg o ≠ []) }
  | alert {p todo any} (t : ℤ) (stored : Stored) (hphase : s.phase = .alerting (p :: todo) any) :
    Step s (.alert t stored)
      { phase := .alerting todo any
        throttle :=
          if cfg.webhook then s.throttle.offer cfg.alertThrottleSec (alertKey cksum cfg p) t stored
          else s.throttle }
  | finish {any} (left : List String) (hphase : s.phase = .alerting [] any) :
    Step s (.finish left)
      { phase := .idle
        throttle := if any = false ∧ cfg.webhook then s.throttle.clear left else s.throttle }
  | die : Step s .die { s with phase := .idle }

/-- The watchdog from an empty state directory on. -/
def machine : Machine Health Action := ⟨⟨.idle, ⟨[], []⟩⟩, Step cksum cfg⟩

end Keys

variable {cksum : List Char → String} {cfg : HealthCfg} {s : Health}
  {allowed : Health → Action → Prop}

theorem kept (h : (machine cksum cfg).Reachable allowed s) :
    Kept cfg.alertThrottleSec s.throttle := by
  have hkept : Machine.Invariant (machine cksum cfg) allowed
      (fun s => Kept cfg.alertThrottleSec s.throttle) :=
    { init := Kept.empty
      step := by
        intro s a s' _ hP _ hs
        cases hs with
        | check o hphase | die => exact hP
        | alert t stored hphase =>
          dsimp only
          split_ifs
          · exact hP.offer
          · exact hP
        | finish left hphase =>
          dsimp only
          split_ifs
          · exact hP.clear left
          · exact hP }
  exact hkept.holds h

/-! ### Six runs on a disk that is full but once -/

def sampleHealthCfg : HealthCfg := ⟨true, "/var/lib/kdp/data", 5, 180, 6, 5, 3600⟩

/-- The checksum of the one subject. -/
def sampleCksum (text : List Char) : String :=
  if text = "low disk  GiB free on varlibkdpdata floor  GiB".toList then "3235922208" else ""

/-- Nothing but the disk is wrong. -/
def fullDisk (availGib : ℕ) : Observed := ⟨some availGib, "", [], 0, ""⟩

theorem alertKey_lowDisk (availGib : ℕ) :
    alertKey sampleCksum sampleHealthCfg (.lowDisk availGib) = "3235922208" := by
  have hsame : Problem.SameSubject (.lowDisk availGib) (.lowDisk 4) := .lowDisk availGib 4
  rw [alertKey, hsame.subject_eq]
  decide

/-- What is logged: the stamp that the all-clear could not remove holds the next alert back. -/
def sampleHealthLog : List (Event String) :=
  [.sent "3235922208" 7400 .ok, .held "3235922208" 4000, .cleared ["3235922208"],
    .sent "3235922208" 3700 .ok, .held "3235922208" 300, .sent "3235922208" 0 .ok]

theorem exists_held : ∃ s : Health,
    (machine sampleCksum sampleHealthCfg).Reachable Machine.always s ∧
      s.throttle.log = sampleHealthLog := by
  have h : (machine sampleCksum sampleHealthCfg).Reachable Machine.always _ := .init
  have h := h.step (Step.check (fullDisk 4) rfl) trivial
  have h := h.step (Step.alert 0 .ok rfl) trivial
  have h := h.step (Step.finish [] rfl) trivial
  have h := h.step (Step.check (fullDisk 3) rfl) trivial
  have h := h.step (Step.alert 300 .ok rfl) trivial
  have h := h.step (Step.finish [] rfl) trivial
  have h := h.step (Step.check (fullDisk 2) rfl) trivial
  have h := h.step (Step.alert 3700 .ok rfl) trivial
  have h := h.step (Step.finish [] rfl) trivial
  have h := h.step (Step.check (fullDisk 5) rfl) trivial
  have h := h.step (Step.finish ["3235922208"] rfl) trivial
  have h := h.step (Step.check (fullDisk 1) rfl) trivial
  have h := h.step (Step.alert 4000 .ok rfl) trivial
  have h := h.step (Step.finish [] rfl) trivial
  have h := h.step (Step.check (fullDisk 0) rfl) trivial
  exact ⟨_, h.step (Step.alert 7400 .ok rfl) trivial, by decide⟩

/-- An alert is held back only when one with its key has left its stamp less than a window before,
and an all-clear comes only when some alert has left one, neither removed since by an all-clear. -/
theorem held_justified (h : (machine cksum cfg).Reachable allowed s)
    {after before : List (Event String)} {e : Event String}
    (hlog : s.throttle.log = after ++ e :: before) :
    (∀ key t, e = .held key t →
      ∃ last, LastStamp key last before ∧ t - last < cfg.alertThrottleSec) ∧
    (∀ left, e = .cleared left → ∃ key last, LastStamp key last before) := by
  have hregular := (kept h).regular
  refine ⟨?_, ?_⟩
  · rintro key t rfl
    exact hregular.held hlog
  · rintro left rfl
    exact hregular.cleared hlog

theorem held_justified_full :
    (∃ last, LastStamp "3235922208" last (sampleHealthLog.drop 2) ∧
      4000 - last < sampleHealthCfg.alertThrottleSec) ∧
    ∃ key last, LastStamp key last (sampleHealthLog.drop 3) := by
  obtain ⟨s, h, hlog⟩ := exists_held
  have hheld : s.throttle.log = sampleHealthLog.take 1 ++
      .held "3235922208" 4000 :: sampleHealthLog.drop 2 := hlog
  have hcleared : s.throttle.log = sampleHealthLog.take 2 ++
      .cleared ["3235922208"] :: sampleHealthLog.drop 3 := hlog
  exact ⟨(held_justified h hheld).1 _ _ rfl, (held_justified h hcleared).2 _ rfl⟩

end Health

end Snapevent
