import Snapevent.Cli.Scheduled
import Snapevent.Cli.TimeDelta
import Snapevent.Core.Stored
import Snapevent.Lib.FoldM
import Snapevent.Lib.KeySort
import Snapevent.Lib.Lines
import Snapevent.Process.Ticker

/-!
# Schedules

The schedule file (`schedule.rs`) and what the supervisor computes from each entry (`scheduled.rs`):
the moment to arm it, its order among the others, the window its markets are looked for in and the
seconds after which its capture is stopped.  The integers of an entry go into this arithmetic as
they are.  It neither panics nor wraps exactly when the moments it computes are in the calendar.
-/

namespace Snapevent

/-! ## The file -/

/-- One scheduled capture job, with all its fields. -/
structure FullScheduleEntry extends ScheduleEntry where
  label : String
  series : String
  startUtc : Timestamp
  armLeadMin : Option Int64
  maxHours : Option UInt64
  deriving DecidableEq, Repr

/-- A field that is given a value when it is missing. -/
def withDefault {α : Type} (fields : List (String × Json)) (key : String)
    (read : Json → Option α) (default : α) : Option α :=
  match fields.lookup key with
  | none => some default
  | some v => read v

namespace Serde

variable (serde : Serde)

/-- Read an entry; a field that is not one of these is refused. -/
def readScheduleEntry (v : Json) : Option FullScheduleEntry := do
  let fields ← recordFields ["id", "label", "series", "event_ticker", "teams", "start_utc",
    "arm_lead_min", "max_hours", "remote_prefix"] v
  return { id := ← required fields "id" readString
           label := ← withDefault fields "label" readString ""
           series := ← required fields "series" readString
           eventTicker := ← optional fields "event_ticker" readString
           teams := ← withDefault fields "teams" (readArray readString) []
           startUtc := ← required fields "start_utc" serde.time
           armLeadMin := ← optional fields "arm_lead_min" serde.readI64
           maxHours := ← optional fields "max_hours" serde.readU64
           remotePrefix := ← optional fields "remote_prefix" readString }

end Serde

/-- A text without the white space around it. -/
def trim (cs : List Char) : List Char :=
  ((cs.dropWhile isWhiteSpace).reverse.dropWhile isWhiteSpace).reverse

/-- The entry has a predicted ticker or team codes. -/
def FullScheduleEntry.isResolvable (e : FullScheduleEntry) : Bool :=
  e.eventTicker.isSome || !e.teams.isEmpty

/-- The entry of a line, when the line has a resolvable one. -/
def parseScheduleLine (serde : Serde) (line : List Char) : Option FullScheduleEntry :=
  let line := trim line
  if line.isEmpty then none
  else ((Json.parse line).bind serde.readScheduleEntry).filter (·.isResolvable)

/-- The entries of a schedule text, which may begin with a byte order mark. -/
def parseSchedule (serde : Serde) (text : String) : List FullScheduleEntry :=
  let chars := match text.toList with
    | '\uFEFF' :: cs => cs
    | cs => cs
  (Lines.split '\n' '\r' chars).filterMap (parseScheduleLine serde)

/-! ## The arithmetic

`none` stands for a panic; casts and products wrap. -/

/-- The defaults of the supervisor. -/
structure SchedCfg where
  armLeadMin : Int64
  defaultMaxHours : UInt64

namespace FullScheduleEntry

variable (cfg : SchedCfg) (e : FullScheduleEntry)

/-- The moment to begin arming. -/
def armAt (defaultLeadMin : Int64) : Option Timestamp := do
  let lead := e.armLeadMin.getD defaultLeadMin
  e.startUtc.minus (← deltaMinutes (if 0 < lead then lead else 0).toInt)

/-- The backstop in hours. -/
def hours : UInt64 := e.maxHours.getD cfg.defaultMaxHours

/-- The end of the capture window. -/
def windowEnd : Option Timestamp := do
  e.startUtc.plus (← deltaHours (e.hours cfg).toInt64.toInt)

/-- The backstop in seconds. -/
def maxSecs : UInt64 := e.hours cfg * 3600

end FullScheduleEntry

/-- The close-time window of the discovery query, in seconds. -/
def discoveryWindow (startUtc : Timestamp) (maxHours : UInt64) : Option (ℤ × ℤ) := do
  let lo ← startUtc.minus (← deltaHours 2)
  let backstop ← startUtc.plus (← deltaHours maxHours.toInt64.toInt)
  let hi ← backstop.plus (← deltaDays 4)
  return (lo.timestamp, hi.timestamp)

/-- The entries whose window is not past, by arm time; a list of one is not looked at to sort it. -/
def armOrder (cfg : SchedCfg) (now : Timestamp) (entries : List FullScheduleEntry) :
    Option (List FullScheduleEntry) := do
  let ends ← entries.mapM (·.windowEnd cfg)
  let kept := ((entries.zip ends).filter fun p => now.nanos < p.2.nanos).map (·.1)
  if kept.length < 2 then return kept
  else
    let keyed ← kept.mapM fun e => return (← e.armAt cfg.armLeadMin, e)
    return (KeySort.sortOn (·.1.nanos) keyed).map (·.2)

/-! ## What is safe -/

/-- All that is computed from the entry is computed without a panic and without wrapping, and it is
armed no later than it starts. -/
structure Computes (cfg : SchedCfg) (e : FullScheduleEntry) : Prop where
  armed : ∃ t, e.armAt cfg.armLeadMin = some t ∧ t.nanos ≤ e.startUtc.nanos
  window : (e.windowEnd cfg).isSome
  discovery : (discoveryWindow e.startUtc (e.hours cfg)).isSome
  cast : (e.hours cfg).toInt64.toInt = (e.hours cfg).toNat
  backstop : (e.maxSecs cfg).toNat = (e.hours cfg).toNat * 3600

/-- No entry of the schedule keeps the others from being ordered, and all that is computed from each
of them is computed. -/
def ScheduleSafe (cfg : SchedCfg) (now : Timestamp) (entries : List FullScheduleEntry) : Prop :=
  (armOrder cfg now entries).isSome ∧ ∀ e ∈ entries, Computes cfg e

/-- The moments computed from the entry are in the calendar: the start less the lead, the start less
two hours, and four days after the start and the backstop. -/
structure InCalendar (cfg : SchedCfg) (e : FullScheduleEntry) : Prop where
  lead : minUtcNanos ≤
    e.startUtc.nanos - max (e.armLeadMin.getD cfg.armLeadMin).toInt 0 * (60 * 10 ^ 9)
  early : minUtcNanos ≤ e.startUtc.nanos - 2 * (3600 * 10 ^ 9)
  late : e.startUtc.nanos + (e.hours cfg).toNat * (3600 * 10 ^ 9) + 4 * (86400 * 10 ^ 9) ≤
    maxUtcNanos

/-! ## One entry -/

section Entry

variable {cfg : SchedCfg} {e : FullScheduleEntry}

theorem toInt_lead (m : Int64) : (if 0 < m then m else 0).toInt = max m.toInt 0 := by
  have hpos : 0 < m ↔ 0 < m.toInt := Int64.lt_iff_toInt_lt
  by_cases h : 0 < m
  · rw [if_pos h]
    have := hpos.1 h
    omega
  · rw [if_neg h]
    have : ¬ 0 < m.toInt := fun h' => h (hpos.2 h')
    show (0 : ℤ) = _
    omega

theorem exists_armAt (m : Int64) : (∃ t, e.armAt m = some t) ↔
    minUtcNanos ≤ e.startUtc.nanos - max (e.armLeadMin.getD m).toInt 0 * (60 * 10 ^ 9) := by
  have hmoment : e.startUtc.nanos - max (e.armLeadMin.getD m).toInt 0 * (60 * 10 ^ 9) =
      e.startUtc.nanos - max (e.armLeadMin.getD m).toInt 0 * 60 * 10 ^ 9 := by omega
  rw [hmoment, ← Timestamp.exists_minus (by omega), ← toInt_lead]
  rfl

theorem armAt_le {m : Int64} {t : Timestamp} (h : e.armAt m = some t) :
    t.nanos ≤ e.startUtc.nanos := by
  obtain ⟨d, hd, ht⟩ := Option.bind_eq_some_iff.1 h
  rw [toInt_lead] at hd
  rw [Timestamp.ofNanos_eq_some.1 ht, deltaSeconds_eq_some hd]
  omega

theorem InCalendar.hours_lt (h : InCalendar cfg e) : (e.hours cfg).toNat < 2 ^ 33 := by
  have hlate := h.late
  have hmin := e.startUtc.inRange.1
  unfold maxUtcNanos at hlate
  unfold minUtcNanos at hmin
  omega

/-- The moment some hours after the start is computed exactly when it is in the calendar; the hours
are those of the signed reading of the backstop. -/
theorem exists_windowEnd : (∃ t, e.windowEnd cfg = some t) ↔
    minUtcNanos ≤ e.startUtc.nanos + (e.hours cfg).toInt64.toInt * 3600 * 10 ^ 9 ∧
      e.startUtc.nanos + (e.hours cfg).toInt64.toInt * 3600 * 10 ^ 9 ≤ maxUtcNanos :=
  Timestamp.exists_plus

theorem windowEnd_nanos {t : Timestamp} (h : e.windowEnd cfg = some t) :
    t.nanos = e.startUtc.nanos + (e.hours cfg).toInt64.toInt * 3600 * 10 ^ 9 := by
  obtain ⟨d, hd, ht⟩ := Option.bind_eq_some_iff.1 h
  rw [Timestamp.ofNanos_eq_some.1 ht, deltaSeconds_eq_some hd]

/-- The discovery window is computed exactly when its moments are. -/
theorem exists_discoveryWindow : (discoveryWindow e.startUtc (e.hours cfg)).isSome ↔
    minUtcNanos ≤ e.startUtc.nanos - 2 * (3600 * 10 ^ 9) ∧ ∃ t, e.windowEnd cfg = some t ∧
      t.nanos + 4 * (86400 * 10 ^ 9) ≤ maxUtcNanos := by
  have hlo : (∃ s, (do e.startUtc.minus (← deltaHours 2)) = some s) ↔
      minUtcNanos ≤ e.startUtc.nanos - 2 * (3600 * 10 ^ 9) := Timestamp.exists_minus (by decide)
  have hdays : deltaDays 4 = some (4 * (86400 * 10 ^ 9)) := by decide
  rw [← hlo]
  constructor
  · intro h
    obtain ⟨w, hw⟩ := Option.isSome_iff_exists.1 h
    unfold discoveryWindow at hw
    obtain ⟨two, htwo, hw⟩ := Option.bind_eq_some_iff.1 hw
    obtain ⟨lo, hlow, hw⟩ := Option.bind_eq_some_iff.1 hw
    obtain ⟨d, hd, hw⟩ := Option.bind_eq_some_iff.1 hw
    obtain ⟨t, ht, hw⟩ := Option.bind_eq_some_iff.1 hw
    obtain ⟨four, hfour, hw⟩ := Option.bind_eq_some_iff.1 hw
    rw [hdays] at hfour
    cases hfour
    obtain ⟨hi, hhi, -⟩ := Option.bind_eq_some_iff.1 hw
    refine ⟨⟨lo, Option.bind_eq_some_iff.2 ⟨two, htwo, hlow⟩⟩, t,
      Option.bind_eq_some_iff.2 ⟨d, hd, ht⟩, ?_⟩
    exact (Timestamp.exists_ofNanos.1 ⟨hi, hhi⟩).2
  · rintro ⟨⟨lo, hlow⟩, t, ht, hmax⟩
    obtain ⟨two, htwo, hlow⟩ := Option.bind_eq_some_iff.1 hlow
    obtain ⟨d, hd, ht⟩ := Option.bind_eq_some_iff.1 ht
    have hmin := t.inRange.1
    obtain ⟨hi, hhi⟩ := Timestamp.exists_ofNanos.2 ⟨by omega, hmax⟩
    have hplus : t.plus (4 * (86400 * 10 ^ 9)) = some hi := hhi
    simp only [discoveryWindow, htwo, hd, hdays, Option.bind_eq_bind, Option.bind_some, hlow, ht,
      hplus]
    rfl

theorem InCalendar.computes (h : InCalendar cfg e) : Computes cfg e := by
  have hsmall := h.hours_lt
  have hcast := toInt_toInt64 (a := e.hours cfg) (by omega)
  have hmin := e.startUtc.inRange.1
  have hlate := h.late
  have hend : minUtcNanos ≤ e.startUtc.nanos + (e.hours cfg).toInt64.toInt * 3600 * 10 ^ 9 ∧
      e.startUtc.nanos + (e.hours cfg).toInt64.toInt * 3600 * 10 ^ 9 ≤ maxUtcNanos := by
    rw [hcast]
    omega
  obtain ⟨t, ht⟩ := exists_windowEnd.2 hend
  constructor
  case armed =>
    obtain ⟨a, ha⟩ := (exists_armAt cfg.armLeadMin).2 h.lead
    exact ⟨a, ha, armAt_le ha⟩
  case window => exact Option.isSome_iff_exists.2 ⟨t, ht⟩
  case discovery =>
    refine exists_discoveryWindow.2 ⟨h.early, t, ht, ?_⟩
    rw [windowEnd_nanos ht, hcast]
    omega
  case cast => exact hcast
  case backstop =>
    rw [FullScheduleEntry.maxSecs, UInt64.toNat_mul]
    exact Nat.mod_eq_of_lt (by show _ * 3600 < _; omega)

theorem Computes.inCalendar (h : Computes cfg e) : InCalendar cfg e := by
  obtain ⟨hearly, t, ht, hmax⟩ := exists_discoveryWindow.1 h.discovery
  constructor
  case lead =>
    obtain ⟨a, ha, -⟩ := h.armed
    exact (exists_armAt cfg.armLeadMin).1 ⟨a, ha⟩
  case early => exact hearly
  case late =>
    rw [windowEnd_nanos ht, h.cast] at hmax
    omega

end Entry

/-! ## The schedule -/

theorem armOrder_isSome {cfg : SchedCfg} {now : Timestamp} {entries : List FullScheduleEntry}
    (h : ∀ e ∈ entries, Computes cfg e) : (armOrder cfg now entries).isSome := by
  obtain ⟨ends, hends⟩ : ∃ ends, entries.mapM (·.windowEnd cfg) = some ends :=
    FoldM.exists_mapM_some fun e he => Option.isSome_iff_exists.1 (h e he).window
  let kept := ((entries.zip ends).filter fun p => now.nanos < p.2.nanos).map (·.1)
  have hkept : ∀ e ∈ kept, e ∈ entries := by
    intro e he
    obtain ⟨p, hp, rfl⟩ := List.mem_map.1 he
    exact (List.of_mem_zip (List.mem_of_mem_filter hp)).1
  obtain ⟨keyed, hkeyed⟩ : ∃ keyed,
      (kept.mapM fun e => do return (← e.armAt cfg.armLeadMin, e)) = some keyed := by
    apply FoldM.exists_mapM_some
    intro e he
    obtain ⟨t, ht, -⟩ := (h e (hkept e he)).armed
    exact ⟨(t, e), by rw [ht]; rfl⟩
  rw [armOrder, hends, Option.bind_eq_bind, Option.bind_some]
  show (if kept.length < 2 then some kept else _).isSome
  split_ifs
  · rfl
  · exact Option.isSome_iff_exists.2 ⟨_, Option.bind_eq_some_iff.2 ⟨keyed, hkeyed, rfl⟩⟩

/-- A schedule is armed without a panic and without wrapping exactly when the moments computed from
each of its entries are in the calendar. -/
theorem schedule_safe_iff (serde : Serde) (cfg : SchedCfg) (now : Timestamp) (text : String) :
    ScheduleSafe cfg now (parseSchedule serde text) ↔
      ∀ e ∈ parseSchedule serde text, InCalendar cfg e := by
  constructor
  · intro h e he
    exact (h.2 e he).inCalendar
  · intro h
    have hcomputes := fun e he => (h e he).computes
    exact ⟨armOrder_isSome hcomputes, hcomputes⟩

/-- A good entry and one whose lead is the largest integer. -/
def strandingSchedule : String :=
  "\x7b\"id\":\"a\",\"series\":\"S\",\"teams\":[\"X\"],\"start_utc\":\"2026-05-30T12:00:00Z\"\x7d\n" ++
  "\x7b\"id\":\"b\",\"series\":\"S\",\"teams\":[\"X\"],\"start_utc\":\"2026-05-30T12:00:00Z\"," ++
  "\"arm_lead_min\":9223372036854775807\x7d\n"

/-- One lead keeps a schedule with a good entry from being ordered. -/
theorem one_lead_strands_schedule :
    ¬ ∀ serde cfg now text, ScheduleSafe cfg now (parseSchedule serde text) := by
  intro h
  have hsafe := (h .sample ⟨60, 8⟩ .sample strandingSchedule).1
  have hnone : armOrder ⟨60, 8⟩ .sample (parseSchedule .sample strandingSchedule) = none := by
    decide +kernel
  rw [hnone] at hsafe
  cases hsafe

end Snapevent
