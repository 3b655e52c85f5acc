import Snapevent.Cli.EventTime
import Snapevent.Core.Weekday

/-!
# Which event starts are read

The start of an event as the source reads it, slicing the bytes of a segment, against what a ticker
encodes: the first segment of digits and a month abbreviation that denotes a date and a time, in US
Eastern time.  The number parser of the standard library takes a plus sign for a digit's place, so
the two agree exactly when no segment with a plus sign gets in first.
-/

namespace Snapevent

/-! ## Daylight saving -/

theorem nthWeekday_spec {year : ℤ} {month weekday n : ℕ} {d : Date} (hw : weekday < 7)
    (hn : 0 < n) (h : nthWeekday year month weekday n = some d) :
    d.year = year ∧ d.month = month ∧ d.IsNth n weekday := by
  unfold nthWeekday at h
  rw [Option.bind_eq_bind, Option.bind_eq_some_iff] at h
  obtain ⟨first, hfirst, h⟩ := h
  obtain ⟨hy, hm, hd⟩ := Date.fromYmd_eq_some_iff.1 hfirst
  obtain ⟨hy', hm', hd'⟩ := Date.fromYmd_eq_some_iff.1 h
  have hdays := Date.days_sub_day (hy'.trans hy.symm) (hm'.trans hm.symm)
  refine ⟨hy', hm', ?_⟩
  unfold Date.IsNth
  unfold Date.daysFromMonday at hd' ⊢
  omega

theorem nthWeekday_sundays (year : ℤ) : (∃ d, nthWeekday year 3 6 2 = some d) ∧
    ∃ d, nthWeekday year 11 6 1 = some d := by
  have hsome {month n : ℕ} (hmonth : 1 ≤ month ∧ month ≤ 12)
      (hdays : 7 * n ≤ daysInMonth year month) (hn : 0 < n) :
      ∃ d, nthWeekday year month 6 n = some d := by
    have hfirst : (1 ≤ month ∧ month ≤ 12) ∧ 1 ≤ 1 ∧ 1 ≤ daysInMonth year month :=
      ⟨hmonth, Nat.le_refl 1, by omega⟩
    unfold nthWeekday Date.fromYmd
    rw [dif_pos hfirst, Option.bind_eq_bind, Option.bind_some]
    dsimp only
    rw [dif_pos ⟨hmonth, by omega, by omega⟩]
    exact ⟨_, rfl⟩
  have hmarch : 7 * 2 ≤ daysInMonth year 3 := show 7 * 2 ≤ 31 by decide
  have hnovember : 7 * 1 ≤ daysInMonth year 11 := show 7 * 1 ≤ 30 by decide
  exact ⟨hsome (by decide) hmarch (by decide), hsome (by decide) hnovember (by decide)⟩

/-- The date lies from the second Sunday of March up to but excluding the first of November. -/
def DaylightSaving (d : Date) : Prop :=
  ∃ start stop : Date, (start.year = d.year ∧ start.month = 3 ∧ start.IsNth 2 6) ∧
    (stop.year = d.year ∧ stop.month = 11 ∧ stop.IsNth 1 6) ∧ start ≤ d ∧ d < stop

open Classical in
/-- Hours from US Eastern wall-clock time to UTC. -/
noncomputable def easternHours (d : Date) : ℤ := if DaylightSaving d then 4 else 5

theorem usEasternOffsetHours_eq (d : Date) : usEasternOffsetHours d = easternHours d := by
  obtain ⟨⟨start, hstart⟩, ⟨stop, hstop⟩⟩ := nthWeekday_sundays d.year
  obtain ⟨hsy, hsm, hsn⟩ := nthWeekday_spec (by decide) (by decide) hstart
  obtain ⟨hey, hem, hen⟩ := nthWeekday_spec (by decide) (by decide) hstop
  have hiff : start ≤ d ∧ d < stop ↔ DaylightSaving d := by
    constructor
    · rintro ⟨hle, hlt⟩
      exact ⟨start, stop, ⟨hsy, hsm, hsn⟩, ⟨hey, hem, hen⟩, hle, hlt⟩
    · rintro ⟨start', stop', ⟨hsy', hsm', hsn'⟩, ⟨hey', hem', hen'⟩, hle, hlt⟩
      rw [hsn.unique (hsy.trans hsy'.symm) (hsm.trans hsm'.symm) hsn',
        hen.unique (hey.trans hey'.symm) (hem.trans hem'.symm) hen']
      exact ⟨hle, hlt⟩
  unfold usEasternOffsetHours easternHours
  rw [hstart, hstop]
  dsimp only
  by_cases h : DaylightSaving d
  · rw [if_pos (hiff.2 h), if_pos h]
  · rw [if_neg (mt hiff.1 h), if_neg h]

/-! ## What a ticker encodes -/

/-- Two ASCII digits. -/
def TwoDigits (cs : List Char) (n : ℕ) : Prop :=
  ∃ a b : Char, a.isDigit ∧ b.isDigit ∧ cs = [a, b] ∧ n = 10 * (a.toNat - 48) + (b.toNat - 48)

/-- A digit after a plus sign. -/
def PlusDigit (cs : List Char) (n : ℕ) : Prop :=
  ∃ b : Char, b.isDigit ∧ cs = ['+', b] ∧ n = b.toNat - 48

/-- What the number parser reads from two characters without a minus sign. -/
def Readable (cs : List Char) (n : ℕ) : Prop := TwoDigits cs n ∨ PlusDigit cs n

/-- The segment is a year, a month, a day, an hour and a minute that denote a date and a time, and
goes on with nothing or a non-digit. -/
inductive Encodes (number : List Char → ℕ → Prop) : List Char → Date → ℕ → ℕ → Prop
  | intro {yy mon dd hh mm rest : List Char} {year hour minute : ℕ} {date : Date}
      (hyear : number yy year) (hdate : date.year = 2000 + year)
      (hmonth : MONTHS[date.month - 1]?.map String.toList = some mon)
      (hday : number dd date.day) (hhour : number hh hour) (hminute : number mm minute)
      (htime : hour ≤ 23 ∧ minute ≤ 59) (hrest : ∀ c, rest.head? = some c → ¬ c.isDigit) :
      Encodes number (yy ++ (mon ++ (dd ++ (hh ++ (mm ++ rest))))) date hour minute

/-- The instant of a US Eastern date and time. -/
noncomputable def startNanos (date : Date) (hour minute : ℕ) : ℤ :=
  (date.days * 86400 + (hour + easternHours date) * 3600 + minute * 60) * 10 ^ 9

/-- The segment encodes some start. -/
def EncodesStart (number : List Char → ℕ → Prop) (seg : List Char) : Prop :=
  ∃ date hour minute, Encodes number seg date hour minute

/-- The start that the first segment encoding one encodes, if there is any. -/
def IsFirstStart (number : List Char → ℕ → Prop) (segs : List (List Char)) :
    Option Timestamp → Prop
  | none => ∀ seg ∈ segs, ¬ EncodesStart number seg
  | some ts => ∃ pre seg post date hour minute, segs = pre ++ seg :: post ∧
      (∀ s ∈ pre, ¬ EncodesStart number s) ∧ Encodes number seg date hour minute ∧
      ts.nanos = startNanos date hour minute

/-! ## Slices of known bytes -/

@[simp] theorem byteLen_nil : byteLen [] = 0 := rfl

@[simp] theorem byteLen_cons (c : Char) (cs : List Char) :
    byteLen (c :: cs) = c.utf8Size + byteLen cs := rfl

theorem byteLen_append (cs ds : List Char) : byteLen (cs ++ ds) = byteLen cs + byteLen ds := by
  simp [byteLen]

theorem dropBytes_zero (cs : List Char) : dropBytes 0 cs = some cs := by
  cases cs <;> rfl

theorem takeBytes_zero (cs : List Char) : takeBytes 0 cs = some [] := by
  cases cs <;> rfl

theorem dropBytes_append (pre : List Char) (n : ℕ) (rest : List Char) :
    dropBytes (byteLen pre + n) (pre ++ rest) = dropBytes n rest := by
  induction pre with
  | nil => rw [byteLen_nil, Nat.zero_add, List.nil_append]
  | cons c pre ih =>
    have hpos := c.utf8Size_pos
    rw [byteLen_cons, List.cons_append, dropBytes, if_neg (by omega), if_pos (by omega), ← ih]
    congr 1
    omega

theorem takeBytes_append (ds rest : List Char) : takeBytes (byteLen ds) (ds ++ rest) = some ds := by
  induction ds with
  | nil => exact takeBytes_zero _
  | cons c ds ih =>
    have hpos := c.utf8Size_pos
    have hsub : c.utf8Size + byteLen ds - c.utf8Size = byteLen ds := by omega
    rw [byteLen_cons, List.cons_append, takeBytes, if_neg (by omega), if_pos (by omega), hsub, ih]
    rfl

theorem takeBytes_eq_some {n : ℕ} {cs ds : List Char} (h : takeBytes n cs = some ds) :
    byteLen ds = n ∧ ∃ rest, cs = ds ++ rest := by
  induction cs generalizing n ds with
  | nil =>
    rw [takeBytes] at h
    split_ifs at h with hn
    cases h
    exact ⟨hn.symm, [], rfl⟩
  | cons c cs ih =>
    rw [takeBytes] at h
    split_ifs at h with hn hle
    · cases h
      exact ⟨hn.symm, c :: cs, rfl⟩
    · obtain ⟨ds', hds', rfl⟩ := Option.map_eq_some_iff.1 h
      obtain ⟨hlen, rest, rfl⟩ := ih hds'
      refine ⟨?_, rest, rfl⟩
      rw [byteLen_cons, hlen]
      omega

theorem getBytes_append {pre : List Char} {start : ℕ} (h : byteLen pre = start) (stop : ℕ)
    (rest : List Char) : getBytes start stop (pre ++ rest) = takeBytes (stop - start) rest := by
  have hdrop := dropBytes_append pre 0 rest
  rw [Nat.add_zero, dropBytes_zero, h] at hdrop
  rw [getBytes, hdrop, Option.bind_some]

/-! ## The parts of a segment -/

/-- The parts a segment is read from, with what they are read as. -/
structure Parts (seg : List Char) (ts : Timestamp) where
  (yy mon dd hh mm rest : List Char)
  year : ℤ
  (month day hour minute : ℕ)
  date : Date
  split : seg = yy ++ (mon ++ (dd ++ (hh ++ (mm ++ rest))))
  sizes : byteLen yy = 2 ∧ byteLen mon = 3 ∧ byteLen dd = 2 ∧ byteLen hh = 2 ∧ byteLen mm = 2
  hyear : parseSigned yy = some year
  hmonth : MONTHS.findIdx? (·.toList = mon) = some month
  hday : parseUnsigned dd = some day
  hhour : parseUnsigned hh = some hour
  hminute : parseUnsigned mm = some minute
  hrest : rest.head?.any (·.isDigit) = false
  htime : ¬ (23 < hour ∨ 59 < minute)
  hdate : Date.fromYmd (2000 + year) (month + 1) day = some date
  hts : Timestamp.ofNanos ((date.days * 86400 + (hour + usEasternOffsetHours date) * 3600 +
    minute * 60) * 10 ^ 9) = some ts

/-- What follows the parts. -/
theorem dropBytes_parts {yy mon dd hh mm : List Char}
    (h : byteLen yy = 2 ∧ byteLen mon = 3 ∧ byteLen dd = 2 ∧ byteLen hh = 2 ∧ byteLen mm = 2)
    (rest : List Char) :
    dropBytes 11 (yy ++ (mon ++ (dd ++ (hh ++ (mm ++ rest))))) = some rest := by
  obtain ⟨hyy, hmon, hdd, hhh, hmm⟩ := h
  have happ := dropBytes_append (yy ++ (mon ++ (dd ++ (hh ++ mm)))) 0 rest
  simp only [byteLen_append, hyy, hmon, hdd, hhh, hmm, dropBytes_zero, List.append_assoc] at happ
  exact happ

theorem parts_of_parseSegment {seg : List Char} {ts : Timestamp}
    (h : parseSegment seg = some ts) : Nonempty (Parts seg ts) := by
  unfold parseSegment at h
  by_cases hlen : byteLen seg < 11 ∨ (dropBytes 11 seg).isNone
  · rw [if_pos hlen] at h
    cases h
  rw [if_neg hlen] at h
  simp only [Option.bind_eq_bind, Option.bind_eq_some_iff] at h
  obtain ⟨year, ⟨yy, hyy, hyear⟩, mon, hmon, month, hmonth, day, ⟨dd, hdd, hday⟩, hour,
    ⟨hh, hhh, hhour⟩, minute, ⟨mm, hmm, hminute⟩, h⟩ := h
  -- each slice starts where the one before it ends
  rw [← List.nil_append seg, getBytes_append byteLen_nil] at hyy
  obtain ⟨hyy2, rest, rfl⟩ := takeBytes_eq_some hyy
  rw [getBytes_append hyy2] at hmon
  obtain ⟨hmon3, rest, rfl⟩ := takeBytes_eq_some hmon
  rw [← List.append_assoc, getBytes_append (by rw [byteLen_append, hyy2, hmon3])] at hdd
  obtain ⟨hdd2, rest, rfl⟩ := takeBytes_eq_some hdd
  rw [← List.append_assoc, ← List.append_assoc, getBytes_append
    (by rw [byteLen_append, byteLen_append, hyy2, hmon3, hdd2])] at hhh
  obtain ⟨hhh2, rest, rfl⟩ := takeBytes_eq_some hhh
  rw [← List.append_assoc, ← List.append_assoc, ← List.append_assoc, getBytes_append
    (by rw [byteLen_append, byteLen_append, byteLen_append, hyy2, hmon3, hdd2, hhh2])] at hmm
  obtain ⟨hmm2, rest, rfl⟩ := takeBytes_eq_some hmm
  have hdrop := dropBytes_parts ⟨hyy2, hmon3, hdd2, hhh2, hmm2⟩ rest
  rw [hdrop, Option.any_some] at h
  split_ifs at h with hdigit htime
  obtain ⟨date, hdate, hts⟩ := Option.bind_eq_some_iff.1 h
  exact ⟨⟨yy, mon, dd, hh, mm, rest, year, month, day, hour, minute, date, rfl,
    ⟨hyy2, hmon3, hdd2, hhh2, hmm2⟩, hyear, hmonth, hday, hhour, hminute,
    Bool.eq_false_of_not_eq_true hdigit, htime, hdate, hts⟩⟩

theorem Parts.parseSegment {seg : List Char} {ts : Timestamp} (p : Parts seg ts) :
    parseSegment seg = some ts := by
  obtain ⟨yy, mon, dd, hh, mm, rest, year, month, day, hour, minute, date, rfl,
    ⟨hyy2, hmon3, hdd2, hhh2, hmm2⟩, hyear, hmonth, hday, hhour, hminute, hrest, htime, hdate,
    hts⟩ := p
  have htake (ds rest : List Char) {n : ℕ} (h : byteLen ds = n) :
      takeBytes n (ds ++ rest) = some ds := by
    rw [← h]
    exact takeBytes_append ds rest
  have hyy : getBytes 0 2 (yy ++ (mon ++ (dd ++ (hh ++ (mm ++ rest))))) = some yy := by
    rw [← List.nil_append (yy ++ _), getBytes_append byteLen_nil]
    exact htake _ _ hyy2
  have hmon : getBytes 2 5 (yy ++ (mon ++ (dd ++ (hh ++ (mm ++ rest))))) = some mon := by
    rw [getBytes_append hyy2]
    exact htake _ _ hmon3
  have hdd : getBytes 5 7 (yy ++ (mon ++ (dd ++ (hh ++ (mm ++ rest))))) = some dd := by
    rw [← List.append_assoc, getBytes_append (by rw [byteLen_append, hyy2, hmon3])]
    exact htake _ _ hdd2
  have hhh : getBytes 7 9 (yy ++ (mon ++ (dd ++ (hh ++ (mm ++ rest))))) = some hh := by
    rw [← List.append_assoc, ← List.append_assoc, getBytes_append
      (by rw [byteLen_append, byteLen_append, hyy2, hmon3, hdd2])]
    exact htake _ _ hhh2
  have hmm : getBytes 9 11 (yy ++ (mon ++ (dd ++ (hh ++ (mm ++ rest))))) = some mm := by
    rw [← List.append_assoc, ← List.append_assoc, ← List.append_assoc, getBytes_append
      (by rw [byteLen_append, byteLen_append, byteLen_append, hyy2, hmon3, hdd2, hhh2])]
    exact htake _ _ hmm2
  have hdrop := dropBytes_parts ⟨hyy2, hmon3, hdd2, hhh2, hmm2⟩ rest
  have hlen : ¬ byteLen (yy ++ (mon ++ (dd ++ (hh ++ (mm ++ rest))))) < 11 := by
    simp only [byteLen_append, hyy2, hmon3, hdd2, hhh2, hmm2]
    omega
  have hguard : ¬ (byteLen (yy ++ (mon ++ (dd ++ (hh ++ (mm ++ rest))))) < 11 ∨
      (dropBytes 11 (yy ++ (mon ++ (dd ++ (hh ++ (mm ++ rest)))))).isNone) := by
    rw [hdrop]
    exact fun h => h.elim hlen nofun
  unfold Snapevent.parseSegment
  rw [if_neg hguard, hyy, hmon, hdd, hhh, hmm, hdrop]
  simp only [Option.bind_eq_bind, Option.bind_some, Option.any_some, hyear, hmonth, hday, hhour,
    hminute, hrest, hdate]
  rw [if_neg Bool.false_ne_true, if_neg htime]
  exact hts

/-! ## The numbers and the month -/

theorem utf8Size_of_isDigit {c : Char} (h : c.isDigit) : c.utf8Size = 1 := by
  have hle : c.toNat ≤ 57 := (Char.isDigit_iff_toNat.1 h).2
  rw [Char.utf8Size_eq_one_iff, UInt32.le_iff_toNat_le]
  exact Nat.le_trans hle (by decide)

theorem byteLen_of_digits {cs : List Char} (h : cs.all (·.isDigit)) : byteLen cs = cs.length := by
  induction cs with
  | nil => rfl
  | cons c cs ih =>
    rw [List.all_cons, Bool.and_eq_true] at h
    rw [byteLen_cons, utf8Size_of_isDigit h.1, ih h.2, List.length_cons, Nat.add_comm]

theorem ofDigitChars_one (b : Char) : Nat.ofDigitChars 10 [b] 0 = b.toNat - 48 := by
  simp [Nat.ofDigitChars]

theorem parseUnsigned_of_ne {cs : List Char} (h : cs.head? ≠ some '+') : parseUnsigned cs =
    if !cs.isEmpty && cs.all (·.isDigit) then some (Nat.ofDigitChars 10 cs 0) else none := by
  unfold parseUnsigned
  split
  · exact absurd rfl h
  · rfl

theorem of_digits_iff {cs : List Char} {n : ℕ} :
    (if !cs.isEmpty && cs.all (·.isDigit) then some (Nat.ofDigitChars 10 cs 0) else none) = some n ↔
      cs ≠ [] ∧ cs.all (·.isDigit) ∧ n = Nat.ofDigitChars 10 cs 0 := by
  split_ifs with h
  · simp only [Bool.and_eq_true, Bool.not_eq_true', List.isEmpty_eq_false_iff] at h
    rw [Option.some.injEq]
    exact ⟨fun hn => ⟨h.1, h.2, hn.symm⟩, fun hn => hn.2.2.symm⟩
  · simp only [Bool.and_eq_true, Bool.not_eq_true', List.isEmpty_eq_false_iff, not_and] at h
    exact iff_of_false nofun fun hn => h hn.1 hn.2.1

theorem parseUnsigned_iff {cs : List Char} {n : ℕ} :
    (byteLen cs = 2 ∧ parseUnsigned cs = some n) ↔ Readable cs n := by
  have hplus : '+'.utf8Size = 1 := rfl
  by_cases hhead : cs.head? = some '+'
  · obtain ⟨ds, rfl⟩ := List.head?_eq_some_iff.1 hhead
    have hparse : parseUnsigned ('+' :: ds) = some n ↔
        ds ≠ [] ∧ ds.all (·.isDigit) ∧ n = Nat.ofDigitChars 10 ds 0 := of_digits_iff
    rw [hparse, byteLen_cons, hplus]
    constructor
    · rintro ⟨hlen, -, hdigits, rfl⟩
      rw [byteLen_of_digits hdigits] at hlen
      obtain ⟨b, rfl⟩ := List.length_eq_one_iff.1 (show ds.length = 1 by omega)
      rw [List.all_cons, Bool.and_eq_true] at hdigits
      exact Or.inr ⟨b, hdigits.1, rfl, ofDigitChars_one b⟩
    · rintro (⟨a, b, ha, -, hcs, -⟩ | ⟨b, hb, hcs, rfl⟩)
      · rw [List.cons_eq_cons] at hcs
        rw [← hcs.1] at ha
        exact absurd ha (by decide)
      · rw [List.cons_eq_cons] at hcs
        rw [hcs.2, byteLen_cons, utf8Size_of_isDigit hb, byteLen_nil]
        exact ⟨rfl, List.cons_ne_nil _ _, by simp [hb], (ofDigitChars_one b).symm⟩
  · rw [parseUnsigned_of_ne hhead, of_digits_iff]
    constructor
    · rintro ⟨hlen, -, hdigits, rfl⟩
      rw [byteLen_of_digits hdigits] at hlen
      obtain ⟨a, b, rfl⟩ := List.length_eq_two.1 hlen
      simp only [List.all_cons, List.all_nil, Bool.and_eq_true, Bool.and_true] at hdigits
      refine Or.inl ⟨a, b, hdigits.1, hdigits.2, rfl, ?_⟩
      simp [Nat.ofDigitChars]
    · rintro (⟨a, b, ha, hb, rfl, rfl⟩ | ⟨b, -, rfl, -⟩)
      · refine ⟨?_, List.cons_ne_nil _ _, by simp [ha, hb], by simp [Nat.ofDigitChars]⟩
        rw [byteLen_cons, byteLen_cons, utf8Size_of_isDigit ha, utf8Size_of_isDigit hb]
        rfl
      · exact absurd rfl hhead

/-- Without a minus sign a signed number is read as an unsigned one. -/
theorem parseSigned_iff {cs : List Char} (hdash : '-' ∉ cs) {y : ℤ} :
    parseSigned cs = some y ↔ ∃ n : ℕ, parseUnsigned cs = some n ∧ y = n := by
  unfold parseSigned
  split
  · exact absurd List.mem_cons_self hdash
  · rw [Option.map_eq_some_iff]
    exact exists_congr fun n => and_congr_right fun _ => eq_comm

theorem month_iff {mon : List Char} {i : ℕ} :
    MONTHS.findIdx? (·.toList = mon) = some i ↔ MONTHS[i]?.map String.toList = some mon := by
  have hnodup : MONTHS.Nodup := by decide
  rw [List.findIdx?_eq_some_iff_getElem, Option.map_eq_some_iff]
  constructor
  · rintro ⟨hi, hmon, -⟩
    exact ⟨MONTHS[i], List.getElem?_eq_getElem hi, of_decide_eq_true hmon⟩
  · rintro ⟨s, hs, rfl⟩
    obtain ⟨hi, rfl⟩ := List.getElem?_eq_some_iff.1 hs
    refine ⟨hi, decide_eq_true rfl, fun j hji => ?_⟩
    simp only [decide_eq_true_eq]
    intro heq
    exact List.pairwise_iff_getElem.1 hnodup j i (by omega) hi hji (String.toList_inj.1 heq)

theorem byteLen_month {mon : List Char} {i : ℕ} (h : MONTHS[i]?.map String.toList = some mon) :
    byteLen mon = 3 ∧ i < 12 := by
  have hall : ∀ s ∈ MONTHS, byteLen s.toList = 3 := by decide
  obtain ⟨s, hs, rfl⟩ := Option.map_eq_some_iff.1 h
  exact ⟨hall s (List.mem_of_getElem? hs), (List.getElem?_eq_some_iff.1 hs).1⟩

/-! ## Instants -/

theorem daysBeforeMonth_le (year : ℤ) {month : ℕ} (h : month ≤ 12) :
    Date.daysBeforeMonth year month ≤ 31 * 12 := by
  have hle (m : ℕ) : daysInMonth year m ≤ 31 := by
    unfold daysInMonth
    split
    · split_ifs <;> decide
    all_goals decide
  have hsum (k : ℕ) :
      ((List.range k).map fun m => daysInMonth year (m + 1)).sum ≤ 31 * k := by
    induction k with
    | zero => exact Nat.le_refl 0
    | succ k ih =>
      have := hle (k + 1)
      rw [List.range_succ, List.map_append, List.sum_append, List.map_singleton,
        List.sum_singleton]
      omega
  have := hsum (month - 1)
  unfold Date.daysBeforeMonth
  omega

theorem easternHours_mem (d : Date) : easternHours d = 4 ∨ easternHours d = 5 := by
  unfold easternHours
  split_ifs
  · exact Or.inl rfl
  · exact Or.inr rfl

/-- Every start of a two-digit year is an instant of the calendar. -/
theorem exists_start {date : Date} {hour minute : ℕ} (hyear : 2000 ≤ date.year)
    (hyear' : date.year < 2100) (hhour : hour ≤ 23) (hminute : minute ≤ 59) :
    ∃ ts : Timestamp, ts.nanos = startNanos date hour minute := by
  have hday := date.day_le
  have hmonth := daysBeforeMonth_le date.year date.month_le
  have hdays : -719163 ≤ date.days ∧ date.days ≤ 1000000 := by
    unfold Date.days
    dsimp only
    omega
  have hhours := easternHours_mem date
  have hrange : minUtcNanos ≤ startNanos date hour minute ∧
      startNanos date hour minute ≤ maxUtcNanos := by
    unfold minUtcNanos maxUtcNanos startNanos
    omega
  exact ⟨⟨_, hrange⟩, rfl⟩

/-! ## One segment -/

theorem date_of_fromYmd {year : ℤ} {month day : ℕ} {date : Date} {mon : List Char}
    (hmonth : MONTHS[month]?.map String.toList = some mon)
    (h : Date.fromYmd year (month + 1) day = some date) :
    date.year = year ∧ MONTHS[date.month - 1]?.map String.toList = some mon ∧ date.day = day := by
  obtain ⟨hy, hm, hd⟩ := Date.fromYmd_eq_some_iff.1 h
  rw [hm, Nat.add_sub_cancel]
  exact ⟨hy, hmonth, hd⟩

theorem twoDigits_le {cs : List Char} {n : ℕ} (h : TwoDigits cs n) : n < 100 := by
  obtain ⟨a, b, ha, hb, -, rfl⟩ := h
  have ha9 : a.toNat ≤ 57 := (Char.isDigit_iff_toNat.1 ha).2
  have hb9 : b.toNat ≤ 57 := (Char.isDigit_iff_toNat.1 hb).2
  omega

theorem readable_le {cs : List Char} {n : ℕ} (h : Readable cs n) : n < 100 := by
  rcases h with h | ⟨b, hb, -, rfl⟩
  · exact twoDigits_le h
  · have hb9 : b.toNat ≤ 57 := (Char.isDigit_iff_toNat.1 hb).2
    omega

/-- A segment is read as the start it encodes, a plus sign counting as a digit's place. -/
theorem parseSegment_eq_some_iff {seg : List Char} (hdash : '-' ∉ seg) {ts : Timestamp} :
    parseSegment seg = some ts ↔
      ∃ date hour minute, Encodes Readable seg date hour minute ∧
        ts.nanos = startNanos date hour minute := by
  constructor
  · intro h
    obtain ⟨yy, mon, dd, hh, mm, rest, year, month, day, hour, minute, date, rfl,
      ⟨hyy2, hmon3, hdd2, hhh2, hmm2⟩, hyear, hmonth, hday, hhour, hminute, hrest, htime, hdate,
      hts⟩ := parts_of_parseSegment h
    have hdash' : '-' ∉ yy := fun hmem => hdash (List.mem_append_left _ hmem)
    obtain ⟨n, hn, rfl⟩ := (parseSigned_iff hdash').1 hyear
    obtain ⟨hy, hm, hd⟩ := date_of_fromYmd (month_iff.1 hmonth) hdate
    subst hd
    refine ⟨date, hour, minute, .intro (parseUnsigned_iff.1 ⟨hyy2, hn⟩) hy hm
      (parseUnsigned_iff.1 ⟨hdd2, hday⟩) (parseUnsigned_iff.1 ⟨hhh2, hhour⟩)
      (parseUnsigned_iff.1 ⟨hmm2, hminute⟩) (by omega) ?_, ?_⟩
    · intro c hc hdigit
      rw [hc, Option.any_some, hdigit] at hrest
      cases hrest
    · rw [Timestamp.ofNanos_eq_some.1 hts, usEasternOffsetHours_eq]
      rfl
  · rintro ⟨date, hour, minute, henc, hts⟩
    obtain ⟨hyear, hy, hm, hday, hhour, hminute, htime, hrest⟩ := henc
    rename_i yy mon dd hh mm rest year
    obtain ⟨hyy2, hyear⟩ := parseUnsigned_iff.2 hyear
    obtain ⟨hdd2, hday⟩ := parseUnsigned_iff.2 hday
    obtain ⟨hhh2, hhour⟩ := parseUnsigned_iff.2 hhour
    obtain ⟨hmm2, hminute⟩ := parseUnsigned_iff.2 hminute
    have hdash' : '-' ∉ yy := fun hmem => hdash (List.mem_append_left _ hmem)
    have hmonth1 : date.month - 1 + 1 = date.month := Nat.sub_add_cancel date.valid.1.1
    have hparts : Parts (yy ++ (mon ++ (dd ++ (hh ++ (mm ++ rest))))) ts :=
      { yy, mon, dd, hh, mm, rest, year, month := date.month - 1, day := date.day, hour, minute
        date
        split := rfl
        sizes := ⟨hyy2, (byteLen_month hm).1, hdd2, hhh2, hmm2⟩
        hyear := (parseSigned_iff hdash').2 ⟨year, hyear, rfl⟩
        hmonth := month_iff.2 hm
        hday, hhour, hminute
        hrest := by
          cases hhead : rest.head? with
          | none => rfl
          | some c => exact Bool.eq_false_of_not_eq_true (hrest c hhead)
        htime := by omega
        hdate := Date.fromYmd_eq_some_iff.2 ⟨hy, hmonth1.symm, rfl⟩
        hts := by
          rw [Timestamp.ofNanos_eq_some, hts, usEasternOffsetHours_eq]
          rfl }
    exact hparts.parseSegment

theorem Encodes.exists_start {seg : List Char} {date : Date} {hour minute : ℕ}
    (h : Encodes Readable seg date hour minute) :
    ∃ ts : Timestamp, ts.nanos = startNanos date hour minute := by
  obtain ⟨hyear, hy, -, -, -, -, ⟨hhour, hminute⟩, -⟩ := h
  have hlt := readable_le hyear
  exact Snapevent.exists_start (by omega) (by omega) hhour hminute

theorem parseSegment_isSome_iff {seg : List Char} (hdash : '-' ∉ seg) :
    (parseSegment seg).isSome ↔ EncodesStart Readable seg := by
  rw [Option.isSome_iff_exists]
  constructor
  · rintro ⟨ts, hts⟩
    obtain ⟨date, hour, minute, henc, -⟩ := (parseSegment_eq_some_iff hdash).1 hts
    exact ⟨date, hour, minute, henc⟩
  · rintro ⟨date, hour, minute, henc⟩
    obtain ⟨ts, hts⟩ := henc.exists_start
    exact ⟨ts, (parseSegment_eq_some_iff hdash).2 ⟨date, hour, minute, henc, hts⟩⟩

/-! ## The ticker -/

theorem notMem_of_mem_splitOn {sep : Char} {cs seg : List Char} (h : seg ∈ cs.splitOn sep) :
    sep ∉ seg := by
  induction cs generalizing seg with
  | nil =>
    rw [List.splitOn_nil, List.mem_singleton] at h
    rw [h]
    exact List.not_mem_nil
  | cons c cs ih =>
    rw [List.splitOn_cons_eq_if_modifyHead] at h
    split_ifs at h with hsep
    · rcases List.mem_cons.1 h with rfl | h
      · exact List.not_mem_nil
      · exact ih h
    · cases hsplit : cs.splitOn sep with
      | nil => exact absurd hsplit (List.splitOn_ne_nil sep cs)
      | cons first rest =>
        rw [hsplit, List.modifyHead_cons] at h
        rcases List.mem_cons.1 h with rfl | h
        · have hfirst := ih (hsplit ▸ List.mem_cons_self)
          intro hmem
          rcases List.mem_cons.1 hmem with rfl | hmem
          · exact hsep (beq_self_eq_true _)
          · exact hfirst hmem
        · exact ih (hsplit ▸ List.mem_cons_of_mem _ h)

theorem notMem_segment {eventTicker : String} {seg : List Char}
    (h : seg ∈ segmentsOf eventTicker) : '-' ∉ seg :=
  notMem_of_mem_splitOn (List.mem_of_mem_tail h)

theorem Encodes.mono {number number' : List Char → ℕ → Prop}
    (hle : ∀ cs n, number cs n → number' cs n) {seg : List Char} {date : Date} {hour minute : ℕ}
    (h : Encodes number seg date hour minute) : Encodes number' seg date hour minute := by
  obtain ⟨hyear, hy, hm, hday, hhour, hminute, htime, hrest⟩ := h
  exact .intro (hle _ _ hyear) hy hm (hle _ _ hday) (hle _ _ hhour) (hle _ _ hminute) htime hrest

theorem Encodes.readable {seg : List Char} {date : Date} {hour minute : ℕ}
    (h : Encodes TwoDigits seg date hour minute) : Encodes Readable seg date hour minute :=
  h.mono fun _ _ => Or.inl

theorem EncodesStart.readable {seg : List Char} (h : EncodesStart TwoDigits seg) :
    EncodesStart Readable seg := by
  obtain ⟨date, hour, minute, henc⟩ := h
  exact ⟨date, hour, minute, henc.readable⟩

/-- What the source reads is the first start, a plus sign counting as a digit's place. -/
theorem isFirstStart_readable {segs : List (List Char)} (hdash : ∀ seg ∈ segs, '-' ∉ seg) :
    IsFirstStart Readable segs (segs.findSome? parseSegment) := by
  cases hfind : segs.findSome? parseSegment with
  | none =>
    intro seg hseg henc
    have hnone := List.findSome?_eq_none_iff.1 hfind seg hseg
    have hsome := (parseSegment_isSome_iff (hdash seg hseg)).2 henc
    rw [hnone] at hsome
    cases hsome
  | some ts =>
    obtain ⟨pre, seg, post, rfl, hseg, hpre⟩ := List.findSome?_eq_some_iff.1 hfind
    have hmem : seg ∈ pre ++ seg :: post := List.mem_append_right _ List.mem_cons_self
    obtain ⟨date, hour, minute, henc, hts⟩ :=
      (parseSegment_eq_some_iff (hdash seg hmem)).1 hseg
    refine ⟨pre, seg, post, date, hour, minute, rfl, fun s hs hstart => ?_, henc, hts⟩
    have hsome := (parseSegment_isSome_iff
      (hdash s (List.mem_append_left _ hs))).2 hstart
    rw [hpre s hs] at hsome
    cases hsome

/-- A start is the one the source reads as soon as nothing readable comes before it. -/
theorem findSome?_of_first {pre post : List (List Char)} {seg : List Char}
    (hdash : ∀ s ∈ pre ++ seg :: post, '-' ∉ s) {date : Date} {hour minute : ℕ}
    (hpre : ∀ s ∈ pre, ¬ EncodesStart Readable s) (henc : Encodes Readable seg date hour minute) :
    ∃ ts : Timestamp, (pre ++ seg :: post).findSome? parseSegment = some ts ∧
      parseSegment seg = some ts ∧ ts.nanos = startNanos date hour minute := by
  have hseg := hdash seg (List.mem_append_right _ List.mem_cons_self)
  obtain ⟨ts, hts⟩ := Option.isSome_iff_exists.1
    ((parseSegment_isSome_iff hseg).2 ⟨date, hour, minute, henc⟩)
  have hnone : pre.findSome? parseSegment = none := by
    rw [List.findSome?_eq_none_iff]
    intro s hs
    rw [← Option.not_isSome_iff_eq_none,
      parseSegment_isSome_iff (hdash s (List.mem_append_left _ hs))]
    exact hpre s hs
  refine ⟨ts, ?_, hts, ?_⟩
  · rw [List.findSome?_append, hnone, List.findSome?_cons, hts]
    rfl
  · obtain ⟨ts', hnanos⟩ := henc.exists_start
    have hread := (parseSegment_eq_some_iff hseg).2 ⟨date, hour, minute, henc, hnanos⟩
    rw [hts, Option.some.injEq] at hread
    rw [hread, hnanos]

/-- The first readable segment has no plus sign, or the first plain one encodes the same start. -/
def PlainFirst (segs : List (List Char)) : Prop :=
  ∀ pre seg post date hour minute, segs = pre ++ seg :: post →
    (∀ s ∈ pre, ¬ EncodesStart Readable s) → Encodes Readable seg date hour minute →
    EncodesStart TwoDigits seg ∨
      ∃ ts : Timestamp, ts.nanos = startNanos date hour minute ∧
        IsFirstStart TwoDigits segs (some ts)

/-- For every ticker the source reads the start that its first segment of plain digits encodes, and
none without such a segment, if and only if no segment with a plus sign gets in first. -/
theorem event_start_exact_iff (eventTicker : String) :
    IsFirstStart TwoDigits (segmentsOf eventTicker) (parseEventStart eventTicker) ↔
      PlainFirst (segmentsOf eventTicker) := by
  have hdash : ∀ seg ∈ segmentsOf eventTicker, '-' ∉ seg := fun _ => notMem_segment
  have hfirst := isFirstStart_readable hdash
  unfold parseEventStart
  generalize segmentsOf eventTicker = segs at *
  constructor
  · rintro h pre seg post date hour minute rfl hpre henc
    obtain ⟨ts, hfind, -, hts⟩ := findSome?_of_first hdash hpre henc
    rw [hfind] at h
    exact Or.inr ⟨ts, hts, h⟩
  · intro h
    cases hfind : segs.findSome? parseSegment with
    | none =>
      rw [hfind] at hfirst
      exact fun seg hseg hstart => hfirst seg hseg hstart.readable
    | some ts =>
      rw [hfind] at hfirst
      obtain ⟨pre, seg, post, date, hour, minute, rfl, hpre, henc, hts⟩ := hfirst
      rcases h pre seg post date hour minute rfl hpre henc with
        ⟨date', hour', minute', henc'⟩ | ⟨ts', hts', hplain⟩
      · obtain ⟨ts', hfind', -, hts'⟩ := findSome?_of_first hdash hpre henc'.readable
        rw [hfind, Option.some.injEq] at hfind'
        rw [hfind']
        exact ⟨pre, seg, post, date', hour', minute', rfl,
          fun s hs hstart => hpre s hs hstart.readable, henc', hts'⟩
      · rw [Timestamp.ext (hts.trans hts'.symm)]
        exact hplain

/-- A year with a plus sign is read, though the ticker has no segment of plain digits. -/
theorem plus_sign_read : (parseEventStart "KXT-+6JUN121330").map (·.nanos) =
      some (1150133400 * 10 ^ 9) ∧
    ¬ IsFirstStart TwoDigits (segmentsOf "KXT-+6JUN121330")
      (parseEventStart "KXT-+6JUN121330") := by
  have hread : (parseEventStart "KXT-+6JUN121330").map (·.nanos) =
      some (1150133400 * 10 ^ 9) := by decide
  have hsegs : segmentsOf "KXT-+6JUN121330" = ["+6JUN121330".toList] := by decide
  have hplain : ¬ EncodesStart TwoDigits "+6JUN121330".toList := by
    rintro ⟨date, hour, minute, henc⟩
    generalize hseg : "+6JUN121330".toList = seg at henc
    obtain ⟨⟨a, b, ha, -, rfl, -⟩, -, -, -, -, -, -, -⟩ := henc
    have hplus : '+' = a := (List.cons_eq_cons.1 hseg).1
    rw [← hplus] at ha
    exact absurd ha (by decide)
  refine ⟨hread, ?_⟩
  obtain ⟨ts, hts, -⟩ := Option.map_eq_some_iff.1 hread
  rw [hts, hsegs]
  rintro ⟨pre, seg, post, date, hour, minute, hsplit, -, henc, -⟩
  have hmem : seg ∈ ["+6JUN121330".toList] := hsplit ▸ List.mem_append_right _ List.mem_cons_self
  rw [List.mem_singleton.1 hmem] at henc
  exact hplain ⟨date, hour, minute, henc⟩

end Snapevent
