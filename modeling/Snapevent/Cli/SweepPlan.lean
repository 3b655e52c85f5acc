import Snapevent.Cli.TimeDelta
import Snapevent.Cli.Universe

/-!
# Planning a sweep is a partition

The plan of a sweep written down without its loop: of the cohorts that are neither in flight nor
captured, those the gate admits are armed while the budget lasts and capped after it, and the
others are deferred or skipped.  The loop makes this plan, unless an instant its gate needs is out
of the calendar.
-/

namespace Snapevent

/-! ## The loop -/

/-- The admission gate; `none` when the subtraction it makes leaves the calendar. -/
def gateChecked (gate : GateCfg) (cohort : Cohort) : Option Gated :=
  match cohort.inferredStart with
  | some start => do
    let armAt ← start.minus gate.armLead
    return if gate.now.nanos < armAt.nanos then .defer else .admitted false
  | none =>
    match cadence cohort.openTime cohort.closeTime with
    | .daily | .weekly =>
      if gate.clashSub then
        match cohort.closeTime with
        | some c => do
          let expiry ← c.minus (70 * MINUTE)
          return if expiry.nanos ≤ gate.now.nanos then .admitted false else .defer
        | none => some (.admitted false)
      else some .skip
    | .long => some .skip
    | cad =>
      match cohort.openTime with
      | some o => do
        let armAt ← o.minus gate.armLead
        return if gate.now.nanos < armAt.nanos then .defer
          else .admitted (cad = .other && gate.hasBound)
      | none => some (.admitted (cad = .other && gate.hasBound))

/-- File an event under what the gate says of it. -/
def Planning.settle (p : Planning) (event : String) (cohort : Cohort) : Gated → Planning
  | .defer => { p with plan := { p.plan with deferred := p.plan.deferred ++ [event] } }
  | .skip => { p with plan := { p.plan with skipped := p.plan.skipped ++ [event] } }
  | .admitted noStart =>
    let plan := if noStart then { p.plan with noStart := p.plan.noStart ++ [event] } else p.plan
    if p.budget = 0 then { p with plan := { plan with capped := plan.capped ++ [event] } }
    else { budget := p.budget - 1, plan := { plan with arm := plan.arm ++ [(event, cohort)] } }

section Sweep

variable (gate : GateCfg) (inFlight : List String) (captured : String → Bool)

/-- Plan one cohort. -/
def planCohort (p : Planning) (e : String × Cohort) : Option Planning :=
  if e.1 ∈ inFlight then some p
  else if captured e.1 then some p
  else do return p.settle e.1 e.2 (← gateChecked gate e.2)

/-- Decide which of the discovered cohorts to arm. -/
def planArms (maxUnits : ℕ) (groups : List (String × Cohort)) : Option ArmPlan :=
  (groups.foldlM (planCohort gate inFlight captured) (.start maxUnits inFlight)).map (·.plan)

/-! ## The plan without the loop -/

/-- The cohorts that are neither in flight nor captured. -/
def candidates (groups : List (String × Cohort)) : List (String × Cohort) :=
  groups.filter fun e => e.1 ∉ inFlight ∧ captured e.1 = false

/-- The gate admits the cohort. -/
def Admits (cohort : Cohort) : Prop := ∃ noStart, gateCohort gate cohort = .admitted noStart

instance (cohort : Cohort) : Decidable (Admits gate cohort) :=
  decidable_of_iff (gateCohort gate cohort ≠ .defer ∧ gateCohort gate cohort ≠ .skip) (by
    unfold Admits
    cases gateCohort gate cohort <;> simp)

/-- The candidates the gate admits, in event order. -/
def admitted (groups : List (String × Cohort)) : List (String × Cohort) :=
  (candidates inFlight captured groups).filter fun e => Admits gate e.2

/-- The candidates of which the gate says `g`. -/
def gatedAs (g : Gated) (groups : List (String × Cohort)) : List String :=
  ((candidates inFlight captured groups).filter fun e => gateCohort gate e.2 = g).map (·.1)

/-- The plan of a sweep with a budget. -/
def planned (budget : ℕ) (groups : List (String × Cohort)) : ArmPlan where
  arm := (admitted gate inFlight captured groups).take budget
  capped := ((admitted gate inFlight captured groups).drop budget).map (·.1)
  deferred := gatedAs gate inFlight captured .defer groups
  skipped := gatedAs gate inFlight captured .skip groups
  noStart := gatedAs gate inFlight captured (.admitted true) groups

end Sweep

/-- One plan after another. -/
def ArmPlan.append (a b : ArmPlan) : ArmPlan where
  arm := a.arm ++ b.arm
  capped := a.capped ++ b.capped
  deferred := a.deferred ++ b.deferred
  skipped := a.skipped ++ b.skipped
  noStart := a.noStart ++ b.noStart

/-! ## The loop makes the plan -/

theorem minus_eq_some {t s : Timestamp} {d : ℤ} : t.minus d = some s ↔ s.nanos = t.nanos - d :=
  Timestamp.ofNanos_eq_some

theorem minus_bind_eq_some {t : Timestamp} {d : ℤ} {f : Timestamp → Gated} {g : Gated}
    (h : (do return f (← t.minus d)) = some g) :
    ∃ s : Timestamp, s.nanos = t.nanos - d ∧ f s = g := by
  obtain ⟨s, hs, h⟩ := Option.bind_eq_some_iff.1 h
  exact ⟨s, minus_eq_some.1 hs, Option.some.inj h⟩

theorem gateChecked_ok {gate : GateCfg} {cohort : Cohort} {g : Gated}
    (h : gateChecked gate cohort = some g) : gateCohort gate cohort = g := by
  unfold gateChecked at h
  unfold gateCohort
  cases hs : cohort.inferredStart with
  | some start =>
    rw [hs] at h
    obtain ⟨t, ht, rfl⟩ := minus_bind_eq_some h
    rw [ht]
  | none =>
    rw [hs] at h
    dsimp only at h ⊢
    cases hc : cadence cohort.openTime cohort.closeTime with
    | long =>
      rw [hc] at h
      exact Option.some.inj h
    | daily | weekly =>
      rw [hc] at h
      dsimp only at h ⊢
      split_ifs at h ⊢
      · cases hclose : cohort.closeTime with
        | none =>
          rw [hclose] at h
          exact Option.some.inj h
        | some c =>
          rw [hclose] at h
          obtain ⟨t, ht, rfl⟩ := minus_bind_eq_some h
          rw [ht]
      · exact Option.some.inj h
    | hourly | other =>
      rw [hc] at h
      dsimp only at h ⊢
      cases hopen : cohort.openTime with
      | none =>
        rw [hopen] at h
        exact Option.some.inj h
      | some o =>
        rw [hopen] at h
        obtain ⟨t, ht, rfl⟩ := minus_bind_eq_some h
        rw [ht]

section Loop

variable {gate : GateCfg} {inFlight : List String} {captured : String → Bool}

theorem candidates_cons (e : String × Cohort) (groups : List (String × Cohort)) :
    candidates inFlight captured (e :: groups) =
      if e.1 ∉ inFlight ∧ captured e.1 = false then e :: candidates inFlight captured groups
      else candidates inFlight captured groups := by
  rw [candidates, List.filter_cons]
  simp only [decide_eq_true_eq]
  rfl

/-- A cohort that is left out does not change the plan. -/
theorem planned_of_not_candidate {e : String × Cohort}
    (h : ¬ (e.1 ∉ inFlight ∧ captured e.1 = false)) (budget : ℕ)
    (groups : List (String × Cohort)) :
    planned gate inFlight captured budget (e :: groups) =
      planned gate inFlight captured budget groups := by
  have hsame : candidates inFlight captured (e :: groups) =
      candidates inFlight captured groups := by
    rw [candidates_cons, if_neg h]
  simp only [planned, admitted, gatedAs, hsame]

theorem admitted_cons {e : String × Cohort} (h : e.1 ∉ inFlight ∧ captured e.1 = false)
    (groups : List (String × Cohort)) : admitted gate inFlight captured (e :: groups) =
      if Admits gate e.2 then e :: admitted gate inFlight captured groups
      else admitted gate inFlight captured groups := by
  rw [admitted, candidates_cons, if_pos h, List.filter_cons]
  simp only [decide_eq_true_eq]
  rfl

theorem gatedAs_cons {e : String × Cohort} (h : e.1 ∉ inFlight ∧ captured e.1 = false) (g : Gated)
    (groups : List (String × Cohort)) : gatedAs gate inFlight captured g (e :: groups) =
      if gateCohort gate e.2 = g then e.1 :: gatedAs gate inFlight captured g groups
      else gatedAs gate inFlight captured g groups := by
  rw [gatedAs, candidates_cons, if_pos h, List.filter_cons]
  simp only [decide_eq_true_eq]
  split_ifs <;> rfl

/-- Filing a candidate and planning the rest with what is left of the budget is planning both. -/
theorem settle_planned {e : String × Cohort} (h : e.1 ∉ inFlight ∧ captured e.1 = false)
    (p : Planning) (groups : List (String × Cohort)) :
    (p.settle e.1 e.2 (gateCohort gate e.2)).plan.append
      (planned gate inFlight captured (p.settle e.1 e.2 (gateCohort gate e.2)).budget groups) =
        p.plan.append (planned gate inFlight captured p.budget (e :: groups)) := by
  unfold planned ArmPlan.append
  rw [admitted_cons h, gatedAs_cons h, gatedAs_cons h, gatedAs_cons h]
  cases hgate : gateCohort gate e.2 with
  | defer =>
    have hno : ¬ Admits gate e.2 := by simp [Admits, hgate]
    simp [Planning.settle, hno]
  | skip =>
    have hno : ¬ Admits gate e.2 := by simp [Admits, hgate]
    simp [Planning.settle, hno]
  | admitted noStart =>
    have hyes : Admits gate e.2 := ⟨noStart, hgate⟩
    rw [if_pos hyes]
    cases hb : p.budget with
    | zero => cases noStart <;> simp [Planning.settle, hb]
    | succ n => cases noStart <;> simp [Planning.settle, hb]

/-- The gates of all candidates stay in the calendar. -/
def GatesInCalendar (gate : GateCfg) (inFlight : List String) (captured : String → Bool)
    (groups : List (String × Cohort)) : Prop :=
  ∀ e ∈ candidates inFlight captured groups, (gateChecked gate e.2).isSome

theorem planCohort_of_not_candidate {e : String × Cohort}
    (h : ¬ (e.1 ∉ inFlight ∧ captured e.1 = false)) (p : Planning) :
    planCohort gate inFlight captured p e = some p := by
  unfold planCohort
  split_ifs with hin hcap
  · rfl
  · rfl
  · exact absurd ⟨hin, Bool.eq_false_of_not_eq_true hcap⟩ h

theorem planCohort_of_candidate {e : String × Cohort}
    (h : e.1 ∉ inFlight ∧ captured e.1 = false) (p : Planning) :
    planCohort gate inFlight captured p e =
      (gateChecked gate e.2).map fun _ => p.settle e.1 e.2 (gateCohort gate e.2) := by
  unfold planCohort
  rw [if_neg h.1, if_neg (by simp [h.2])]
  cases hg : gateChecked gate e.2 with
  | none => rfl
  | some g =>
    rw [gateChecked_ok hg]
    rfl

/-- The loop goes through exactly when the gates stay in the calendar, and makes the plan. -/
theorem foldlM_planCohort (p : Planning) (groups : List (String × Cohort)) (plan : ArmPlan) :
    (groups.foldlM (planCohort gate inFlight captured) p).map (·.plan) = some plan ↔
      GatesInCalendar gate inFlight captured groups ∧
        plan = p.plan.append (planned gate inFlight captured p.budget groups) := by
  induction groups generalizing p with
  | nil =>
    have hnil : p.plan.append (planned gate inFlight captured p.budget []) = p.plan := by
      simp [planned, admitted, gatedAs, candidates, ArmPlan.append]
    have hcalendar : GatesInCalendar gate inFlight captured [] := fun e he => nomatch he
    rw [hnil, List.foldlM_nil, and_iff_right hcalendar, eq_comm]
    exact Option.some_inj
  | cons e groups ih =>
    rw [List.foldlM_cons]
    by_cases h : e.1 ∉ inFlight ∧ captured e.1 = false
    · have hcalendar : GatesInCalendar gate inFlight captured (e :: groups) ↔
          (gateChecked gate e.2).isSome ∧ GatesInCalendar gate inFlight captured groups := by
        rw [GatesInCalendar, candidates_cons, if_pos h, List.forall_mem_cons]
        rfl
      rw [planCohort_of_candidate h, hcalendar, ← settle_planned h]
      cases hg : gateChecked gate e.2 with
      | none => simp
      | some g =>
        rw [Option.map_some, Option.bind_eq_bind, Option.bind_some, ih]
        simp
    · have hcalendar : GatesInCalendar gate inFlight captured (e :: groups) ↔
          GatesInCalendar gate inFlight captured groups := by
        rw [GatesInCalendar, candidates_cons, if_neg h]
        rfl
      rw [planCohort_of_not_candidate h, hcalendar, planned_of_not_candidate h,
        Option.bind_eq_bind, Option.bind_some, ih]

/-- What `planArms` computes. -/
theorem planArms_eq_some {maxUnits : ℕ} {groups : List (String × Cohort)} {plan : ArmPlan} :
    planArms gate inFlight captured maxUnits groups = some plan ↔
      GatesInCalendar gate inFlight captured groups ∧
        plan = planned gate inFlight captured (maxUnits - inFlight.dedup.length) groups := by
  rw [planArms, foldlM_planCohort]
  simp [Planning.start, ArmPlan.default, ArmPlan.append]

end Loop

/-! ## The partition -/

/-- The events a plan decides on. -/
def ArmPlan.events (plan : ArmPlan) : List String :=
  plan.arm.map (·.1) ++ plan.capped ++ (plan.deferred ++ plan.skipped)

/-- The plan partitions the cohorts that are neither in flight nor captured, arms at most what the
budget leaves, and caps nothing before the budget is used up. -/
structure Partitions (gate : GateCfg) (inFlight : List String) (captured : String → Bool)
    (maxUnits : ℕ) (groups : List (String × Cohort)) (plan : ArmPlan) : Prop where
  once : plan.events.Nodup
  events : ∀ event, event ∈ plan.events ↔
    event ∈ groups.map (·.1) ∧ event ∉ inFlight ∧ captured event = false
  cohorts : plan.arm ⊆ groups
  within : plan.arm.length ≤ maxUnits - inFlight.dedup.length
  full : plan.capped ≠ [] → plan.arm.length = maxUnits - inFlight.dedup.length
  order : ∀ a ∈ plan.arm, ∀ event ∈ plan.capped, a.1 < event
  free : planArms gate inFlight captured maxUnits
      (groups.filter fun e => e.1 ∉ plan.deferred ∧ e.1 ∉ plan.skipped) =
    some { plan with deferred := [], skipped := [] }
  noStartOnce : plan.noStart.Nodup
  noStart : ∀ event, event ∈ plan.noStart ↔ gate.hasBound = true ∧ ∃ cohort,
    (event, cohort) ∈ groups ∧ cohort.inferredStart = none ∧
      cadence cohort.openTime cohort.closeTime = .other ∧
      (event ∈ plan.arm.map (·.1) ∨ event ∈ plan.capped)

/-- The gate warns of exactly the cohorts of a bounded run that it admits without a start and
without a known cadence. -/
theorem gateCohort_noStart {gate : GateCfg} {cohort : Cohort} :
    gateCohort gate cohort = .admitted true ↔ Admits gate cohort ∧ gate.hasBound = true ∧
      cohort.inferredStart = none ∧ cadence cohort.openTime cohort.closeTime = .other := by
  unfold Admits gateCohort
  cases cohort.inferredStart with
  | some start =>
    dsimp only
    split_ifs <;> simp
  | none =>
    cases cadence cohort.openTime cohort.closeTime with
    | long => simp
    | daily | weekly =>
      dsimp only
      split_ifs
      · cases cohort.closeTime with
        | none => simp
        | some c =>
          dsimp only
          split_ifs <;> simp
      · simp
    | hourly | other =>
      cases cohort.openTime with
      | none => simp
      | some o =>
        dsimp only
        split_ifs <;> simp

section Planned

variable {gate : GateCfg} {inFlight : List String} {captured : String → Bool}
  {groups : List (String × Cohort)}

theorem candidates_sublist : (candidates inFlight captured groups).Sublist groups :=
  List.filter_sublist

theorem admitted_sublist : (admitted gate inFlight captured groups).Sublist groups :=
  List.filter_sublist.trans candidates_sublist

theorem mem_candidates {e : String × Cohort} : e ∈ candidates inFlight captured groups ↔
    e ∈ groups ∧ e.1 ∉ inFlight ∧ captured e.1 = false := by
  rw [candidates, List.mem_filter, decide_eq_true_eq]

theorem mem_admitted {e : String × Cohort} : e ∈ admitted gate inFlight captured groups ↔
    e ∈ candidates inFlight captured groups ∧ Admits gate e.2 := by
  rw [admitted, List.mem_filter, decide_eq_true_eq]

theorem mem_gatedAs {g : Gated} {event : String} :
    event ∈ gatedAs gate inFlight captured g groups ↔
      ∃ cohort, (event, cohort) ∈ candidates inFlight captured groups ∧
        gateCohort gate cohort = g := by
  unfold gatedAs
  constructor
  · intro h
    obtain ⟨⟨event', cohort⟩, he, rfl⟩ := List.mem_map.1 h
    obtain ⟨hmem, hg⟩ := List.mem_filter.1 he
    exact ⟨cohort, hmem, of_decide_eq_true hg⟩
  · rintro ⟨cohort, hmem, hg⟩
    exact List.mem_map.2 ⟨(event, cohort), List.mem_filter.2 ⟨hmem, decide_eq_true hg⟩, rfl⟩

/-- Every candidate is admitted, deferred or skipped. -/
theorem candidates_perm : (candidates inFlight captured groups).map (·.1) |>.Perm
    ((admitted gate inFlight captured groups).map (·.1) ++
      (gatedAs gate inFlight captured .defer groups ++
        gatedAs gate inFlight captured .skip groups)) := by
  unfold admitted gatedAs
  generalize candidates inFlight captured groups = C
  induction C with
  | nil => exact .refl _
  | cons e C ih =>
    cases hg : gateCohort gate e.2 with
    | defer =>
      have hno : ¬ Admits gate e.2 := by simp [Admits, hg]
      simpa [hno, hg] using (ih.cons e.1).trans List.perm_middle.symm
    | skip =>
      have hno : ¬ Admits gate e.2 := by simp [Admits, hg]
      rw [← List.append_assoc] at ih
      simpa [hno, hg] using (ih.cons e.1).trans List.perm_middle.symm
    | admitted noStart =>
      have hyes : Admits gate e.2 := ⟨noStart, hg⟩
      simpa [hyes, hg] using ih.cons e.1

theorem events_planned (budget : ℕ) : (planned gate inFlight captured budget groups).events.Perm
    ((candidates inFlight captured groups).map (·.1)) := by
  have harmed : (planned gate inFlight captured budget groups).arm.map (·.1) ++
      (planned gate inFlight captured budget groups).capped =
        (admitted gate inFlight captured groups).map (·.1) := by
    unfold planned
    rw [← List.map_append, List.take_append_drop]
  rw [ArmPlan.events, harmed]
  exact candidates_perm.symm

variable (hsorted : SortedMap.Sorted groups)
include hsorted

/-- An event has one cohort. -/
theorem cohort_unique {event : String} {a b : Cohort} (ha : (event, a) ∈ groups)
    (hb : (event, b) ∈ groups) : a = b := by
  have h := List.inj_on_of_nodup_map hsorted.nodup_keys ha hb rfl
  exact congrArg Prod.snd h

/-- What the gate says of an event is what it says of its cohort. -/
theorem gate_of_mem_gatedAs {g : Gated} {e : String × Cohort} (he : e ∈ groups)
    (h : e.1 ∈ gatedAs gate inFlight captured g groups) : gateCohort gate e.2 = g := by
  obtain ⟨cohort, hmem, hg⟩ := mem_gatedAs.1 h
  rw [cohort_unique hsorted he (mem_candidates.1 hmem).1]
  exact hg

/-- Without the deferred and the skipped cohorts the plan is the same but for them. -/
theorem planned_kept (budget : ℕ) : planned gate inFlight captured budget
    (groups.filter fun e => e.1 ∉ gatedAs gate inFlight captured .defer groups ∧
      e.1 ∉ gatedAs gate inFlight captured .skip groups) =
    { planned gate inFlight captured budget groups with deferred := [], skipped := [] } := by
  generalize hkept : (groups.filter fun e => e.1 ∉ gatedAs gate inFlight captured .defer groups ∧
    e.1 ∉ gatedAs gate inFlight captured .skip groups) = kept
  have hmem {e : String × Cohort} : e ∈ kept ↔ e ∈ groups ∧
      e.1 ∉ gatedAs gate inFlight captured .defer groups ∧
      e.1 ∉ gatedAs gate inFlight captured .skip groups := by
    rw [← hkept, List.mem_filter, decide_eq_true_eq]
  have hcandidates : candidates inFlight captured kept =
      (candidates inFlight captured groups).filter fun e =>
        e.1 ∉ gatedAs gate inFlight captured .defer groups ∧
          e.1 ∉ gatedAs gate inFlight captured .skip groups := by
    rw [← hkept, candidates, candidates, List.filter_filter, List.filter_filter]
    exact List.filter_congr fun e _ => Bool.and_comm _ _
  -- the cohorts that are left out are not admitted
  have hsame {p : String × Cohort → Prop} [DecidablePred p]
      (hp : ∀ e, p e → Admits gate e.2) :
      (candidates inFlight captured kept).filter (fun e => p e) =
        (candidates inFlight captured groups).filter fun e => p e := by
    rw [hcandidates, List.filter_filter]
    apply List.filter_congr
    intro e he
    have hgroups := (mem_candidates.1 he).1
    by_cases hpe : p e
    · obtain ⟨noStart, hg⟩ := hp e hpe
      have hdefer : e.1 ∉ gatedAs gate inFlight captured .defer groups := by
        intro h
        rw [gate_of_mem_gatedAs hsorted hgroups h] at hg
        cases hg
      have hskip : e.1 ∉ gatedAs gate inFlight captured .skip groups := by
        intro h
        rw [gate_of_mem_gatedAs hsorted hgroups h] at hg
        cases hg
      simp [hpe, hdefer, hskip]
    · simp [hpe]
  have hnone {g : Gated} (hg : g = .defer ∨ g = .skip) :
      gatedAs gate inFlight captured g kept = [] := by
    rw [List.eq_nil_iff_forall_not_mem]
    intro event h
    obtain ⟨cohort, hc, hgate⟩ := mem_gatedAs.1 h
    obtain ⟨hk, hcand⟩ := mem_candidates.1 hc
    obtain ⟨hgroups, hdefer, hskip⟩ := hmem.1 hk
    have hold : event ∈ gatedAs gate inFlight captured g groups :=
      mem_gatedAs.2 ⟨cohort, mem_candidates.2 ⟨hgroups, hcand⟩, hgate⟩
    rcases hg with rfl | rfl
    · exact hdefer hold
    · exact hskip hold
  have hadmitted : admitted gate inFlight captured kept = admitted gate inFlight captured groups :=
    hsame fun e he => he
  have hnoStart : gatedAs gate inFlight captured (.admitted true) kept =
      gatedAs gate inFlight captured (.admitted true) groups := by
    unfold gatedAs
    rw [hsame fun e he => ⟨true, he⟩]
  unfold planned
  rw [hadmitted, hnoStart, hnone (Or.inl rfl), hnone (Or.inr rfl)]

theorem partitions_planned (maxUnits : ℕ)
    (hcalendar : GatesInCalendar gate inFlight captured groups) :
    Partitions gate inFlight captured maxUnits groups
      (planned gate inFlight captured (maxUnits - inFlight.dedup.length) groups) := by
  generalize hbudget : maxUnits - inFlight.dedup.length = budget
  have hperm : (planned gate inFlight captured budget groups).events.Perm
      ((candidates inFlight captured groups).map (·.1)) := events_planned budget
  have hkeys : ((candidates inFlight captured groups).map (·.1)).Nodup :=
    hsorted.nodup_keys.sublist (candidates_sublist.map _)
  have hsplit := List.take_append_drop budget (admitted gate inFlight captured groups)
  have hlength := (admitted gate inFlight captured groups).length_take (i := budget)
  constructor
  case once => exact hperm.nodup_iff.2 hkeys
  case events =>
    intro event
    rw [hperm.mem_iff, List.mem_map]
    constructor
    · rintro ⟨e, he, rfl⟩
      obtain ⟨hmem, hcand⟩ := mem_candidates.1 he
      exact ⟨List.mem_map_of_mem hmem, hcand⟩
    · rintro ⟨hmem, hcand⟩
      obtain ⟨e, he, rfl⟩ := List.mem_map.1 hmem
      exact ⟨e, mem_candidates.2 ⟨he, hcand⟩, rfl⟩
  case cohorts => exact ((List.take_sublist _ _).trans admitted_sublist).subset
  case within =>
    rw [hbudget]
    exact hlength.trans_le (Nat.min_le_left _ _)
  case full =>
    intro hcapped
    rw [hbudget]
    refine hlength.trans (Nat.min_eq_left (Nat.le_of_not_lt fun hlt => hcapped ?_))
    exact List.map_eq_nil_iff.2 (List.drop_eq_nil_of_le hlt.le)
  case order =>
    intro a ha event hevent
    obtain ⟨e, he, rfl⟩ := List.mem_map.1 hevent
    have hpairs : (admitted gate inFlight captured groups).Pairwise fun x y => x.1 < y.1 :=
      List.Pairwise.sublist admitted_sublist hsorted
    rw [← hsplit] at hpairs
    exact (List.pairwise_append.1 hpairs).2.2 a ha e he
  case free =>
    rw [planArms_eq_some, hbudget]
    refine ⟨?_, (planned_kept hsorted budget).symm⟩
    intro e he
    obtain ⟨hmem, hcand⟩ := mem_candidates.1 he
    exact hcalendar e (mem_candidates.2 ⟨(List.mem_filter.1 hmem).1, hcand⟩)
  case noStartOnce => exact hkeys.sublist (List.filter_sublist.map _)
  case noStart =>
    intro event
    have hdecided : event ∈ (planned gate inFlight captured budget groups).arm.map (·.1) ∨
        event ∈ (planned gate inFlight captured budget groups).capped ↔
          ∃ cohort, (event, cohort) ∈ admitted gate inFlight captured groups := by
      rw [← List.mem_append, planned, ← List.map_append, hsplit, List.mem_map]
      constructor
      · rintro ⟨e, he, rfl⟩
        exact ⟨e.2, he⟩
      · rintro ⟨cohort, hc⟩
        exact ⟨_, hc, rfl⟩
    rw [hdecided]
    have hmem : event ∈ (planned gate inFlight captured budget groups).noStart ↔ _ := mem_gatedAs
    rw [hmem]
    constructor
    · rintro ⟨cohort, hc, hgate⟩
      obtain ⟨hadmits, hbound, hstart, hcadence⟩ := gateCohort_noStart.1 hgate
      exact ⟨hbound, cohort, (mem_candidates.1 hc).1, hstart, hcadence, cohort,
        mem_admitted.2 ⟨hc, hadmits⟩⟩
    · rintro ⟨hbound, cohort, hc, hstart, hcadence, cohort', hadmitted⟩
      obtain ⟨hcand, hadmits⟩ := mem_admitted.1 hadmitted
      cases cohort_unique hsorted hc (mem_candidates.1 hcand).1
      exact ⟨cohort, hcand, gateCohort_noStart.2 ⟨hadmits, hbound, hstart, hcadence⟩⟩

end Planned

/-! ## The tickers of the cohorts -/

/-- The market is the first listing of its ticker. -/
def IsFirstListing (markets : List Market) (m : Market) : Prop :=
  markets.find? (fun m' => m'.ticker = m.ticker) = some m

/-- A market that goes to the cohort of an event. -/
def Market.GoesTo (m : Market) (event : String) : Prop :=
  isTerminal m.status = false ∧ eventOf m = some event

/-- Each ticker is in one cohort at most and there once, and it is in the cohort of an event exactly
when its first listing goes there. -/
structure TickersOnce (markets : List Market) (groups : List (String × Cohort)) : Prop where
  once : (groups.flatMap fun e => e.2.tickers).Nodup
  cohort : ∀ event ticker, (∃ cohort, (event, cohort) ∈ groups ∧ ticker ∈ cohort.tickers) ↔
    ∃ m, IsFirstListing markets m ∧ m.GoesTo event ∧ m.ticker = ticker

theorem mem_dedupByTicker {seen : List String} {markets : List Market} {m : Market} :
    m ∈ dedupByTicker seen markets ↔ m.ticker ∉ seen ∧ IsFirstListing markets m := by
  unfold IsFirstListing
  induction markets generalizing seen with
  | nil => simp [dedupByTicker]
  | cons m' markets ih =>
    rw [dedupByTicker, List.find?_cons]
    by_cases hticker : m'.ticker = m.ticker
    · simp only [hticker, decide_true, Option.some.injEq]
      split_ifs with hseen
      · rw [ih]
        exact iff_of_false (fun h => h.1 hseen) fun h => h.1 hseen
      · rw [List.mem_cons, ih, List.mem_cons]
        constructor
        · rintro (rfl | ⟨hnew, -⟩)
          · exact ⟨hseen, rfl⟩
          · exact absurd (Or.inl rfl) hnew
        · rintro ⟨-, rfl⟩
          exact Or.inl rfl
    · have hne : m ≠ m' := fun h => hticker (by rw [h])
      have hne' : m.ticker ≠ m'.ticker := fun h => hticker h.symm
      simp only [hticker, decide_false]
      split_ifs with hseen
      · exact ih
      · rw [List.mem_cons, ih, List.mem_cons, or_iff_right hne]
        simp [hne']

section Groups

variable {parseRfc3339 : String → Option Timestamp} {series : String}

theorem groupByEvent_concat (markets : List Market) (m : Market) :
    groupByEvent parseRfc3339 series (markets ++ [m]) =
      groupMarket parseRfc3339 series (groupByEvent parseRfc3339 series markets) m := by
  rw [groupByEvent, List.foldl_append]
  rfl

theorem groupByEvent_sorted (markets : List Market) :
    SortedMap.Sorted (groupByEvent parseRfc3339 series markets) := by
  induction markets using List.reverseRecOn with
  | nil => exact List.Pairwise.nil
  | append_singleton markets m ih =>
    rw [groupByEvent_concat]
    exact groupMarket_sorted ih m

/-- A ticker is in the cohort of an event exactly when one of its markets goes there. -/
theorem mem_groupByEvent (markets : List Market) (event ticker : String) :
    (∃ cohort, (event, cohort) ∈ groupByEvent parseRfc3339 series markets ∧
      ticker ∈ cohort.tickers) ↔ ∃ m ∈ markets, m.GoesTo event ∧ m.ticker = ticker := by
  induction markets using List.reverseRecOn with
  | nil => simp [groupByEvent]
  | append_singleton markets m ih =>
    have hlast : (∃ m' ∈ markets ++ [m], m'.GoesTo event ∧ m'.ticker = ticker) ↔
        (∃ m' ∈ markets, m'.GoesTo event ∧ m'.ticker = ticker) ∨
          m.GoesTo event ∧ m.ticker = ticker := by
      simp only [List.mem_append, List.mem_singleton, or_and_right, exists_or, exists_eq_left]
    rw [groupByEvent_concat, groupMarket, hlast, ← ih]
    split_ifs with hterminal
    · have hno : ¬ m.GoesTo event := fun h => Bool.false_ne_true (h.1.symm.trans hterminal)
      rw [or_iff_left fun h => hno h.1]
    · have hopen : isTerminal m.status = false := Bool.eq_false_of_not_eq_true hterminal
      cases hevent : eventOf m with
      | none =>
        have hno : ¬ m.GoesTo event := by
          rintro ⟨-, h⟩
          rw [hevent] at h
          cases h
        rw [or_iff_left fun h => hno h.1]
      | some ev =>
        have hgoes : m.GoesTo event ↔ event = ev := by
          rw [Market.GoesTo, and_iff_right hopen, hevent, Option.some_inj, eq_comm]
        rw [hgoes, eq_comm (a := m.ticker)]
        apply SortedMap.exists_mem_upsert
        · exact List.mem_singleton
        · intro c
          show ticker ∈ c.tickers ++ [m.ticker] ↔ _
          rw [List.mem_append, List.mem_singleton]

/-- The tickers of all cohorts are tickers of the markets, each as often as it is listed at most. -/
theorem exists_tickers_perm (markets : List Market) :
    ∃ listed : List Market, listed.Sublist markets ∧
      ((groupByEvent parseRfc3339 series markets).flatMap fun e => e.2.tickers).Perm
        (listed.map (·.ticker)) := by
  induction markets using List.reverseRecOn with
  | nil => exact ⟨[], .slnil, .refl _⟩
  | append_singleton markets m ih =>
    obtain ⟨listed, hsub, hperm⟩ := ih
    rw [groupByEvent_concat, groupMarket]
    split_ifs
    · exact ⟨listed, hsub.trans (List.sublist_append_left _ _), hperm⟩
    · cases eventOf m with
      | none => exact ⟨listed, hsub.trans (List.sublist_append_left _ _), hperm⟩
      | some ev =>
        refine ⟨listed ++ [m], hsub.append (.refl _), ?_⟩
        rw [List.map_append]
        refine (SortedMap.flatMap_upsert ?_ ?_ _).trans (hperm.append_right _)
        · rfl
        · intro c
          rfl

theorem tickersOnce (markets : List Market) :
    TickersOnce markets (groupByEvent parseRfc3339 series (dedupByTicker [] markets)) := by
  constructor
  · show ((groupByEvent parseRfc3339 series (dedupByTicker [] markets)).flatMap fun e =>
      e.2.tickers).Nodup
    obtain ⟨listed, hsub, hperm⟩ := exists_tickers_perm (dedupByTicker [] markets)
    rw [hperm.nodup_iff]
    exact (dedupByTicker_nodup [] markets).1.sublist (hsub.map _)
  · intro event ticker
    rw [mem_groupByEvent]
    apply exists_congr
    intro m
    rw [mem_dedupByTicker, and_iff_right List.not_mem_nil]

end Groups

/-- Whatever the markets of a series, the units in flight, the markers, the budget and the gate:
each ticker whose first listing is not terminal and names an event is in the cohort of that event,
once; and the plan of the cohorts, when it is made, is a partition. -/
theorem sweep_plan_partitions (parseRfc3339 : String → Option Timestamp) (series : String)
    (markets : List Market) (gate : GateCfg) (inFlight : List String) (captured : String → Bool)
    (maxUnits : ℕ) {plan : ArmPlan}
    (h : planArms gate inFlight captured maxUnits
      (groupByEvent parseRfc3339 series (dedupByTicker [] markets)) = some plan) :
    TickersOnce markets (groupByEvent parseRfc3339 series (dedupByTicker [] markets)) ∧
      Partitions gate inFlight captured maxUnits
        (groupByEvent parseRfc3339 series (dedupByTicker [] markets)) plan := by
  obtain ⟨hcalendar, rfl⟩ := planArms_eq_some.1 h
  exact ⟨tickersOnce markets, partitions_planned (groupByEvent_sorted _) maxUnits hcalendar⟩

/-- The gate of a bounded run, at the start of a match. -/
def matchGate : GateCfg :=
  { now := ⟨1781285400 * 10 ^ 9, by decide⟩, armLead := 30 * MINUTE, clashSub := true
    hasBound := true }

/-- A listed market without times. -/
def listedMarket (ticker status : String) : Market :=
  { ticker, status := some status, eventTicker := none, openTime := none, closeTime := none
    volumeFp := none }

/-- What the calendar library reads of two texts. -/
def rfc3339Sample (s : String) : Option Timestamp :=
  if s = "2026-06-01T00:00:00Z" then some ⟨1780272000 * 10 ^ 9, by decide⟩
  else if s = "2026-08-01T00:00:00Z" then some ⟨1785542400 * 10 ^ 9, by decide⟩
  else none

/-- Markets of seven events, one of them listed twice and one no longer open. -/
def sweepSample : List Market :=
  [listedMarket "KXM-26JUN121330AB-A" "active", listedMarket "KXM-26JUN121330AB-B" "active",
    listedMarket "KXM-26JUN121330CD-C" "active", listedMarket "KXM-26JUN121330EF-E" "active",
    listedMarket "KXM-26JUN121330GH-G" "active", listedMarket "KXM-26JUN132000IJ-I" "initialized",
    { listedMarket "KXM-OUTRIGHT-O" "active" with
      openTime := some "2026-06-01T00:00:00Z", closeTime := some "2026-08-01T00:00:00Z" },
    listedMarket "KXM-PARLAY-P" "active", listedMarket "KXM-26JUN121330AB-T" "closed",
    listedMarket "KXM-26JUN121330AB-A" "closed"]

/-- Their plan, while the second event is in flight and the third is captured. -/
def sweepSamplePlan : ArmPlan where
  arm := [("KXM-26JUN121330AB", { series := "KXM"
                                  tickers := ["KXM-26JUN121330AB-A", "KXM-26JUN121330AB-B"]
                                  openTime := none, closeTime := none
                                  inferredStart := some ⟨1781285400 * 10 ^ 9, by decide⟩ })]
  capped := ["KXM-26JUN121330GH", "KXM-PARLAY"]
  deferred := ["KXM-26JUN132000IJ"]
  skipped := ["KXM-OUTRIGHT"]
  noStart := ["KXM-PARLAY"]

theorem sweep_plan_partitions_sample :
    TickersOnce sweepSample
        (groupByEvent rfc3339Sample "KXM" (dedupByTicker [] sweepSample)) ∧
      Partitions matchGate ["KXM-26JUN121330CD"] (· = "KXM-26JUN121330EF") 2
        (groupByEvent rfc3339Sample "KXM" (dedupByTicker [] sweepSample)) sweepSamplePlan := by
  apply sweep_plan_partitions
  decide +kernel

/-- A match market, whose start its ticker gives. -/
def matchMarket (status : String) : Market :=
  { ticker := "KXM-26JUN121330AB-A", status := some status, eventTicker := none, openTime := none
    closeTime := none, volumeFp := none }

/-- The cohort of the match market. -/
def matchCohort : Cohort :=
  { series := "KXM", tickers := ["KXM-26JUN121330AB-A"], openTime := none, closeTime := none
    inferredStart := some ⟨1781285400 * 10 ^ 9, by decide⟩ }

theorem groupByEvent_matchMarket (parseRfc3339 : String → Option Timestamp) :
    groupByEvent parseRfc3339 "KXM" (dedupByTicker [] [matchMarket "active"]) =
      [("KXM-26JUN121330AB", matchCohort)] := by
  rfl

/-- A cohort of a bounded run that is armed without a known cadence is not in the list of those
without a start when its ticker gives one; and a market that is listed as open after it was listed
as closed is in no cohort. -/
theorem started_cohort_not_warned :
    (∃ plan, planArms matchGate [] (fun _ => false) 1 (groupByEvent (fun _ => none) "KXM"
        (dedupByTicker [] [matchMarket "active"])) = some plan ∧ matchGate.hasBound = true ∧
      ∃ e ∈ plan.arm, cadence e.2.openTime e.2.closeTime = .other ∧ e.1 ∉ plan.noStart) ∧
    ∃ m ∈ [matchMarket "closed", matchMarket "active"], m.GoesTo "KXM-26JUN121330AB" ∧
      groupByEvent (fun _ => none) "KXM"
        (dedupByTicker [] [matchMarket "closed", matchMarket "active"]) = [] := by
  constructor
  · rw [groupByEvent_matchMarket]
    exact ⟨_, rfl, rfl, ("KXM-26JUN121330AB", matchCohort), List.mem_singleton_self _, rfl,
      List.not_mem_nil⟩
  · exact ⟨matchMarket "active", by simp, ⟨rfl, by decide⟩, rfl⟩

end Snapevent
