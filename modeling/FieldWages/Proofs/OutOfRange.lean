import FieldWages.Proofs.Calculators
import FieldWages.Proofs.MoreWork.Context
import FieldWages.Proofs.Piecework.Room
import FieldWages.Proofs.Refusals
import FieldWages.Proofs.WorkedDates

/-!
# What stops an accepted input

Once an input is accepted, what is divided by is not zero and what is missing is done
without, so only what gets out of range stops its calculation: a decimal, a date about the
weeks of the period, or a count if there are more than `2 ^ 32` entries of attendance
(`Payroll.OutOfRange`). Every stage is gone through for that, and the run over the concepts
of a steady registry.

* `Payroll.context_stopsBy`: the stages before the concepts;
* `ConceptRun.ofContext_stopsBy`: the concepts;
* `Payroll.computeAccepted_stopsBy`, `Payroll.outOfRange_of_compute`,
  `Payroll.exists_compute_of_accepted`: the whole calculation.
-/

namespace FieldWages

open Decimal

/-! ## Stages -/

theorem DailyHoursMap.ofAttendance_stopsBy (es : List AttendanceEntry) (p : Period) :
    StopsBy Fault.IsOverflow (ofAttendance es p) := by
  refine .foldlM fun _ e _ daily _ => ?_
  rw [addEntry]
  split
  · next hours hp hhours =>
    refine .bind (.bind (add_stopsBy _ _) fun total _ => ?_) fun day _ => .ok _
    split
    · exact .ok _
    · next start stop hshift =>
      obtain ⟨night, hnight⟩ := exists_nightHours_eq_ok start stop hours
      exact .bind (.of_eq_ok hnight) fun _ _ => .bind (add_stopsBy _ _) fun _ _ => .ok _
  · exact .ok _

theorem HourBreakdown.ofDaily_stopsBy (daily : DailyHoursMap) (n₁ t₁ : Decimal)
    (c : WorkCalendar) : StopsBy Fault.IsOverflow (ofDaily daily n₁ t₁ c) := by
  refine .bind (.foldlM fun _ day _ s _ => (HourSums.addDay_unless n₁ t₁ c day s).stopsBy) ?_
  intro sums _
  refine .bind (add_stopsBy _ _) fun _ _ => .bind (add_stopsBy _ _) fun _ _ => ?_
  exact .bind (add_stopsBy _ _) fun _ _ => .ok _

theorem dailyRate_stopsBy (salary : Decimal) (monthDays : UInt32) :
    StopsBy Fault.IsOverflow (dailyRate salary monthDays) := by
  rw [dailyRate]
  split
  · exact .ok _
  · next hmonth =>
    exact .bind (div_stopsBy _ (mantissa_ofUInt32_ne_zero hmonth)) fun _ _ => .ok _

/-- The units of dates that are different fit their word. -/
theorem BasicPay.exists_units_ofDates {dates : List Date} {rate : Decimal} {c : WorkCalendar}
    {pay : BasicPay} (hdates : dates.Nodup) (h : ofDates dates rate c = .ok pay) :
    ∃ n, pay.units = .ok n := by
  refine exists_units_eq_ok ?_ fun day hday => ?_
  · have hle := Date.length_le_of_nodup hdates
    rwa [← dates_ofDates h, List.length_map] at hle
  · rw [multiplier_ofDates h hday]
    exact toNat_dayMultiplier_le _ _

theorem BasicPay.ofDates_stopsBy (dates : List Date) (rate : Decimal) (c : WorkCalendar) :
    StopsBy Fault.IsOverflow (ofDates dates rate c) := by
  refine .bind (.mapM fun d _ => .bind (mul_stopsBy _ _) fun _ _ => .ok _) fun days _ => ?_
  exact .bind (sum_stopsBy _) fun _ _ => .ok _

theorem Period.windowStart_stopsBy (p : Period) :
    StopsBy (fun f => p.weeks = .error f) p.windowStart :=
  .bind (fun _ hf => hf) fun _ _ => .ok _

namespace Payroll

variable {employee : Employee} {attendance : List AttendanceEntry} {inputs : PayrollInputs}
  {registry : Registry} {ctx : PayContext}

/-- Whether a fault tells that an amount, a count or a date of an input is out of range. -/
inductive OutOfRange (attendance : List AttendanceEntry) (p : Period) : Fault → Prop
  | amount {f : Fault} (h : f.IsOverflow) : OutOfRange attendance p f
  | count (h : 2 ^ 32 < attendance.length) : OutOfRange attendance p .countOverflow
  | date {f : Fault} (h : p.weeks = .error f) : OutOfRange attendance p f

/-- The stages before the concepts are stopped by decimals, by the weeks of the period, and by
    what stops the piecework. -/
theorem context_stopsBy_of_piecework {K : Fault → Prop}
    (haccepted : refusal? employee attendance inputs.parameters = none)
    (hamount : ∀ f : Fault, f.IsOverflow → K f)
    (hdate : ∀ f, inputs.parameters.period.weeks = .error f → K f)
    (hpiecework : StopsBy K
      (PieceworkSummary.ofAttendance attendance inputs.labors inputs.parameters.period)) :
    StopsBy K (context employee attendance inputs) := by
  obtain ⟨-, -, hnormal, -⟩ := refusal?_eq_none_iff.1 haccepted
  have hdivisor := mantissa_ne_zero_of_pos (not_le_iff_lt.1 hnormal)
  refine .bind ((DailyHoursMap.ofAttendance_stopsBy _ _).mono hamount) fun daily _ => ?_
  refine .bind ((HourBreakdown.ofDaily_stopsBy _ _ _ _).mono hamount) fun hours _ => ?_
  refine .bind hpiecework fun piecework _ => ?_
  refine .bind ((dailyRate_stopsBy _ _).mono hamount) fun rate _ => ?_
  refine .bind ((div_stopsBy _ hdivisor).mono hamount) fun hourly _ => ?_
  refine .bind ((BasicPay.ofDates_stopsBy _ _ _).mono hamount) fun pay _ => ?_
  refine .bind ((Period.windowStart_stopsBy _).mono hdate) fun first _ => ?_
  refine .bind (.bind hdate fun weeks _ => ?_) fun restDays _ => .ok _
  exact .bind ((mul_stopsBy _ _).mono hamount) fun _ _ => .ok _

/-- The stages before the concepts are stopped only by what is out of range. -/
theorem context_stopsBy (haccepted : refusal? employee attendance inputs.parameters = none) :
    StopsBy (OutOfRange attendance inputs.parameters.period)
      (context employee attendance inputs) := by
  refine context_stopsBy_of_piecework haccepted (fun _ => .amount) (fun _ => .date) ?_
  refine (PieceworkSummary.ofAttendance_stopsBy _ _ _).mono ?_
  rintro f (hf | ⟨rfl, hlength⟩)
  · exact .amount hf
  · exact .count hlength

/-- The units of the dates worked have room, whatever their number. -/
theorem exists_units_of_context (h : context employee attendance inputs = .ok ctx) :
    ∃ n, ctx.basicPay.units = .ok n := by
  have hp := prepared_of_context h
  exact BasicPay.exists_units_ofDates (hp.workedDates_eq ▸ ctx.dailyHours.nodup_keys) hp.basicPay

/-- The units that a context pays for have room, unless there are too many entries. -/
theorem countsFit_of_context (h : context employee attendance inputs = .ok ctx)
    (hlength : attendance.length ≤ 2 ^ 32) : ctx.CountsFit := by
  obtain ⟨found, hfound, hpiecework, -⟩ := (prepared_of_context h).piecework
  refine ⟨exists_units_of_context h, ?_⟩
  rw [hpiecework]
  exact PieceworkSummary.exists_excessUnits_eq_ok (s := found) hfound hlength

end Payroll

/-! ## Concepts -/

namespace ConceptRun

variable {registry : Registry} {ctx : PayContext}

/-- What room a context has for its units is not changed by concepts. -/
theorem outOfRange_of_sameBasis {a b : PayContext} (h : a.SameBasis b) {f : Fault}
    (hf : b.OutOfRange f) : a.OutOfRange f := by
  obtain ⟨_, _, _, _, rfl⟩ := h
  exact hf.imp_right fun ⟨heq, hfit⟩ => ⟨heq, fun h => hfit ⟨h.units, h.excessUnits⟩⟩

theorem next_stopsBy (hr : registry.Steady) (run : ConceptRun) (c : Concept) :
    StopsBy run.context.OutOfRange (next registry run c) := by
  rw [next]
  split
  · exact .ok _
  split
  · exact .ok _
  · next calculator hget =>
    refine .bind (hr c.code calculator hget run.context c) fun o _ f hf => ?_
    cases PayContext.accumulate_eq_error (enter_eq_error hf)
    exact .inl trivial

/-- The concepts of a context are stopped only by what is out of range. -/
theorem ofContext_stopsBy (hr : registry.Steady) (ctx : PayContext) :
    StopsBy ctx.OutOfRange (ofContext ctx registry) := by
  refine .foldlM fun before c _ run hrun => ?_
  have hbasis : ctx.SameBasis run.context :=
    foldlM_invariant (P := fun run => ctx.SameBasis run.context) hrun (.refl ctx)
      fun _ _ _ _ hs hnext => hs.trans (sameBasis_next hnext)
  exact (next_stopsBy hr run c).mono fun f => outOfRange_of_sameBasis hbasis

end ConceptRun

/-! ## Calculations -/

namespace Payroll

variable {employee : Employee} {attendance : List AttendanceEntry} {inputs : PayrollInputs}
  {registry : Registry}

/-- The calculation of an accepted input is stopped only by what is out of range. -/
theorem computeAccepted_stopsBy (hr : registry.Steady)
    (haccepted : refusal? employee attendance inputs.parameters = none) :
    StopsBy (OutOfRange attendance inputs.parameters.period)
      (computeAccepted employee attendance inputs registry) := by
  refine .bind (context_stopsBy haccepted) fun ctx hctx => ?_
  refine .bind ((ConceptRun.ofContext_stopsBy hr ctx).mono ?_) fun run _ => ?_
  · rintro f (hf | ⟨rfl, hfit⟩)
    · exact .amount hf
    · refine .count (Nat.not_le.1 fun hlength => ?_)
      exact hfit (countsFit_of_context hctx hlength)
  · exact .bind ((sub_stopsBy _ _).mono fun _ => .amount) fun _ _ => .ok _

/-- A calculation is faulted only for what is out of range. -/
theorem outOfRange_of_compute (hr : registry.Steady) {f : Fault}
    (h : compute employee attendance inputs registry = .error (.faulted f)) :
    OutOfRange attendance inputs.parameters.period f := by
  obtain ⟨haccepted, hf⟩ := compute_eq_faulted_iff.1 h
  exact computeAccepted_stopsBy hr haccepted f hf

/-- An accepted input has a detail, unless it is faulted. -/
theorem exists_compute_of_accepted
    (haccepted : refusal? employee attendance inputs.parameters = none) (registry : Registry) :
    (∃ detail, compute employee attendance inputs registry = .ok detail) ∨
      ∃ f, compute employee attendance inputs registry = .error (.faulted f) ∧
        (registry.Steady → OutOfRange attendance inputs.parameters.period f) := by
  cases h : compute employee attendance inputs registry with
  | ok detail => exact .inl ⟨detail, rfl⟩
  | error failure =>
    cases failure with
    | refused r =>
      rw [compute_eq_refused_iff, ← refusal?_eq_some_iff, haccepted] at h
      cases h
    | faulted f => exact .inr ⟨f, rfl, fun hr => outOfRange_of_compute hr h⟩

end Payroll

end FieldWages
