import FieldWages.Payroll
import FieldWages.Proofs.ConceptRun

/-!
# Accepted inputs

A payroll detail is computed in three parts: the context is prepared, the
concepts are run over it, and the detail is assembled from what they leave. The
context says of each stage what it found (`Payroll.Prepared`), and the concepts
leave that as it is, so the detail shows what the stages found.

* `Payroll.refusal?_eq_none_iff`: when an input is accepted;
* `Payroll.compute_eq_ok_iff`: a detail is what comes of an input not refused;
* `Payroll.prepared_of_context`: the context holds the results of the stages;
* `Payroll.compute_spec`: what a detail shows is what the stages found.
-/

namespace FieldWages

theorem Failure.lift_eq_ok {α : Type} {x : Except Fault α} {a : α} :
    Failure.lift x = .ok a ↔ x = .ok a := by
  cases x with
  | error f => exact ⟨nofun, nofun⟩
  | ok b => exact ⟨fun h => by cases h; rfl, fun h => by cases h; rfl⟩

namespace Payroll

variable {employee : Employee} {attendance : List AttendanceEntry} {inputs : PayrollInputs}
  {registry : Registry} {ctx : PayContext} {detail : PayrollDetail}

theorem entryRefusal?_eq_none_iff {e : AttendanceEntry} : entryRefusal? employee e = none ↔
    e.employeeId = employee.id ∧ ∀ hours ∈ e.paidHours, ¬hours < .zero := by
  rw [entryRefusal?]
  split
  · next h => exact ⟨nofun, fun hid => absurd hid.1 h⟩
  · next h =>
    rw [not_not] at h
    split
    · next hpaid =>
      rw [Option.any_eq_true] at hpaid
      obtain ⟨hours, hhours, hlt⟩ := hpaid
      exact ⟨nofun, fun hnot => absurd (of_decide_eq_true hlt) (hnot.2 hours hhours)⟩
    · next hpaid =>
      rw [Option.any_eq_true, not_exists] at hpaid
      exact ⟨fun _ => ⟨h, fun hours hhours hlt => hpaid hours ⟨hhours, decide_eq_true hlt⟩⟩,
        fun _ => rfl⟩

/-- An input is accepted if its period, its measures and the salary are sound, and all
    entries are. -/
theorem refusal?_eq_none_iff {q : Parameters} : refusal? employee attendance q = none ↔
    ¬q.period.stop < q.period.start ∧ q.monthDays ≠ 0 ∧ ¬q.dailyNormalHours ≤ .zero ∧
      (∀ salary ∈ employee.monthlySalary, ¬salary < .zero) ∧
      ∀ e ∈ attendance, entryRefusal? employee e = none := by
  have hsalary : employee.monthlySalary.any (· < .zero) ↔
      ¬∀ salary ∈ employee.monthlySalary, ¬salary < .zero := by
    rw [Option.any_eq_true]
    push Not
    exact exists_congr fun salary => and_congr_right fun _ => decide_eq_true_iff
  rw [refusal?]
  split_ifs with hperiod hmonth hnormal hany
  · exact ⟨nofun, fun h => absurd hperiod h.1⟩
  · exact ⟨nofun, fun h => absurd hmonth h.2.1⟩
  · exact ⟨nofun, fun h => absurd hnormal h.2.2.1⟩
  · exact ⟨nofun, fun h => absurd h.2.2.2.1 (hsalary.1 hany)⟩
  · rw [List.findSome?_eq_none_iff]
    exact ⟨fun h => ⟨hperiod, hmonth, hnormal, not_not.1 (mt hsalary.2 hany), h⟩,
      fun h => h.2.2.2.2⟩

theorem compute_eq_ok_iff : compute employee attendance inputs registry = .ok detail ↔
    refusal? employee attendance inputs.parameters = none ∧
      ∃ ctx run, context employee attendance inputs = .ok ctx ∧
        ConceptRun.ofContext ctx registry = .ok run ∧
        PayrollDetail.assemble run.context run.lines run.steps = .ok detail := by
  rw [compute]
  cases refusal? employee attendance inputs.parameters with
  | some r => exact ⟨nofun, nofun⟩
  | none =>
    rw [Failure.lift_eq_ok, computeAccepted, bind_eq_ok]
    constructor
    · rintro ⟨ctx, hctx, h⟩
      obtain ⟨run, hrun, h⟩ := bind_eq_ok.1 h
      exact ⟨rfl, ctx, run, hctx, hrun, h⟩
    · rintro ⟨-, ctx, run, hctx, hrun, h⟩
      exact ⟨ctx, hctx, bind_eq_ok.2 ⟨run, hrun, h⟩⟩

/-- The context of an input holds what each stage finds in it. -/
structure Prepared (employee : Employee) (attendance : List AttendanceEntry)
    (inputs : PayrollInputs) (ctx : PayContext) : Prop where
  employee_eq : ctx.employee = employee
  parameters_eq : ctx.parameters = inputs.parameters
  concepts_eq : ctx.concepts = inputs.concepts
  calendar_eq : ctx.calendar = flagsOf inputs.parameters.period inputs.calendar
  dailyHours : DailyHoursMap.ofAttendance attendance inputs.parameters.period = .ok ctx.dailyHours
  workedDates_eq : ctx.workedDates = ctx.dailyHours.keys
  hours : HourBreakdown.ofDaily ctx.dailyHours inputs.parameters.dailyNormalHours
    inputs.parameters.overtime.tier1Hours inputs.calendar = .ok ctx.hours
  piecework : ∃ found,
    PieceworkSummary.ofAttendance attendance inputs.labors inputs.parameters.period = .ok found ∧
      ctx.piecework = { found with diagnostics := [] } ∧
      ctx.diagnostics = calendarGaps ctx.workedDates inputs.calendar ++ found.diagnostics
  dailyRate : FieldWages.dailyRate employee.salaryOrZero inputs.parameters.monthDays =
    .ok ctx.dailyRate
  hourlyRate : ∃ hourly, ctx.dailyRate.div inputs.parameters.dailyNormalHours = .ok hourly ∧
    ctx.hourlyRate = hourly.toTenThousandths
  basicPay : BasicPay.ofDates ctx.workedDates ctx.dailyRate inputs.calendar = .ok ctx.basicPay
  restDays : ∃ first, inputs.parameters.period.windowStart = .ok first ∧
    RestDaySummary.ofPeriod inputs.parameters.period
      (attendedDates attendance first inputs.parameters.period.stop) inputs.calendar
      ctx.dailyRate = .ok ctx.restDays
  totalIncome_eq : ctx.totalIncome = .zero
  totalDeductions_eq : ctx.totalDeductions = .zero
  totalEmployerContributions_eq : ctx.totalEmployerContributions = .zero

theorem prepared_of_context (h : context employee attendance inputs = .ok ctx) :
    Prepared employee attendance inputs ctx := by
  obtain ⟨daily, hdaily, h⟩ := bind_eq_ok.1 h
  obtain ⟨hours, hhours, h⟩ := bind_eq_ok.1 h
  obtain ⟨piecework, hpiecework, h⟩ := bind_eq_ok.1 h
  obtain ⟨rate, hrate, h⟩ := bind_eq_ok.1 h
  obtain ⟨hourly, hhourly, h⟩ := bind_eq_ok.1 h
  obtain ⟨basicPay, hbasicPay, h⟩ := bind_eq_ok.1 h
  obtain ⟨first, hfirst, h⟩ := bind_eq_ok.1 h
  obtain ⟨restDays, hrestDays, h⟩ := bind_eq_ok.1 h
  rw [pure_eq_ok] at h
  subst h
  exact
    { employee_eq := rfl
      parameters_eq := rfl
      concepts_eq := rfl
      calendar_eq := rfl
      dailyHours := hdaily
      workedDates_eq := rfl
      hours := hhours
      piecework := ⟨piecework, hpiecework, rfl, rfl⟩
      dailyRate := hrate
      hourlyRate := ⟨hourly, hhourly, rfl⟩
      basicPay := hbasicPay
      restDays := ⟨first, hfirst, hrestDays⟩
      totalIncome_eq := rfl
      totalDeductions_eq := rfl
      totalEmployerContributions_eq := rfl }

/-- A detail shows what the stages found, whatever the concepts were. -/
theorem compute_spec (h : compute employee attendance inputs registry = .ok detail) :
    ∃ ctx, context employee attendance inputs = .ok ctx ∧ detail.hours = ctx.hours ∧
      detail.restDayWeeks = ctx.restDays.completeWeeks ∧
      detail.productivityScore = ctx.piecework.score ∧
      detail.daysWorked = ctx.daysWorked ∧
      detail.dayDetails = ctx.workedDates.map (PayrollDetail.dayOf ctx) := by
  obtain ⟨-, ctx, run, hctx, hrun, h⟩ := compute_eq_ok_iff.1 h
  obtain ⟨net, -, h⟩ := bind_eq_ok.1 h
  rw [pure_eq_ok] at h
  subst h
  obtain ⟨_, _, _, _, hbasis⟩ := ConceptRun.sameBasis hrun
  rw [hbasis]
  exact ⟨ctx, hctx, rfl, rfl, rfl, rfl, rfl⟩

/-- A detail is filed under the employee it was calculated for. -/
theorem employeeId_of_compute (h : compute employee attendance inputs registry = .ok detail) :
    detail.employeeId = employee.id := by
  obtain ⟨-, ctx, run, hctx, hrun, h⟩ := compute_eq_ok_iff.1 h
  obtain ⟨net, -, h⟩ := bind_eq_ok.1 h
  rw [pure_eq_ok] at h
  subst h
  obtain ⟨_, _, _, _, hbasis⟩ := ConceptRun.sameBasis hrun
  rw [hbasis, ← (prepared_of_context hctx).employee_eq]

end Payroll

end FieldWages
