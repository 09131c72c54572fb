import FieldWages.Proofs.MoreWork.Concepts
import FieldWages.Proofs.SameWork.Detail

/-!
# Details of more work

More recorded work never pays less gross: an entry more, on any date, with any shift and
hours that are not negative, lowers no line, no total, no count and no part of the
hours of a detail (`PayrollDetail.AtMost`). It may take a decimal out of range, and then
there is no detail; what it does to the net pay is not said, since the deductions grow,
too. The one part of the hours that more work can lower is the first tier under a
negative limit, and with it the sum of the parts.

* `Payroll.compute_insert_atMost`: the detail with an entry more;
* `Payroll.negative_tier1_insert`: the first tier under a negative limit.
-/

namespace FieldWages

open Decimal

/-- Whether a detail has the lines of another, with amounts that are no greater, and no
    greater totals, counts and hours. -/
structure PayrollDetail.AtMost (t₁ : Decimal) (d d' : PayrollDetail) : Prop where
  concepts : List.Forall₂ ConceptLine.AtMost d.concepts d'.concepts
  totalIncome : d.totalIncome ≤ d'.totalIncome
  totalDeductions : d.totalDeductions ≤ d'.totalDeductions
  totalEmployerContributions : d.totalEmployerContributions ≤ d'.totalEmployerContributions
  daysWorked : d.daysWorked ≤ d'.daysWorked
  restDayWeeks : d.restDayWeeks ≤ d'.restDayWeeks
  hours : d.hours.AtMost t₁ d'.hours

/-- Runs that are no greater are assembled to details that are no greater. -/
theorem PayrollDetail.assemble_atMost {run run' : ConceptRun} {detail : PayrollDetail}
    (h : run.AtMost run') (hdetail : assemble run.context run.lines run.steps = .ok detail) :
    UnlessOverflow (detail.AtMost run.context.parameters.overtime.tier1Hours)
      (assemble run'.context run'.lines run'.steps) := by
  obtain ⟨net, -, hdetail⟩ := bind_eq_ok.1 hdetail
  cases hdetail
  refine (sub_unless _ _).bind fun net' _ => .ok ?_
  exact
    { concepts := h.lines
      totalIncome := h.context.totalIncome
      totalDeductions := h.context.totalDeductions
      totalEmployerContributions := h.context.totalEmployerContributions
      daysWorked := h.context.daysWorked
      restDayWeeks := h.context.completeWeeks
      hours := h.context.hours }

namespace Payroll

variable {employee : Employee} {before after : List AttendanceEntry} {e : AttendanceEntry}
  {inputs : PayrollInputs} {detail : PayrollDetail}

/-- An input stays accepted with an entry more of the employee. -/
theorem refusal?_insert {q : Parameters} (hid : e.employeeId = employee.id) (he : e.HoursNonneg)
    (h : refusal? employee (before ++ after) q = none) :
    refusal? employee (before ++ e :: after) q = none := by
  rw [refusal?_eq_none_iff] at h ⊢
  obtain ⟨hperiod, hmonth, hnormal, hsalary, hentries⟩ := h
  refine ⟨hperiod, hmonth, hnormal, hsalary, fun x hx => ?_⟩
  rw [List.mem_append, List.mem_cons, or_left_comm, ← List.mem_append] at hx
  rcases hx with rfl | hx
  · exact entryRefusal?_eq_none_iff.2
      ⟨hid, fun hours hhours => not_lt_iff_le.2 (he hours hhours)⟩
  · exact hentries x hx

/-- With an entry more of the employee, of hours that are not negative and without a count,
    there is a detail in which no line, no total, no count and no part of the hours is
    less, unless a decimal gets out of range. Neither surcharges nor configured values are
    negative here; the first tier of the hours and the total are compared where the limit
    of the tier is not. -/
theorem compute_insert_atMost (hsurcharges : inputs.parameters.overtime.SurchargesNonneg)
    (hconcepts : ∀ c ∈ inputs.concepts, c.ValueNonneg) (hid : e.employeeId = employee.id)
    (hhours : e.HoursNonneg) (hcount : e.productivityCount = none)
    (h : compute employee (before ++ after) inputs .standard = .ok detail) :
    (∃ detail', compute employee (before ++ e :: after) inputs .standard = .ok detail' ∧
      detail.AtMost inputs.parameters.overtime.tier1Hours detail') ∨
    ∃ f : Fault, f.IsOverflow ∧
      compute employee (before ++ e :: after) inputs .standard = .error (.faulted f) := by
  obtain ⟨haccepted, ctx, run, hctx, hrun, hdetail⟩ := compute_eq_ok_iff.1 h
  have haccepted' := refusal?_insert hid hhours haccepted
  have hprepared := prepared_of_context hctx
  have hvalues : ∀ c ∈ ctx.concepts, c.ValueNonneg := by
    rw [hprepared.concepts_eq]
    exact hconcepts
  have hlimit : run.context.parameters = inputs.parameters := by
    obtain ⟨_, _, _, _, hbasis⟩ := ConceptRun.sameBasis hrun
    rw [hbasis, ← hprepared.parameters_eq]
  have hunless : UnlessOverflow (detail.AtMost inputs.parameters.overtime.tier1Hours)
      (computeAccepted employee (before ++ e :: after) inputs .standard) := by
    refine (context_atMost haccepted' hcount hsurcharges hctx).bind fun ctx' hctx' => ?_
    refine (ConceptRun.ofContext_atMost hctx' Registry.grows_standard hvalues hrun).bind
      fun run' hrun' => ?_
    rw [← hlimit]
    exact PayrollDetail.assemble_atMost hrun' hdetail
  rw [compute, haccepted']
  generalize computeAccepted employee (before ++ e :: after) inputs .standard = x at hunless
  cases hunless with
  | ok hle => exact .inl ⟨_, rfl, hle⟩
  | error hf => exact .inr ⟨_, hf, rfl⟩

/-- A Saturday of four hours, and of nine with five more on record: one of them is
    overtime, and is paid. -/
theorem compute_insert_atMost_longDay :
    let employee := { Employee.plain with monthlySalary := some (.ofUInt32 3000) }
    ∃ detail detail', compute employee [.ofHours 5 400] longDay .standard = .ok detail ∧
      compute employee [.ofHours 5 500, .ofHours 5 400] longDay .standard = .ok detail' ∧
      detail.AtMost longDay.parameters.overtime.tier1Hours detail' ∧
      zero ≤ longDay.parameters.overtime.tier1Hours ∧
      detail.totalIncome < detail'.totalIncome := by
  intro employee
  have hcompute : (do
      let detail ← compute employee [.ofHours 5 400] longDay .standard
      let detail' ← compute employee [.ofHours 5 500, .ofHours 5 400] longDay .standard
      pure (decide (detail.totalIncome < detail'.totalIncome))) = .ok true := by
    decide +kernel
  obtain ⟨detail, hdetail, hcompute⟩ := bind_eq_ok.1 hcompute
  obtain ⟨detail', hdetail', hincome⟩ := bind_eq_ok.1 hcompute
  have hincome := of_decide_eq_true (pure_eq_ok.1 hincome)
  have hinsert := @compute_insert_atMost employee [] [.ofHours 5 400] (.ofHours 5 500) longDay
    detail ⟨by decide, by decide, by decide, by decide⟩ (by decide) rfl (by decide) rfl hdetail
  refine ⟨detail, detail', hdetail, hdetail', ?_, by decide, hincome⟩
  rcases hinsert with ⟨_, h, hle⟩ | ⟨_, _, h⟩
  · cases hdetail'.symm.trans h
    exact hle
  · cases hdetail'.symm.trans h

/-- A Saturday with a first tier of minus one hour, and no concepts. -/
def negativeTierDay : PayrollInputs :=
  let inputs := PayrollInputs.plain (.between 5 5) 1
  { inputs with
    parameters :=
      { inputs.parameters with
        overtime := { OvertimeRates.standard with tier1Hours := (Decimal.ofUInt32 1).neg } } }

/-- With a tier of minus one hour, eight hours on a day without any lower the first tier. -/
theorem negative_tier1_insert :
    negativeTierDay.parameters.overtime.SurchargesNonneg ∧
    (∀ c ∈ negativeTierDay.concepts, c.ValueNonneg) ∧
    (AttendanceEntry.ofHours 5 800).employeeId = Employee.plain.id ∧
    (AttendanceEntry.ofHours 5 800).HoursNonneg ∧
    (AttendanceEntry.ofHours 5 800).productivityCount = none ∧
    ∃ detail detail', compute .plain [] negativeTierDay .standard = .ok detail ∧
      compute .plain [.ofHours 5 800] negativeTierDay .standard = .ok detail' ∧
      detail'.hours.overtimeTier1 < detail.hours.overtimeTier1 := by
  refine ⟨⟨by decide, by decide, by decide, by decide⟩, by decide, rfl, by decide, rfl, ?_⟩
  have hcompute : (do
      let detail ← compute .plain [] negativeTierDay .standard
      let detail' ← compute .plain [.ofHours 5 800] negativeTierDay .standard
      pure (decide (detail'.hours.overtimeTier1 < detail.hours.overtimeTier1))) = .ok true := by
    decide +kernel
  obtain ⟨detail, hdetail, hcompute⟩ := bind_eq_ok.1 hcompute
  obtain ⟨detail', hdetail', hlt⟩ := bind_eq_ok.1 hcompute
  exact ⟨detail, detail', hdetail, hdetail', of_decide_eq_true (pure_eq_ok.1 hlt)⟩

end Payroll

end FieldWages
