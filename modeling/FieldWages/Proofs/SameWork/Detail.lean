import FieldWages.Proofs.Sample
import FieldWages.Proofs.SameWork.Concepts

/-!
# Details of the same work

An employee is paid for the work that was done, not for how it was put on record:
lists of attendance that record the same work lead to the same detail, but for digits
and remarks on labors (`PayrollDetail.SameNumbers`), or fail in the same way. Entries
can be put in another order, be split and merged, or be added outside the window of the
period, and nothing about the pay changes.

* `AttendanceEntry.Splits`: entries that are the parts of one;
* `Payroll.compute_alike`: the details of the same work.
-/

namespace FieldWages

/-! ## Details -/

/-- Whether two days are shown the same but for the digits of their hours. -/
structure DayDetail.SameNumbers (a b : DayDetail) : Prop where
  date : a.date = b.date
  weekday : a.weekday = b.weekday
  hours : a.hours ≈ b.hours
  nightHours : a.nightHours ≈ b.nightHours
  productivityPercent : a.productivityPercent = b.productivityPercent
  isHoliday : a.isHoliday = b.isHoliday
  isSunday : a.isSunday = b.isSunday

/-- Whether two details are the same but for digits, and for the order and the dates of
    remarks on labors. -/
structure PayrollDetail.SameNumbers (a b : PayrollDetail) : Prop where
  engineVersion : a.engineVersion = b.engineVersion
  employeeId : a.employeeId = b.employeeId
  period : a.period = b.period
  concepts : List.Forall₂ ConceptLine.SameNumbers a.concepts b.concepts
  hours : a.hours.SameNumbers b.hours
  daysWorked : a.daysWorked = b.daysWorked
  restDayWeeks : a.restDayWeeks = b.restDayWeeks
  productivityScore : a.productivityScore = b.productivityScore
  totalIncome : a.totalIncome ≈ b.totalIncome
  totalDeductions : a.totalDeductions ≈ b.totalDeductions
  totalEmployerContributions : a.totalEmployerContributions ≈ b.totalEmployerContributions
  netPay : a.netPay ≈ b.netPay
  dayDetails : List.Forall₂ DayDetail.SameNumbers a.dayDetails b.dayDetails
  steps : List.Forall₂ AuditStep.SameNumbers a.steps b.steps
  diagnostics : SameButRemarks a.diagnostics b.diagnostics

namespace PayrollDetail

variable {a b : PayContext}

theorem dayOf_sameNumbers (h : a.SameNumbers b) (d : Date) :
    (dayOf a d).SameNumbers (dayOf b d) := by
  have hday : ((a.dailyHours.get? d).getD .none).SameNumbers
      ((b.dailyHours.get? d).getD .none) := by
    have hd := h.dailyHours d
    generalize a.dailyHours.get? d = x at hd ⊢
    generalize b.dailyHours.get? d = y at hd ⊢
    cases hd with
    | none => exact ⟨Setoid.refl _, Setoid.refl _⟩
    | some hd => exact hd
  have hflags : b.dayFlags? d = a.dayFlags? d := (congrArg (PayContext.dayFlags? · d) h.basis :)
  have hpiecework : b.piecework = a.piecework := (congrArg PayContext.piecework h.basis :)
  refine ⟨rfl, rfl, hday.total, hday.night, ?_, ?_, ?_⟩
  · rw [dayOf, dayOf, hpiecework]
  · rw [dayOf, dayOf, hflags]
  · rw [dayOf, dayOf, hflags]

/-- Contexts of the same numbers are assembled to details of the same numbers. -/
theorem assemble_alike (h : a.SameNumbers b) {lines lines' : List ConceptLine}
    {steps steps' : List AuditStep} (hlines : List.Forall₂ ConceptLine.SameNumbers lines lines')
    (hsteps : List.Forall₂ AuditStep.SameNumbers steps steps') :
    Alike SameNumbers (assemble a lines steps) (assemble b lines' steps') := by
  have hdates : b.workedDates = a.workedDates := (congrArg PayContext.workedDates h.basis :)
  have hrestDays : b.restDays = a.restDays := (congrArg PayContext.restDays h.basis :)
  have hpiecework : b.piecework = a.piecework := (congrArg PayContext.piecework h.basis :)
  refine (Decimal.sub_alike h.totalIncome h.totalDeductions).bind fun hnet => ?_
  exact .ok
    { engineVersion := rfl
      employeeId := congrArg Employee.id h.employee_eq.symm
      period := congrArg Parameters.period h.parameters_eq.symm
      concepts := hlines
      hours := h.hours
      daysWorked := congrArg (fun dates : List Date => UInt32.ofNat dates.length) hdates.symm
      restDayWeeks := congrArg RestDaySummary.completeWeeks hrestDays.symm
      productivityScore := congrArg PieceworkSummary.score hpiecework.symm
      totalIncome := h.totalIncome
      totalDeductions := h.totalDeductions
      totalEmployerContributions := h.totalEmployerContributions
      netPay := hnet
      dayDetails := by
        rw [hdates, List.forall₂_map_left_iff, List.forall₂_map_right_iff]
        exact List.forall₂_same.2 fun d _ => dayOf_sameNumbers h d
      steps := hsteps
      diagnostics := h.diagnostics }

end PayrollDetail

/-! ## Parts of an entry -/

/-- Whether some entries are the parts of one: of the same date, with the hours, night
    hours and units of the one between them. -/
structure AttendanceEntry.Splits (e : AttendanceEntry) (parts : List AttendanceEntry) : Prop where
  date : ∀ x ∈ parts, x.workDate = e.workDate
  paid : WorkedOn parts e.workDate ↔ e.paidHours.isSome
  hours : (parts.map (·.hours)).sum = e.hours
  night : (parts.map (·.night)).sum = e.night
  counted : ∀ labor, CountedOn parts e.workDate labor ↔
    e.laborId = some labor ∧ e.productivityCount.isSome
  units : ∀ labor, unitsOn parts e.workDate labor = if e.laborId = some labor then e.units else 0

/-- The parts of an entry record the work of the entry. -/
theorem SameWork.of_splits {e : AttendanceEntry} {parts : List AttendanceEntry} (p : Period)
    (h : e.Splits parts) : SameWork p [e] parts := by
  have hother : ∀ {d}, e.workDate ≠ d → ∀ x ∈ parts, x.workDate ≠ d := fun hd x hx hxd =>
    hd ((h.date x hx).symm.trans hxd)
  have hall : parts.filter (fun x => x.workDate = e.workDate) = parts :=
    List.filter_eq_self.2 fun x hx => decide_eq_true (h.date x hx)
  have hworked : ∀ d, WorkedOn [e] d ↔ WorkedOn parts d := by
    intro d
    rw [workedOn_singleton]
    constructor
    · rintro ⟨rfl, hpaid⟩
      exact h.paid.2 hpaid
    · rintro ⟨x, hx, rfl, hpaid⟩
      exact ⟨(h.date x hx).symm, h.paid.1 ⟨x, hx, h.date x hx, hpaid⟩⟩
  refine ⟨fun d _ => hworked d, fun d _ => ?_, fun d _ => ?_, fun _ _ d _ _ => hworked d,
    fun d _ labor => ?_, fun d _ labor => ?_⟩
  · rw [hoursOn_singleton]
    split
    · next hd => rw [← hd, hoursOn, hall, h.hours]
    · next hd => rw [hoursOn_eq_zero (hother hd)]
  · rw [nightOn_singleton]
    split
    · next hd => rw [← hd, nightOn, hall, h.night]
    · next hd => rw [nightOn_eq_zero (hother hd)]
  · rw [countedOn_singleton]
    constructor
    · rintro ⟨rfl, hcounted⟩
      exact (h.counted labor).2 hcounted
    · rintro ⟨x, hx, rfl, hl, hu⟩
      exact ⟨(h.date x hx).symm, (h.counted labor).1 ⟨x, hx, h.date x hx, hl, hu⟩⟩
  · rw [unitsOn_singleton]
    by_cases hd : e.workDate = d
    · rw [← hd, h.units]
      simp only [true_and]
    · rw [unitsOn_eq_zero (hother hd), if_neg fun h => hd h.1]

/-! ## The detail of an employee -/

namespace Payroll

variable {employee : Employee} {inputs : PayrollInputs} {as bs : List AttendanceEntry}
  {registry : Registry}

/-- The same work comes to the same detail, by calculators that read numbers. -/
theorem compute_alike_of_sameWork (hr : registry.Respects)
    (h : SameWork inputs.parameters.period as bs)
    (has : refusal? employee as inputs.parameters = none)
    (hbs : refusal? employee bs inputs.parameters = none)
    (ha : HoursAdd inputs.parameters.period as) (hb : HoursAdd inputs.parameters.period bs) :
    Alike PayrollDetail.SameNumbers (compute employee as inputs registry)
      (compute employee bs inputs registry) := by
  rw [compute, compute, has, hbs]
  refine Failure.lift_alike ((h.context ha hb employee).bind fun hctx => ?_)
  refine (ConceptRun.ofContext_alike hr hctx).bind fun hrun => ?_
  exact PayrollDetail.assemble_alike hrun.context hrun.lines hrun.steps

theorem start_le_stop_of_accepted {attendance : List AttendanceEntry} {q : Parameters}
    (h : refusal? employee attendance q = none) : q.period.start ≤ q.period.stop := by
  rw [refusal?] at h
  split at h
  · cases h
  · next hp => exact Std.not_lt.1 hp

/-- Two accepted lists of attendance whose hours can be added come to the same detail, but
    for digits and remarks on labors, or fail in the same way, if they record the same
    work. So they do if one is the other in another order, or with an entry split into
    parts, or with parts merged into one, or with entries added outside the window of
    the period. -/
theorem compute_alike (has : refusal? employee as inputs.parameters = none)
    (hbs : refusal? employee bs inputs.parameters = none)
    (ha : HoursAdd inputs.parameters.period as) (hb : HoursAdd inputs.parameters.period bs) :
    let SameDetail := Alike PayrollDetail.SameNumbers (compute employee as inputs .standard)
      (compute employee bs inputs .standard)
    (SameWork inputs.parameters.period as bs → SameDetail) ∧
    (as.Perm bs → SameDetail) ∧
    (∀ e parts rest, e.Splits parts → as.Perm (e :: rest) → bs.Perm (parts ++ rest) →
      SameDetail) ∧
    (∀ e parts rest, e.Splits parts → as.Perm (parts ++ rest) → bs.Perm (e :: rest) →
      SameDetail) ∧
    (∀ first extra, inputs.parameters.period.windowStart = .ok first →
      (∀ e ∈ extra, e.workDate < first ∨ inputs.parameters.period.stop < e.workDate) →
      bs.Perm (extra ++ as) → SameDetail) := by
  intro SameDetail
  have hsame : SameWork inputs.parameters.period as bs → SameDetail := fun h =>
    compute_alike_of_sameWork Registry.respects_standard h has hbs ha hb
  have hsplit : ∀ e parts rest, e.Splits parts →
      SameWork inputs.parameters.period (e :: rest) (parts ++ rest) := fun e parts rest h =>
    (SameWork.of_splits _ h).append (.refl _ rest)
  refine ⟨hsame, fun hperm => hsame (.of_perm _ hperm), fun e parts rest h has' hbs' => ?_,
    fun e parts rest h has' hbs' => ?_, fun first extra hfirst hextra hbs' => ?_⟩
  · refine hsame ((SameWork.of_perm _ has').trans (.trans ?_ (.of_perm _ hbs'.symm)))
    exact hsplit e parts rest h
  · refine hsame ((SameWork.of_perm _ has').trans (.trans ?_ (.of_perm _ hbs'.symm)))
    exact (hsplit e parts rest h).symm
  · have hnil := SameWork.nil_of_outside (start_le_stop_of_accepted has) hfirst hextra
    exact hsame ((hnil.append (.refl _ as)).trans (.of_perm _ hbs'.symm))

/-- A week with a day of nine hours, paid by the hour above eight. -/
def longDay : PayrollInputs where
  parameters := .plain (.between 4 10) 6
  calendar := ⟨.empty⟩
  labors := []
  concepts :=
    [.plain "BASIC_SALARY" .income none, .plain "OVERTIME_25" .income none,
     .plain "INCOME_TAX" .deduction (some .hundred)]

/-- Nine hours recorded at once, and recorded as four and five, with two places and with
    three. -/
theorem compute_alike_longDay :
    let employee := { Employee.plain with monthlySalary := some (.ofUInt32 3000) }
    let whole := AttendanceEntry.ofHours 5 900
    let parts := [AttendanceEntry.ofHours 5 400,
      { AttendanceEntry.ofHours 5 0 with paidHours := Decimal.ofParts? 5000 3 }]
    refusal? employee [whole] longDay.parameters = none ∧
    refusal? employee parts longDay.parameters = none ∧
    HoursAdd longDay.parameters.period [whole] ∧ HoursAdd longDay.parameters.period parts ∧
    (compute employee [whole] longDay .standard).isOk = true ∧
    Alike PayrollDetail.SameNumbers (compute employee [whole] longDay .standard)
      (compute employee parts longDay .standard) := by
  intro employee whole parts
  have hwhole : refusal? employee [whole] longDay.parameters = none := by decide +kernel
  have hparts : refusal? employee parts longDay.parameters = none := by decide +kernel
  have hadd : HoursAdd longDay.parameters.period [whole] := by decide +kernel
  have hadd' : HoursAdd longDay.parameters.period parts := by decide +kernel
  have hsplits : whole.Splits parts :=
    { date := by decide +kernel
      paid := ⟨fun _ => rfl, fun _ => ⟨_, List.mem_cons_self, rfl, rfl⟩⟩
      hours := by decide +kernel
      night := by decide +kernel
      counted := fun labor => by simp [CountedOn, parts, whole, AttendanceEntry.ofHours]
      units := fun labor => by simp [unitsOn, parts, whole, AttendanceEntry.ofHours] }
  have hok : (compute employee [whole] longDay .standard).isOk = true := by decide +kernel
  exact ⟨hwhole, hparts, hadd, hadd', hok,
    (compute_alike hwhole hparts hadd hadd').2.2.1 whole parts [] hsplits (.refl _)
      (by rw [List.append_nil])⟩

end Payroll

end FieldWages
