import FieldWages.Proofs.ConceptRun.Selection
import FieldWages.Proofs.Cut.Hours
import FieldWages.Proofs.Cut.Pay
import FieldWages.Proofs.WorkedDates

/-!
# Details of a cut period

If a period is cut in two and the parts are calculated with the same attendance, every stage
shares out its days between them: none is lost at the cut, and none counted twice. So the
detail of the whole shows the days of the parts one behind the other, and its counts, its
hours and its pay by the unit are sums (`PayrollDetail.IsJoined`). Only the basic salary may
be off, by the hundredth it is rounded to.

* `Payroll.PreparedCut`: the contexts of a period and its parts, and what stage after stage
  makes of the cut;
* `Payroll.ComputesExactly`: calculations that stay in range and drop no digit;
* `Payroll.lines_of_compute`: where the lines of a detail come from;
* `Payroll.compute_cut`: the detail of a period is joined from those of its parts.
-/

namespace FieldWages

/-! ## Contexts -/

namespace Payroll

variable {employee : Employee} {attendance : List AttendanceEntry} {inputs : PayrollInputs}
  {whole first second : Period} {ctx ctx₁ ctx₂ : PayContext}

/-- The flags of a date are the same in all periods it lies in. -/
theorem Prepared.dayFlags?_eq {p : Period} {d : Date}
    (h : Prepared employee attendance (inputs.over p) ctx) (hd : p.contains d) :
    ctx.dayFlags? d =
      some ⟨inputs.calendar.isHoliday d, d.isSunday, inputs.calendar.isWorkingDay d⟩ := by
  rw [Period.contains, Bool.and_eq_true, decide_eq_true_iff, decide_eq_true_iff] at hd
  rw [PayContext.dayFlags?, h.calendar_eq]
  exact get?_flagsOf hd

/-- The contexts of a period that is cut in two, and of its parts. -/
structure PreparedCut (employee : Employee) (attendance : List AttendanceEntry)
    (inputs : PayrollInputs) (whole first second : Period) (ctx ctx₁ ctx₂ : PayContext) :
    Prop where
  divided : whole.Divided [first, second]
  whole : Prepared employee attendance (inputs.over whole) ctx
  first : Prepared employee attendance (inputs.over first) ctx₁
  second : Prepared employee attendance (inputs.over second) ctx₂

namespace PreparedCut

variable (h : PreparedCut employee attendance inputs whole first second ctx ctx₁ ctx₂)

include h

theorem contains_first {d : Date} (hd : first.contains d) : whole.contains d :=
  (h.divided.contains_cut d).2 (.inl hd)

theorem contains_second {d : Date} (hd : second.contains d) : whole.contains d :=
  (h.divided.contains_cut d).2 (.inr hd)

theorem dailyHours : ctx.dailyHours.entries = ctx₁.dailyHours.entries ++ ctx₂.dailyHours.entries :=
  DailyHoursMap.entries_cut h.divided h.whole.dailyHours h.first.dailyHours h.second.dailyHours

theorem workedDates : ctx.workedDates = ctx₁.workedDates ++ ctx₂.workedDates := by
  rw [h.whole.workedDates_eq, h.first.workedDates_eq, h.second.workedDates_eq, SortedMap.keys,
    h.dailyHours, List.map_append, SortedMap.keys, SortedMap.keys]

theorem piecework : ctx.piecework.days.entries =
      ctx₁.piecework.days.entries ++ ctx₂.piecework.days.entries ∧
    ctx.piecework.score = Option.merge Decimal.min ctx₁.piecework.score ctx₂.piecework.score := by
  obtain ⟨found, hfound, heq, -⟩ := h.whole.piecework
  obtain ⟨found₁, hfound₁, heq₁, -⟩ := h.first.piecework
  obtain ⟨found₂, hfound₂, heq₂, -⟩ := h.second.piecework
  have hentries := PieceworkSummary.entries_cut h.divided hfound hfound₁ hfound₂
  have hscore := PieceworkSummary.score_cut h.divided hfound hfound₁ hfound₂
  rw [heq, heq₁, heq₂]
  exact ⟨hentries, hscore⟩

theorem totalExcessPay (hexact : ∀ x ∈ [ctx, ctx₁, ctx₂],
      Along Decimal.add Decimal.AddsExactly .zero (x.piecework.days.values.map (·.excessPay))) :
    ctx.piecework.totalExcessPay.toRat =
      ctx₁.piecework.totalExcessPay.toRat + ctx₂.piecework.totalExcessPay.toRat := by
  obtain ⟨found, hfound, heq, -⟩ := h.whole.piecework
  obtain ⟨found₁, hfound₁, heq₁, -⟩ := h.first.piecework
  obtain ⟨found₂, hfound₂, heq₂, -⟩ := h.second.piecework
  have htotal := PieceworkSummary.totalExcessPay_cut h.divided hfound hfound₁ hfound₂
  rw [heq, heq₁, heq₂]
  exact htotal (by simpa [heq, heq₁, heq₂] using hexact)

/-- What is due for the dates of the period is due for those of the parts. -/
theorem salaryDue :
    ConceptRun.salaryDue ctx = ConceptRun.salaryDue ctx₁ + ConceptRun.salaryDue ctx₂ := by
  have hrate₁ : ctx₁.dailyRate = ctx.dailyRate :=
    Except.ok.inj (h.first.dailyRate.symm.trans h.whole.dailyRate)
  have hrate₂ : ctx₂.dailyRate = ctx.dailyRate :=
    Except.ok.inj (h.second.dailyRate.symm.trans h.whole.dailyRate)
  have hpay := h.whole.basicPay
  have hpay₁ := h.first.basicPay
  have hpay₂ := h.second.basicPay
  rw [h.workedDates] at hpay
  rw [hrate₁] at hpay₁
  rw [hrate₂] at hpay₂
  rw [ConceptRun.salaryDue, ConceptRun.salaryDue, ConceptRun.salaryDue, h.whole.employee_eq,
    h.first.employee_eq, h.second.employee_eq]
  split
  · exact (add_zero 0).symm
  · exact BasicPay.due_append hpay hpay₁ hpay₂

/-- The piecework of a date is the same in the part it lies in. -/
theorem get?_piecework :
    (∀ d, first.contains d → ctx.piecework.days.get? d = ctx₁.piecework.days.get? d) ∧
      ∀ d, second.contains d → ctx.piecework.days.get? d = ctx₂.piecework.days.get? d := by
  have hkeys : ∀ {p : Period} {x : PayContext}, Prepared employee attendance (inputs.over p) x →
      ∀ d ∈ x.piecework.days.keys, p.contains d := by
    intro p x hx d hd
    obtain ⟨found, hfound, heq, -⟩ := hx.piecework
    rw [heq] at hd
    exact PieceworkSummary.contains_of_mem_keys hfound hd
  exact (h.divided.entries_eq_append_iff (hkeys h.whole) (hkeys h.first) (hkeys h.second)).1
    h.piecework.1

/-- The days of a part are shown as they are in the whole. -/
theorem map_dayOf {p : Period} {x : PayContext}
    (hx : Prepared employee attendance (inputs.over p) x)
    (hp : ∀ {d}, p.contains d → whole.contains d)
    (hpiecework : ∀ d, p.contains d → ctx.piecework.days.get? d = x.piecework.days.get? d) :
    x.workedDates.map (PayrollDetail.dayOf ctx) = x.workedDates.map (PayrollDetail.dayOf x) := by
  refine List.map_congr_left fun d hd => ?_
  rw [hx.workedDates_eq, DailyHoursMap.mem_keys_ofAttendance hx.dailyHours] at hd
  have hhours := DailyHoursMap.get?_ofAttendance h.whole.dailyHours hx.dailyHours (hp hd.1) hd.1
  rw [PayrollDetail.dayOf, PayrollDetail.dayOf, hhours, hpiecework d hd.1,
    h.whole.dayFlags?_eq (hp hd.1), hx.dayFlags?_eq hd.1]

/-- The days of the period are shown as those of its parts. -/
theorem dayDetails : ctx.workedDates.map (PayrollDetail.dayOf ctx) =
    ctx₁.workedDates.map (PayrollDetail.dayOf ctx₁) ++
      ctx₂.workedDates.map (PayrollDetail.dayOf ctx₂) := by
  rw [h.workedDates, List.map_append, h.map_dayOf h.first h.contains_first h.get?_piecework.1,
    h.map_dayOf h.second h.contains_second h.get?_piecework.2]

end PreparedCut

/-! ## Exact calculations -/

/-- Whether nothing gets out of range in a calculation, and no digit is dropped where hours
    and pay are added up. -/
structure ComputesExactly (employee : Employee) (attendance : List AttendanceEntry)
    (inputs : PayrollInputs) : Prop where
  inRange : (computeAccepted employee attendance inputs .standard).isOk
  hours : HoursExact attendance inputs.parameters inputs.calendar
  nightHours : Along (DailyHoursMap.addEntry inputs.parameters.period)
    (DailyHoursMap.NightExact inputs.parameters.period) .empty attendance
  restHours : ∀ ctx, context employee attendance inputs = .ok ctx →
    Along (HourSums.addDay inputs.parameters.dailyNormalHours
        inputs.parameters.overtime.tier1Hours inputs.calendar)
      (HourSums.RestExact inputs.parameters.dailyNormalHours inputs.calendar) .none
      ctx.dailyHours.entries
  basicPay : ∀ ctx, context employee attendance inputs = .ok ctx →
    Along Decimal.add Decimal.AddsExactly .zero (ctx.basicPay.days.map (·.amount))
  excessPay : ∀ ctx, context employee attendance inputs = .ok ctx →
    Along Decimal.add Decimal.AddsExactly .zero (ctx.piecework.days.values.map (·.excessPay))

/-- An accepted input has a detail if nothing leaves its range. -/
theorem ComputesExactly.exists_compute_eq_ok (h : ComputesExactly employee attendance inputs)
    (haccepted : refusal? employee attendance inputs.parameters = none) :
    ∃ detail, compute employee attendance inputs .standard = .ok detail := by
  have hok := h.inRange
  rw [compute, haccepted]
  cases hcompute : computeAccepted employee attendance inputs .standard with
  | error f =>
    rw [hcompute] at hok
    cases hok
  | ok detail => exact ⟨detail, rfl⟩

/-- The hours of a context are the sums of the parts of its days. -/
theorem ComputesExactly.numbers_hours (h : ComputesExactly employee attendance inputs)
    (hctx : context employee attendance inputs = .ok ctx)
    (hpaid : ∀ e ∈ attendance, inputs.parameters.period.contains e.workDate →
      ∀ hours ∈ e.paidHours, HasPlaces 2 hours.toRat)
    (hn : HasPlaces 2 inputs.parameters.dailyNormalHours.toRat)
    (ht : HasPlaces 2 inputs.parameters.overtime.tier1Hours.toRat) :
    ctx.hours.numbers = (ctx.dailyHours.entries.map
        (HourSums.dayNumbers inputs.parameters.dailyNormalHours
          inputs.parameters.overtime.tier1Hours inputs.calendar)).sum ∧
      ctx.hours.total.toRat = ctx.hours.normal.toRat + ctx.hours.overtimeTier1.toRat +
        ctx.hours.overtimeTier2.toRat + ctx.hours.holidaySunday.toRat := by
  have hprepared := prepared_of_context hctx
  obtain ⟨hdays, hsums⟩ := h.hours.days _ hprepared.dailyHours
  have hexact : HourBreakdown.SplitsExactly ctx.dailyHours inputs.parameters.dailyNormalHours
      inputs.parameters.overtime.tier1Hours inputs.calendar :=
    ⟨hdays, h.restHours ctx hctx, hsums⟩
  exact ⟨HourBreakdown.numbers_ofAttendance hprepared.dailyHours hprepared.hours hexact
    h.hours.entries h.nightHours hpaid hn ht, (HourBreakdown.numbers_ofDaily hprepared.hours hexact).2⟩

/-- The hours of a period are the sums of those of its parts. -/
theorem isSum_hours (hcut : whole.Divided [first, second])
    (hctx : context employee attendance (inputs.over whole) = .ok ctx)
    (hctx₁ : context employee attendance (inputs.over first) = .ok ctx₁)
    (hctx₂ : context employee attendance (inputs.over second) = .ok ctx₂)
    (hpaid : ∀ e ∈ attendance, whole.contains e.workDate →
      ∀ hours ∈ e.paidHours, HasPlaces 2 hours.toRat)
    (hn : HasPlaces 2 inputs.parameters.dailyNormalHours.toRat)
    (ht : HasPlaces 2 inputs.parameters.overtime.tier1Hours.toRat)
    (hexact : ∀ p ∈ [whole, first, second],
      ComputesExactly employee attendance (inputs.over p)) :
    ctx.hours.IsSum ctx₁.hours ctx₂.hours := by
  have hprepared : PreparedCut employee attendance inputs whole first second ctx ctx₁ ctx₂ :=
    ⟨hcut, prepared_of_context hctx, prepared_of_context hctx₁, prepared_of_context hctx₂⟩
  obtain ⟨hnumbers, htotal⟩ := (hexact whole (by simp)).numbers_hours hctx hpaid hn ht
  obtain ⟨hnumbers₁, htotal₁⟩ := (hexact first (by simp)).numbers_hours hctx₁
    (fun e he hd => hpaid e he (hprepared.contains_first hd)) hn ht
  obtain ⟨hnumbers₂, htotal₂⟩ := (hexact second (by simp)).numbers_hours hctx₂
    (fun e he hd => hpaid e he (hprepared.contains_second hd)) hn ht
  refine HourBreakdown.isSum_of_numbers ?_ ?_
  · rw [hnumbers, hnumbers₁, hnumbers₂, hprepared.dailyHours, List.map_append, List.sum_append]
    rfl
  · simp only [List.forall_mem_cons]
    exact ⟨htotal, htotal₁, htotal₂, List.forall_mem_nil _⟩

end Payroll

/-! ## Lines -/

/-- The amounts of the lines of a code. -/
def PayrollDetail.amountsOf (d : PayrollDetail) (code : String) : List Decimal :=
  (d.concepts.filter (sameCode ·.code code)).map (·.amount)

namespace Payroll

variable {registry : Registry} {detail : PayrollDetail}

/-- The lines of a detail are found in its context, for the concepts that have one. -/
theorem lines_of_compute (h : compute employee attendance inputs registry = .ok detail)
    (hctx : context employee attendance inputs = .ok ctx) :
    (∀ l ∈ detail.concepts, ConceptRun.FoundIn ctx registry l) ∧
      detail.concepts.map ConceptRun.shapeOf =
        (inputs.concepts.filter (·.HasLine employee registry)).map
          fun c => (c.code, c.category, c.value) := by
  obtain ⟨-, ctx', run, hctx', hrun, h⟩ := compute_eq_ok_iff.1 h
  cases hctx.symm.trans hctx'
  obtain ⟨net, -, h⟩ := bind_eq_ok.1 h
  rw [pure_eq_ok] at h
  subst h
  obtain ⟨log, hlog, htells⟩ := ConceptRun.exists_log hrun
  have hprepared := prepared_of_context hctx
  refine ⟨fun l => ConceptRun.foundIn_of_mem_lines hrun, ?_⟩
  rw [htells.map_shapeOf_lines, hlog, hprepared.concepts_eq, hprepared.employee_eq]

theorem exists_of_mem_amountsOf {code : String} {x : Decimal} (hx : x ∈ detail.amountsOf code) :
    ∃ l ∈ detail.concepts, sameCode l.code code ∧ l.amount = x := by
  obtain ⟨l, hl, rfl⟩ := List.mem_map.1 hx
  obtain ⟨hl, hcode⟩ := List.mem_filter.1 hl
  exact ⟨l, hl, hcode, rfl⟩

/-- Every line for excess units shows what the piecework comes to. -/
theorem toRat_of_mem_pieceworkExcess
    (h : compute employee attendance inputs .standard = .ok detail)
    (hctx : context employee attendance inputs = .ok ctx) {x : Decimal}
    (hx : x ∈ detail.amountsOf "PIECEWORK_EXCESS") :
    x.toRat = ctx.piecework.totalExcessPay.toRat := by
  obtain ⟨l, hl, hcode, rfl⟩ := exists_of_mem_amountsOf hx
  obtain ⟨found, hfound, heq, -⟩ := (prepared_of_context hctx).piecework
  have hscale := PieceworkSummary.scale_totalExcessPay_le hfound
  rw [((lines_of_compute h hctx).1 l hl).amount_pieceworkExcess hcode, heq]
  exact Decimal.toRat_toHundredths (Decimal.hasPlaces_of_scale_le hscale)

/-- Every line for the basic salary shows what is due for the dates worked. -/
theorem isHundredthsOf_of_mem_basicSalary (hexact : ComputesExactly employee attendance inputs)
    (h : compute employee attendance inputs .standard = .ok detail)
    (hctx : context employee attendance inputs = .ok ctx) {x : Decimal}
    (hx : x ∈ detail.amountsOf "BASIC_SALARY") :
    IsHundredthsOf x.toRat (ConceptRun.salaryDue ctx) := by
  obtain ⟨l, hl, hcode, rfl⟩ := exists_of_mem_amountsOf hx
  exact ((lines_of_compute h hctx).1 l hl).amount_basicSalary hcode
    (prepared_of_context hctx).basicPay (hexact.basicPay ctx hctx)

end Payroll

/-! ## Details -/

/-- Whether a detail is joined from those of the parts of its period: days, counts, hours
    and the pay of excess units add up, the score is the smaller one, and the basic salary
    is off by a hundredth at most. -/
structure PayrollDetail.IsJoined (whole first second : PayrollDetail) : Prop where
  dayDetails : whole.dayDetails = first.dayDetails ++ second.dayDetails
  daysWorked : whole.daysWorked.toNat = first.daysWorked.toNat + second.daysWorked.toNat
  hours : whole.hours.IsSum first.hours second.hours
  productivityScore : whole.productivityScore =
    Option.merge Decimal.min first.productivityScore second.productivityScore
  /-- The parts have lines for the same concepts as the whole. -/
  lines : ∀ part ∈ [first, second],
    part.concepts.map ConceptRun.shapeOf = whole.concepts.map ConceptRun.shapeOf
  pieceworkExcess : ∀ x ∈ whole.amountsOf "PIECEWORK_EXCESS",
    ∀ x₁ ∈ first.amountsOf "PIECEWORK_EXCESS", ∀ x₂ ∈ second.amountsOf "PIECEWORK_EXCESS",
      x.toRat = x₁.toRat + x₂.toRat
  basicSalary : ∀ x ∈ whole.amountsOf "BASIC_SALARY", ∀ x₁ ∈ first.amountsOf "BASIC_SALARY",
    ∀ x₂ ∈ second.amountsOf "BASIC_SALARY", |x.toRat - (x₁.toRat + x₂.toRat)| ≤ 1 / 100

namespace Payroll

variable {employee : Employee} {attendance : List AttendanceEntry} {inputs : PayrollInputs}
  {whole first second : Period}

/-- If the period of an accepted input is cut in two, the parts are accepted, too, and the
    detail of the whole is joined from theirs: hours and limits are in hundredths here, and
    the calculations stay in range and drop no digit. -/
theorem compute_cut (hcut : whole.Divided [first, second])
    (haccepted : refusal? employee attendance (inputs.over whole).parameters = none)
    (hpaid : ∀ e ∈ attendance, whole.contains e.workDate →
      ∀ hours ∈ e.paidHours, HasPlaces 2 hours.toRat)
    (hn : HasPlaces 2 inputs.parameters.dailyNormalHours.toRat)
    (ht : HasPlaces 2 inputs.parameters.overtime.tier1Hours.toRat)
    (hexact : ∀ p ∈ [whole, first, second],
      ComputesExactly employee attendance (inputs.over p)) :
    ∃ detail detail₁ detail₂,
      compute employee attendance (inputs.over whole) .standard = .ok detail ∧
      compute employee attendance (inputs.over first) .standard = .ok detail₁ ∧
      compute employee attendance (inputs.over second) .standard = .ok detail₂ ∧
      detail.IsJoined detail₁ detail₂ := by
  have hexact₀ := hexact whole (by simp)
  have hexact₁ := hexact first (by simp)
  have hexact₂ := hexact second (by simp)
  have hparts : ∀ p ∈ [first, second],
      refusal? employee attendance (inputs.over p).parameters = none := fun p hp =>
    (refusal?_over (hcut.start_le_stop_of_mem hp) hcut.start_le_stop).trans haccepted
  obtain ⟨detail, h⟩ := hexact₀.exists_compute_eq_ok haccepted
  obtain ⟨detail₁, h₁⟩ := hexact₁.exists_compute_eq_ok (hparts first (by simp))
  obtain ⟨detail₂, h₂⟩ := hexact₂.exists_compute_eq_ok (hparts second (by simp))
  refine ⟨detail, detail₁, detail₂, h, h₁, h₂, ?_⟩
  obtain ⟨ctx, hctx, hhours, -, hscore, hcount, hdays⟩ := compute_spec h
  obtain ⟨ctx₁, hctx₁, hhours₁, -, hscore₁, hcount₁, hdays₁⟩ := compute_spec h₁
  obtain ⟨ctx₂, hctx₂, hhours₂, -, hscore₂, hcount₂, hdays₂⟩ := compute_spec h₂
  have hprepared : PreparedCut employee attendance inputs whole first second ctx ctx₁ ctx₂ :=
    ⟨hcut, prepared_of_context hctx, prepared_of_context hctx₁, prepared_of_context hctx₂⟩
  refine ⟨?_, ?_, ?_, ?_, ?_, fun x hx x₁ hx₁ x₂ hx₂ => ?_, fun x hx x₁ hx₁ x₂ hx₂ => ?_⟩
  · rw [hdays, hdays₁, hdays₂, hprepared.dayDetails]
  · rw [(datesAgree hprepared.whole hdays hcount).counted,
      (datesAgree hprepared.first hdays₁ hcount₁).counted,
      (datesAgree hprepared.second hdays₂ hcount₂).counted, hprepared.workedDates,
      List.length_append]
  · rw [hhours, hhours₁, hhours₂]
    exact isSum_hours hcut hctx hctx₁ hctx₂ hpaid hn ht hexact
  · rw [hscore, hscore₁, hscore₂, hprepared.piecework.2]
  · rw [(lines_of_compute h hctx).2]
    simp only [List.forall_mem_cons]
    exact ⟨(lines_of_compute h₁ hctx₁).2, (lines_of_compute h₂ hctx₂).2, List.forall_mem_nil _⟩
  · rw [toRat_of_mem_pieceworkExcess h hctx hx, toRat_of_mem_pieceworkExcess h₁ hctx₁ hx₁,
      toRat_of_mem_pieceworkExcess h₂ hctx₂ hx₂]
    refine hprepared.totalExcessPay ?_
    simp only [List.forall_mem_cons]
    exact ⟨hexact₀.excessPay ctx hctx, hexact₁.excessPay ctx₁ hctx₁, hexact₂.excessPay ctx₂ hctx₂,
      List.forall_mem_nil _⟩
  · have hdue := isHundredthsOf_of_mem_basicSalary hexact₀ h hctx hx
    rw [hprepared.salaryDue] at hdue
    exact hdue.abs_sub_add_le (isHundredthsOf_of_mem_basicSalary hexact₁ h₁ hctx₁ hx₁)
      (isHundredthsOf_of_mem_basicSalary hexact₂ h₂ hctx₂ hx₂)

/-- A harvest, paid by the day and by the unit above twenty-five. -/
def paidHarvest : PayrollInputs where
  parameters := .plain (.between 0 3) 4
  calendar := ⟨.empty⟩
  labors := [("HARVEST", ⟨"HARVEST", "Harvest", true, some 25, Decimal.ofParts? 150 2⟩)]
  concepts := [.plain "BASIC_SALARY" .income none, .plain "PIECEWORK_EXCESS" .income none]

/-- A shift from midnight to half past ten, thirty units on the same day, and twenty two days
    on. -/
def harvestAttendance : List AttendanceEntry :=
  [{ AttendanceEntry.ofHours 0 1050 with
      startTime := some .midnight
      endTime := TimeOfDay.ofParts? 10 30 0 0 },
    .ofUnits 0 30 "HARVEST", .ofUnits 2 20 "HARVEST"]

/-- Four days cut in the middle: the score of the second half is that of the whole, and the
    salaries of the halves are together a hundredth short. -/
theorem compute_cut_harvest :
    let employee := { Employee.plain with monthlySalary := some (.ofUInt32 1000) }
    let compute p := compute employee harvestAttendance (paidHarvest.over p) .standard
    let shown (d : PayrollDetail) := (d.amountsOf "BASIC_SALARY", d.productivityScore)
    ∃ detail detail₁ detail₂, compute (.between 0 3) = .ok detail ∧
      compute (.between 0 1) = .ok detail₁ ∧ compute (.between 2 3) = .ok detail₂ ∧
      detail.IsJoined detail₁ detail₂ ∧
      shown detail = ((Decimal.ofParts? 6667 2).toList, some .zero) ∧
      shown detail₁ = ((Decimal.ofParts? 3333 2).toList, some fullScore) ∧
      shown detail₂ = ((Decimal.ofParts? 3333 2).toList, some .zero) := by
  intro employee compute shown
  have hcut : (Period.between 0 3).Divided [.between 0 1, .between 2 3] :=
    .cut (p := .between 0 1) (q := .between 2 3) (by decide) (by decide) (.whole (by decide))
  have hscale : ∀ e ∈ harvestAttendance, ∀ hours ∈ e.paidHours, hours.scale ≤ 2 := by
    decide +kernel
  have hexact : ∀ p ∈ [Period.between 0 3, .between 0 1, .between 2 3],
      ComputesExactly employee harvestAttendance (paidHarvest.over p) := by
    intro p hp
    refine ⟨?_, ⟨?_, ?_⟩, ?_, ?_, ?_, ?_⟩ <;> revert p <;> decide +kernel
  have hshown : (compute (.between 0 3)).map shown =
      .ok ((Decimal.ofParts? 6667 2).toList, some .zero) := by
    decide +kernel
  have hshown₁ : (compute (.between 0 1)).map shown =
      .ok ((Decimal.ofParts? 3333 2).toList, some fullScore) := by
    decide +kernel
  have hshown₂ : (compute (.between 2 3)).map shown =
      .ok ((Decimal.ofParts? 3333 2).toList, some .zero) := by
    decide +kernel
  obtain ⟨detail, detail₁, detail₂, h, h₁, h₂, hjoined⟩ :=
    compute_cut hcut (by decide +kernel)
      (fun e he _ hours hhours => Decimal.hasPlaces_of_scale_le (hscale e he hours hhours))
      (Decimal.hasPlaces_of_scale_le (by decide)) (Decimal.hasPlaces_of_scale_le (by decide)) hexact
  rw [show compute _ = _ from h] at hshown
  rw [show compute _ = _ from h₁] at hshown₁
  rw [show compute _ = _ from h₂] at hshown₂
  exact ⟨detail, detail₁, detail₂, h, h₁, h₂, hjoined, Except.ok.inj hshown,
    Except.ok.inj hshown₁, Except.ok.inj hshown₂⟩

end Payroll

end FieldWages
