import FieldWages.Proofs.Diagnostics
import FieldWages.Proofs.Payroll
import FieldWages.Proofs.Sample
import FieldWages.Proofs.SameWork.Hours
import FieldWages.Proofs.Unpaid.Piecework

/-!
# Entries without paid hours

Hours, worked dates and weekly rest days are those of the entries that have hours to
be paid; the other entries might as well not be there. It is only by their units that
these come into the pay: with units that are not paid for by hours, a date can have
piecework, and count towards the score, without being a date worked.

* `PayrollDetail.SameDays`: details of the same hours and the same dates;
* `Payroll.compute_paidPart`: what unpaid entries change about a detail, and when they
  change nothing.
-/

namespace FieldWages

variable {as : List AttendanceEntry}

theorem DailyHoursMap.ofAttendance_paidPart (es : List AttendanceEntry) (p : Period) :
    ofAttendance (paidPart es) p = ofAttendance es p := by
  rw [ofAttendance, ofAttendance, paidPart, List.foldlM_filter]
  congr 1
  funext daily e
  split
  · rfl
  · next hpaid =>
    -- An entry that is not paid is passed over.
    rw [Bool.not_eq_true, Option.isSome_eq_false_iff, Option.isNone_iff_eq_none] at hpaid
    rw [addEntry, hpaid]
    cases p.contains e.workDate <;> rfl

/-- Whether two details have the same hours, and the same dates but for their piecework. -/
structure PayrollDetail.SameDays (a b : PayrollDetail) : Prop where
  hours : b.hours = a.hours
  daysWorked : b.daysWorked = a.daysWorked
  restDayWeeks : b.restDayWeeks = a.restDayWeeks
  dayDetails : List.Forall₂ (fun x y => ∃ percent, y = { x with productivityPercent := percent })
    a.dayDetails b.dayDetails

namespace Payroll

variable {employee : Employee} {inputs : PayrollInputs} {registry : Registry}
  {detail detail' : PayrollDetail}

theorem refusal?_paidPart {q : Parameters} (h : refusal? employee as q = none) :
    refusal? employee (paidPart as) q = none := by
  have hentries : as.findSome? (entryRefusal? employee) = none →
      (paidPart as).findSome? (entryRefusal? employee) = none := by
    intro h
    rw [List.findSome?_eq_none_iff] at h ⊢
    exact fun e he => h e (List.mem_of_mem_filter he)
  rw [refusal?] at h ⊢
  split_ifs at h ⊢
  exact hentries h

theorem attendedDates_paidPart (first last : Date) :
    attendedDates (paidPart as) first last = attendedDates as first last := by
  rw [attendedDates, paidPart, List.filter_filter]
  simp only [Bool.and_self]
  rfl

/-- If the pieces are paid, unpaid entries only add diagnostics to the context. -/
theorem context_paidPart (h : PiecesPaid inputs.labors inputs.parameters.period as)
    (employee : Employee) : Alike PayContext.SameButDiagnostics (context employee as inputs)
      (context employee (paidPart as) inputs) := by
  rw [context, context, DailyHoursMap.ofAttendance_paidPart]
  refine Alike.bind_same fun daily _ => Alike.bind_same fun hours _ => ?_
  refine (PieceworkSummary.ofAttendance_paidPart h).bind fun hpiecework => ?_
  obtain ⟨g, rfl⟩ := hpiecework
  refine Alike.bind_same fun rate _ => Alike.bind_same fun hourly _ => ?_
  refine Alike.bind_same fun basicPay _ => Alike.bind_same fun first _ => ?_
  rw [attendedDates_paidPart]
  exact Alike.bind_same fun restDays _ => .ok ⟨_, rfl⟩

/-- If unpaid entries count no units, they do not even add diagnostics. -/
theorem context_paidPart_eq (h : ∀ e ∈ unpaidPart as, ¬e.CountsIn inputs.parameters.period)
    (employee : Employee) :
    context employee (paidPart as) inputs = context employee as inputs := by
  rw [context, context, DailyHoursMap.ofAttendance_paidPart,
    PieceworkSummary.ofAttendance_paidPart_eq h]
  simp only [attendedDates_paidPart]

/-- Unpaid entries change neither the hours nor the dates of a detail. -/
theorem sameDays_paidPart (h : compute employee as inputs registry = .ok detail)
    (h' : compute employee (paidPart as) inputs registry = .ok detail') :
    detail.SameDays detail' := by
  obtain ⟨ctx, hctx, hhours, hweeks, -, hdays, hdetails⟩ := compute_spec h
  obtain ⟨ctx', hctx', hhours', hweeks', -, hdays', hdetails'⟩ := compute_spec h'
  have hp := prepared_of_context hctx
  have hp' := prepared_of_context hctx'
  have hdaily : ctx'.dailyHours = ctx.dailyHours := by
    have hok := hp'.dailyHours
    rw [DailyHoursMap.ofAttendance_paidPart, hp.dailyHours] at hok
    exact (Except.ok.inj hok).symm
  have hdates : ctx'.workedDates = ctx.workedDates := by
    rw [hp'.workedDates_eq, hp.workedDates_eq, hdaily]
  have hctxHours : ctx'.hours = ctx.hours := by
    have hok := hp'.hours
    rw [hdaily, hp.hours] at hok
    exact (Except.ok.inj hok).symm
  have hrate : ctx'.dailyRate = ctx.dailyRate :=
    Except.ok.inj (hp'.dailyRate.symm.trans hp.dailyRate)
  have hrestDays : ctx'.restDays = ctx.restDays := by
    obtain ⟨first, hfirst, hok⟩ := hp.restDays
    obtain ⟨first', hfirst', hok'⟩ := hp'.restDays
    cases hfirst.symm.trans hfirst'
    rw [attendedDates_paidPart, hrate, hok] at hok'
    exact (Except.ok.inj hok').symm
  refine ⟨?_, ?_, ?_, ?_⟩
  · rw [hhours, hhours', hctxHours]
  · rw [hdays, hdays', PayContext.daysWorked, PayContext.daysWorked, hdates]
  · rw [hweeks, hweeks', hrestDays]
  · rw [hdetails, hdetails', hdates, List.forall₂_map_left_iff, List.forall₂_map_right_iff]
    refine List.forall₂_same.2 fun d _ => ⟨(PayrollDetail.dayOf ctx' d).productivityPercent, ?_⟩
    rw [PayrollDetail.dayOf, PayrollDetail.dayOf, PayContext.dayFlags?, PayContext.dayFlags?,
      hdaily, hp'.calendar_eq, hp.calendar_eq]

/-- The dates a detail shows are those of the period that were worked. -/
theorem exists_dayDetails_iff (h : compute employee as inputs registry = .ok detail) {d : Date} :
    (∃ day ∈ detail.dayDetails, day.date = d) ↔
      inputs.parameters.period.contains d ∧ WorkedOn as d := by
  obtain ⟨ctx, hctx, -, -, -, -, hdetails⟩ := compute_spec h
  have hp := prepared_of_context hctx
  rw [hdetails, hp.workedDates_eq, ← DailyHoursMap.mem_keys_ofAttendance hp.dailyHours]
  constructor
  · rintro ⟨day, hday, rfl⟩
    obtain ⟨d, hd, rfl⟩ := List.mem_map.1 hday
    exact hd
  · exact fun hd => ⟨_, List.mem_map_of_mem hd, rfl⟩

/-- If the pieces of an accepted input are paid, the detail without the unpaid entries is
    the same but for diagnostics, and all dates with piecework are shown; if these count no
    units, it is the same. In any case it has the same hours and dates, and the same
    piecework only if the pieces are paid. -/
theorem compute_paidPart (has : refusal? employee as inputs.parameters = none) :
    let p := inputs.parameters.period
    let paid := PiecesPaid inputs.labors p as
    let whole := compute employee as inputs registry
    let part := compute employee (paidPart as) inputs registry
    (registry.IgnoresDiagnostics → paid → Alike PayrollDetail.SameButDiagnostics whole part) ∧
    ((∀ e ∈ unpaidPart as, ¬e.CountsIn p) → part = whole) ∧
    (∀ detail detail', whole = .ok detail → part = .ok detail' → detail.SameDays detail') ∧
    (∀ s s', PieceworkSummary.ofAttendance as inputs.labors p = .ok s →
      PieceworkSummary.ofAttendance (paidPart as) inputs.labors p = .ok s' →
      (s.SameButDiagnostics s' ↔ paid)) ∧
    ∀ detail s, whole = .ok detail → PieceworkSummary.ofAttendance as inputs.labors p = .ok s →
      let Shown := ∀ d, (s.days.get? d).isSome → ∃ day ∈ detail.dayDetails, day.date = d
      (paid → Shown) ∧
        (Shown ↔ ∀ x ∈ piecesOf inputs.labors p (unpaidPart as), WorkedOn as x.date) := by
  intro p paid whole part
  have hwhole : whole = Failure.lift (computeAccepted employee as inputs registry) := by
    rw [show whole = compute employee as inputs registry from rfl, compute, has]
  have hpart : part = Failure.lift (computeAccepted employee (paidPart as) inputs registry) := by
    rw [show part = compute employee (paidPart as) inputs registry from rfl, compute,
      refusal?_paidPart has]
  refine ⟨fun hr hpaid => ?_, fun hcounts => ?_, fun _ _ => sameDays_paidPart,
    fun _ _ => PieceworkSummary.sameButDiagnostics_iff, fun detail s hdetail hs => ?_⟩
  · rw [hwhole, hpart]
    refine Failure.lift_alike ((context_paidPart hpaid employee).bind fun hctx => ?_)
    exact (ConceptRun.ofContext_sameButDiagnostics hr hctx).bind
      PayrollDetail.assemble_sameButDiagnostics
  · rw [hwhole, hpart, computeAccepted, context_paidPart_eq hcounts, ← computeAccepted]
  · have hshown : (∀ d, (s.days.get? d).isSome → ∃ day ∈ detail.dayDetails, day.date = d) ↔
        ∀ x ∈ piecesOf inputs.labors p (unpaidPart as), WorkedOn as x.date := by
      simp only [PieceworkSummary.isSome_get?_days hs, exists_dayDetails_iff hdetail]
      exact qualifies_imp_worked_iff
    refine ⟨fun hpaid => hshown.2 fun x hx => ?_, hshown⟩
    obtain ⟨y, hy, hd, -⟩ := (hpaid x hx).2
    exact hd ▸ workedOn_of_mem_piecesOf hy

/-- A day of harvest, paid by the unit above twenty-five. -/
def harvest : PayrollInputs where
  parameters := .plain (.between 0 0) 1
  calendar := ⟨.empty⟩
  labors := [("HARVEST", ⟨"HARVEST", "Harvest", true, some 25, Decimal.ofParts? 150 2⟩)]
  concepts := [.plain "PIECEWORK_EXCESS" .income none]

/-- An entry of so many units harvested, without hours to be paid. -/
def unpaidHarvest (units : UInt32) : AttendanceEntry :=
  { AttendanceEntry.ofUnits 0 units "HARVEST" with paidHours := none }

/-- A second entry without hours and units changes nothing. -/
theorem compute_paidPart_harvest :
    let as := [.ofUnits 0 30 "HARVEST", unpaidHarvest 0]
    refusal? .plain as harvest.parameters = none ∧
    PiecesPaid harvest.labors harvest.parameters.period as ∧
    (compute .plain as harvest .standard).isOk ∧
    Alike PayrollDetail.SameButDiagnostics (compute .plain as harvest .standard)
      (compute .plain (paidPart as) harvest .standard) := by
  intro as
  have has : refusal? .plain as harvest.parameters = none := by decide +kernel
  have hpaid : PiecesPaid harvest.labors harvest.parameters.period as := by decide +kernel
  exact ⟨has, hpaid, by decide +kernel,
    (compute_paidPart has).1 Registry.ignoresDiagnostics_standard hpaid⟩

/-- Thirty units without hours are paid for and make the score, on no date worked. -/
theorem not_sameButDiagnostics_harvest :
    refusal? .plain [unpaidHarvest 30] harvest.parameters = none ∧
    ∃ detail detail', compute .plain [unpaidHarvest 30] harvest .standard = .ok detail ∧
      compute .plain (paidPart [unpaidHarvest 30]) harvest .standard = .ok detail' ∧
      detail.netPay ≠ detail'.netPay ∧ detail.productivityScore = some fullScore ∧
      detail'.productivityScore = none ∧ detail.dayDetails = [] := by
  have hwhole : (compute .plain [unpaidHarvest 30] harvest .standard).map
      (fun d => (some d.netPay, d.productivityScore, d.dayDetails)) =
        .ok (Decimal.ofParts? 750 2, some fullScore, []) := by
    decide +kernel
  have hpart : (compute .plain (paidPart [unpaidHarvest 30]) harvest .standard).map
      (fun d => (d.netPay.toRat, d.productivityScore)) = .ok (0, none) := by
    decide +kernel
  obtain ⟨detail, hdetail, hfound⟩ := map_eq_ok.1 hwhole
  obtain ⟨detail', hdetail', hfound'⟩ := map_eq_ok.1 hpart
  simp only [Prod.mk.injEq] at hfound hfound'
  refine ⟨by decide +kernel, detail, detail', hdetail, hdetail', fun heq => ?_, hfound.2.1,
    hfound'.2, hfound.2.2⟩
  have hzero : (Decimal.ofParts? 750 2).map Decimal.toRat = some 0 := by
    rw [← hfound.1, Option.map_some, heq, hfound'.1]
  exact absurd hzero (by decide +kernel)

end Payroll

end FieldWages
