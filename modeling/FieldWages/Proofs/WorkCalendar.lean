import FieldWages.Proofs.Calculators
import FieldWages.Proofs.Diagnostics
import FieldWages.Proofs.WorkedDates

/-!
# What a calendar does not say

A date a calendar does not mention is taken to be no holiday, and a working day unless it
is a Sunday. All stages take it so: a calendar that mentions such dates as what they are
taken to be leads to the same detail, but for the remarks on them
(`Payroll.compute_ofDays`). And no stage asks about a date outside the window of the
period, nor hears of more than the last day a list has of a date.

* `WorkCalendar.ofDays_eq_iff`: when two lists make the same calendar;
* `Payroll.context_calendar`: the stages before the concepts ask about the window only;
* `ConceptRun.ofContext_keeping`: diagnostics that are dated pass through the concepts.
-/

namespace FieldWages

/-! ## Calendars -/

/-- The last day of a list for a date. -/
def CalendarDay.lastOn (days : List CalendarDay) (d : Date) : Option CalendarDay :=
  days.reverse.find? fun day => day.date = d

theorem CalendarDay.lastOn_concat (days : List CalendarDay) (day : CalendarDay) (d : Date) :
    lastOn (days ++ [day]) d = if day.date = d then some day else lastOn days d := by
  rw [lastOn, List.reverse_append, List.reverse_singleton, List.singleton_append, List.find?_cons,
    ← lastOn]
  by_cases h : day.date = d
  · rw [if_pos h, decide_eq_true h]
  · rw [if_neg h, decide_eq_false h]

/-- What a date is taken to be if nothing is said of it. -/
def CalendarDay.assumed (d : Date) : CalendarDay := ⟨d, !d.isSunday, false⟩

namespace WorkCalendar

variable {c c' : WorkCalendar} {d : Date} {days days' : List CalendarDay}

/-- A calendar says of a date what the last day for it says. -/
theorem day?_ofDays (days : List CalendarDay) (d : Date) :
    (ofDays days).day? d = CalendarDay.lastOn days d := by
  rw [day?, ofDays, SortedMap.get?_ofList, ← List.map_reverse, List.find?_map, Option.map_map]
  exact Option.map_id'

/-- Of several days for one date only the last matters. -/
theorem ofDays_eq_iff :
    ofDays days = ofDays days' ↔ ∀ d, CalendarDay.lastOn days d = CalendarDay.lastOn days' d := by
  constructor
  · intro h d
    rw [← day?_ofDays, ← day?_ofDays, h]
  · intro h
    have hdays : (ofDays days).days = (ofDays days').days := SortedMap.ext_get? fun d => by
      have hd := h d
      rwa [← day?_ofDays, ← day?_ofDays] at hd
    exact congrArg WorkCalendar.mk hdays

/-- Dates mentioned in addition, as what they are taken to be, are found as that. -/
theorem day?_ofDays_assumed (dates : List Date) (d : Date) :
    (ofDays (days ++ dates.map .assumed)).day? d =
      if d ∈ dates then some (.assumed d) else (ofDays days).day? d := by
  rw [day?_ofDays, day?_ofDays]
  induction dates using List.reverseRecOn with
  | nil => rw [List.map_nil, List.append_nil, if_neg List.not_mem_nil]
  | append_singleton dates e ih =>
    have hdate : (CalendarDay.assumed e).date = e := rfl
    rw [List.map_append, ← List.append_assoc, List.map_singleton, CalendarDay.lastOn_concat, ih,
      hdate]
    by_cases he : e = d
    · rw [he, if_pos rfl, if_pos (List.mem_append_right _ List.mem_cons_self)]
    · have hmem : d ∈ dates ++ [e] ↔ d ∈ dates := by
        rw [List.mem_append, List.mem_singleton, or_iff_left (Ne.symm he)]
      rw [if_neg he]
      exact if_congr hmem.symm rfl rfl

/-- Whether two calendars take a date to be the same kind of day. -/
structure SameOn (c c' : WorkCalendar) (d : Date) : Prop where
  isHoliday : c'.isHoliday d = c.isHoliday d
  isWorkingDay : c'.isWorkingDay d = c.isWorkingDay d

theorem SameOn.isSundayOrHoliday (h : c.SameOn c' d) :
    c'.isSundayOrHoliday d = c.isSundayOrHoliday d := by
  rw [WorkCalendar.isSundayOrHoliday, h.isHoliday, ← WorkCalendar.isSundayOrHoliday]

theorem SameOn.of_day? (h : c'.day? d = c.day? d) : c.SameOn c' d :=
  ⟨by rw [WorkCalendar.isHoliday, WorkCalendar.isHoliday, h],
    by rw [WorkCalendar.isWorkingDay, WorkCalendar.isWorkingDay, h]⟩

/-- To be taken for what it is assumed to be makes no difference to a date. -/
theorem SameOn.of_assumed (h : c.day? d = none) (h' : c'.day? d = some (.assumed d)) :
    c.SameOn c' d :=
  ⟨by rw [WorkCalendar.isHoliday, WorkCalendar.isHoliday, h, h']; rfl,
    by rw [WorkCalendar.isWorkingDay, WorkCalendar.isWorkingDay, h, h']; rfl⟩

end WorkCalendar

/-! ## Stages -/

section Stages

variable {c c' : WorkCalendar}

theorem HourBreakdown.ofDaily_calendar {daily : DailyHoursMap} {n₁ t₁ : Decimal}
    (h : ∀ d ∈ daily.keys, c.SameOn c' d) : ofDaily daily n₁ t₁ c' = ofDaily daily n₁ t₁ c := by
  rw [ofDaily, ofDaily]
  congr 1
  refine foldlM_congr (fun s day hday => ?_) _
  have hsame := h day.1 (List.mem_map_of_mem hday)
  rw [HourSums.addDay, HourSums.addDay, hsame.isSundayOrHoliday]

theorem BasicPay.ofDates_calendar {dates : List Date} {rate : Decimal}
    (h : ∀ d ∈ dates, c.SameOn c' d) : ofDates dates rate c' = ofDates dates rate c := by
  rw [ofDates, ofDates]
  congr 1
  refine mapM_congr fun d hd => ?_
  rw [payDay, payDay, (h d hd).isHoliday]

theorem RestDayWeek.ofWeek_calendar {w : Week} {worked : List Date}
    (h : ∀ d ∈ w.days, c.SameOn c' d) : ofWeek w worked c' = ofWeek w worked c := by
  rw [ofWeek, ofWeek, List.filter_congr fun d hd => (h d hd).isWorkingDay]

theorem RestDaySummary.ofPeriod_calendar {p : Period} {worked : List Date} {rate : Decimal}
    (h : ∀ ws, p.weeks = .ok ws → ∀ w ∈ ws, ∀ d ∈ w.days, c.SameOn c' d) :
    ofPeriod p worked c' rate = ofPeriod p worked c rate := by
  rw [ofPeriod, ofPeriod]
  cases hws : p.weeks with
  | error f => rfl
  | ok ws =>
    have hweeks : ws.map (RestDayWeek.ofWeek · worked c') = ws.map (RestDayWeek.ofWeek · worked c) :=
      List.map_congr_left fun w hw => RestDayWeek.ofWeek_calendar (h ws hws w hw)
    simp only [bind, Except.bind, hweeks]

theorem Payroll.flagsOf_calendar {p : Period}
    (h : ∀ d, p.start ≤ d → d ≤ p.stop → c.SameOn c' d) : flagsOf p c' = flagsOf p c := by
  refine SortedMap.ext_get? fun d => ?_
  by_cases hd : p.start ≤ d ∧ d ≤ p.stop
  · rw [get?_flagsOf hd, get?_flagsOf hd, (h d hd.1 hd.2).isHoliday, (h d hd.1 hd.2).isWorkingDay]
  · have hnot : d ∉ p.days := fun hmem => hd (Date.mem_through.1 hmem)
    exact (SortedMap.get?_tabulate.trans (if_neg hnot)).trans
      (SortedMap.get?_tabulate.trans (if_neg hnot)).symm

end Stages

/-! ## Contexts -/

/-- Whether the calculation of a period can ask the calendar about a date: it asks about no
    date outside the window of attendance. -/
def Period.Reaches (p : Period) (d : Date) : Prop :=
  d ≤ p.stop ∧ ∀ first, p.windowStart = .ok first → first ≤ d

theorem Period.reaches_of_mem {p : Period} {d : Date} (hstart : p.start ≤ d) (hstop : d ≤ p.stop) :
    p.Reaches d :=
  ⟨hstop, fun _ hfirst => Std.le_trans (windowStart_le hfirst) hstart⟩

theorem Period.reaches_of_mem_weeks {p : Period} {ws : List Week} (hws : p.weeks = .ok ws)
    {w : Week} (hw : w ∈ ws) {d : Date} (hd : d ∈ w.days) : p.Reaches d := by
  obtain ⟨hsat, -, hstop⟩ := (mem_weeks hws).1 hw
  obtain ⟨-, hle⟩ := Date.mem_through.1 hd
  exact ⟨Std.le_trans hle hstop, fun first hfirst => (mem_window hws hfirst hw hd).1⟩

/-- The context with those of its diagnostics that are to be kept. -/
def PayContext.keeping (keep : Diagnostic → Bool) (ctx : PayContext) : PayContext :=
  { ctx with diagnostics := ctx.diagnostics.filter keep }

theorem PieceworkSummary.onLabor_of_mem {es : List AttendanceEntry} {labors : LaborCatalog}
    {p : Period} {s : PieceworkSummary} (h : ofAttendance es labors p = .ok s) :
    ∀ d ∈ s.diagnostics, d.OnLabor := by
  obtain ⟨days, -, h⟩ := bind_eq_ok.1 h
  obtain ⟨total, -, h⟩ := bind_eq_ok.1 h
  cases h
  exact (PieceworkTally.remarked_foldl labors p es).onLabor

namespace Payroll

variable {employee : Employee} {attendance : List AttendanceEntry} {inputs : PayrollInputs}
  {c' : WorkCalendar} {keep : Diagnostic → Bool}

variable (employee attendance) in
/-- The stages before the concepts find the same by two calendars that take the dates in
    reach alike, but for the remarks on dates one of them does not mention. -/
theorem context_calendar
    (h : ∀ d, inputs.parameters.period.Reaches d → inputs.calendar.SameOn c' d)
    (hgaps : ∀ dates, (∀ d ∈ dates, inputs.parameters.period.Reaches d) →
      calendarGaps dates c' = (calendarGaps dates inputs.calendar).filter keep)
    (hlabor : ∀ d : Diagnostic, d.OnLabor → keep d) :
    context employee attendance { inputs with calendar := c' } =
      (context employee attendance inputs).map (·.keeping keep) := by
  refine Alike.iff_eq_map.1 ?_
  rw [context, context]
  dsimp only
  refine Alike.bind_same fun daily hdaily => ?_
  have hreach : ∀ d ∈ daily.keys, inputs.parameters.period.Reaches d := by
    intro d hd
    obtain ⟨hd, -⟩ := (DailyHoursMap.mem_keys_ofAttendance hdaily).1 hd
    rw [Period.contains, Bool.and_eq_true, decide_eq_true_iff, decide_eq_true_iff] at hd
    exact Period.reaches_of_mem hd.1 hd.2
  have hsame : ∀ d ∈ daily.keys, inputs.calendar.SameOn c' d := fun d hd => h d (hreach d hd)
  rw [HourBreakdown.ofDaily_calendar hsame]
  refine Alike.bind_same fun hours _ => Alike.bind_same fun piecework hpiecework => ?_
  refine Alike.bind_same fun rate _ => Alike.bind_same fun hourly _ => ?_
  rw [BasicPay.ofDates_calendar hsame]
  refine Alike.bind_same fun pay _ => Alike.bind_same fun first _ => ?_
  rw [RestDaySummary.ofPeriod_calendar fun ws hws w hw d hd =>
    h d (Period.reaches_of_mem_weeks hws hw hd)]
  refine Alike.bind_same fun restDays _ => .ok ?_
  have hremarks : piecework.diagnostics.filter keep = piecework.diagnostics :=
    List.filter_eq_self.2 fun d hd => hlabor d (PieceworkSummary.onLabor_of_mem hpiecework d hd)
  rw [PayContext.keeping, List.filter_append, hremarks, ← hgaps daily.keys hreach,
    flagsOf_calendar fun d hstart hstop => h d (Period.reaches_of_mem hstart hstop)]

end Payroll

/-! ## Concepts -/

/-- Whether all diagnostics of the calculators of a registry are to be kept. -/
def Registry.Keeps (r : Registry) (keep : Diagnostic → Bool) : Prop :=
  ∀ code calculator, r.get? code = some calculator → ∀ ctx c o, calculator ctx c = .ok o →
    ∀ d ∈ o.diagnostic, keep d

/-- No diagnostic of the standard registry is about a date. -/
theorem Registry.keeps_standard {keep : Diagnostic → Bool}
    (hkeep : ∀ d : Diagnostic, d.date = none → keep d) : standard.Keeps keep :=
  fun _ _ h ctx c _ ho d hd => hkeep d ((ends_standard h ctx c).date_eq_none ho d hd)

section Keeping

variable {keep : Diagnostic → Bool}

theorem PayContext.note_keeping (ctx : PayContext) {d : Diagnostic} (hd : keep d) :
    (ctx.keeping keep).note d = (ctx.note d).keeping keep := by
  rw [keeping, keeping, note, note, List.filter_append, List.filter_cons_of_pos hd]
  rfl

theorem PayContext.accumulate_keeping (ctx : PayContext) (category : Category) (amount : Decimal) :
    (ctx.keeping keep).accumulate category amount =
      (ctx.accumulate category amount).map (·.keeping keep) := by
  refine Alike.iff_eq_map.1 ?_
  cases category <;> exact Alike.bind_same fun total _ => .ok rfl

theorem PayrollDetail.assemble_keeping (ctx : PayContext) (lines : List ConceptLine)
    (steps : List AuditStep) : assemble (ctx.keeping keep) lines steps =
      (assemble ctx lines steps).map fun d =>
        { d with diagnostics := d.diagnostics.filter keep } :=
  Alike.iff_eq_map.1 (Alike.bind_same fun _ _ => .ok rfl)

namespace ConceptRun

variable {registry : Registry}

/-- The run with those of the diagnostics of its context that are to be kept. -/
def keeping (keep : Diagnostic → Bool) (run : ConceptRun) : ConceptRun :=
  { run with context := run.context.keeping keep }

theorem skipRetirement_keeping (hkeep : ∀ d : Diagnostic, d.date = none → keep d)
    (run : ConceptRun) : (run.keeping keep).skipRetirement = run.skipRetirement.keeping keep := by
  have hemployee : (run.keeping keep).context.employee = run.context.employee := rfl
  have hnoted : (run.keeping keep).schemeNoted = run.schemeNoted := rfl
  rw [skipRetirement, skipRetirement, hemployee, hnoted]
  split
  · dsimp only [keeping]
    rw [PayContext.note_keeping _ (hkeep _ rfl)]
  · rfl

theorem enter_keeping (run : ConceptRun) (c : Concept) {o : Outcome}
    (ho : ∀ d ∈ o.diagnostic, keep d) :
    (run.keeping keep).enter c o = (run.enter c o).map (·.keeping keep) := by
  have hnoted : (o.diagnostic.map (run.context.keeping keep).note).getD (run.context.keeping keep) =
      ((o.diagnostic.map run.context.note).getD run.context).keeping keep := by
    cases hd : o.diagnostic with
    | none => rfl
    | some d => exact PayContext.note_keeping _ (ho d hd)
  refine Alike.iff_eq_map.1 ?_
  simp only [enter, keeping]
  rw [hnoted, PayContext.accumulate_keeping]
  cases PayContext.accumulate _ c.category o.amount.toHundredths with
  | error f => exact .error f
  | ok after => exact .ok rfl

/-- A concept finds the same whether or not diagnostics about dates are kept. -/
theorem next_keeping (hkeep : ∀ d : Diagnostic, d.date = none → keep d)
    (hr : registry.IgnoresDiagnostics) (hkeeps : registry.Keeps keep) (run : ConceptRun)
    (c : Concept) :
    next registry (run.keeping keep) c = (next registry run c).map (·.keeping keep) := by
  have hemployee : (run.keeping keep).context.employee = run.context.employee := rfl
  rw [next, next, hemployee]
  split
  · rw [skipRetirement_keeping hkeep]
    rfl
  split
  · rw [skipUnknown, keeping, PayContext.note_keeping _ (hkeep _ rfl)]
    rfl
  · next calculator hget =>
    have hcalculator : calculator (run.keeping keep).context c = calculator run.context c :=
      hr c.code calculator hget run.context _ c
    rw [hcalculator]
    cases ho : calculator run.context c with
    | error f => rfl
    | ok o => exact enter_keeping run c (hkeeps c.code calculator hget _ _ _ ho)

/-- The concepts of a context come to the same whether or not its diagnostics about dates are
    kept. -/
theorem ofContext_keeping (hkeep : ∀ d : Diagnostic, d.date = none → keep d)
    (hr : registry.IgnoresDiagnostics) (hkeeps : registry.Keeps keep) (ctx : PayContext) :
    ofContext (ctx.keeping keep) registry = (ofContext ctx registry).map (·.keeping keep) := by
  refine Alike.iff_eq_map.1 (Alike.foldlM_same ctx.concepts (fun {run run' c} hrun => ?_) rfl)
  rw [hrun, next_keeping hkeep hr hkeeps]
  cases next registry run c with
  | error f => exact .error f
  | ok next => exact .ok rfl

end ConceptRun

end Keeping

/-! ## Details -/

/-- Whether a diagnostic says that the calendar lacks one of some dates. -/
def Diagnostic.isGapOf (dates : List Date) (d : Diagnostic) : Bool :=
  d.code = calendarDataMissing && d.date.any (· ∈ dates)

/-- The detail without the remarks that the calendar lacks some dates. -/
def PayrollDetail.withoutGaps (dates : List Date) (detail : PayrollDetail) : PayrollDetail :=
  { detail with diagnostics := detail.diagnostics.filter fun d => !d.isGapOf dates }

namespace Payroll

variable {employee : Employee} {attendance : List AttendanceEntry} {inputs : PayrollInputs}
  {registry : Registry} {c c' : WorkCalendar}

/-- If some dates are mentioned in addition, the remarks on them are gone and no others. -/
theorem calendarGaps_filter {dates : List Date}
    (h : ∀ d, c'.day? d = if d ∈ dates then some (.assumed d) else c.day? d)
    (workedDates : List Date) : calendarGaps workedDates c' =
      (calendarGaps workedDates c).filter fun d => !d.isGapOf dates := by
  rw [calendarGaps, calendarGaps, List.filter_map, List.filter_filter]
  congr 1
  refine List.filter_congr fun d _ => ?_
  rw [h d]
  by_cases hd : d ∈ dates <;> simp [Diagnostic.isGapOf, hd]

variable (inputs) in
theorem compute_mentioned {dates : List Date} (hnone : ∀ d ∈ dates, inputs.calendar.day? d = none)
    (h : ∀ d, c'.day? d = if d ∈ dates then some (.assumed d) else inputs.calendar.day? d) :
    compute employee attendance { inputs with calendar := c' } .standard =
      (compute employee attendance inputs .standard).map (·.withoutGaps dates) := by
  have hsame : ∀ d, inputs.calendar.SameOn c' d := by
    intro d
    by_cases hd : d ∈ dates
    · exact .of_assumed (hnone d hd) ((h d).trans (if_pos hd))
    · exact .of_day? ((h d).trans (if_neg hd))
  have hlabor : ∀ d : Diagnostic, d.OnLabor → !d.isGapOf dates := by
    rintro d (hcode | hcode) <;> rw [Diagnostic.isGapOf, hcode] <;> rfl
  have hundated : ∀ d : Diagnostic, d.date = none → !d.isGapOf dates := by
    intro d hd
    rw [Diagnostic.isGapOf, hd, Option.any_none, Bool.and_false]
    rfl
  have hctx := context_calendar employee attendance
    (fun d _ => hsame d) (fun workedDates _ => calendarGaps_filter h workedDates) hlabor
  refine Alike.iff_eq_map.1 ?_
  rw [compute, compute]
  dsimp only
  split
  · exact .error _
  · refine Failure.lift_alike ((Alike.iff_eq_map.2 hctx).bind fun {ctx _} hctx' => ?_)
    subst hctx'
    have hrun := ConceptRun.ofContext_keeping hundated Registry.ignoresDiagnostics_standard
      (Registry.keeps_standard hundated) ctx
    refine (Alike.iff_eq_map.2 hrun).bind fun {run _} hrun' => ?_
    subst hrun'
    exact Alike.iff_eq_map.2 (PayrollDetail.assemble_keeping run.context run.lines run.steps)

variable (inputs) in
/-- What a calendar says of dates out of reach makes no difference. -/
theorem compute_outOfReach
    (h : ∀ d, inputs.parameters.period.Reaches d → c'.day? d = inputs.calendar.day? d) :
    compute employee attendance { inputs with calendar := c' } registry =
      compute employee attendance inputs registry := by
  have hgaps : ∀ dates, (∀ d ∈ dates, inputs.parameters.period.Reaches d) →
      calendarGaps dates c' = (calendarGaps dates inputs.calendar).filter fun _ => true := by
    intro dates hdates
    rw [List.filter_true, calendarGaps, calendarGaps]
    congr 1
    exact List.filter_congr fun d hd => by rw [h d (hdates d hd)]
  have hctx := context_calendar employee attendance
    (fun d hd => .of_day? (h d hd)) hgaps fun _ _ => rfl
  have hid : (PayContext.keeping fun _ => true) = id := by
    funext ctx
    rw [PayContext.keeping, List.filter_true]
    rfl
  rw [hid, Except.map_id] at hctx
  rw [compute, compute, computeAccepted, computeAccepted, hctx]
  rfl

/-- By the calendar of a list of days, to mention dates as what they are taken to be does
    away with the remarks that the calendar lacks them, and with nothing else. What the list
    says of dates outside the window of attendance makes no difference, and of several days
    for one date only the last does. -/
theorem compute_ofDays (employee : Employee) (attendance : List AttendanceEntry)
    (inputs : PayrollInputs) (registry : Registry) (days : List CalendarDay) :
    let withDays (days : List CalendarDay) := { inputs with calendar := .ofDays days }
    (∀ dates, (∀ d ∈ dates, (WorkCalendar.ofDays days).day? d = none) →
      compute employee attendance (withDays (days ++ dates.map .assumed)) .standard =
        (compute employee attendance (withDays days) .standard).map (·.withoutGaps dates)) ∧
    (∀ first days', inputs.parameters.period.windowStart = .ok first →
      (∀ d, first ≤ d → d ≤ inputs.parameters.period.stop →
        CalendarDay.lastOn days' d = CalendarDay.lastOn days d) →
      compute employee attendance (withDays days') registry =
        compute employee attendance (withDays days) registry) ∧
    ∀ days', WorkCalendar.ofDays days' = .ofDays days ↔
      ∀ d, CalendarDay.lastOn days' d = CalendarDay.lastOn days d := by
  intro withDays
  refine ⟨fun dates hnone => ?_, fun first days' hfirst h => ?_,
    fun days' => WorkCalendar.ofDays_eq_iff⟩
  · exact compute_mentioned (withDays days) hnone (WorkCalendar.day?_ofDays_assumed dates)
  · refine compute_outOfReach (withDays days) fun d hd => ?_
    rw [WorkCalendar.day?_ofDays]
    exact (h d (hd.2 first hfirst) hd.1).trans (WorkCalendar.day?_ofDays days d).symm

/-- The week with holidays, with a basic salary in the plan. -/
def salariedWeek : PayrollInputs :=
  { holidayWeek with concepts := [.plain "BASIC_SALARY" .income none] }

/-- Two of the dates mentioned in addition are worked, and the remarks on them are gone; that
    there is no salary is still remarked. A holiday behind the week makes no difference. -/
theorem compute_ofDays_holidays :
    let dates : List Date := [.onDay 2, .onDay 4, .onDay 7]
    let compute (days : List CalendarDay) := compute .plain holidayAttendance
      { salariedWeek with calendar := .ofDays days } .standard
    ∃ detail, compute holidays = .ok detail ∧
      detail.diagnostics.map (fun d => (d.code, d.date)) =
        [(Diagnostic.calendarDataMissing, some (.onDay 2)),
         (Diagnostic.calendarDataMissing, some (.onDay 7)), (Diagnostic.missingSalary, none)] ∧
      compute (holidays ++ dates.map .assumed) = .ok (detail.withoutGaps dates) ∧
      (detail.withoutGaps dates).diagnostics.map (·.code) = [Diagnostic.missingSalary] ∧
      compute (holidays ++ [⟨.onDay 9, false, true⟩]) = .ok detail := by
  intro dates compute
  have hok : (compute holidays).map (fun d => (d.diagnostics.map (fun d => (d.code, d.date)),
      (d.withoutGaps dates).diagnostics.map (·.code))) =
      .ok ([(Diagnostic.calendarDataMissing, some (.onDay 2)),
        (Diagnostic.calendarDataMissing, some (.onDay 7)), (Diagnostic.missingSalary, none)],
        [Diagnostic.missingSalary]) := by
    decide +kernel
  obtain ⟨detail, hdetail, hshown⟩ := map_eq_ok.1 hok
  obtain ⟨hdiagnostics, hleft⟩ := Prod.mk.inj hshown
  obtain ⟨hmentioned, houtside, -⟩ :=
    compute_ofDays .plain holidayAttendance salariedWeek .standard holidays
  refine ⟨detail, hdetail, hdiagnostics, ?_, hleft, ?_⟩
  · have hnone : ∀ d ∈ dates, (WorkCalendar.ofDays holidays).day? d = none := by decide +kernel
    exact (hmentioned dates hnone).trans (map_eq_ok.2 ⟨detail, hdetail, rfl⟩)
  · refine (houtside (.onDay 0) _ (by decide +kernel) fun d _ hle => ?_).trans hdetail
    rw [CalendarDay.lastOn_concat, if_neg]
    rintro rfl
    exact absurd hle (by decide)

end Payroll

end FieldWages
