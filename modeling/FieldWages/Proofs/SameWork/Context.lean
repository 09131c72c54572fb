import FieldWages.Proofs.RestDayWeeks
import FieldWages.Proofs.SameWork.Hours
import FieldWages.Proofs.SameWork.Piecework

/-!
# Contexts of the same work

The stages before the first concept read the attendance by the days it adds up to,
the dates that were worked and the units that were counted, so lists that record the
same work lead to the same context, but for the digits of its hours and the remarks
on labors (`PayContext.SameNumbers`).

* `SameWork.restDays`: the weeks are attended alike;
* `SameWork.context`: the contexts of the same work.
-/

namespace FieldWages

variable {p : Period} {as bs : List AttendanceEntry}

/-! ## Rest days -/

theorem mem_paidDates_iff {d : Date} : d ∈ Payroll.paidDates as ↔ WorkedOn as d := by
  rw [Payroll.paidDates, List.mem_map]
  refine exists_congr fun e => ?_
  rw [List.mem_filter]
  exact ⟨fun h => ⟨h.1.1, h.2, h.1.2⟩, fun h => ⟨⟨h.1, h.2.2⟩, h.2.1⟩⟩

/-- The same work attends the weeks of the period alike. -/
theorem SameWork.restDays (h : SameWork p as bs) {first : Date} (hfirst : p.windowStart = .ok first)
    (c : WorkCalendar) (rate : Decimal) :
    RestDaySummary.ofPeriod p (Payroll.attendedDates as first p.stop) c rate =
      RestDaySummary.ofPeriod p (Payroll.attendedDates bs first p.stop) c rate := by
  rw [RestDaySummary.ofPeriod, RestDaySummary.ofPeriod]
  cases hws : p.weeks with
  | error f => rfl
  | ok ws =>
    have hworked : ∀ d, first ≤ d → d ≤ p.stop → (WorkedOn as d ↔ WorkedOn bs d) := by
      intro d hd hd'
      by_cases hstart : p.start ≤ d
      · refine h.worked d ?_
        rw [Period.contains, decide_eq_true hstart, decide_eq_true hd']
        rfl
      · exact h.before first hfirst d hd (Std.not_le.1 hstart)
    have hweeks : ws.map (RestDayWeek.ofWeek · (Payroll.attendedDates as first p.stop) c) =
        ws.map (RestDayWeek.ofWeek · (Payroll.attendedDates bs first p.stop) c) := by
      refine List.map_congr_left fun w hw => RestDayWeek.ofWeek_congr c fun d hd => ?_
      obtain ⟨hfirst_le, hle⟩ := Period.mem_window hws hfirst hw hd
      rw [Payroll.mem_attendedDates, Payroll.mem_attendedDates, mem_paidDates_iff,
        mem_paidDates_iff, hworked d hfirst_le hle]
    simp only [bind, Except.bind, hweeks]

/-! ## Contexts -/

/-- Whether two lists of diagnostics are the same but for remarks on labors, and these
    the same but for order and dates. -/
def SameButRemarks (xs ys : List Diagnostic) : Prop :=
  ∃ before remarks remarks' after, xs = before ++ remarks ++ after ∧
    ys = before ++ remarks' ++ after ∧ SameRemarks remarks remarks'

theorem SameButRemarks.concat {xs ys : List Diagnostic} (h : SameButRemarks xs ys)
    (d : Diagnostic) : SameButRemarks (xs ++ [d]) (ys ++ [d]) := by
  obtain ⟨before, remarks, remarks', after, rfl, rfl, hremarks⟩ := h
  exact ⟨before, remarks, remarks', after ++ [d], List.append_assoc _ _ _, List.append_assoc _ _ _,
    hremarks⟩

/-- Whether two contexts are the same but for the digits of hours and totals, and for
    remarks on labors. -/
structure PayContext.SameNumbers (a b : PayContext) : Prop where
  /-- All else is the same. -/
  basis : b =
    { a with
      dailyHours := b.dailyHours
      hours := b.hours
      totalIncome := b.totalIncome
      totalDeductions := b.totalDeductions
      totalEmployerContributions := b.totalEmployerContributions
      diagnostics := b.diagnostics }
  dailyHours : a.dailyHours.SameNumbers b.dailyHours
  hours : a.hours.SameNumbers b.hours
  totalIncome : a.totalIncome ≈ b.totalIncome
  totalDeductions : a.totalDeductions ≈ b.totalDeductions
  totalEmployerContributions : a.totalEmployerContributions ≈ b.totalEmployerContributions
  diagnostics : SameButRemarks a.diagnostics b.diagnostics

/-- The same work leads to the same context, but for digits and remarks. -/
theorem SameWork.context {inputs : PayrollInputs} (h : SameWork inputs.parameters.period as bs)
    (ha : HoursAdd inputs.parameters.period as) (hb : HoursAdd inputs.parameters.period bs)
    (employee : Employee) : Alike PayContext.SameNumbers (Payroll.context employee as inputs)
      (Payroll.context employee bs inputs) := by
  obtain ⟨m, m', hm, hm', hdaily⟩ := h.dailyHours ha hb
  rw [Payroll.context, Payroll.context, hm, hm']
  refine (Alike.ok hdaily).bind fun {m m'} hdaily => ?_
  dsimp only
  rw [SortedMap.keys_eq_of_rel hdaily]
  refine (HourBreakdown.ofDaily_alike hdaily _ _ _).bind fun {hours hours'} hhours => ?_
  refine (h.piecework inputs.labors).bind fun {s s'} hpiecework => ?_
  refine Alike.bind_same fun rate _ => Alike.bind_same fun hourly _ => ?_
  refine Alike.bind_same fun basicPay _ => Alike.bind_same fun first hfirst => ?_
  rw [h.restDays hfirst]
  refine Alike.bind_same fun restDays _ => ?_
  obtain ⟨hsame, hremarks⟩ := hpiecework
  refine .ok ⟨?_, hdaily, hhours, Setoid.refl _, Setoid.refl _, Setoid.refl _, ?_⟩
  · rw [hsame]
  · exact ⟨_, s.diagnostics, s'.diagnostics, [], (List.append_nil _).symm, (List.append_nil _).symm,
      hremarks⟩

end FieldWages
