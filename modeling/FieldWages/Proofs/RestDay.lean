import FieldWages.Proofs.Decimal.Value
import FieldWages.Proofs.RestDayWeeks
import FieldWages.Proofs.WorkCalendar

/-!
# How the weeks of a period are judged

Each Saturday of a period stands for a week of six days. Those of them are required
that the calendar does not mention as free, those of the required days are missing
that were not worked, and the week is complete if something is required and nothing
missing (`RestDayWeek.Judged`). No day of a week is a Sunday, so neither work on
Sundays nor the calendar's opinion of them matters.

* `RestDayWeek.judged_ofWeek`: how one week is judged;
* `RestDaySummary.ofPeriod_sundays`, `RestDaySummary.ofPeriod_mono`: what does not
  matter, and what does no harm;
* `RestDaySummary.ofPeriod_judged`: the weeks of a period and what is paid for them.
-/

namespace FieldWages

/-! ## How a week is judged -/

/-- How the week of a Saturday is judged, by the dates that were worked and by a
    calendar, given which of its days are required. -/
structure RestDayWeek.Judged (worked : List Date) (c : WorkCalendar) (saturday : Date)
    (week : RestDayWeek) (required : List Date) : Prop where
  monday : week.monday.serial = saturday.serial - 5
  /-- A day is required unless the calendar mentions it as no working day. -/
  mem_required : ∀ d, d ∈ required ↔ (week.monday ≤ d ∧ d ≤ saturday) ∧
    ∀ day, c.day? d = some day → day.isWorkingDay
  ascending : required.Pairwise (· < ·)
  requiredDays : week.requiredDays.toNat = required.length
  requiredDays_le : week.requiredDays.toNat ≤ 6
  missingDays : week.missingDays = required.filter (· ∉ worked)
  attendedDays : week.attendedDays.toNat + week.missingDays.length = week.requiredDays.toNat
  complete : week.complete ↔ 0 < week.requiredDays ∧ week.missingDays = []

theorem RestDayWeek.judged_ofWeek {w : Week} (worked : List Date) (c : WorkCalendar)
    (h : w.IsCalendarWeek) :
    (ofWeek w worked c).Judged worked c w.saturday (w.days.filter c.isWorkingDay) := by
  have hrequired : (w.days.filter c.isWorkingDay).length ≤ 6 :=
    (List.length_filter_le ..).trans (Week.length_days_le h)
  have hmissing := List.length_filter_le (fun d => !worked.contains d)
    (w.days.filter c.isWorkingDay)
  have hword : ∀ {n : ℕ}, n ≤ 6 → (UInt32.ofNat n).toNat = n := fun hn =>
    UInt32.toNat_ofNat_of_lt' (lt_of_le_of_lt hn (by decide))
  refine
    { monday := by have := h.2; simp only [ofWeek]; omega
      mem_required := fun d => ?_
      ascending := Date.pairwise_through.filter _
      requiredDays := hword hrequired
      requiredDays_le := (hword hrequired).trans_le hrequired
      missingDays := ?_
      attendedDays := ?_
      complete := ?_ }
  · rw [List.mem_filter, Week.days, Date.mem_through]
    refine and_congr_right fun hd => ?_
    have hsunday := Week.isSunday_eq_false h (Date.mem_through.2 hd)
    rw [WorkCalendar.isWorkingDay]
    cases c.day? d with
    | none => simp [hsunday]
    | some day => simp
  · refine List.filter_congr fun d _ => ?_
    rw [List.contains_eq_mem, decide_not]
  · simp only [ofWeek]
    rw [UInt32.toNat_sub_of_le, hword hrequired, hword (hmissing.trans hrequired),
      Nat.sub_add_cancel hmissing]
    rw [UInt32.le_iff_toNat_le, hword hrequired, hword (hmissing.trans hrequired)]
    exact hmissing
  · simp only [ofWeek, Bool.and_eq_true, Bool.not_eq_true', List.isEmpty_iff, List.isEmpty_eq_false_iff]
    refine and_congr_left fun _ => ?_
    rw [UInt32.lt_iff_toNat_lt, hword hrequired, ← List.length_pos_iff]
    rfl

/-! ## The weeks of a period -/

namespace RestDaySummary

variable {p : Period} {worked worked' : List Date} {c c' : WorkCalendar} {rate : Decimal}

/-- Neither work on Sundays nor what the calendar says of them counts. -/
theorem ofPeriod_sundays (hworked : ∀ d, d.isSunday = false → (d ∈ worked ↔ d ∈ worked'))
    (hcalendar : ∀ d, d.isSunday = false → c'.day? d = c.day? d) :
    ofPeriod p worked' c' rate = ofPeriod p worked c rate := by
  have hdays : ∀ ws, p.weeks = .ok ws → ∀ w ∈ ws, ∀ d ∈ w.days, d.isSunday = false :=
    fun ws hws w hw d hd => Week.isSunday_eq_false ((Period.mem_weeks hws).1 hw).1 hd
  rw [ofPeriod_calendar fun ws hws w hw d hd => .of_day? (hcalendar d (hdays ws hws w hw d hd)),
    ofPeriod, ofPeriod]
  cases hws : p.weeks with
  | error f => rfl
  | ok ws =>
    have hweeks : ws.map (RestDayWeek.ofWeek · worked' c) = ws.map (RestDayWeek.ofWeek · worked c) :=
      List.map_congr_left fun w hw => RestDayWeek.ofWeek_congr c fun d hd =>
        (hworked d (hdays ws hws w hw d hd)).symm
    simp only [bind, Except.bind, hweeks]

/-- A week stays complete with more dates worked. -/
theorem ofPeriod_mono {s s' : RestDaySummary} (h : ∀ d ∈ worked, d ∈ worked')
    (hs : ofPeriod p worked c rate = .ok s) (hs' : ofPeriod p worked' c rate = .ok s') :
    List.Forall₂ (fun w w' => w.complete → w'.complete) s.weeks s'.weeks := by
  obtain ⟨ws, hws, hweeks, -⟩ := ofPeriod_eq_ok hs
  obtain ⟨ws', hws', hweeks', -⟩ := ofPeriod_eq_ok hs'
  cases hws.symm.trans hws'
  rw [hweeks, hweeks', List.forall₂_map_left_iff, List.forall₂_map_right_iff]
  exact List.forall₂_same.2 fun w _ => RestDayWeek.complete_mono h

/-- The weeks of a period, one for each of its Saturdays and in their order, are judged
    by their days from Monday to Saturday. The rate is paid for each complete one, to the
    hundredth, unless the product gets out of range. Work on Sundays and what the calendar
    says of them do not count, and more dates worked leave complete what was complete. -/
theorem ofPeriod_judged (hp : p.IsInner) (worked : List Date) (c : WorkCalendar)
    (rate : Decimal) :
    (∃ (weeks : List RestDayWeek) (n : UInt32),
        List.Forall₂ (fun saturday week => ∃ required, week.Judged worked c saturday required)
          p.saturdays weeks ∧
        n.toNat = weeks.countP (·.complete) ∧
        ofPeriod p worked c rate =
          (rate.mul (.ofUInt32 n)).map (fun product => ⟨weeks, n, product.toHundredths⟩) ∧
        (rate.mantissa.natAbs * n.toNat ≤ maxMantissa →
          ∃ product, rate.mul (.ofUInt32 n) = .ok product ∧
            product.toRat = rate.toRat * n.toNat)) ∧
      (∀ worked' c', (∀ d, d.isSunday = false → (d ∈ worked ↔ d ∈ worked')) →
        (∀ d, d.isSunday = false → c'.day? d = c.day? d) →
        ofPeriod p worked' c' rate = ofPeriod p worked c rate) ∧
      ∀ worked', (∀ d ∈ worked, d ∈ worked') → ∀ s s', ofPeriod p worked c rate = .ok s →
        ofPeriod p worked' c rate = .ok s' →
        List.Forall₂ (fun w w' => w.complete → w'.complete) s.weeks s'.weeks := by
  refine ⟨?_, fun _ _ => ofPeriod_sundays, fun _ h _ _ => ofPeriod_mono h⟩
  obtain ⟨ws, hws⟩ := Period.exists_weeks_eq_ok hp
  let weeks := ws.map (RestDayWeek.ofWeek · worked c)
  refine ⟨weeks, .ofNat (weeks.countP (·.complete)), ?_, ?_, ?_,
    Decimal.exists_mul_ofUInt32_eq_ok⟩
  · rw [← Period.map_saturday_weeks hp hws, List.forall₂_map_left_iff, List.forall₂_map_right_iff]
    exact List.forall₂_same.2 fun w hw =>
      ⟨_, RestDayWeek.judged_ofWeek worked c ((Period.mem_weeks hws).1 hw).1⟩
  · -- The word the weeks are counted in has room for them.
    refine UInt32.toNat_ofNat_of_lt' (lt_of_le_of_lt List.countP_le_length ?_)
    rw [List.length_map]
    exact Period.length_weeks_lt hws
  · rw [ofPeriod, hws]
    change (rate.mul (.ofUInt32 (.ofNat (weeks.countP (·.complete))))).bind _ = _
    cases rate.mul (.ofUInt32 (.ofNat (weeks.countP (·.complete)))) <;> rfl

/-- A week begun before the period, and one whose Saturday is free and whose Friday was
    missed; the Sunday between them was worked. -/
def midweekDates : List Date := [0, 1, 2, 3, 4, 5, 6, 7, 8, 9, 10].map .onDay

/-- The first of the two weeks is paid, and without the Sunday nothing changes. -/
theorem ofPeriod_judged_midweek :
    let free : WorkCalendar := .ofDays [⟨.onDay 12, false, false⟩]
    let rate : Decimal := { mantissa := 10005, scale := 3 }
    ∃ s, (Period.between 2 13).IsInner ∧
      ofPeriod (.between 2 13) midweekDates free rate = .ok s ∧
      s.bonus = { mantissa := 1001, scale := 2 } ∧
      List.Forall₂ (fun saturday week => ∃ required, week.Judged midweekDates free saturday required)
        (Period.between 2 13).saturdays s.weeks ∧
      s.completeWeeks.toNat = s.weeks.countP (·.complete) ∧
      ofPeriod (.between 2 13) (midweekDates.erase (.onDay 6)) free rate = .ok s := by
  intro free rate
  have hinner : (Period.between 2 13).IsInner := ⟨by decide, by decide, by decide⟩
  have hbonus : (ofPeriod (.between 2 13) midweekDates free rate).map (·.bonus) =
      .ok { mantissa := 1001, scale := 2 } := by decide +kernel
  obtain ⟨s, hs, hbonus⟩ := map_eq_ok.1 hbonus
  obtain ⟨⟨weeks, n, hweeks, hn, hperiod, -⟩, hsundays, -⟩ :=
    ofPeriod_judged hinner midweekDates free rate
  obtain ⟨product, -, rfl⟩ := map_eq_ok.1 (hperiod.symm.trans hs)
  refine ⟨_, hinner, hs, hbonus, hweeks, hn, ?_⟩
  rw [hsundays _ free (fun d hd => ?_) fun _ _ => rfl, hs]
  have hne : d ≠ .onDay 6 := by
    rintro rfl
    cases hd
  exact (List.mem_erase_of_ne hne).symm

/-- Two complete weeks at the greatest rate there is cannot be paid. -/
theorem not_judged_of_greatestRate :
    let worked : List Date := [0, 1, 2, 3, 4, 5, 7, 8, 9, 10, 11, 12].map .onDay
    (Period.between 0 13).IsInner ∧
      ofPeriod (.between 0 13) worked ⟨.empty⟩ { mantissa := maxMantissa, scale := 0 } =
        .error .multiplicationOverflow :=
  ⟨⟨by decide, by decide, by decide⟩, by decide +kernel⟩

end RestDaySummary

end FieldWages
