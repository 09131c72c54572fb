import FieldWages.Proofs.Payroll
import FieldWages.Proofs.Decimal.Value
import FieldWages.Proofs.Sample
import FieldWages.Proofs.SortedMap

/-!
# Hours accounted for

The paid hours of a period are added up by day, the days are split into parts,
the parts are added up and rounded. If the additions drop no digits
(`HoursExact`), nothing is lost and nothing counted twice on the way: the days
add up to the paid hours, every day to its parts, and the rounding of four sums
is all that can come between the total and the paid hours.

* `DailyHoursMap.total_ofAttendance`: the days add up to the paid hours;
* `HourSums.addOrdinary_spec`, `HourSums.parts_addDay`: the parts of a day;
* `HourSums.abs_breakdown_sub_le`: what the rounding does;
* `Payroll.hours_accounted`: the hours of a detail.
-/

namespace FieldWages

/-! ## The hours of the days -/

theorem DailyHours.addEntry_eq_ok {day day' : DailyHours} {hours : Decimal}
    {shift : Option (TimeOfDay × TimeOfDay)} (h : day.addEntry hours shift = .ok day') :
    day.total.add hours = .ok day'.total := by
  obtain ⟨total, htotal, h⟩ := bind_eq_ok.1 h
  cases shift with
  | none =>
    cases h
    exact htotal
  | some times =>
    obtain ⟨night, -, h⟩ := bind_eq_ok.1 h
    obtain ⟨night', -, h⟩ := bind_eq_ok.1 h
    cases h
    exact htotal

/-- The hours an entry is paid for in a period. -/
def AttendanceEntry.paidIn (p : Period) (e : AttendanceEntry) : ℚ :=
  if p.contains e.workDate then (e.paidHours.map Decimal.toRat).getD 0 else 0

namespace DailyHoursMap

variable {p : Period} {daily daily' : DailyHoursMap} {e : AttendanceEntry}
  {entries : List AttendanceEntry}

/-- The hours of all days. -/
def total (daily : DailyHoursMap) : ℚ := (daily.values.map (·.total.toRat)).sum

/-- Whether the hours of an entry are added to those of its day without a digit dropped. -/
def EntryExact (p : Period) (daily : DailyHoursMap) (e : AttendanceEntry) : Prop :=
  p.contains e.workDate → ∀ hours ∈ e.paidHours,
    ((daily.get? e.workDate).getD .none).total.AddsExactly hours

instance (daily : DailyHoursMap) (e : AttendanceEntry) : Decidable (EntryExact p daily e) :=
  inferInstanceAs (Decidable (_ → _))

/-- An entry is passed over, or its hours are added to those of its day. -/
theorem addEntry_cases (h : addEntry p daily e = .ok daily') :
    (e.paidIn p = 0 ∧ daily' = daily) ∨
    ∃ hours day, p.contains e.workDate ∧ e.paidHours = some hours ∧
      e.paidIn p = hours.toRat ∧
      ((daily.get? e.workDate).getD .none).total.add hours = .ok day.total ∧
      daily' = daily.insert e.workDate day := by
  rw [addEntry] at h
  split at h
  · next hours hp hhours =>
    obtain ⟨day, hday, h⟩ := bind_eq_ok.1 h
    cases h
    refine .inr ⟨hours, day, hp, hhours, ?_, DailyHours.addEntry_eq_ok hday, rfl⟩
    rw [AttendanceEntry.paidIn, if_pos hp, hhours]
    rfl
  · next hnot =>
    cases h
    refine .inl ⟨?_, rfl⟩
    rw [AttendanceEntry.paidIn]
    split
    · next hp =>
      cases hhours : e.paidHours with
      | none => rfl
      | some hours => exact absurd hhours (hnot hours hp)
    · rfl

theorem total_addEntry (hexact : EntryExact p daily e) (h : addEntry p daily e = .ok daily') :
    daily'.total = daily.total + e.paidIn p := by
  rcases addEntry_cases h with ⟨hzero, rfl⟩ | ⟨hours, day, hp, hhours, hpaid, hadd, rfl⟩
  · rw [hzero, add_zero]
  · -- In the sum over the days, the new hours of the day replace the old ones.
    have hday := hexact hp hours hhours day.total hadd
    have hsum := SortedMap.sum_values_insert (fun day : DailyHours => day.total.toRat) daily
      e.workDate day
    have hold : (((daily.get? e.workDate).getD .none).total).toRat =
        ((daily.get? e.workDate).map (·.total.toRat)).getD 0 := by
      cases daily.get? e.workDate with
      | none => exact Decimal.toRat_zero
      | some day => rfl
    rw [hold] at hday
    rw [total, total, hpaid]
    linarith

/-- The days add up to what the entries are paid for. -/
theorem total_ofAttendance (hexact : Along (addEntry p) (EntryExact p) .empty entries)
    (h : ofAttendance entries p = .ok daily) :
    daily.total = (entries.map (·.paidIn p)).sum := by
  have hsum := foldlM_eq_add_sum (μ := total) h hexact fun _ _ _ => total_addEntry
  rw [hsum]
  exact zero_add _

/-- Hours given with so many places are added up with as many. -/
theorem hasPlaces_ofAttendance {places : Nat}
    (hexact : Along (addEntry p) (EntryExact p) .empty entries)
    (h : ofAttendance entries p = .ok daily)
    (hpaid : ∀ e ∈ entries, p.contains e.workDate → ∀ hours ∈ e.paidHours,
      HasPlaces places hours.toRat) {d : Date} {day : DailyHours} (hday : daily.get? d = some day) :
    HasPlaces places day.total.toRat := by
  refine foldlM_invariant_along
    (P := fun daily => ∀ d day, daily.get? d = some day → HasPlaces places day.total.toRat)
    h hexact (fun d day hnone => ?_) ?_ d day hday
  · cases hnone
  intro daily e daily' he hadds hplaces hstep d day hday
  rcases addEntry_cases hstep with ⟨-, rfl⟩ | ⟨hours, new, hp, hhours, -, hadd, rfl⟩
  · exact hplaces d day hday
  · rw [SortedMap.get?_insert] at hday
    split at hday
    · cases hday
      rw [hadds hp hours hhours _ hadd]
      refine .add ?_ (hpaid e he hp hours hhours)
      cases hold : daily.get? e.workDate with
      | none =>
        rw [Option.getD_none, DailyHours.none, Decimal.toRat_zero]
        exact .zero places
      | some old => exact hplaces _ old hold
    · exact hplaces d day hday

end DailyHoursMap

/-! ## The parts of a day -/

namespace HourSums

variable {s s' : HourSums} {hours normalLimit tier1Limit : Decimal} {c : WorkCalendar}
  {day : Date × DailyHours}

/-- The hours of all parts. -/
def parts (s : HourSums) : ℚ :=
  s.normal.toRat + s.tier1.toRat + s.tier2.toRat + s.special.toRat

/-- Whether the hours of an ordinary day are split and added without a digit dropped. -/
def OrdinaryExact (s : HourSums) (hours normalLimit tier1Limit : Decimal) : Prop :=
  hours.SubtractsExactly (hours.min normalLimit) ∧
    s.normal.AddsExactly (hours.min normalLimit) ∧
    ∀ above, hours.sub (hours.min normalLimit) = .ok above →
      s.tier1.AddsExactly ((above.max .zero).min tier1Limit) ∧
      (above.max .zero).SubtractsExactly ((above.max .zero).min tier1Limit) ∧
      ∀ rest, (above.max .zero).sub ((above.max .zero).min tier1Limit) = .ok rest →
        s.tier2.AddsExactly rest

instance (s : HourSums) : Decidable (s.OrdinaryExact hours normalLimit tier1Limit) :=
  inferInstanceAs (Decidable (_ ∧ _ ∧ ∀ _, _ → _ ∧ _ ∧ ∀ _, _ → _))

/-- Whether the hours of a day are split and added without a digit dropped. -/
def DayExact (normalLimit tier1Limit : Decimal) (c : WorkCalendar) (s : HourSums)
    (day : Date × DailyHours) : Prop :=
  if c.isSundayOrHoliday day.1 then s.special.AddsExactly day.2.total
  else s.OrdinaryExact day.2.total normalLimit tier1Limit

instance (s : HourSums) (day : Date × DailyHours) :
    Decidable (DayExact normalLimit tier1Limit c s day) :=
  inferInstanceAs (Decidable (if c.isSundayOrHoliday day.1 then s.special.AddsExactly day.2.total
    else s.OrdinaryExact day.2.total normalLimit tier1Limit))

/-- An ordinary day fills the tiers one after the other. -/
theorem addOrdinary_spec (hexact : s.OrdinaryExact hours normalLimit tier1Limit)
    (h : s.addOrdinary hours normalLimit tier1Limit = .ok s') :
    ∃ n t : ℚ, n = min hours.toRat normalLimit.toRat ∧ t = min (hours.toRat - n) tier1Limit.toRat ∧
      s'.normal.toRat = s.normal.toRat + n ∧ s'.tier1.toRat = s.tier1.toRat + t ∧
      s'.tier2.toRat = s.tier2.toRat + (hours.toRat - n - t) ∧ s'.special = s.special := by
  obtain ⟨hsub, hnormal, hrest⟩ := hexact
  obtain ⟨above, habove, h⟩ := bind_eq_ok.1 h
  obtain ⟨htier1, hsub', hrest'⟩ := hrest above habove
  obtain ⟨normal, hnormal', h⟩ := bind_eq_ok.1 h
  obtain ⟨tier1, htier1', h⟩ := bind_eq_ok.1 h
  obtain ⟨rest, hrest, h⟩ := bind_eq_ok.1 h
  obtain ⟨tier2, htier2, h⟩ := bind_eq_ok.1 h
  cases h
  -- What is above the limit is not negative, so it is kept as it is.
  have hextra : (above.max .zero).toRat = hours.toRat - min hours.toRat normalLimit.toRat := by
    rw [Decimal.toRat_max, hsub above habove, Decimal.toRat_min, Decimal.toRat_zero, max_eq_left]
    exact sub_nonneg.2 (min_le_left _ _)
  refine ⟨_, _, rfl, rfl, ?_, ?_, ?_, rfl⟩
  · rw [hnormal normal hnormal', Decimal.toRat_min]
  · rw [htier1 tier1 htier1', Decimal.toRat_min, hextra]
  · rw [hrest' rest hrest tier2 htier2, hsub' rest hrest, Decimal.toRat_min, hextra]

theorem addSpecial_spec (hexact : s.special.AddsExactly hours)
    (h : s.addSpecial hours normalLimit = .ok s') :
    s'.normal = s.normal ∧ s'.tier1 = s.tier1 ∧ s'.tier2 = s.tier2 ∧
      s'.special.toRat = s.special.toRat + hours.toRat := by
  obtain ⟨special, hspecial, h⟩ := bind_eq_ok.1 h
  obtain ⟨extra, -, h⟩ := bind_eq_ok.1 h
  obtain ⟨specialExtra, -, h⟩ := bind_eq_ok.1 h
  cases h
  exact ⟨rfl, rfl, rfl, hexact special hspecial⟩

/-- Every day is added to the parts as a whole. -/
theorem parts_addDay (hexact : DayExact normalLimit tier1Limit c s day)
    (h : addDay normalLimit tier1Limit c s day = .ok s') :
    s'.parts = s.parts + day.2.total.toRat := by
  obtain ⟨night, -, h⟩ := bind_eq_ok.1 h
  rw [DayExact] at hexact
  split at h
  · next hspecial =>
    rw [if_pos hspecial] at hexact
    obtain ⟨hn, h₁, h₂, hs⟩ := addSpecial_spec (s := { s with night }) hexact h
    rw [parts, parts, hn, h₁, h₂, hs]
    ring
  · next hordinary =>
    rw [if_neg hordinary] at hexact
    obtain ⟨n, t, -, -, hn, h₁, h₂, hs⟩ := addOrdinary_spec (s := { s with night }) hexact h
    rw [parts, parts, hn, h₁, h₂, hs]
    ring

/-- The run over the days adds them all to the parts. -/
theorem parts_foldlM {days : List (Date × DailyHours)}
    (hexact : Along (addDay normalLimit tier1Limit c) (DayExact normalLimit tier1Limit c) s days)
    (h : days.foldlM (addDay normalLimit tier1Limit c) s = .ok s') :
    s'.parts = s.parts + (days.map (·.2.total.toRat)).sum :=
  foldlM_eq_add_sum (μ := parts) h hexact fun _ _ _ => parts_addDay

/-! ## Rounding -/

/-- Whether the parts have no more places than hundredths. -/
structure InHundredths (s : HourSums) : Prop where
  normal : HasPlaces 2 s.normal.toRat
  tier1 : HasPlaces 2 s.tier1.toRat
  tier2 : HasPlaces 2 s.tier2.toRat
  special : HasPlaces 2 s.special.toRat

theorem inHundredths_none : none.InHundredths := by
  have hzero : HasPlaces 2 Decimal.zero.toRat := by
    rw [Decimal.toRat_zero]
    exact .zero 2
  exact ⟨hzero, hzero, hzero, hzero⟩

/-- A day in hundredths is split in hundredths. -/
theorem InHundredths.addDay (hs : s.InHundredths) (hn : HasPlaces 2 normalLimit.toRat)
    (ht : HasPlaces 2 tier1Limit.toRat) (hday : HasPlaces 2 day.2.total.toRat)
    (hexact : DayExact normalLimit tier1Limit c s day)
    (h : addDay normalLimit tier1Limit c s day = .ok s') : s'.InHundredths := by
  obtain ⟨night, -, h⟩ := bind_eq_ok.1 h
  rw [DayExact] at hexact
  split at h
  · next hspecial =>
    rw [if_pos hspecial] at hexact
    obtain ⟨h₁, h₂, h₃, h₄⟩ := addSpecial_spec (s := { s with night }) hexact h
    exact ⟨h₁ ▸ hs.normal, h₂ ▸ hs.tier1, h₃ ▸ hs.tier2, h₄ ▸ hs.special.add hday⟩
  · next hordinary =>
    rw [if_neg hordinary] at hexact
    obtain ⟨n, t, hn', ht', h₁, h₂, h₃, h₄⟩ :=
      addOrdinary_spec (s := { s with night }) hexact h
    have hn'' : HasPlaces 2 n := hn' ▸ hday.min hn
    have ht'' : HasPlaces 2 t := ht' ▸ (hday.sub hn'').min ht
    exact ⟨h₁ ▸ hs.normal.add hn'', h₂ ▸ hs.tier1.add ht'',
      h₃ ▸ hs.tier2.add ((hday.sub hn'').sub ht''), h₄ ▸ hs.special⟩

/-- Whether the rounded parts are added without a digit dropped. -/
def SumExact (s : HourSums) : Prop :=
  s.normal.toHundredths.AddsExactly s.tier1.toHundredths ∧
    ∀ t, s.normal.toHundredths.add s.tier1.toHundredths = .ok t →
      t.AddsExactly s.tier2.toHundredths ∧
      ∀ u, t.add s.tier2.toHundredths = .ok u → u.AddsExactly s.special.toHundredths

instance (s : HourSums) : Decidable s.SumExact :=
  inferInstanceAs (Decidable (_ ∧ ∀ _, _ → _ ∧ ∀ _, _ → _))

variable {b : HourBreakdown}

theorem total_breakdown (hexact : s.SumExact) (h : s.breakdown = .ok b) :
    b.total.toRat = s.normal.toHundredths.toRat + s.tier1.toHundredths.toRat +
      s.tier2.toHundredths.toRat + s.special.toHundredths.toRat := by
  obtain ⟨t, ht, h⟩ := bind_eq_ok.1 h
  obtain ⟨u, hu, h⟩ := bind_eq_ok.1 h
  obtain ⟨v, hv, h⟩ := bind_eq_ok.1 h
  cases h
  obtain ⟨h₁, hrest⟩ := hexact
  obtain ⟨h₂, hrest⟩ := hrest t ht
  rw [hrest u hu v hv, h₂ u hu, h₁ t ht]

/-- Four parts are rounded, each by half a hundredth at most. -/
theorem abs_breakdown_sub_le (hexact : s.SumExact) (h : s.breakdown = .ok b) :
    |b.total.toRat - s.parts| ≤ 2 / 100 := by
  have h₁ := abs_le.1 (Decimal.abs_toHundredths_sub_le s.normal)
  have h₂ := abs_le.1 (Decimal.abs_toHundredths_sub_le s.tier1)
  have h₃ := abs_le.1 (Decimal.abs_toHundredths_sub_le s.tier2)
  have h₄ := abs_le.1 (Decimal.abs_toHundredths_sub_le s.special)
  rw [total_breakdown hexact h, parts, abs_le]
  constructor <;> linarith

theorem breakdown_eq_parts (hexact : s.SumExact) (hs : s.InHundredths) (h : s.breakdown = .ok b) :
    b.total.toRat = s.parts := by
  rw [total_breakdown hexact h, Decimal.toRat_toHundredths hs.normal,
    Decimal.toRat_toHundredths hs.tier1, Decimal.toRat_toHundredths hs.tier2,
    Decimal.toRat_toHundredths hs.special, parts]

end HourSums

/-! ## The hours of a detail -/

/-- Whether the hours of the attendance are added up, split and added up again
    without a digit dropped. -/
structure HoursExact (attendance : List AttendanceEntry) (p : Parameters) (c : WorkCalendar) :
    Prop where
  entries : Along (DailyHoursMap.addEntry p.period) (DailyHoursMap.EntryExact p.period) .empty
    attendance
  days : ∀ daily, DailyHoursMap.ofAttendance attendance p.period = .ok daily →
    Along (HourSums.addDay p.dailyNormalHours p.overtime.tier1Hours c)
      (HourSums.DayExact p.dailyNormalHours p.overtime.tier1Hours c) .none daily.entries ∧
    ∀ sums, daily.entries.foldlM (HourSums.addDay p.dailyNormalHours p.overtime.tier1Hours c)
      .none = .ok sums → sums.SumExact

namespace Payroll

variable {employee : Employee} {attendance : List AttendanceEntry} {inputs : PayrollInputs}
  {registry : Registry} {detail : PayrollDetail}

/-- What the attendance of a period is paid for. -/
def paidHours (p : Period) (attendance : List AttendanceEntry) : ℚ :=
  ((attendance.filter fun e => p.contains e.workDate).map
    fun e => (e.paidHours.map Decimal.toRat).getD 0).sum

theorem sum_paidIn (p : Period) (attendance : List AttendanceEntry) :
    (attendance.map (·.paidIn p)).sum = paidHours p attendance := by
  induction attendance with
  | nil => rfl
  | cons e es ih =>
    rw [List.map_cons, List.sum_cons, ih, paidHours, paidHours, AttendanceEntry.paidIn]
    by_cases hp : p.contains e.workDate
    · rw [if_pos hp, List.filter_cons, if_pos hp, List.map_cons, List.sum_cons]
    · rw [if_neg hp, List.filter_cons, if_neg hp, zero_add]

/-- The days of a detail show the hours of all days. -/
theorem sum_dayDetails {ctx : PayContext} (h : ctx.workedDates = ctx.dailyHours.keys) :
    ((ctx.workedDates.map (PayrollDetail.dayOf ctx)).map (·.hours.toRat)).sum =
      ctx.dailyHours.total := by
  have hget : ctx.workedDates.map ctx.dailyHours.get? = ctx.dailyHours.values.map some := by
    rw [h, SortedMap.map_get?_keys]
  have hdays : (ctx.workedDates.map (PayrollDetail.dayOf ctx)).map (·.hours.toRat) =
      (ctx.workedDates.map ctx.dailyHours.get?).map fun o => (o.getD .none).total.toRat := by
    rw [List.map_map, List.map_map]
    rfl
  rw [hdays, hget, List.map_map, DailyHoursMap.total]
  rfl

/-- The days of a detail add up to the paid hours of its period, and its total is off
    by the rounding of four sums at most: not at all if hours and limits are given in
    hundredths. -/
theorem hours_accounted (h : compute employee attendance inputs registry = .ok detail)
    (hexact : HoursExact attendance inputs.parameters inputs.calendar) :
    (detail.dayDetails.map (·.hours.toRat)).sum =
        paidHours inputs.parameters.period attendance ∧
      |detail.hours.total.toRat - paidHours inputs.parameters.period attendance| ≤ 2 / 100 ∧
      ((∀ e ∈ attendance, inputs.parameters.period.contains e.workDate →
          ∀ hours ∈ e.paidHours, HasPlaces 2 hours.toRat) →
        HasPlaces 2 inputs.parameters.dailyNormalHours.toRat →
        HasPlaces 2 inputs.parameters.overtime.tier1Hours.toRat →
        detail.hours.total.toRat = paidHours inputs.parameters.period attendance) := by
  obtain ⟨ctx, hctx, hhours, -, -, -, hdays⟩ := compute_spec h
  have hprepared := prepared_of_context hctx
  obtain ⟨hruns, hsum⟩ := hexact.days _ hprepared.dailyHours
  have htotal : ctx.dailyHours.total = paidHours inputs.parameters.period attendance := by
    rw [DailyHoursMap.total_ofAttendance hexact.entries hprepared.dailyHours, sum_paidIn]
  -- From entries to days, from days to parts; the rest is the rounding.
  obtain ⟨sums, hsums, hbreakdown⟩ := bind_eq_ok.1 hprepared.hours
  have hparts : sums.parts = paidHours inputs.parameters.period attendance := by
    have hnone : HourSums.none.parts = 0 := by simp [HourSums.parts, HourSums.none]
    rw [HourSums.parts_foldlM hruns hsums, hnone, zero_add, ← htotal, DailyHoursMap.total,
      SortedMap.values, List.map_map]
    rfl
  rw [hdays, hhours]
  refine ⟨by rw [sum_dayDetails hprepared.workedDates_eq, htotal], ?_, ?_⟩
  · rw [← hparts]
    exact HourSums.abs_breakdown_sub_le (hsum sums hsums) hbreakdown
  · intro hpaid hn ht
    have hin : sums.InHundredths := by
      refine foldlM_invariant_along hsums hruns HourSums.inHundredths_none ?_
      intro s day s' hday hsplits hs hstep
      refine hs.addDay hn ht ?_ hsplits hstep
      exact DailyHoursMap.hasPlaces_ofAttendance hexact.entries hprepared.dailyHours hpaid
        (SortedMap.get?_of_mem hday)
    rw [HourSums.breakdown_eq_parts (hsum sums hsums) hin hbreakdown, hparts]

/-- Two entries of a Monday, a long Tuesday, a Sunday, and a day of the week after. -/
def oneWeekAttendance : List AttendanceEntry :=
  [.ofHours 0 525, .ofHours 1 1150, .ofHours 7 800, .ofHours 6 425, .ofHours 0 450]

/-- The week has 25.5 hours, and the detail accounts for all of them. -/
theorem hours_accounted_oneWeek : ∃ detail,
    compute .plain oneWeekAttendance (.plain (.between 0 6) 6) .empty = .ok detail ∧
      detail.hours.total = { mantissa := 2550, scale := 2 } ∧
      (detail.dayDetails.map (·.hours.toRat)).sum =
        paidHours (.between 0 6) oneWeekAttendance ∧
      detail.hours.total.toRat = paidHours (.between 0 6) oneWeekAttendance := by
  have htotal : (compute .plain oneWeekAttendance (.plain (.between 0 6) 6) .empty).map
      (·.hours.total) = .ok { mantissa := 2550, scale := 2 } := by
    decide +kernel
  have hexact : HoursExact oneWeekAttendance (.plain (.between 0 6) 6) ⟨.empty⟩ :=
    ⟨by decide +kernel, by decide +kernel⟩
  have hscale : ∀ e ∈ oneWeekAttendance, ∀ hours ∈ e.paidHours, hours.scale ≤ 2 := by
    decide +kernel
  obtain ⟨detail, hdetail, htotal⟩ := map_eq_ok.1 htotal
  obtain ⟨hdays, -, hsame⟩ := hours_accounted hdetail hexact
  refine ⟨detail, hdetail, htotal, hdays, hsame ?_ ?_ ?_⟩
  · exact fun e he _ hours hhours => Decimal.hasPlaces_of_scale_le (hscale e he hours hhours)
  · exact Decimal.hasPlaces_of_scale_le (by decide)
  · exact Decimal.hasPlaces_of_scale_le (by decide)

end Payroll

end FieldWages
