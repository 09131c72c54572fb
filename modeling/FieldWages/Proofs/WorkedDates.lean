import FieldWages.Proofs.SameWork.Context

/-!
# Dates worked

What was worked is asked at every stage: by the daily hours, the basic pay, the weekly
rest days and the days shown. And so is what kind of day a date is: by the flags of the
context, the multiplier of the basic pay and the hour breakdown. All of them go by the same
dates (`Payroll.DatesAgree`) and by the same answer of the calendar (`Payroll.DaysAgree`),
and the hours of a date are kept apart exactly if the date is paid more than once.

* `BasicPay.ofDates_spec`: what is paid of which dates;
* `HourBreakdown.keepsApart`: the hours of Sundays and holidays are kept apart;
* `Payroll.workedDates_agree`: the stages agree.
-/

namespace FieldWages

/-! ## Basic pay -/

/-- A day is paid once, once more on a Sunday, and once more on a holiday. -/
theorem toNat_dayMultiplier (isSunday isHoliday : Bool) :
    (dayMultiplier isSunday isHoliday).toNat = 1 + isSunday.toNat + isHoliday.toNat := by
  cases isSunday <;> cases isHoliday <;> rfl

/-- Work is paid more than once on Sundays and holidays, and on no other day. -/
theorem two_le_dayMultiplier_iff (c : WorkCalendar) (d : Date) :
    2 ≤ dayMultiplier d.isSunday (c.isHoliday d) ↔ c.isSundayOrHoliday d := by
  rw [WorkCalendar.isSundayOrHoliday]
  cases d.isSunday <;> cases c.isHoliday d <;> decide

namespace BasicPay

variable {dates : List Date} {rate : Decimal} {c : WorkCalendar} {pay : BasicPay}

/-- Whether a date is paid more than once. -/
def paysMore (pay : BasicPay) (d : Date) : Bool :=
  pay.days.any fun day => day.date = d && 2 ≤ day.multiplier

/-- Every date is paid, in order, as the calendar and its weekday say. -/
theorem ofDates_spec (h : ofDates dates rate c = .ok pay) :
    pay.days.map (fun day => (day.date, day.multiplier)) =
      dates.map fun d => (d, dayMultiplier d.isSunday (c.isHoliday d)) := by
  obtain ⟨days, hdays, h⟩ := bind_eq_ok.1 h
  obtain ⟨amount, -, h⟩ := bind_eq_ok.1 h
  cases h
  refine map_eq_of_mapM_eq_ok hdays fun d _ day hday => ?_
  obtain ⟨_, -, hday⟩ := bind_eq_ok.1 hday
  cases hday
  rfl

theorem dates_ofDates (h : ofDates dates rate c = .ok pay) : pay.days.map (·.date) = dates := by
  have hspec := congrArg (List.map Prod.fst) (ofDates_spec h)
  simpa [Function.comp_def] using hspec

theorem multiplier_ofDates (h : ofDates dates rate c = .ok pay) {day : DayPay}
    (hday : day ∈ pay.days) :
    day.multiplier = dayMultiplier day.date.isSunday (c.isHoliday day.date) := by
  have hmem := List.mem_map_of_mem (f := fun day => (day.date, day.multiplier)) hday
  rw [ofDates_spec h] at hmem
  obtain ⟨d, -, heq⟩ := List.mem_map.1 hmem
  obtain ⟨rfl, hmultiplier⟩ := Prod.mk.inj heq
  exact hmultiplier.symm

/-- The dates paid more than once are the Sundays and holidays among them. -/
theorem paysMore_ofDates (h : ofDates dates rate c = .ok pay) {d : Date} (hd : d ∈ dates) :
    pay.paysMore d = c.isSundayOrHoliday d := by
  rw [Bool.eq_iff_iff, ← two_le_dayMultiplier_iff, paysMore, List.any_eq_true]
  constructor
  · rintro ⟨day, hday, hpaid⟩
    rw [Bool.and_eq_true, decide_eq_true_iff, decide_eq_true_iff] at hpaid
    obtain ⟨rfl, hpaid⟩ := hpaid
    rwa [← multiplier_ofDates h hday]
  · intro hpaid
    rw [← dates_ofDates h] at hd
    obtain ⟨day, hday, rfl⟩ := List.mem_map.1 hd
    rw [← multiplier_ofDates h hday] at hpaid
    exact ⟨day, hday, by rw [Bool.and_eq_true]; exact ⟨decide_eq_true rfl, decide_eq_true hpaid⟩⟩

end BasicPay

/-! ## Hours -/

namespace HourSums

variable {s s' t : HourSums} {n₁ t₁ hours : Decimal} {c : WorkCalendar} {day : Date × DailyHours}

/-- Whether two sums agree on the hours of Sundays and holidays. -/
def SameSpecial (s t : HourSums) : Prop := s.special = t.special ∧ s.specialExtra = t.specialExtra

/-- Whether two sums agree on the hours of ordinary days. -/
def SameOrdinary (s t : HourSums) : Prop :=
  s.normal = t.normal ∧ s.tier1 = t.tier1 ∧ s.tier2 = t.tier2

theorem addSpecial_sameOrdinary (h : s.addSpecial hours n₁ = .ok s') : s.SameOrdinary s' := by
  obtain ⟨special, -, h⟩ := bind_eq_ok.1 h
  obtain ⟨extra, -, h⟩ := bind_eq_ok.1 h
  obtain ⟨specialExtra, -, h⟩ := bind_eq_ok.1 h
  cases h
  exact ⟨rfl, rfl, rfl⟩

theorem addOrdinary_sameSpecial (h : s.addOrdinary hours n₁ t₁ = .ok s') : s.SameSpecial s' := by
  obtain ⟨above, -, h⟩ := bind_eq_ok.1 h
  obtain ⟨normal, -, h⟩ := bind_eq_ok.1 h
  obtain ⟨tier1, -, h⟩ := bind_eq_ok.1 h
  obtain ⟨rest, -, h⟩ := bind_eq_ok.1 h
  obtain ⟨tier2, -, h⟩ := bind_eq_ok.1 h
  cases h
  exact ⟨rfl, rfl⟩

/-- A Sunday or holiday adds to the hours of such days whatever the other sums are. -/
theorem SameSpecial.addSpecial (hst : s.SameSpecial t) (h : s.addSpecial hours n₁ = .ok s') :
    ∃ t', t.addSpecial hours n₁ = .ok t' ∧ s'.SameSpecial t' := by
  obtain ⟨hspecial, hextra⟩ := hst
  rw [HourSums.addSpecial, hspecial, hextra] at h
  obtain ⟨special, h₁, h⟩ := bind_eq_ok.1 h
  obtain ⟨extra, h₂, h⟩ := bind_eq_ok.1 h
  obtain ⟨specialExtra, h₃, h⟩ := bind_eq_ok.1 h
  cases h
  exact ⟨{ t with special, specialExtra },
    bind_eq_ok.2 ⟨special, h₁, bind_eq_ok.2 ⟨extra, h₂, bind_eq_ok.2 ⟨specialExtra, h₃, rfl⟩⟩⟩,
    rfl, rfl⟩

/-- An ordinary day adds to the hours of such days whatever the other sums are. -/
theorem SameOrdinary.addOrdinary (hst : s.SameOrdinary t)
    (h : s.addOrdinary hours n₁ t₁ = .ok s') :
    ∃ t', t.addOrdinary hours n₁ t₁ = .ok t' ∧ s'.SameOrdinary t' := by
  obtain ⟨hnormal, htier1, htier2⟩ := hst
  rw [HourSums.addOrdinary, hnormal, htier1, htier2] at h
  obtain ⟨above, h₁, h⟩ := bind_eq_ok.1 h
  obtain ⟨normal, h₂, h⟩ := bind_eq_ok.1 h
  obtain ⟨tier1, h₃, h⟩ := bind_eq_ok.1 h
  obtain ⟨rest, h₄, h⟩ := bind_eq_ok.1 h
  obtain ⟨tier2, h₅, h⟩ := bind_eq_ok.1 h
  cases h
  refine ⟨{ t with normal, tier1, tier2 }, ?_, rfl, rfl, rfl⟩
  exact bind_eq_ok.2 ⟨above, h₁, bind_eq_ok.2 ⟨normal, h₂, bind_eq_ok.2 ⟨tier1, h₃,
    bind_eq_ok.2 ⟨rest, h₄, bind_eq_ok.2 ⟨tier2, h₅, rfl⟩⟩⟩⟩⟩

/-- A day adds its night hours, and then what days of its kind add. -/
theorem addDay_eq_ok (h : addDay n₁ t₁ c s day = .ok s') :
    ∃ night, if c.isSundayOrHoliday day.1
      then { s with night }.addSpecial day.2.total n₁ = .ok s'
      else { s with night }.addOrdinary day.2.total n₁ t₁ = .ok s' := by
  obtain ⟨night, -, h⟩ := bind_eq_ok.1 h
  refine ⟨night, ?_⟩
  dsimp only at h
  split at h
  · next hday => rwa [if_pos hday]
  · next hday => rwa [if_neg hday]

/-- The hours of Sundays and holidays, summed up on their own. -/
def ofSpecial (days : List (Date × DailyHours)) (n₁ : Decimal) : Except Fault HourSums :=
  days.foldlM (fun s day => s.addSpecial day.2.total n₁) .none

/-- The hours of ordinary days, summed up on their own. -/
def ofOrdinary (days : List (Date × DailyHours)) (n₁ t₁ : Decimal) : Except Fault HourSums :=
  days.foldlM (fun s day => s.addOrdinary day.2.total n₁ t₁) .none

variable {days : List (Date × DailyHours)}

/-- The hours of Sundays and holidays are not touched by other days. -/
theorem exists_ofSpecial (h : days.foldlM (addDay n₁ t₁ c) .none = .ok s) :
    ∃ t, ofSpecial (days.filter (c.isSundayOrHoliday ·.1)) n₁ = .ok t ∧ s.SameSpecial t := by
  refine foldlM_filter (R := SameSpecial) h ⟨rfl, rfl⟩ ?_ ?_
  · intro s t day s' hday hst h
    obtain ⟨night, h⟩ := addDay_eq_ok h
    rw [if_pos hday] at h
    exact SameSpecial.addSpecial (s := { s with night }) hst h
  · intro s t day s' hday hst h
    obtain ⟨night, h⟩ := addDay_eq_ok h
    rw [if_neg hday] at h
    obtain ⟨hspecial, hextra⟩ := addOrdinary_sameSpecial h
    exact ⟨hspecial.symm.trans hst.1, hextra.symm.trans hst.2⟩

/-- The hours of ordinary days are not touched by Sundays and holidays. -/
theorem exists_ofOrdinary (h : days.foldlM (addDay n₁ t₁ c) .none = .ok s) :
    ∃ t, ofOrdinary (days.filter (!c.isSundayOrHoliday ·.1)) n₁ t₁ = .ok t ∧
      s.SameOrdinary t := by
  refine foldlM_filter (R := SameOrdinary) h ⟨rfl, rfl, rfl⟩ ?_ ?_
  · intro s t day s' hday hst h
    obtain ⟨night, h⟩ := addDay_eq_ok h
    rw [Bool.not_eq_true'] at hday
    rw [if_neg (by rw [hday]; decide)] at h
    exact SameOrdinary.addOrdinary (s := { s with night }) hst h
  · intro s t day s' hday hst h
    obtain ⟨night, h⟩ := addDay_eq_ok h
    rw [Bool.not_eq_true', Bool.not_eq_false] at hday
    rw [if_pos hday] at h
    obtain ⟨hnormal, htier1, htier2⟩ := addSpecial_sameOrdinary h
    exact ⟨hnormal.symm.trans hst.1, htier1.symm.trans hst.2.1, htier2.symm.trans hst.2.2⟩

end HourSums

/-- Whether the hours of the dates selected are all of the hours a breakdown keeps apart as
    Sunday and holiday hours, and those of the other dates all of its normal hours and
    overtime. -/
structure HourBreakdown.KeepsApart (b : HourBreakdown) (selected : Date → Bool)
    (daily : DailyHoursMap) (normalLimit tier1Limit : Decimal) : Prop where
  special : ∃ s, HourSums.ofSpecial (daily.entries.filter (selected ·.1)) normalLimit = .ok s ∧
    b.holidaySunday = s.special.toHundredths ∧ b.holidaySundayExtra = s.specialExtra.toHundredths
  ordinary : ∃ s,
    HourSums.ofOrdinary (daily.entries.filter (!selected ·.1)) normalLimit tier1Limit = .ok s ∧
      b.normal = s.normal.toHundredths ∧ b.overtimeTier1 = s.tier1.toHundredths ∧
      b.overtimeTier2 = s.tier2.toHundredths

/-- The hours of Sundays and holidays are kept apart. -/
theorem HourBreakdown.keepsApart {b : HourBreakdown} {daily : DailyHoursMap} {n₁ t₁ : Decimal}
    {c : WorkCalendar} (h : ofDaily daily n₁ t₁ c = .ok b) :
    b.KeepsApart c.isSundayOrHoliday daily n₁ t₁ := by
  obtain ⟨sums, hsums, h⟩ := bind_eq_ok.1 h
  obtain ⟨_, -, h⟩ := bind_eq_ok.1 h
  obtain ⟨_, -, h⟩ := bind_eq_ok.1 h
  obtain ⟨_, -, h⟩ := bind_eq_ok.1 h
  cases h
  obtain ⟨s, hs, hspecial, hextra⟩ := HourSums.exists_ofSpecial hsums
  obtain ⟨o, ho, hnormal, htier1, htier2⟩ := HourSums.exists_ofOrdinary hsums
  rw [hspecial, hextra, hnormal, htier1, htier2]
  exact ⟨⟨s, hs, rfl, rfl⟩, ⟨o, ho, rfl, rfl, rfl⟩⟩

/-- Only whether the dates with hours are selected matters. -/
theorem HourBreakdown.KeepsApart.congr {b : HourBreakdown} {selected selected' : Date → Bool}
    {daily : DailyHoursMap} {n₁ t₁ : Decimal} (h : b.KeepsApart selected daily n₁ t₁)
    (heq : ∀ d ∈ daily.keys, selected' d = selected d) : b.KeepsApart selected' daily n₁ t₁ := by
  have hentries : ∀ e ∈ daily.entries, selected' e.1 = selected e.1 := fun e he =>
    heq e.1 (List.mem_map_of_mem he)
  constructor
  · rw [List.filter_congr hentries]
    exact h.special
  · rw [List.filter_congr fun e he => congrArg not (hentries e he)]
    exact h.ordinary

/-! ## Details -/

namespace Payroll

variable {employee : Employee} {attendance : List AttendanceEntry} {inputs : PayrollInputs}
  {registry : Registry} {ctx : PayContext} {detail : PayrollDetail} {p : Period}

/-- Every date of the period is flagged as the calendar and its weekday say. -/
theorem get?_flagsOf {c : WorkCalendar} {d : Date} (hd : p.start ≤ d ∧ d ≤ p.stop) :
    (flagsOf p c).get? d = some ⟨c.isHoliday d, d.isSunday, c.isWorkingDay d⟩ :=
  SortedMap.get?_tabulate.trans (if_pos (Date.mem_through.2 hd))

/-- The dates of a context are those of the period that the weekly rest days go by. -/
theorem mem_workedDates_iff (h : Prepared employee attendance inputs ctx) {first d : Date}
    (hfirst : inputs.parameters.period.windowStart = .ok first) :
    d ∈ ctx.workedDates ↔ d ∈ attendedDates attendance first inputs.parameters.period.stop ∧
      inputs.parameters.period.contains d := by
  rw [h.workedDates_eq, DailyHoursMap.mem_keys_ofAttendance h.dailyHours, mem_attendedDates,
    mem_paidDates_iff, Period.contains, Bool.and_eq_true, decide_eq_true_iff, decide_eq_true_iff]
  constructor
  · rintro ⟨hp, hd⟩
    exact ⟨⟨hd, Std.le_trans (Period.windowStart_le hfirst) hp.1, hp.2⟩, hp⟩
  · rintro ⟨⟨hd, -⟩, hp⟩
    exact ⟨hp, hd⟩

/-- Whether the stages of a calculation and its detail go by the same dates worked. -/
structure DatesAgree (attendance : List AttendanceEntry) (inputs : PayrollInputs)
    (ctx : PayContext) (detail : PayrollDetail) : Prop where
  ascending : ctx.workedDates.Pairwise (· < ·)
  contained : ∀ d ∈ ctx.workedDates, inputs.parameters.period.contains d
  withHours : ctx.dailyHours.keys = ctx.workedDates
  paid : ctx.basicPay.days.map (·.date) = ctx.workedDates
  shown : detail.dayDetails.map (·.date) = ctx.workedDates
  /-- They are the dates of the period among those the rest days are earned by. -/
  attended : ∃ first, inputs.parameters.period.windowStart = .ok first ∧
    RestDaySummary.ofPeriod inputs.parameters.period
      (attendedDates attendance first inputs.parameters.period.stop) inputs.calendar
      ctx.dailyRate = .ok ctx.restDays ∧
    ∀ d, d ∈ ctx.workedDates ↔ d ∈ attendedDates attendance first inputs.parameters.period.stop ∧
      inputs.parameters.period.contains d
  counted : detail.daysWorked.toNat = ctx.workedDates.length

/-- Whether the stages of a calculation and its detail agree on what kind of day a date
    worked is, and go by the calendar. -/
structure DaysAgree (inputs : PayrollInputs) (ctx : PayContext) (detail : PayrollDetail) :
    Prop where
  /-- The flags and the hours of every date shown are known. -/
  known : ∀ day ∈ detail.dayDetails,
    ctx.dayFlags? day.date = some ⟨inputs.calendar.isHoliday day.date, day.date.isSunday,
        inputs.calendar.isWorkingDay day.date⟩ ∧
      ctx.dailyHours.get? day.date = some ⟨day.hours, day.nightHours⟩
  shown : ∀ day ∈ detail.dayDetails,
    day.isHoliday = inputs.calendar.isHoliday day.date ∧ day.isSunday = day.date.isSunday
  paid : ∀ day ∈ ctx.basicPay.days, day.multiplier.toNat =
    1 + day.date.isSunday.toNat + (inputs.calendar.isHoliday day.date).toNat
  /-- The hours of a date are kept apart exactly if it is paid more than once. -/
  apart : detail.hours.KeepsApart ctx.basicPay.paysMore ctx.dailyHours
    inputs.parameters.dailyNormalHours inputs.parameters.overtime.tier1Hours

theorem datesAgree (h : Prepared employee attendance inputs ctx)
    (hdates : detail.dayDetails = ctx.workedDates.map (PayrollDetail.dayOf ctx))
    (hcount : detail.daysWorked = ctx.daysWorked) : DatesAgree attendance inputs ctx detail where
  ascending := h.workedDates_eq ▸ List.pairwise_map.2 ctx.dailyHours.sorted
  contained d hd := by
    obtain ⟨first, hfirst, -⟩ := h.restDays
    exact ((mem_workedDates_iff h hfirst).1 hd).2
  withHours := h.workedDates_eq.symm
  paid := BasicPay.dates_ofDates h.basicPay
  shown := by
    rw [hdates, List.map_map]
    exact List.map_id _
  attended := by
    obtain ⟨first, hfirst, hrestDays⟩ := h.restDays
    exact ⟨first, hfirst, hrestDays, fun d => mem_workedDates_iff h hfirst⟩
  counted := by
    have hle := Date.length_le_of_nodup ctx.dailyHours.nodup_keys
    rw [hcount, PayContext.daysWorked, h.workedDates_eq]
    exact UInt32.toNat_ofNat_of_lt' (hle.trans_lt (by decide))

theorem daysAgree (h : Prepared employee attendance inputs ctx)
    (hdates : detail.dayDetails = ctx.workedDates.map (PayrollDetail.dayOf ctx))
    (hhours : detail.hours = ctx.hours) : DaysAgree inputs ctx detail := by
  have hflags : ∀ d ∈ ctx.workedDates, ctx.dayFlags? d =
      some ⟨inputs.calendar.isHoliday d, d.isSunday, inputs.calendar.isWorkingDay d⟩ := by
    intro d hd
    rw [h.workedDates_eq, DailyHoursMap.mem_keys_ofAttendance h.dailyHours, Period.contains,
      Bool.and_eq_true, decide_eq_true_iff, decide_eq_true_iff] at hd
    rw [PayContext.dayFlags?, h.calendar_eq, get?_flagsOf hd.1]
  have hknown : ∀ d ∈ ctx.workedDates, ∃ hours, ctx.dailyHours.get? d = some hours := by
    intro d hd
    rw [← Option.isSome_iff_exists, SortedMap.isSome_get?, ← h.workedDates_eq]
    exact hd
  refine ⟨?_, ?_, fun day hday => ?_, ?_⟩
  · rw [hdates, List.forall_mem_map]
    intro d hd
    obtain ⟨hours, hget⟩ := hknown d hd
    refine ⟨hflags d hd, ?_⟩
    rw [PayrollDetail.dayOf, hget]
    rfl
  · rw [hdates, List.forall_mem_map]
    intro d hd
    rw [PayrollDetail.dayOf, hflags d hd]
    exact ⟨rfl, rfl⟩
  · rw [BasicPay.multiplier_ofDates h.basicPay hday, toNat_dayMultiplier]
  · rw [hhours]
    refine (HourBreakdown.keepsApart h.hours).congr fun d hd => ?_
    exact BasicPay.paysMore_ofDates h.basicPay (h.workedDates_eq ▸ hd)

/-- Of a detail that is computed, the stages before the concepts and the detail itself, which
    is assembled from a context with the same stages, agree on the dates worked and on the
    kind of day each of them is. -/
theorem workedDates_agree (h : compute employee attendance inputs registry = .ok detail) :
    ∃ ctx run, context employee attendance inputs = .ok ctx ∧
      ConceptRun.ofContext ctx registry = .ok run ∧ ctx.SameBasis run.context ∧
      PayrollDetail.assemble run.context run.lines run.steps = .ok detail ∧
      DatesAgree attendance inputs ctx detail ∧ DaysAgree inputs ctx detail := by
  obtain ⟨-, ctx, run, hctx, hrun, hdetail⟩ := compute_eq_ok_iff.1 h
  obtain ⟨ctx', hctx', hhours, -, -, hcount, hdates⟩ := compute_spec h
  cases hctx.symm.trans hctx'
  have hprepared := prepared_of_context hctx
  exact ⟨ctx, run, hctx, hrun, ConceptRun.sameBasis hrun, hdetail,
    datesAgree hprepared hdates hcount, daysAgree hprepared hdates hhours⟩

/-- Holidays on a Thursday and on the Sunday after it. -/
def holidays : List CalendarDay := [⟨.onDay 3, false, true⟩, ⟨.onDay 6, false, true⟩]

/-- A week from Wednesday to Tuesday with these holidays. -/
def holidayWeek : PayrollInputs :=
  { PayrollInputs.plain (.between 2 8) 6 with calendar := .ofDays holidays }

/-- Work on the Tuesday before, on the holidays and on the days that end the week; on the
    Sunday for no hours at all, and on the last day without hours recorded. -/
def holidayAttendance : List AttendanceEntry :=
  [.ofHours 1 800, .ofHours 2 800, .ofHours 3 1000, .ofHours 6 0, .ofHours 7 900,
   { AttendanceEntry.ofHours 8 0 with paidHours := none }]

/-- The work before the week counts for its rest days only, the Sunday for no hours, and the
    day without hours recorded for nothing. -/
theorem workedDates_agree_holidays : ∃ detail ctx,
    compute .plain holidayAttendance holidayWeek .standard = .ok detail ∧
    context .plain holidayAttendance holidayWeek = .ok ctx ∧
    detail.dayDetails.map (·.date) = [.onDay 2, .onDay 3, .onDay 6, .onDay 7] ∧
    ctx.basicPay.days.map (·.multiplier) = [1, 2, 3, 1] ∧
    detail.hours.holidaySunday = { mantissa := 1000, scale := 2 } ∧
    DatesAgree holidayAttendance holidayWeek ctx detail ∧ DaysAgree holidayWeek ctx detail := by
  have hdetail : (compute .plain holidayAttendance holidayWeek .standard).map
      (fun d => (d.dayDetails.map (·.date), d.hours.holidaySunday)) =
      .ok ([.onDay 2, .onDay 3, .onDay 6, .onDay 7], { mantissa := 1000, scale := 2 }) := by
    decide +kernel
  have hctx : (context .plain holidayAttendance holidayWeek).map
      (·.basicPay.days.map (·.multiplier)) = .ok [1, 2, 3, 1] := by
    decide +kernel
  obtain ⟨detail, hdetail, hshown⟩ := map_eq_ok.1 hdetail
  obtain ⟨ctx, hctx, hpaid⟩ := map_eq_ok.1 hctx
  obtain ⟨hdates, hhours⟩ := Prod.mk.inj hshown
  obtain ⟨ctx', run, hctx', -, -, -, hagree⟩ := workedDates_agree hdetail
  cases hctx.symm.trans hctx'
  exact ⟨detail, ctx, hdetail, hctx, hdates, hpaid, hhours, hagree⟩

end Payroll

end FieldWages
