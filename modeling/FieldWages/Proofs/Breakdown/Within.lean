import FieldWages.Proofs.Cut.Hours
import FieldWages.Proofs.MoreWork.Hours
import FieldWages.Proofs.OutOfRange

/-!
# Parts that stay within the whole

The night hours of an entry are rounded to the hundredth, which can go up, but they are no
more than the hours it is paid. Entries add to both, so the night hours of a day stay within
its hours, however many shifts it has; and so do those of a period, as far as no digit
is dropped and hours are in hundredths. In the same way the extra hours of Sundays and
holidays stay within the hours of these days: they are what is above a limit.

Sums that are rounded to the range of decimals keep the order of what is added up
(`Decimal.Fits.add_mono`), so all but the last step does not need sums to be exact.

* `DailyHoursMap.nightWithin_ofAttendance`: the night hours of a day;
* `HourSums.ExtraWithin.addDay`: the extra hours of Sundays and holidays;
* `HourNumbers.NightWithin.sum`: the night hours of a period;
* `Payroll.partsWithin`: the hours of a detail.
-/

namespace FieldWages

open Decimal

/-! ## The night hours of a day -/

/-- Night hours are no more than the hours paid. -/
theorem nightHours_le {start stop : TimeOfDay} {hours n : Decimal} (hhours : zero ≤ hours)
    (h : nightHours start stop hours = .ok n) : n ≤ hours := by
  obtain ⟨q, -, h⟩ := bind_eq_ok.1 h
  rw [pure_eq_ok] at h
  subst h
  rw [le_iff_toRat, toRat_min, toRat_max, toRat_zero, max_eq_left (zero_le_iff.1 hhours)]
  exact min_le_right _ _

/-- Whether the night hours of a day are among its hours. -/
structure DailyHours.NightWithin (day : DailyHours) : Prop where
  nonneg : zero ≤ day.night
  le_total : day.night ≤ day.total

namespace DailyHours

variable {day day' : DailyHours} {hours : Decimal} {shift : Option (TimeOfDay × TimeOfDay)}

theorem nightWithin_none : NightWithin none := ⟨le_rfl, le_rfl⟩

/-- An entry adds no more night hours to its day than hours. -/
theorem NightWithin.addEntry (hday : day.NightWithin) (hhours : zero ≤ hours)
    (h : day.addEntry hours shift = .ok day') : day'.NightWithin := by
  obtain ⟨total, htotal, h⟩ := bind_eq_ok.1 h
  have hfits := fits_add htotal
  cases shift with
  | none =>
    cases h
    exact ⟨hday.nonneg, hfits.le_add hday.le_total (zero_le_iff.1 hhours)⟩
  | some times =>
    obtain ⟨n, hn, h⟩ := bind_eq_ok.1 h
    obtain ⟨night, hnight, h⟩ := bind_eq_ok.1 h
    cases h
    have hfits' := fits_add hnight
    exact ⟨hfits'.le_add hday.nonneg (zero_le_iff.1 (nightHours_nonneg hn)),
      hfits'.add_mono hfits hday.le_total (le_iff_toRat.1 (nightHours_le hhours hn))⟩

end DailyHours

namespace DailyHoursMap

variable {p : Period} {daily daily' : DailyHoursMap} {e : AttendanceEntry}
  {entries : List AttendanceEntry}

theorem nightWithin_addEntry (hdaily : ∀ d, (daily.on d).NightWithin) (he : e.HoursNonneg)
    (h : addEntry p daily e = .ok daily') (d : Date) : (daily'.on d).NightWithin := by
  rw [addEntry] at h
  split at h
  · next hours _ hpaid =>
    obtain ⟨day, hday, h⟩ := bind_eq_ok.1 h
    cases h
    rw [on_insert]
    split
    · exact (hdaily e.workDate).addEntry (he hours hpaid) hday
    · exact hdaily d
  · cases h
    exact hdaily d

/-- The night hours of every day are among its hours. -/
theorem nightWithin_ofAttendance (hentries : ∀ e ∈ entries, e.HoursNonneg)
    (h : ofAttendance entries p = .ok daily) (d : Date) : (daily.on d).NightWithin := by
  refine foldlM_invariant (P := fun daily => ∀ d, (on daily d).NightWithin) h
    (fun _ => DailyHours.nightWithin_none) ?_ d
  exact fun daily e daily' he hdaily hstep => nightWithin_addEntry hdaily (hentries e he) hstep

end DailyHoursMap

/-! ## The sums over days -/

namespace HourSums

variable {s s' : HourSums} {n₁ t₁ : Decimal} {c : WorkCalendar} {day : Date × DailyHours}

/-- Whether the night hours are not negative, nor the extra hours of Sundays and holidays,
    which are among the hours of these days. -/
structure ExtraWithin (s : HourSums) : Prop where
  night : zero ≤ s.night
  nonneg : zero ≤ s.specialExtra
  le_special : s.specialExtra ≤ s.special

theorem extraWithin_none : ExtraWithin none := ⟨le_rfl, le_rfl, le_rfl⟩

/-- A Sunday or holiday adds no more extra hours than hours. -/
theorem ExtraWithin.addsSpecial {hours above : Decimal} (hs : s.ExtraWithin) (hn : zero ≤ n₁)
    (hhours : zero ≤ hours) (h : AddsSpecial n₁ hours above s s') : s'.ExtraWithin := by
  have habove : above ≤ hours :=
    h.fits_above.mono (fits_toRat hours) (sub_le_self _ (zero_le_iff.1 hn))
  rw [h.others]
  exact
    { night := hs.night
      nonneg := h.specialExtra.le_add hs.nonneg (le_max_right _ _)
      le_special := h.specialExtra.add_mono h.special hs.le_special
        (max_le (le_iff_toRat.1 habove) (zero_le_iff.1 hhours)) }

theorem ExtraWithin.addDay (hs : s.ExtraWithin) (hn : zero ≤ n₁) (hday : day.2.NightWithin)
    (h : addDay n₁ t₁ c s day = .ok s') : s'.ExtraWithin := by
  obtain ⟨night, hnight, h⟩ := (addDay_unless n₁ t₁ c day s).of_eq_ok h
  have hs' : ExtraWithin { s with night } :=
    { hs with night := hnight.le_add hs.night (zero_le_iff.1 hday.nonneg) }
  split at h
  · obtain ⟨_, h⟩ := h
    exact hs'.addsSpecial hn (hday.nonneg.trans hday.le_total) h
  · obtain ⟨_, _, h⟩ := h
    rw [h.others]
    exact ⟨hs'.night, hs'.nonneg, hs'.le_special⟩

end HourSums

/-- The extra hours of a breakdown are among the hours of Sundays and holidays. -/
theorem HourBreakdown.extraWithin {daily : DailyHoursMap} {n₁ t₁ : Decimal} {c : WorkCalendar}
    {b : HourBreakdown} (h : ofDaily daily n₁ t₁ c = .ok b) (hn : zero ≤ n₁)
    (hdaily : ∀ d, (daily.on d).NightWithin) :
    zero ≤ b.night ∧ zero ≤ b.holidaySundayExtra ∧ b.holidaySundayExtra ≤ b.holidaySunday := by
  obtain ⟨sums, hsums, h⟩ := bind_eq_ok.1 h
  have hwithin : sums.ExtraWithin := by
    refine foldlM_invariant hsums HourSums.extraWithin_none fun s day s' hday hs hstep => ?_
    have hnight := hdaily day.1
    rw [DailyHoursMap.on, SortedMap.get?_of_mem hday] at hnight
    exact hs.addDay hn hnight hstep
  obtain ⟨t, -, h⟩ := bind_eq_ok.1 h
  obtain ⟨u, -, h⟩ := bind_eq_ok.1 h
  obtain ⟨v, -, h⟩ := bind_eq_ok.1 h
  cases h
  exact ⟨toHundredths_nonneg hwithin.night, toHundredths_nonneg hwithin.nonneg,
    toHundredths_mono hwithin.le_special⟩

/-! ## The night hours of a period -/

namespace HourNumbers

variable {x y : HourNumbers}

/-- Whether the night hours are no more than normal hours, overtime and the hours of Sundays
    and holidays are together. -/
def NightWithin (x : HourNumbers) : Prop :=
  x.2.2.2.2.2 ≤ x.1 + x.2.1 + x.2.2.1 + x.2.2.2.1

theorem NightWithin.add (hx : x.NightWithin) (hy : y.NightWithin) : (x + y).NightWithin := by
  rw [NightWithin] at *
  simp only [Prod.fst_add, Prod.snd_add]
  linarith

theorem NightWithin.sum {xs : List HourNumbers} (h : ∀ x ∈ xs, NightWithin x) :
    NightWithin xs.sum := by
  induction xs with
  | nil => simp [NightWithin]
  | cons x xs ih =>
    obtain ⟨hx, hxs⟩ := List.forall_mem_cons.1 h
    rw [List.sum_cons]
    exact hx.add (ih hxs)

/-- The parts of a day are its hours, so they hold its night hours. -/
theorem nightWithin_ofDay (normalLimit tier1Limit : ℚ) (special : Bool) {hours night : ℚ}
    (h : night ≤ hours) : NightWithin (ofDay normalLimit tier1Limit special hours night) := by
  cases special with
  | true => simpa [NightWithin, ofDay] using h
  | false => simpa [NightWithin, ofDay] using h

end HourNumbers

namespace Payroll

variable {employee : Employee} {attendance : List AttendanceEntry} {inputs : PayrollInputs}
  {registry : Registry} {detail : PayrollDetail}

/-- Whether all hours of the attendance, those at night too, are added up, split and added up
    again without a digit dropped. -/
structure AllHoursExact (attendance : List AttendanceEntry) (p : Parameters) (c : WorkCalendar) :
    Prop where
  hours : HoursExact attendance p c
  nightHours : Along (DailyHoursMap.addEntry p.period) (DailyHoursMap.NightExact p.period) .empty
    attendance
  restHours : ∀ daily, DailyHoursMap.ofAttendance attendance p.period = .ok daily →
    Along (HourSums.addDay p.dailyNormalHours p.overtime.tier1Hours c)
      (HourSums.RestExact p.dailyNormalHours c) .none daily.entries

/-- Whether the parts of a detail stay within the whole: the night hours of a day within its
    hours, and the extra hours of Sundays and holidays within the hours of these days. The night
    hours of a period are within its hours, if nothing is dropped on the way and hours and
    limits are in hundredths. -/
structure PartsWithin (attendance : List AttendanceEntry) (inputs : PayrollInputs)
    (detail : PayrollDetail) : Prop where
  days : ∀ day ∈ detail.dayDetails, zero ≤ day.nightHours ∧ day.nightHours ≤ day.hours
  extra : zero ≤ detail.hours.holidaySundayExtra ∧
    detail.hours.holidaySundayExtra ≤ detail.hours.holidaySunday
  night_nonneg : zero ≤ detail.hours.night
  night_le : AllHoursExact attendance inputs.parameters inputs.calendar →
    (∀ e ∈ attendance, inputs.parameters.period.contains e.workDate →
      ∀ hours ∈ e.paidHours, HasPlaces 2 hours.toRat) →
    HasPlaces 2 inputs.parameters.dailyNormalHours.toRat →
    HasPlaces 2 inputs.parameters.overtime.tier1Hours.toRat →
      detail.hours.night ≤ detail.hours.total

theorem partsWithin_of_compute (h : compute employee attendance inputs registry = .ok detail) :
    PartsWithin attendance inputs detail := by
  obtain ⟨haccepted, -⟩ := compute_eq_ok_iff.1 h
  obtain ⟨ctx, hctx, hhours, -, -, -, hdays⟩ := compute_spec h
  have hprepared := prepared_of_context hctx
  have hwithin := DailyHoursMap.nightWithin_ofAttendance
    (DailyHoursMap.nonneg_of_accepted haccepted) hprepared.dailyHours
  have hlimit : zero ≤ inputs.parameters.dailyNormalHours :=
    (not_le_iff_lt.1 (refusal?_eq_none_iff.1 haccepted).2.2.1).le
  obtain ⟨hnight, hextra⟩ := HourBreakdown.extraWithin hprepared.hours hlimit hwithin
  refine ⟨fun day hday => ?_, hhours ▸ hextra, hhours ▸ hnight, fun hexact hpaid hn ht => ?_⟩
  · rw [hdays] at hday
    obtain ⟨d, -, rfl⟩ := List.mem_map.1 hday
    exact ⟨(hwithin d).nonneg, (hwithin d).le_total⟩
  · obtain ⟨hsplits, hsums⟩ := hexact.hours.days _ hprepared.dailyHours
    have hexact' : HourBreakdown.SplitsExactly ctx.dailyHours inputs.parameters.dailyNormalHours
        inputs.parameters.overtime.tier1Hours inputs.calendar :=
      ⟨hsplits, hexact.restHours _ hprepared.dailyHours, hsums⟩
    have hnumbers := HourBreakdown.numbers_ofAttendance hprepared.dailyHours hprepared.hours
      hexact' hexact.hours.entries hexact.nightHours hpaid hn ht
    have hsum : HourNumbers.NightWithin ctx.hours.numbers := by
      rw [hnumbers]
      refine HourNumbers.NightWithin.sum fun x hx => ?_
      obtain ⟨day, hday, rfl⟩ := List.mem_map.1 hx
      have hday' := (hwithin day.1).le_total
      rw [DailyHoursMap.on, SortedMap.get?_of_mem hday] at hday'
      exact HourNumbers.nightWithin_ofDay _ _ _ (le_iff_toRat.1 hday')
    rw [hhours, le_iff_toRat, (HourBreakdown.numbers_ofDaily hprepared.hours hexact').2]
    exact hsum

/-- The parts of the detail of an accepted input stay within the whole, and there is a detail
    unless something is out of range. -/
theorem partsWithin (haccepted : refusal? employee attendance inputs.parameters = none)
    (registry : Registry) :
    (∃ detail, compute employee attendance inputs registry = .ok detail ∧
      PartsWithin attendance inputs detail) ∨
    ∃ f, compute employee attendance inputs registry = .error (.faulted f) ∧
      (registry.Steady → OutOfRange attendance inputs.parameters.period f) :=
  (exists_compute_of_accepted haccepted registry).imp_left fun ⟨detail, h⟩ =>
    ⟨detail, h, partsWithin_of_compute h⟩

/-- Two shifts that began on a Sunday evening and overlap, of which the second is paid for an
    hour and a quarter only, and one of the Monday after. -/
def nightAttendance : List AttendanceEntry :=
  [{ AttendanceEntry.ofHours 6 900 with
      startTime := some (.afterMidnight 79230)
      endTime := some (.afterMidnight 18010) },
   { AttendanceEntry.ofHours 6 125 with
      startTime := some (.afterMidnight 82800)
      endTime := some (.afterMidnight 21600) },
   { AttendanceEntry.ofHours 7 1150 with
      startTime := some (.afterMidnight 72000)
      endTime := some (.afterMidnight 7200) }]

/-- Of the 21.75 hours 12.25 are at night: seven, an hour and a quarter, and four. -/
theorem partsWithin_evenings :
    refusal? .plain nightAttendance (.plain (.between 1 7) 6) = none ∧
    ∃ detail, compute .plain nightAttendance (.plain (.between 1 7) 6) .empty = .ok detail ∧
      detail.dayDetails.map (fun day => (day.hours.toRat, day.nightHours.toRat)) =
        [(10.25, 8.25), (11.5, 4)] ∧
      detail.hours.holidaySundayExtra.toRat = 2.25 ∧ detail.hours.holidaySunday.toRat = 10.25 ∧
      detail.hours.night.toRat = 12.25 ∧ detail.hours.total.toRat = 21.75 ∧
      (∀ day ∈ detail.dayDetails, zero ≤ day.nightHours ∧ day.nightHours ≤ day.hours) ∧
      detail.hours.holidaySundayExtra ≤ detail.hours.holidaySunday ∧
      detail.hours.night ≤ detail.hours.total := by
  have haccepted : refusal? .plain nightAttendance (.plain (.between 1 7) 6) = none := by
    decide +kernel
  have hdetail : (compute .plain nightAttendance (.plain (.between 1 7) 6) .empty).map (fun d =>
      (d.dayDetails.map (fun day => (day.hours.toRat, day.nightHours.toRat)),
        d.hours.holidaySundayExtra.toRat, d.hours.holidaySunday.toRat, d.hours.night.toRat,
        d.hours.total.toRat)) = .ok ([(10.25, 8.25), (11.5, 4)], 2.25, 10.25, 12.25, 21.75) := by
    decide +kernel
  have hexact : AllHoursExact nightAttendance (.plain (.between 1 7) 6) ⟨.empty⟩ :=
    ⟨⟨by decide +kernel, by decide +kernel⟩, by decide +kernel, by decide +kernel⟩
  have hscale : ∀ e ∈ nightAttendance, ∀ hours ∈ e.paidHours, hours.scale ≤ 2 := by
    decide +kernel
  obtain ⟨detail, hdetail, hshown⟩ := map_eq_ok.1 hdetail
  obtain ⟨hdays, hshown⟩ := Prod.mk.inj hshown
  obtain ⟨hextra, hshown⟩ := Prod.mk.inj hshown
  obtain ⟨hspecial, hshown⟩ := Prod.mk.inj hshown
  obtain ⟨hnight, htotal⟩ := Prod.mk.inj hshown
  rcases @partsWithin .plain nightAttendance (.plain (.between 1 7) 6) haccepted .empty with
    ⟨detail', hdetail', hwithin⟩ | ⟨f, hf, -⟩
  · cases hdetail.symm.trans hdetail'
    refine ⟨haccepted, detail, hdetail, hdays, hextra, hspecial, hnight, htotal, hwithin.days,
      hwithin.extra.2, hwithin.night_le hexact ?_ ?_ ?_⟩
    · exact fun e he _ hours hhours => hasPlaces_of_scale_le (hscale e he hours hhours)
    · exact hasPlaces_of_scale_le (by decide)
    · exact hasPlaces_of_scale_le (by decide)
  · cases hdetail.symm.trans hf

end Payroll

end FieldWages
