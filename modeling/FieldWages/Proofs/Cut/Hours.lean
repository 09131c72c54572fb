import FieldWages.Proofs.Hours

/-!
# Hours of a cut period

The hours of a day are split into parts, and each part goes to a sum of its own. As numbers
(`HourNumbers`) the sums are thus the sum over the days, whatever periods these are in. They
are rounded to the hundredth when all days have been added, which changes nothing where
hours and limits are in hundredths to begin with: then all parts of a day are, the night
hours among them.

* `DailyHoursMap.hasPlaces_night_ofAttendance`: night hours are in hundredths;
* `HourSums.numbers_addDay`, `HourSums.numbers_foldlM`: what a day adds, and what all days do;
* `HourBreakdown.numbers_ofDaily`: a breakdown is the sum of the parts of its days, to the
  hundredth;
* `HourBreakdown.numbers_ofDaily_of_hasPlaces`: it is that sum where hours are in hundredths.
-/

namespace FieldWages

/-! ## Night hours -/

theorem HasPlaces.max {places : Nat} {x y : ℚ} (hx : HasPlaces places x) (hy : HasPlaces places y) :
    HasPlaces places (Max.max x y) := by
  rcases max_choice x y with h | h <;> rw [h] <;> assumption

/-- Night hours are given in hundredths if the paid hours are. -/
theorem hasPlaces_nightHours {start stop : TimeOfDay} {paidHours night : Decimal}
    (hpaid : HasPlaces 2 paidHours.toRat) (h : nightHours start stop paidHours = .ok night) :
    HasPlaces 2 night.toRat := by
  obtain ⟨hours, -, h⟩ := bind_eq_ok.1 h
  rw [pure_eq_ok] at h
  subst h
  rw [Decimal.toRat_min, Decimal.toRat_max, Decimal.toRat_zero]
  exact (Decimal.hasPlaces_of_scale_le (Decimal.scale_toHundredths_le hours)).min
    (hpaid.max (.zero 2))

namespace DailyHoursMap

variable {p : Period} {daily daily' : DailyHoursMap} {e : AttendanceEntry}
  {entries : List AttendanceEntry}

/-- Whether the night hours of an entry are added to those of its day without a digit dropped. -/
def NightExact (p : Period) (daily : DailyHoursMap) (e : AttendanceEntry) : Prop :=
  p.contains e.workDate → ∀ hours ∈ e.paidHours, ∀ times ∈ e.shift?, ∀ night,
    nightHours times.1 times.2 hours = .ok night →
      ((daily.get? e.workDate).getD .none).night.AddsExactly night

instance (daily : DailyHoursMap) (e : AttendanceEntry) : Decidable (NightExact p daily e) :=
  inferInstanceAs (Decidable (_ → _))

/-- What an entry adds to the night hours of its day is given in hundredths. -/
theorem hasPlaces_night_addEntry {day day' : DailyHours} {hours : Decimal}
    (hday : HasPlaces 2 day.night.toRat) (hhours : HasPlaces 2 hours.toRat)
    (hexact : ∀ times ∈ e.shift?, ∀ night, nightHours times.1 times.2 hours = .ok night →
      day.night.AddsExactly night) (h : day.addEntry hours e.shift? = .ok day') :
    HasPlaces 2 day'.night.toRat := by
  obtain ⟨total, -, h⟩ := bind_eq_ok.1 h
  cases hshift : e.shift? with
  | none =>
    rw [hshift] at h
    cases h
    exact hday
  | some times =>
    rw [hshift] at h
    obtain ⟨night, hnight, h⟩ := bind_eq_ok.1 h
    obtain ⟨sum, hsum, h⟩ := bind_eq_ok.1 h
    cases h
    rw [hexact times hshift night hnight sum hsum]
    exact hday.add (hasPlaces_nightHours hhours hnight)

/-- Hours given in hundredths have night hours in hundredths. -/
theorem hasPlaces_night_ofAttendance
    (hexact : Along (addEntry p) (NightExact p) .empty entries)
    (h : ofAttendance entries p = .ok daily)
    (hpaid : ∀ e ∈ entries, p.contains e.workDate → ∀ hours ∈ e.paidHours,
      HasPlaces 2 hours.toRat) {d : Date} {day : DailyHours} (hday : daily.get? d = some day) :
    HasPlaces 2 day.night.toRat := by
  refine foldlM_invariant_along
    (P := fun daily => ∀ d day, daily.get? d = some day → HasPlaces 2 day.night.toRat)
    h hexact (fun d day hnone => ?_) ?_ d day hday
  · cases hnone
  intro daily e daily' he hadds hplaces hstep d day hday
  rw [addEntry] at hstep
  split at hstep
  · next hours hp hhours =>
    obtain ⟨new, hnew, hstep⟩ := bind_eq_ok.1 hstep
    cases hstep
    rw [SortedMap.get?_insert] at hday
    split at hday
    · cases hday
      refine hasPlaces_night_addEntry ?_ (hpaid e he hp hours hhours) (hadds hp hours hhours) hnew
      cases hold : daily.get? e.workDate with
      | none =>
        rw [Option.getD_none, DailyHours.none, Decimal.toRat_zero]
        exact .zero 2
      | some old => exact hplaces _ old hold
    · exact hplaces d day hday
  · cases hstep
    exact hplaces d day hday

end DailyHoursMap

/-! ## The parts of a day -/

/-- Hours by the way they are paid, as numbers: normal hours, the two tiers of overtime,
    those of Sundays and holidays, the extra ones among these, and night hours. -/
abbrev HourNumbers := ℚ × ℚ × ℚ × ℚ × ℚ × ℚ

namespace HourNumbers

/-- The parts of a day: its hours, split, and its night hours. -/
def ofDay (normalLimit tier1Limit : ℚ) (special : Bool) (hours night : ℚ) : HourNumbers :=
  if special then (0, 0, 0, hours, max (hours - normalLimit) 0, night)
  else
    let normal := min hours normalLimit
    let tier1 := min (hours - normal) tier1Limit
    (normal, tier1, hours - normal - tier1, 0, 0, night)

/-- Whether all parts are given in hundredths. -/
def InHundredths (x : HourNumbers) : Prop :=
  HasPlaces 2 x.1 ∧ HasPlaces 2 x.2.1 ∧ HasPlaces 2 x.2.2.1 ∧ HasPlaces 2 x.2.2.2.1 ∧
    HasPlaces 2 x.2.2.2.2.1 ∧ HasPlaces 2 x.2.2.2.2.2

/-- The nearest hundredth of each part. -/
def nearestHundredths (x : HourNumbers) : HourNumbers :=
  (nearestHundredth x.1, nearestHundredth x.2.1, nearestHundredth x.2.2.1,
    nearestHundredth x.2.2.2.1, nearestHundredth x.2.2.2.2.1, nearestHundredth x.2.2.2.2.2)

theorem InHundredths.nearestHundredths_eq {x : HourNumbers} (hx : InHundredths x) :
    nearestHundredths x = x := by
  obtain ⟨h₁, h₂, h₃, h₄, h₅, h₆⟩ := hx
  rw [nearestHundredths, h₁.nearestHundredth_eq, h₂.nearestHundredth_eq, h₃.nearestHundredth_eq,
    h₄.nearestHundredth_eq, h₅.nearestHundredth_eq, h₆.nearestHundredth_eq]

theorem inHundredths_zero : InHundredths 0 := ⟨.zero 2, .zero 2, .zero 2, .zero 2, .zero 2, .zero 2⟩

theorem InHundredths.add {x y : HourNumbers} (hx : InHundredths x) (hy : InHundredths y) :
    InHundredths (x + y) := by
  obtain ⟨hx₁, hx₂, hx₃, hx₄, hx₅, hx₆⟩ := hx
  obtain ⟨hy₁, hy₂, hy₃, hy₄, hy₅, hy₆⟩ := hy
  exact ⟨hx₁.add hy₁, hx₂.add hy₂, hx₃.add hy₃, hx₄.add hy₄, hx₅.add hy₅, hx₆.add hy₆⟩

theorem InHundredths.sum {xs : List HourNumbers} (h : ∀ x ∈ xs, InHundredths x) :
    InHundredths xs.sum := by
  induction xs with
  | nil => exact inHundredths_zero
  | cons x xs ih =>
    obtain ⟨hx, hxs⟩ := List.forall_mem_cons.1 h
    rw [List.sum_cons]
    exact hx.add (ih hxs)

variable {normalLimit tier1Limit hours night : ℚ}

/-- Hours in hundredths are split in hundredths. -/
theorem inHundredths_ofDay (hn : HasPlaces 2 normalLimit) (ht : HasPlaces 2 tier1Limit)
    (hhours : HasPlaces 2 hours) (hnight : HasPlaces 2 night) (special : Bool) :
    InHundredths (ofDay normalLimit tier1Limit special hours night) := by
  cases special with
  | true =>
    exact ⟨.zero 2, .zero 2, .zero 2, hhours, (hhours.sub hn).max (.zero 2), hnight⟩
  | false =>
    have hnormal := hhours.min hn
    have htier1 := (hhours.sub hnormal).min ht
    exact ⟨hnormal, htier1, (hhours.sub hnormal).sub htier1, .zero 2, .zero 2, hnight⟩

end HourNumbers

/-- The numbers of a breakdown. -/
def HourBreakdown.numbers (b : HourBreakdown) : HourNumbers :=
  (b.normal.toRat, b.overtimeTier1.toRat, b.overtimeTier2.toRat, b.holidaySunday.toRat,
    b.holidaySundayExtra.toRat, b.night.toRat)

namespace HourSums

variable {s s' : HourSums} {normalLimit tier1Limit : Decimal} {c : WorkCalendar}
  {day : Date × DailyHours}

/-- The numbers of the sums. -/
def numbers (s : HourSums) : HourNumbers :=
  (s.normal.toRat, s.tier1.toRat, s.tier2.toRat, s.special.toRat, s.specialExtra.toRat,
    s.night.toRat)

/-- The parts of a day, as numbers. -/
def dayNumbers (normalLimit tier1Limit : Decimal) (c : WorkCalendar) (day : Date × DailyHours) :
    HourNumbers :=
  .ofDay normalLimit.toRat tier1Limit.toRat (c.isSundayOrHoliday day.1) day.2.total.toRat
    day.2.night.toRat

/-- Whether night hours, and the extra hours of a Sunday or holiday, are added without a
    digit dropped. -/
def RestExact (normalLimit : Decimal) (c : WorkCalendar) (s : HourSums) (day : Date × DailyHours) :
    Prop :=
  s.night.AddsExactly day.2.night ∧
    (c.isSundayOrHoliday day.1 → day.2.total.SubtractsExactly normalLimit ∧
      ∀ extra, day.2.total.sub normalLimit = .ok extra →
        s.specialExtra.AddsExactly (extra.max .zero))

instance (s : HourSums) (day : Date × DailyHours) : Decidable (RestExact normalLimit c s day) :=
  inferInstanceAs (Decidable (_ ∧ (_ → _ ∧ ∀ _, _ → _)))

/-- An ordinary day adds nothing to the extra hours of other days, and no night hours by
    the way. -/
theorem addOrdinary_frame {hours : Decimal}
    (h : s.addOrdinary hours normalLimit tier1Limit = .ok s') :
    s'.specialExtra = s.specialExtra ∧ s'.night = s.night := by
  obtain ⟨above, -, h⟩ := bind_eq_ok.1 h
  obtain ⟨normal, -, h⟩ := bind_eq_ok.1 h
  obtain ⟨tier1, -, h⟩ := bind_eq_ok.1 h
  obtain ⟨rest, -, h⟩ := bind_eq_ok.1 h
  obtain ⟨tier2, -, h⟩ := bind_eq_ok.1 h
  cases h
  exact ⟨rfl, rfl⟩

/-- Every part of a day is added to its sum. -/
theorem numbers_addDay (hexact : DayExact normalLimit tier1Limit c s day)
    (hrest : RestExact normalLimit c s day) (h : addDay normalLimit tier1Limit c s day = .ok s') :
    s'.numbers = s.numbers + dayNumbers normalLimit tier1Limit c day := by
  obtain ⟨night, hadd, h⟩ := bind_eq_ok.1 h
  rw [DayExact] at hexact
  obtain ⟨hnightExact, hextraExact⟩ := hrest
  have hnight := hnightExact night hadd
  split at h
  · next hspecial =>
    rw [if_pos hspecial] at hexact
    obtain ⟨hsub, hextraExact⟩ := hextraExact hspecial
    obtain ⟨special, hadd', h⟩ := bind_eq_ok.1 h
    obtain ⟨extra, hextra, h⟩ := bind_eq_ok.1 h
    obtain ⟨specialExtra, hadd'', h⟩ := bind_eq_ok.1 h
    cases h
    have hsum := hextraExact extra hextra specialExtra hadd''
    rw [Decimal.toRat_max, hsub extra hextra, Decimal.toRat_zero] at hsum
    simp only [numbers, dayNumbers, HourNumbers.ofDay, hspecial, if_true, Prod.mk_add_mk, add_zero,
      hexact special hadd', hsum, hnight]
  · next hordinary =>
    rw [if_neg hordinary] at hexact
    obtain ⟨n, t, rfl, rfl, hnormal, htier1, htier2, hspecial⟩ :=
      addOrdinary_spec (s := { s with night }) hexact h
    obtain ⟨hextra, hnight'⟩ := addOrdinary_frame h
    rw [Bool.not_eq_true] at hordinary
    simp only [numbers, dayNumbers, HourNumbers.ofDay, hordinary, Bool.false_eq_true, if_false,
      Prod.mk_add_mk, add_zero, hnormal, htier1, htier2, hspecial, hextra, hnight', hnight]

/-- The sums over days are those of their parts. -/
theorem numbers_foldlM {days : List (Date × DailyHours)}
    (hexact : Along (addDay normalLimit tier1Limit c) (DayExact normalLimit tier1Limit c) .none
      days)
    (hrest : Along (addDay normalLimit tier1Limit c) (RestExact normalLimit c) .none days)
    (h : days.foldlM (addDay normalLimit tier1Limit c) .none = .ok s) :
    s.numbers = (days.map (dayNumbers normalLimit tier1Limit c)).sum := by
  have hsum := foldlM_eq_add_sum (μ := numbers) h (hexact.and hrest) fun _ _ _ hboth hstep =>
    numbers_addDay hboth.1 hboth.2 hstep
  have hnone : none.numbers = 0 := by simp [numbers, none]
  rw [hsum, hnone, zero_add]

variable {b : HourBreakdown}

/-- The sums are rounded to the nearest hundredths. -/
theorem numbers_breakdown (h : s.breakdown = .ok b) : b.numbers = s.numbers.nearestHundredths := by
  obtain ⟨t, -, h⟩ := bind_eq_ok.1 h
  obtain ⟨u, -, h⟩ := bind_eq_ok.1 h
  obtain ⟨v, -, h⟩ := bind_eq_ok.1 h
  cases h
  simp only [HourBreakdown.numbers, numbers, HourNumbers.nearestHundredths,
    Decimal.toRat_toHundredths_eq]

/-- The total is the sum of four parts. -/
theorem total_eq_add (hexact : s.SumExact) (h : s.breakdown = .ok b) :
    b.total.toRat = b.normal.toRat + b.overtimeTier1.toRat + b.overtimeTier2.toRat +
      b.holidaySunday.toRat := by
  have htotal := total_breakdown hexact h
  obtain ⟨t, -, h⟩ := bind_eq_ok.1 h
  obtain ⟨u, -, h⟩ := bind_eq_ok.1 h
  obtain ⟨v, -, h⟩ := bind_eq_ok.1 h
  cases h
  exact htotal

end HourSums

namespace HourBreakdown

/-- Whether all hours of a breakdown are the sums of those of two others. -/
structure IsSum (whole first second : HourBreakdown) : Prop where
  normal : whole.normal.toRat = first.normal.toRat + second.normal.toRat
  overtimeTier1 : whole.overtimeTier1.toRat =
    first.overtimeTier1.toRat + second.overtimeTier1.toRat
  overtimeTier2 : whole.overtimeTier2.toRat =
    first.overtimeTier2.toRat + second.overtimeTier2.toRat
  holidaySunday : whole.holidaySunday.toRat =
    first.holidaySunday.toRat + second.holidaySunday.toRat
  holidaySundayExtra : whole.holidaySundayExtra.toRat =
    first.holidaySundayExtra.toRat + second.holidaySundayExtra.toRat
  night : whole.night.toRat = first.night.toRat + second.night.toRat
  total : whole.total.toRat = first.total.toRat + second.total.toRat

variable {whole first second b : HourBreakdown}

theorem isSum_of_numbers (h : whole.numbers = first.numbers + second.numbers)
    (htotal : ∀ b ∈ [whole, first, second], b.total.toRat = b.normal.toRat +
      b.overtimeTier1.toRat + b.overtimeTier2.toRat + b.holidaySunday.toRat) :
    whole.IsSum first second := by
  simp only [numbers, Prod.mk_add_mk, Prod.mk.injEq] at h
  obtain ⟨h₁, h₂, h₃, h₄, h₅, h₆⟩ := h
  refine ⟨h₁, h₂, h₃, h₄, h₅, h₆, ?_⟩
  rw [htotal whole (by simp), htotal first (by simp), htotal second (by simp), h₁, h₂, h₃, h₄]
  ring

variable {daily : DailyHoursMap} {normalLimit tier1Limit : Decimal} {c : WorkCalendar}

/-- Whether days are split, and their parts and the rounded sums added, without a digit
    dropped. -/
structure SplitsExactly (daily : DailyHoursMap) (normalLimit tier1Limit : Decimal)
    (c : WorkCalendar) : Prop where
  days : Along (HourSums.addDay normalLimit tier1Limit c)
    (HourSums.DayExact normalLimit tier1Limit c) .none daily.entries
  rest : Along (HourSums.addDay normalLimit tier1Limit c)
    (HourSums.RestExact normalLimit c) .none daily.entries
  sum : ∀ sums, daily.entries.foldlM (HourSums.addDay normalLimit tier1Limit c) .none =
    .ok sums → sums.SumExact

/-- The breakdown of days is the sum of their parts, to the hundredth, and its total that of
    four of the parts. -/
theorem numbers_ofDaily (h : ofDaily daily normalLimit tier1Limit c = .ok b)
    (hexact : SplitsExactly daily normalLimit tier1Limit c) :
    b.numbers = (daily.entries.map
        (HourSums.dayNumbers normalLimit tier1Limit c)).sum.nearestHundredths ∧
      b.total.toRat = b.normal.toRat + b.overtimeTier1.toRat + b.overtimeTier2.toRat +
        b.holidaySunday.toRat := by
  obtain ⟨sums, hsums, h⟩ := bind_eq_ok.1 h
  rw [← HourSums.numbers_foldlM hexact.days hexact.rest hsums]
  exact ⟨HourSums.numbers_breakdown h, HourSums.total_eq_add (hexact.sum sums hsums) h⟩

/-- The breakdown of days in hundredths is the sum of their parts. -/
theorem numbers_ofDaily_of_hasPlaces (h : ofDaily daily normalLimit tier1Limit c = .ok b)
    (hexact : SplitsExactly daily normalLimit tier1Limit c)
    (hn : HasPlaces 2 normalLimit.toRat) (ht : HasPlaces 2 tier1Limit.toRat)
    (hdays : ∀ day ∈ daily.values, HasPlaces 2 day.total.toRat ∧ HasPlaces 2 day.night.toRat) :
    b.numbers = (daily.entries.map (HourSums.dayNumbers normalLimit tier1Limit c)).sum := by
  rw [(numbers_ofDaily h hexact).1]
  refine (HourNumbers.InHundredths.sum fun x hx => ?_).nearestHundredths_eq
  obtain ⟨day, hday, rfl⟩ := List.mem_map.1 hx
  obtain ⟨htotal, hnight⟩ := hdays day.2 (List.mem_map_of_mem hday)
  exact HourNumbers.inHundredths_ofDay hn ht htotal hnight _

/-- The breakdown of entries in hundredths is the sum of the parts of their days. -/
theorem numbers_ofAttendance {p : Period} {entries : List AttendanceEntry}
    (hdaily : DailyHoursMap.ofAttendance entries p = .ok daily)
    (h : ofDaily daily normalLimit tier1Limit c = .ok b)
    (hexact : SplitsExactly daily normalLimit tier1Limit c)
    (hentries : Along (DailyHoursMap.addEntry p) (DailyHoursMap.EntryExact p) .empty entries)
    (hnights : Along (DailyHoursMap.addEntry p) (DailyHoursMap.NightExact p) .empty entries)
    (hpaid : ∀ e ∈ entries, p.contains e.workDate → ∀ hours ∈ e.paidHours,
      HasPlaces 2 hours.toRat)
    (hn : HasPlaces 2 normalLimit.toRat) (ht : HasPlaces 2 tier1Limit.toRat) :
    b.numbers = (daily.entries.map (HourSums.dayNumbers normalLimit tier1Limit c)).sum := by
  refine numbers_ofDaily_of_hasPlaces h hexact hn ht ?_
  rw [SortedMap.values, List.forall_mem_map]
  intro day hday
  have hget := SortedMap.get?_of_mem hday
  exact ⟨DailyHoursMap.hasPlaces_ofAttendance hentries hdaily hpaid hget,
    DailyHoursMap.hasPlaces_night_ofAttendance hnights hdaily hpaid hget⟩

end HourBreakdown

end FieldWages
