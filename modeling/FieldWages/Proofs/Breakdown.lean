import FieldWages.Configuration
import FieldWages.Proofs.MoreWork.Hours
import FieldWages.Proofs.Payroll
import FieldWages.Proofs.Sample

/-!
# Hours that are not negative

A breakdown of hours is compared with that of no hours at all: none of its parts is less
than nothing. That the first tier is not holds for a limit that is not negative; a
configuration may set a negative one, and then the tier is as many times that limit
as there are ordinary dates, and the second tier makes up for it.

* `HourBreakdown.tiers_eq_zero`: days within the limit fill no tier;
* `HourBreakdown.overtimeTier1_of_neg`: the first tier under a negative limit;
* `Payroll.breakdown_nonneg`: the hours of a detail under a configuration.
-/

namespace FieldWages

open Decimal

namespace HourSums

variable {s s' : HourSums} {n₁ t₁ hours extra rest : Decimal} {c : WorkCalendar}
  {days : List (Date × DailyHours)}

/-! ## Days within the limit -/

/-- Whether neither tier has hours. -/
def Unfilled (s : HourSums) : Prop := s.tier1.toRat = 0 ∧ s.tier2.toRat = 0

/-- A day with no more than the normal hours fills no tier. -/
theorem Unfilled.addsOrdinary (hs : s.Unfilled) (ht : zero ≤ t₁) (hhours : hours ≤ n₁)
    (h : AddsOrdinary n₁ t₁ hours extra rest s s') : s'.Unfilled := by
  have hzero : ∀ {x d}, x = 0 → Fits x d → d.toRat = 0 := fun hx hd =>
    (equiv_iff.1 (hd.equiv (hx.trans toRat_zero.symm ▸ fits_toRat zero))).trans toRat_zero
  have hextra : extra.toRat = 0 := hzero (by
    rw [min_eq_left (le_iff_toRat.1 hhours), sub_self]) h.fits_extra
  have hmin : min extra.toRat t₁.toRat = 0 := by
    rw [hextra, min_eq_left (zero_le_iff.1 ht)]
  have hrest : rest.toRat = 0 := hzero (by rw [hmin, hextra, sub_zero]) h.fits_rest
  exact ⟨hzero (by rw [hs.1, hmin, add_zero]) h.tier1, hzero (by rw [hs.2, hrest, add_zero]) h.tier2⟩

theorem Unfilled.addDay (hs : s.Unfilled) (ht : zero ≤ t₁) {day : Date × DailyHours}
    (hday : day.2.total ≤ n₁) (h : addDay n₁ t₁ c s day = .ok s') : s'.Unfilled := by
  obtain ⟨night, -, h⟩ := (addDay_unless n₁ t₁ c day s).of_eq_ok h
  split at h
  · obtain ⟨_, h⟩ := h
    rw [h.others]
    exact hs
  · obtain ⟨_, _, h⟩ := h
    exact addsOrdinary (s := { s with night }) hs ht hday h

/-! ## A negative limit of the first tier -/

/-- Under a negative limit, an ordinary day adds the limit to the first tier. -/
theorem tier1_addOrdinary_of_neg (ht : t₁ < zero) (h : s.addOrdinary hours n₁ t₁ = .ok s') :
    s.tier1.add t₁ = .ok s'.tier1 := by
  obtain ⟨above, -, h⟩ := bind_eq_ok.1 h
  obtain ⟨normal, -, h⟩ := bind_eq_ok.1 h
  obtain ⟨tier1, htier1, h⟩ := bind_eq_ok.1 h
  obtain ⟨rest, -, h⟩ := bind_eq_ok.1 h
  obtain ⟨tier2, -, h⟩ := bind_eq_ok.1 h
  cases h
  have hlt : t₁ < above.max zero := by
    rw [lt_iff_toRat, toRat_max, toRat_zero]
    exact (toRat_zero ▸ lt_iff_toRat.1 ht).trans_le (le_max_right _ _)
  rwa [Decimal.min, if_pos hlt] at htier1

theorem foldlM_tier1_of_neg (ht : t₁ < zero) (h : days.foldlM (addDay n₁ t₁ c) s = .ok s') :
    (List.replicate (days.countP fun day => !c.isSundayOrHoliday day.1) t₁).foldlM add s.tier1 =
      .ok s'.tier1 := by
  induction days generalizing s with
  | nil =>
    rw [List.foldlM_nil, pure_eq_ok] at h
    rw [h]
    rfl
  | cons day days ih =>
    rw [List.foldlM_cons] at h
    obtain ⟨s₁, hs₁, h⟩ := bind_eq_ok.1 h
    obtain ⟨night, -, hs₁⟩ := bind_eq_ok.1 hs₁
    rw [List.countP_cons]
    dsimp only at hs₁
    split at hs₁
    · next hdate =>
      obtain ⟨special, -, hs₁⟩ := bind_eq_ok.1 hs₁
      obtain ⟨above, -, hs₁⟩ := bind_eq_ok.1 hs₁
      obtain ⟨specialExtra, -, hs₁⟩ := bind_eq_ok.1 hs₁
      cases hs₁
      rw [if_neg (by rw [hdate]; exact Bool.false_ne_true), Nat.add_zero]
      have hrest := ih h
      exact hrest
    · next hdate =>
      have htier1 := tier1_addOrdinary_of_neg (s := { s with night }) ht hs₁
      rw [if_pos (by rwa [Bool.not_eq_true', ← Bool.not_eq_true]), List.replicate_succ,
        List.foldlM_cons]
      exact bind_eq_ok.2 ⟨_, htier1, ih h⟩

/-- Whether the second tier makes up for the first. -/
def Compensated (s : HourSums) : Prop := s.tier1.neg ≤ s.tier2

/-- Under a negative limit, the second tier has what the first one lacks. -/
theorem Compensated.addsOrdinary (hs : s.Compensated) (ht : t₁ < zero)
    (h : AddsOrdinary n₁ t₁ hours extra rest s s') : s'.Compensated := by
  have ht₀ : t₁.toRat < 0 := toRat_zero ▸ lt_iff_toRat.1 ht
  have hextra := zero_le_iff.1 (h.fits_extra.nonneg (sub_nonneg.2 (min_le_left _ _)))
  have hmin : min extra.toRat t₁.toRat = t₁.toRat := min_eq_right (by linarith)
  have hrest := le_iff_toRat.1 ((fits_toRat t₁.neg).mono h.fits_rest (by
    rw [hmin, toRat_neg]
    linarith))
  rw [toRat_neg] at hrest
  refine h.tier1.neg.mono h.tier2 ?_
  have hsum := neg_le_iff.1 hs
  rw [hmin]
  linarith

theorem Compensated.addDay (hs : s.Compensated) (ht : t₁ < zero) {day : Date × DailyHours}
    (h : addDay n₁ t₁ c s day = .ok s') : s'.Compensated := by
  obtain ⟨night, -, h⟩ := (addDay_unless n₁ t₁ c day s).of_eq_ok h
  split at h
  · obtain ⟨_, h⟩ := h
    rw [Compensated, h.others]
    exact hs
  · obtain ⟨_, _, h⟩ := h
    exact addsOrdinary (s := { s with night }) hs ht h

/-- Parts that make up for each other have a total that is not negative. -/
theorem Compensated.total_nonneg {b : HourBreakdown} (hs : s.Compensated)
    (hnormal : zero ≤ b.normal) (hspecial : zero ≤ b.holidaySunday) (h : s.breakdown = .ok b) :
    zero ≤ b.total := by
  obtain ⟨u, hu, h⟩ := bind_eq_ok.1 h
  obtain ⟨v, hv, h⟩ := bind_eq_ok.1 h
  obtain ⟨w, hw, h⟩ := bind_eq_ok.1 h
  cases h
  have hround := le_iff_toRat.1 (toHundredths_mono hs)
  rw [toHundredths_neg] at hround
  have hu' := le_iff_toRat.1 ((fits_toRat s.tier1.toHundredths).mono (fits_add hu)
    (le_add_of_nonneg_left (zero_le_iff.1 hnormal)))
  have hv' := (fits_add hv).nonneg (by linarith)
  exact (fits_add hw).le_add hv' (zero_le_iff.1 hspecial)

end HourSums

/-! ## The breakdown of a period -/

namespace HourBreakdown

variable {m : DailyHoursMap} {n₁ t₁ : Decimal} {c : WorkCalendar} {b : HourBreakdown}

/-- No part is less than nothing, but for the first tier under a negative limit. -/
theorem none_atMost (hm : DailyHoursMap.AtMost .empty m) (hn : zero ≤ n₁)
    (h : ofDaily m n₁ t₁ c = .ok b) : none.AtMost t₁ b := by
  have hnone : ofDaily .empty n₁ t₁ c = .ok none := rfl
  exact (ofDaily_atMost hm hn hnone).of_eq_ok h

/-- The total is not negative, whatever the limit is. -/
theorem total_nonneg (hm : DailyHoursMap.AtMost .empty m) (hn : zero ≤ n₁)
    (h : ofDaily m n₁ t₁ c = .ok b) : zero ≤ b.total := by
  have hnone := none_atMost hm hn h
  by_cases ht : zero ≤ t₁
  · exact hnone.total ht
  · obtain ⟨sums, hsums, h⟩ := bind_eq_ok.1 h
    have hstart : HourSums.none.Compensated := neg_le_iff.2 (by simp [HourSums.none])
    have hsums : sums.Compensated := foldlM_invariant hsums hstart
      fun _ _ _ _ hs hday => hs.addDay (not_le_iff_lt.1 ht) hday
    exact hsums.total_nonneg hnone.normal hnone.holidaySunday h

/-- Days within the limit leave the tiers without hours. -/
theorem tiers_eq_zero (ht : zero ≤ t₁) (hdays : ∀ day ∈ m.entries, day.2.total ≤ n₁)
    (h : ofDaily m n₁ t₁ c = .ok b) : b.overtimeTier1.toRat = 0 ∧ b.overtimeTier2.toRat = 0 := by
  obtain ⟨sums, hsums, hb₁, hb₂⟩ := exists_sums h
  obtain ⟨h₁, h₂⟩ : sums.Unfilled := foldlM_invariant hsums ⟨toRat_zero, toRat_zero⟩
    fun _ day _ hday hs hstep => hs.addDay ht (hdays day hday) hstep
  have hround : ∀ {d : Decimal}, d.toRat = 0 → d.toHundredths.toRat = 0 := fun hd =>
    (toRat_toHundredths (hd ▸ .zero 2)).trans hd
  rw [hb₁, hb₂]
  exact ⟨hround h₁, hround h₂⟩

/-- Under a negative limit, the first tier is that limit for every ordinary date. -/
theorem overtimeTier1_of_neg (ht : t₁ < zero) (h : ofDaily m n₁ t₁ c = .ok b) :
    ∃ sum, Decimal.sum (List.replicate (m.keys.countP fun d => !c.isSundayOrHoliday d) t₁) =
      .ok sum ∧ b.overtimeTier1 = sum.toHundredths := by
  obtain ⟨sums, hsums, hb, -⟩ := exists_sums h
  refine ⟨sums.tier1, ?_, hb⟩
  rw [SortedMap.keys, List.countP_map]
  exact HourSums.foldlM_tier1_of_neg ht hsums

end HourBreakdown

namespace Payroll

/-- Under a configuration, the hours of a detail are not negative, and without a date of
    more than the normal hours there is no overtime, as long as the first tier has a
    limit that is not negative. Under a negative one, which a configuration may set, the
    first tier is that limit for every ordinary date worked, and no other part is
    negative. -/
theorem breakdown_nonneg {config : Configuration} {start stop : Date}
    {workingDays totalWorkingDays : UInt32} {parameters : Parameters}
    (hparameters : config.parameters start stop workingDays totalWorkingDays = .ok parameters)
    {calendar : WorkCalendar} {labors : LaborCatalog} {employee : Employee}
    {attendance : List AttendanceEntry} {registry : Registry} {detail : PayrollDetail}
    (h : compute employee attendance (config.payrollInputs parameters calendar labors) registry =
      .ok detail) :
    let limit := config.settings.overtime.tier1Hours
    zero ≤ detail.hours.normal ∧ zero ≤ detail.hours.overtimeTier2 ∧
      zero ≤ detail.hours.holidaySunday ∧ zero ≤ detail.hours.holidaySundayExtra ∧
      zero ≤ detail.hours.night ∧ zero ≤ detail.hours.total ∧
      (zero ≤ limit → zero ≤ detail.hours.overtimeTier1 ∧
        ((∀ day ∈ detail.dayDetails, day.hours ≤ config.settings.dailyNormalHours) →
          detail.hours.overtimeTier1.toRat = 0 ∧ detail.hours.overtimeTier2.toRat = 0)) ∧
      (limit < zero → ∃ sum,
        Decimal.sum (List.replicate
          (detail.dayDetails.countP fun day => !calendar.isSundayOrHoliday day.date) limit) =
            .ok sum ∧
        detail.hours.overtimeTier1 = sum.toHundredths) := by
  intro limit
  have hsettings : parameters.overtime = config.settings.overtime ∧
      parameters.dailyNormalHours = config.settings.dailyNormalHours := by
    rw [Configuration.parameters] at hparameters
    split at hparameters <;> cases hparameters
    exact ⟨rfl, rfl⟩
  obtain ⟨hovertime, hnormalHours⟩ := hsettings
  obtain ⟨haccepted, -⟩ := compute_eq_ok_iff.1 h
  obtain ⟨-, -, hn, -, -⟩ := refusal?_eq_none_iff.1 haccepted
  obtain ⟨ctx, hctx, hhours, -, -, -, hdays⟩ := compute_spec h
  have hprepared := prepared_of_context hctx
  have hofDaily := hprepared.hours
  simp only [Configuration.payrollInputs, hovertime, hnormalHours] at hofDaily hn
  replace hn := le_of_lt (not_le_iff_lt.1 hn)
  have hdaily : DailyHoursMap.AtMost .empty ctx.dailyHours :=
    (DailyHoursMap.ofAttendance_atMost (List.nil_sublist attendance)
      (DailyHoursMap.nonneg_of_accepted haccepted) rfl).of_eq_ok hprepared.dailyHours
  have hnone := HourBreakdown.none_atMost hdaily hn hofDaily
  rw [hhours, hdays, hprepared.workedDates_eq, List.countP_map]
  refine ⟨hnone.normal, hnone.overtimeTier2, hnone.holidaySunday, hnone.holidaySundayExtra,
    hnone.night, HourBreakdown.total_nonneg hdaily hn hofDaily,
    fun ht => ⟨hnone.overtimeTier1 ht, fun hwithin => ?_⟩,
    fun ht => HourBreakdown.overtimeTier1_of_neg ht hofDaily⟩
  refine HourBreakdown.tiers_eq_zero ht (fun day hday => ?_) hofDaily
  have hshown := hwithin _ (List.mem_map_of_mem (List.mem_map_of_mem hday))
  rwa [PayrollDetail.dayOf, SortedMap.get?_of_mem hday] at hshown

/-- A Monday of eight hours has no overtime. -/
theorem breakdown_nonneg_monday : ∃ parameters detail,
    Configuration.standard.parameters (.onDay 0) (.onDay 6) 6 26 = .ok parameters ∧
      compute .plain [.ofHours 0 800]
        (Configuration.standard.payrollInputs parameters ⟨.empty⟩ []) .standard = .ok detail ∧
      zero ≤ Configuration.standard.settings.overtime.tier1Hours ∧
      (∀ day ∈ detail.dayDetails, day.hours ≤ Configuration.standard.settings.dailyNormalHours) ∧
      zero ≤ detail.hours.total ∧ detail.hours.overtimeTier1.toRat = 0 := by
  have hcompute : (compute .plain [.ofHours 0 800] (Configuration.standard.payrollInputs
      (.plain (.between 0 6) 6) ⟨.empty⟩ []) .standard).map (fun detail => decide
        (∀ day ∈ detail.dayDetails, day.hours ≤ Configuration.standard.settings.dailyNormalHours)) =
      .ok true := by
    decide +kernel
  obtain ⟨detail, hdetail, hwithin⟩ := map_eq_ok.1 hcompute
  have hwithin := of_decide_eq_true hwithin
  have hparameters : Configuration.standard.parameters (.onDay 0) (.onDay 6) 6 26 =
      .ok (.plain (.between 0 6) 6) := by
    decide
  obtain ⟨-, -, -, -, -, htotal, htiers, -⟩ := breakdown_nonneg hparameters hdetail
  have hlimit : zero ≤ Configuration.standard.settings.overtime.tier1Hours := by decide
  exact ⟨_, detail, hparameters, hdetail, hlimit, hwithin, htotal, ((htiers hlimit).2 hwithin).1⟩

/-- The standard plan, with a first tier of minus one hour. -/
def negativeTier : Configuration :=
  { settings :=
      { Settings.standard with
        overtime := { OvertimeRates.standard with tier1Hours := (Decimal.ofUInt32 1).neg } }
    concepts := Configuration.standardConcepts
    sound := by decide +kernel }

/-- With a tier of minus one hour, a Monday of eight hours has an hour less in the first
    tier than none, and one in the second. -/
theorem negative_tier1_monday : ∃ parameters detail,
    negativeTier.parameters (.onDay 0) (.onDay 6) 6 26 = .ok parameters ∧
      compute .plain [.ofHours 0 800]
        (negativeTier.payrollInputs parameters ⟨.empty⟩ []) .standard = .ok detail ∧
      (∀ day ∈ detail.dayDetails, day.hours ≤ negativeTier.settings.dailyNormalHours) ∧
      detail.hours.overtimeTier1 < zero ∧ zero < detail.hours.overtimeTier2 := by
  have hparameters : negativeTier.parameters (.onDay 0) (.onDay 6) 6 26 =
      .ok { Parameters.plain (.between 0 6) 6 with overtime := negativeTier.settings.overtime } := by
    decide
  have hcompute : (compute .plain [.ofHours 0 800] (negativeTier.payrollInputs
      { Parameters.plain (.between 0 6) 6 with overtime := negativeTier.settings.overtime }
      ⟨.empty⟩ []) .standard).map (fun detail => decide
        ((∀ day ∈ detail.dayDetails, day.hours ≤ negativeTier.settings.dailyNormalHours) ∧
          detail.hours.overtimeTier1 < zero ∧ zero < detail.hours.overtimeTier2)) = .ok true := by
    decide +kernel
  obtain ⟨detail, hdetail, hnegative⟩ := map_eq_ok.1 hcompute
  exact ⟨_, detail, hparameters, hdetail, of_decide_eq_true hnegative⟩

end Payroll

end FieldWages
