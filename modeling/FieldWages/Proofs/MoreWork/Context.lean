import FieldWages.Proofs.MoreWork.Hours
import FieldWages.Proofs.RestDayWeeks

/-!
# Contexts of more work

With an entry more, every stage before the first concept finds at least what it found
without it: no hours are lost, the dates worked stay and are paid as before, a week that was
complete still is, and an entry without a count does not meddle with the piecework. So
the context of the longer list has at least the pay of the shorter one
(`PayContext.AtMost`), unless a decimal gets out of range on the way. The counts have room:
there are fewer dates than a word of 32 bits can count.

* `BasicPay.ofDates_atMost`, `RestDaySummary.ofPeriod_atMost`: the pay of more dates;
* `PieceworkSummary.ofAttendance_insert`: the piecework stays;
* `Payroll.context_atMost`: the context with an entry more.
-/

namespace FieldWages

open Decimal

/-! ## Rates -/

theorem Employee.salaryOrZero_nonneg {employee : Employee}
    (h : ∀ salary ∈ employee.monthlySalary, ¬salary < zero) : zero ≤ employee.salaryOrZero := by
  rw [salaryOrZero]
  cases hsalary : employee.monthlySalary with
  | none => exact le_rfl
  | some salary => exact not_lt_iff_le.1 (h salary hsalary)

theorem dailyRate_nonneg {salary rate : Decimal} {n : UInt32} (hsalary : zero ≤ salary)
    (h : dailyRate salary n = .ok rate) : zero ≤ rate := by
  rw [dailyRate] at h
  split at h
  · cases h
    exact le_rfl
  · next hn =>
    obtain ⟨q, hq, h⟩ := bind_eq_ok.1 h
    cases h
    have hpos : zero < ofUInt32 n := by
      have hn : n.toNat ≠ 0 := fun h => hn (UInt32.toNat_inj.1 h)
      rw [lt_iff_toRat, toRat_zero, toRat_pos_iff]
      exact Int.natCast_pos.2 (Nat.pos_of_ne_zero hn)
    exact toTenThousandths_nonneg (zero_le_div hsalary hpos hq)

/-! ## Dates -/

/-- The dates of a map are dates of one with at least its hours. -/
theorem DailyHoursMap.AtMost.sublist_keys {m m' : DailyHoursMap} (h : m.AtMost m') :
    m.keys.Sublist m'.keys := by
  obtain ⟨es, hes, hsub⟩ := List.sublistForall₂_iff.1 h.sublistForall₂_entries
  have hkeys : List.Forall₂ (· = ·) (m.entries.map (·.1)) (es.map (·.1)) := by
    rw [List.forall₂_map_left_iff, List.forall₂_map_right_iff]
    exact hes.imp fun _ _ hentries => hentries.1
  rw [List.forall₂_eq_eq_eq] at hkeys
  rw [SortedMap.keys, hkeys]
  exact hsub.map _

/-- A word has room for the number of dates, so more of them count for more. -/
theorem Date.ofNat_length_mono {ds ds' : List Date} (h : ds.Sublist ds') (hnodup : ds'.Nodup) :
    UInt32.ofNat ds.length ≤ UInt32.ofNat ds'.length := by
  have hlt : ds'.length < UInt32.size :=
    (Date.length_le_of_nodup hnodup).trans_lt (by decide)
  rw [UInt32.le_iff_toNat_le, UInt32.toNat_ofNat_of_lt' hlt,
    UInt32.toNat_ofNat_of_lt' (h.length_le.trans_lt hlt)]
  exact h.length_le

/-! ## Basic pay -/

/-- A day is paid three times at most. -/
theorem toNat_dayMultiplier_le (isSunday isHoliday : Bool) :
    (dayMultiplier isSunday isHoliday).toNat ≤ 3 := by
  cases isSunday <;> cases isHoliday <;> decide

namespace BasicPay

variable {ds ds' : List Date} {rate : Decimal} {c : WorkCalendar} {pay pay' : BasicPay}

theorem payDay_unless (hrate : zero ≤ rate) (d : Date) :
    UnlessOverflow (fun day => zero ≤ day.amount ∧ day.multiplier.toNat ≤ 3) (payDay rate c d) := by
  refine (zero_le_mul hrate (zero_le_ofUInt32 _)).bind fun amount hamount => ?_
  exact .ok ⟨hamount, toNat_dayMultiplier_le _ _⟩

/-- The units of days that are different fit their word. -/
theorem exists_units_eq_ok (hle : pay.days.length ≤ 191491529)
    (hdays : ∀ day ∈ pay.days, day.multiplier.toNat ≤ 3) : ∃ n, pay.units = .ok n := by
  have htotal := Count.total_le hdays
  have hlt : Count.total (·.multiplier.toNat) pay.days < UInt32.size := by
    simp only [UInt32.size]
    omega
  exact ⟨_, if_pos hlt⟩

/-- More dates are paid at least as much. -/
theorem ofDates_atMost (h : ds.Sublist ds') (hnodup : ds'.Nodup) (hrate : zero ≤ rate)
    (hpay : ofDates ds rate c = .ok pay) :
    UnlessOverflow (fun pay' => pay.amount ≤ pay'.amount ∧ ∃ n, pay'.units = .ok n)
      (ofDates ds' rate c) := by
  obtain ⟨days, hdays, hpay⟩ := bind_eq_ok.1 hpay
  obtain ⟨sum, hsum, hpay⟩ := bind_eq_ok.1 hpay
  cases hpay
  refine (UnlessOverflow.mapM fun d _ => payDay_unless hrate d).bind fun days' hdays' => ?_
  obtain ⟨hdays', hdays'_spec⟩ := hdays'
  have hamounts : ∀ amount ∈ days'.map (·.amount), zero ≤ amount := by
    intro amount hamount
    obtain ⟨day, hday, rfl⟩ := List.mem_map.1 hamount
    exact (hdays'_spec day hday).1
  have hsub := (sublist_of_mapM_eq_ok h hdays hdays').map (·.amount)
  refine (sum_mono hsub hamounts hsum).bind fun sum' hsum' => .ok ⟨toHundredths_mono hsum', ?_⟩
  refine exists_units_eq_ok ?_ fun day hday => (hdays'_spec day hday).2
  exact (length_of_mapM_eq_ok hdays').trans_le (Date.length_le_of_nodup hnodup)

theorem ofDates_nonneg (hnodup : ds.Nodup) (hrate : zero ≤ rate)
    (hpay : ofDates ds rate c = .ok pay) : zero ≤ pay.amount := by
  have hnone : ofDates [] rate c = .ok ⟨rate, [], zero.toHundredths⟩ := rfl
  have hle := ((ofDates_atMost (List.nil_sublist ds) hnodup hrate hnone).of_eq_ok hpay).1
  rwa [toHundredths_zero] at hle

end BasicPay

/-! ## Rest days -/

/-- Of more dates worked, no fewer weeks are complete. -/
theorem RestDaySummary.ofPeriod_atMost {p : Period} {worked worked' : List Date} {c : WorkCalendar}
    {rate : Decimal} {s : RestDaySummary} (h : ∀ d ∈ worked, d ∈ worked') (hrate : zero ≤ rate)
    (hs : ofPeriod p worked c rate = .ok s) :
    UnlessOverflow (fun s' => s.completeWeeks ≤ s'.completeWeeks ∧ s.bonus ≤ s'.bonus)
      (ofPeriod p worked' c rate) := by
  obtain ⟨ws, hws, hs⟩ := bind_eq_ok.1 hs
  obtain ⟨bonus, hbonus, hs⟩ := bind_eq_ok.1 hs
  cases hs
  have hcount : (ws.map fun w => RestDayWeek.ofWeek w worked c).countP (·.complete) ≤
      (ws.map fun w => RestDayWeek.ofWeek w worked' c).countP (·.complete) := by
    rw [List.countP_map, List.countP_map]
    exact List.countP_mono_left fun w _ => RestDayWeek.complete_mono h
  have hfits : (ws.map fun w => RestDayWeek.ofWeek w worked' c).countP (·.complete) <
      UInt32.size := by
    refine lt_of_le_of_lt List.countP_le_length ?_
    rw [List.length_map]
    exact Period.length_weeks_lt hws
  have hweeks : UInt32.ofNat ((ws.map fun w => RestDayWeek.ofWeek w worked c).countP (·.complete)) ≤
      .ofNat ((ws.map fun w => RestDayWeek.ofWeek w worked' c).countP (·.complete)) := by
    rw [UInt32.le_iff_toNat_le, UInt32.toNat_ofNat_of_lt' hfits,
      UInt32.toNat_ofNat_of_lt' (hcount.trans_lt hfits)]
    exact hcount
  refine .bind_ok hws ((mul_mono_right hbonus hrate (ofUInt32_mono hweeks)).bind
    fun bonus' hbonus' => ?_)
  exact .ok ⟨hweeks, toHundredths_mono hbonus'⟩

/-! ## Piecework -/

theorem PieceworkTally.addEntry_eq_self {labors : LaborCatalog} {p : Period} {e : AttendanceEntry}
    (he : e.productivityCount = .none) (t : PieceworkTally) : t.addEntry labors p e = t := by
  rw [addEntry, he]
  split
  · next heq => cases heq
  · rfl

/-- An entry without a count does not meddle with the piecework. -/
theorem PieceworkSummary.ofAttendance_insert (before after : List AttendanceEntry)
    {e : AttendanceEntry} (he : e.productivityCount = .none) (labors : LaborCatalog) (p : Period) :
    ofAttendance (before ++ e :: after) labors p = ofAttendance (before ++ after) labors p := by
  rw [ofAttendance, ofAttendance, List.foldl_append, List.foldl_cons,
    PieceworkTally.addEntry_eq_self he, ← List.foldl_append]

/-! ## Contexts -/

/-- Whether the surcharges of some rates are not negative. -/
structure OvertimeRates.SurchargesNonneg (r : OvertimeRates) : Prop where
  tier1 : zero ≤ r.tier1Surcharge
  tier2 : zero ≤ r.tier2Surcharge
  holiday : zero ≤ r.holidaySurcharge
  night : zero ≤ r.nightSurcharge

/-- Whether the stages before the concepts find no more in one context than in another, and
    its ledger has no greater totals. -/
structure PayContext.AtMost (a b : PayContext) : Prop where
  /-- All else is the same. -/
  basis : b =
    { a with
      workedDates := b.workedDates
      dailyHours := b.dailyHours
      hours := b.hours
      basicPay := b.basicPay
      restDays := b.restDays
      totalIncome := b.totalIncome
      totalDeductions := b.totalDeductions
      totalEmployerContributions := b.totalEmployerContributions
      diagnostics := b.diagnostics }
  workedDates : a.workedDates.Sublist b.workedDates
  daysWorked : a.daysWorked ≤ b.daysWorked
  hours : a.hours.AtMost a.parameters.overtime.tier1Hours b.hours
  limit : zero < a.hours.overtimeTier1 → zero ≤ a.parameters.overtime.tier1Hours
  basicPay : a.basicPay.amount ≤ b.basicPay.amount
  basicPay_nonneg : zero ≤ b.basicPay.amount
  units : ∃ n, b.basicPay.units = .ok n
  completeWeeks : a.restDays.completeWeeks ≤ b.restDays.completeWeeks
  bonus : a.restDays.bonus ≤ b.restDays.bonus
  hourlyRate : zero ≤ b.hourlyRate
  surcharges : b.parameters.overtime.SurchargesNonneg
  totalIncome : a.totalIncome ≤ b.totalIncome
  totalDeductions : a.totalDeductions ≤ b.totalDeductions
  totalEmployerContributions : a.totalEmployerContributions ≤ b.totalEmployerContributions

namespace Payroll

/-- The context with an entry more has at least what the context without it has. -/
theorem context_atMost {employee : Employee} {before after : List AttendanceEntry}
    {e : AttendanceEntry} {inputs : PayrollInputs} {ctx : PayContext}
    (haccepted : refusal? employee (before ++ e :: after) inputs.parameters = none)
    (he : e.productivityCount = none)
    (hsurcharges : inputs.parameters.overtime.SurchargesNonneg)
    (h : context employee (before ++ after) inputs = .ok ctx) :
    UnlessOverflow ctx.AtMost (context employee (before ++ e :: after) inputs) := by
  obtain ⟨-, -, hnormal, hsalary, -⟩ := refusal?_eq_none_iff.1 haccepted
  have hsub : (before ++ after).Sublist (before ++ e :: after) :=
    (List.Sublist.refl before).append (List.sublist_cons_self e after)
  obtain ⟨daily, hdaily, h⟩ := bind_eq_ok.1 h
  obtain ⟨hours, hhours, h⟩ := bind_eq_ok.1 h
  obtain ⟨piecework, hpiecework, h⟩ := bind_eq_ok.1 h
  obtain ⟨rate, hrate, h⟩ := bind_eq_ok.1 h
  obtain ⟨hourly, hhourly, h⟩ := bind_eq_ok.1 h
  obtain ⟨basicPay, hbasicPay, h⟩ := bind_eq_ok.1 h
  obtain ⟨first, hfirst, h⟩ := bind_eq_ok.1 h
  obtain ⟨restDays, hrestDays, h⟩ := bind_eq_ok.1 h
  cases h
  have hnormal := not_le_iff_lt.1 hnormal
  have hrate₀ := dailyRate_nonneg (Employee.salaryOrZero_nonneg hsalary) hrate
  have hattended : ∀ d ∈ attendedDates (before ++ after) first inputs.parameters.period.stop,
      d ∈ attendedDates (before ++ e :: after) first inputs.parameters.period.stop := by
    intro d hd
    rw [mem_attendedDates] at hd ⊢
    exact hd.imp_left (((hsub.filter _).map _).subset ·)
  refine (DailyHoursMap.ofAttendance_atMost hsub (DailyHoursMap.nonneg_of_accepted haccepted)
    hdaily).bind fun daily' hdaily' => ?_
  refine (HourBreakdown.ofDaily_atMost hdaily' hnormal.le hhours).bind fun hours' hhours' => ?_
  refine .bind_ok
    ((PieceworkSummary.ofAttendance_insert before after he _ _).trans hpiecework) ?_
  refine .bind_ok hrate (.bind_ok hhourly ?_)
  refine (BasicPay.ofDates_atMost hdaily'.sublist_keys daily'.nodup_keys hrate₀ hbasicPay).bind
    fun basicPay' ⟨hpay, hunits⟩ => ?_
  refine .bind_ok hfirst ?_
  refine (RestDaySummary.ofPeriod_atMost hattended hrate₀ hrestDays).bind
    fun restDays' ⟨hweeks, hbonus⟩ => .ok ?_
  exact
    { basis := rfl
      workedDates := hdaily'.sublist_keys
      daysWorked := Date.ofNat_length_mono hdaily'.sublist_keys daily'.nodup_keys
      hours := hhours'
      limit := HourBreakdown.limit_nonneg hhours
      basicPay := hpay
      basicPay_nonneg := (BasicPay.ofDates_nonneg daily.nodup_keys hrate₀ hbasicPay).trans hpay
      units := hunits
      completeWeeks := hweeks
      bonus := hbonus
      hourlyRate := toTenThousandths_nonneg (zero_le_div hrate₀ hnormal hhourly)
      surcharges := hsurcharges
      totalIncome := le_rfl
      totalDeductions := le_rfl
      totalEmployerContributions := le_rfl }

end Payroll

end FieldWages
