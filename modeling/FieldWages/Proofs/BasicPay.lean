import FieldWages.Proofs.Cut.Pay
import FieldWages.Proofs.OutOfRange
import FieldWages.Proofs.Sample

/-!
# Basic pay in units of the daily rate

A date is one unit of the daily rate, and one more for a Sunday and for a holiday
(`BasicPay.unitsOf`). As long as no digit is dropped, the amounts of the dates add up to the
rate times the units, and only their sum is rounded.

The rate is a quotient of many digits rounded to four places. For a salary in hundredths that
is not too great, the digits never hide on which side of a tie the quotient is, so the rate is
off by half a ten-thousandth at most, however the month is divided; and then there is room
for the pay of all dates there are.

* `exists_div_floor_eq`: quotients that are rounded as the exact ones are;
* `exists_dailyRate`: how far a daily rate is off;
* `BasicPay.due_eq`: pay is additive;
* `BasicPay.ofDates_units`: the amount, and how far it is off the share of the salary.
-/

namespace FieldWages

open Decimal

/-! ## Rates -/

section Rates

variable {salary : Decimal} {monthDays : UInt32}

/-- Half up moves a number by half a unit of the last place at most. -/
theorem abs_floor_add_half_sub_le (places : Nat) (x : ℚ) :
    |(⌊x * 10 ^ places + 1 / 2⌋ : ℚ) / 10 ^ places - x| ≤ 1 / 2 / 10 ^ places := by
  have hpow : (0 : ℚ) < 10 ^ places := by positivity
  have hle := Int.floor_le (x * 10 ^ places + 1 / 2)
  have hlt := Int.lt_floor_add_one (x * 10 ^ places + 1 / 2)
  have hscaled : (⌊x * 10 ^ places + 1 / 2⌋ : ℚ) / 10 ^ places - x =
      (⌊x * 10 ^ places + 1 / 2⌋ - x * 10 ^ places) / 10 ^ places := by
    rw [sub_div, mul_div_cancel_right₀ x hpow.ne']
  rw [hscaled, abs_div, abs_of_pos hpow]
  refine div_le_div_of_nonneg_right (abs_le.2 ⟨?_, ?_⟩) hpow.le <;> linarith

/-- A quotient of hundredths that are not too many goes half up to as many places as the exact
    quotient does: its digits never hide on which side of a tie it is. -/
theorem exists_div_floor_eq {a : Decimal} {n : UInt32} {places : Nat}
    (hplaces : HasPlaces 2 a.toRat) (h₀ : 0 ≤ a.toRat) (hn : n ≠ 0) (hfew : places ≤ 15)
    (hsmall : a.toRat * 10 ^ (places + 2) ≤ 10 ^ 27) :
    ∃ q, a.div (.ofUInt32 n) = .ok q ∧ 0 ≤ q.toRat ∧
      ⌊q.toRat * 10 ^ places + 1 / 2⌋ = ⌊a.toRat / n.toNat * 10 ^ places + 1 / 2⌋ := by
  have hn' : 0 < n.toNat := Nat.pos_of_ne_zero fun h => hn (UInt32.toNat.inj h)
  have hdivisor : 0 < (ofUInt32 n).toRat := by
    rw [toRat_ofUInt32]
    exact_mod_cast hn'
  obtain ⟨q, hq⟩ := exists_div_eq_ok h₀ hdivisor (Nat.zero_le _)
  obtain ⟨digits, scale, hrounds, hvalue⟩ := div_rounds h₀ hdivisor hq
  rw [toRat_ofUInt32] at hrounds
  -- In hundredths, the quotient is one of integers.
  obtain ⟨k, hk⟩ := hplaces
  obtain ⟨cents, rfl⟩ : ∃ cents : ℕ, k = cents := by
    rw [hk, le_div_iff₀ (by norm_num), zero_mul, Int.cast_nonneg_iff] at h₀
    exact ⟨k.toNat, (Int.toNat_of_nonneg h₀).symm⟩
  have hcents : 10 ^ places * cents ≤ 10 ^ 27 := by
    rw [hk, pow_add, Int.cast_natCast, mul_comm (10 ^ places), ← mul_assoc,
      div_mul_cancel₀ _ (by norm_num), mul_comm] at hsmall
    exact_mod_cast hsmall
  have hdivisors : 10 ^ places * (100 * n.toNat) ≤ 10 ^ 27 := by
    have hpow : 10 ^ places ≤ 10 ^ 15 := Nat.pow_le_pow_right (by norm_num) hfew
    have hmax := n.toNat_lt
    exact (Nat.mul_le_mul hpow (by omega : 100 * n.toNat ≤ 10 ^ 12)).trans (by norm_num)
  have hshare : a.toRat / n.toNat = cents / (100 * n.toNat : ℕ) := by
    rw [hk, Int.cast_natCast, div_div]
    push_cast
    norm_num
  rw [hshare] at hrounds
  refine ⟨q, hq, ?_, ?_⟩
  · rw [hvalue]
    positivity
  · rw [hshare, hvalue]
    exact hrounds.floor_eq places (by positivity) hcents hdivisors

/-- The rate of a salary in hundredths is the exact share of a day, rounded once. -/
theorem exists_dailyRate_of_nonneg (hplaces : HasPlaces 2 salary.toRat) (h₀ : 0 ≤ salary.toRat)
    (hsmall : salary.toRat < 10 ^ 15) (hdays : monthDays ≠ 0) :
    ∃ rate, dailyRate salary monthDays = .ok rate ∧ rate.toRat =
      ⌊salary.toRat / monthDays.toNat * 10 ^ 4 + 1 / 2⌋ / 10 ^ 4 := by
  have hfits : salary.toRat * 10 ^ (4 + 2) ≤ 10 ^ 27 := by
    norm_num at hsmall ⊢
    linarith
  obtain ⟨q, hq, hq₀, hfloor⟩ := exists_div_floor_eq hplaces h₀ hdays (by norm_num) hfits
  refine ⟨q.toTenThousandths, ?_, ?_⟩
  · rw [dailyRate, if_neg hdays]
    exact bind_eq_ok.2 ⟨q, hq, rfl⟩
  · rw [toTenThousandths, toRat_round_awayFromZero, if_pos hq₀, hfloor]

/-- The rate of the opposite salary is opposite. -/
theorem exists_dailyRate_neg {rate : Decimal} (h : dailyRate salary.neg monthDays = .ok rate) :
    ∃ rate', dailyRate salary monthDays = .ok rate' ∧ rate'.toRat = -rate.toRat := by
  rw [dailyRate] at h ⊢
  split at h
  · next hdays =>
    cases h
    exact ⟨zero, if_pos hdays, by rw [toRat_zero, neg_zero]⟩
  · next hdays =>
    rw [Decimal.neg_div] at h
    obtain ⟨_, hopposite, h⟩ := bind_eq_ok.1 h
    obtain ⟨q, hq, rfl⟩ := map_eq_ok.1 hopposite
    cases h
    refine ⟨q.toTenThousandths, ?_, ?_⟩
    · rw [if_neg hdays]
      exact bind_eq_ok.2 ⟨q, hq, rfl⟩
    · rw [toTenThousandths, toTenThousandths, toRat_round_neg, neg_neg]

theorem scale_dailyRate_le {rate : Decimal} (h : dailyRate salary monthDays = .ok rate) :
    rate.scale ≤ 4 := by
  rw [dailyRate] at h
  split at h
  · cases h
    exact Nat.zero_le 4
  · obtain ⟨q, -, h⟩ := bind_eq_ok.1 h
    cases h
    exact q.scale_round_le .awayFromZero 4

/-- The rate of a salary in hundredths that is not too great is off the share of a day by half
    a ten-thousandth at most. -/
theorem exists_dailyRate (hplaces : HasPlaces 2 salary.toRat) (hsmall : |salary.toRat| < 10 ^ 15)
    (hdays : monthDays ≠ 0) :
    ∃ rate, dailyRate salary monthDays = .ok rate ∧
      |rate.toRat - salary.toRat / monthDays.toNat| ≤ 1 / 2 / 10 ^ 4 := by
  rw [abs_lt] at hsmall
  rcases le_total 0 salary.toRat with h₀ | h₀
  · obtain ⟨rate, hrate, hvalue⟩ := exists_dailyRate_of_nonneg hplaces h₀ hsmall.2 hdays
    refine ⟨rate, hrate, ?_⟩
    rw [hvalue]
    exact abs_floor_add_half_sub_le 4 _
  · have hneg : HasPlaces 2 salary.neg.toRat := by
      have := (HasPlaces.zero 2).sub hplaces
      rwa [zero_sub, ← toRat_neg] at this
    obtain ⟨rate', hrate', hvalue⟩ := exists_dailyRate_of_nonneg hneg
      (by rw [toRat_neg]; linarith) (by rw [toRat_neg]; linarith) hdays
    obtain ⟨rate, hrate, hopposite⟩ := exists_dailyRate_neg hrate'
    refine ⟨rate, hrate, ?_⟩
    have hnear := abs_floor_add_half_sub_le 4 (salary.neg.toRat / monthDays.toNat)
    rw [← hvalue, toRat_neg, neg_div, sub_neg_eq_add, ← abs_neg] at hnear
    rw [hopposite]
    convert hnear using 2
    ring

end Rates

/-! ## Units -/

namespace BasicPay

variable {dates : List Date} {rate : Decimal} {c : WorkCalendar} {pay : BasicPay}

/-- How many times the daily rate dates are paid: once, once more on Sundays, and once more on
    holidays. -/
def unitsOf (dates : List Date) (c : WorkCalendar) : Nat :=
  (dates.map fun d => 1 + d.isSunday.toNat + (c.isHoliday d).toNat).sum

/-- Whether no digit is dropped on the way to the pay of dates. -/
structure PaysExactly (dates : List Date) (rate : Decimal) (c : WorkCalendar) : Prop where
  products : ∀ d ∈ dates,
    rate.MultipliesExactly (.ofUInt32 (dayMultiplier d.isSunday (c.isHoliday d)))
  sum : ∀ days, dates.mapM (payDay rate c) = .ok days →
    Along add AddsExactly .zero (days.map (·.amount))

/-- The units of the days paid are those of their dates. -/
theorem map_units_ofDates (hdates : dates.Nodup) (h : ofDates dates rate c = .ok pay) :
    pay.units.map (·.toNat) = .ok (unitsOf dates c) := by
  have hspec := congrArg (List.map fun day => day.2.toNat) (ofDates_spec h)
  rw [List.map_map, List.map_map] at hspec
  have htotal : Count.total (·.multiplier.toNat) pay.days = unitsOf dates c := by
    rw [Count.total_eq_sum, unitsOf]
    refine congrArg List.sum (hspec.trans (List.map_congr_left fun d _ => ?_))
    exact toNat_dayMultiplier d.isSunday (c.isHoliday d)
  obtain ⟨n, hn⟩ := exists_units_ofDates hdates h
  exact map_eq_ok.2 ⟨n, hn, (Count.word32_eq_ok_iff.1 hn).trans htotal⟩

/-! ## Pay -/

/-- What dates are paid is the rate times their units, if every product is exact. -/
theorem due_eq (h : ofDates dates rate c = .ok pay)
    (hproducts : ∀ d ∈ dates,
      rate.MultipliesExactly (.ofUInt32 (dayMultiplier d.isSunday (c.isHoliday d)))) :
    pay.due = rate.toRat * unitsOf dates c := by
  have hamounts : pay.days.map (·.amount.toRat) =
      dates.map fun d => rate.toRat * ((1 + d.isSunday.toNat + (c.isHoliday d).toNat : ℕ) : ℚ) := by
    refine map_eq_of_mapM_eq_ok (ofDates_eq_ok h).1 fun d hd day hday => ?_
    obtain ⟨amount, hamount, hday⟩ := bind_eq_ok.1 hday
    cases hday
    rw [hproducts d hd amount hamount, toRat_ofUInt32, toNat_dayMultiplier]
  rw [due, hamounts, List.sum_map_mul_left, unitsOf, Nat.cast_list_sum, List.map_map]
  rfl

/-- The amount is rounded once, if no digit is dropped before. -/
theorem toRat_amount (h : ofDates dates rate c = .ok pay) (hexact : PaysExactly dates rate c) :
    pay.amount.toRat = nearestHundredth (rate.toRat * unitsOf dates c) := by
  obtain ⟨hdays, total, htotal, hamount⟩ := ofDates_eq_ok h
  have hdue : total.toRat = pay.due := by
    rw [toRat_sum (hexact.sum _ hdays) htotal, List.map_map]
    rfl
  rw [hamount, toRat_toHundredths_eq, hdue, due_eq h hexact.products]

/-- There is room for the pay of a date if the rate is not too great. -/
theorem exists_payDay (hscale : rate.scale ≤ 4) (hrate : |rate.toRat| ≤ 10 ^ 16) (d : Date) :
    ∃ day, payDay rate c d = .ok day ∧ day.amount.scale ≤ 4 ∧
      |day.amount.toRat| ≤ 3 * 10 ^ 16 ∧
      rate.MultipliesExactly (.ofUInt32 (dayMultiplier d.isSunday (c.isHoliday d))) := by
  have hthree := toNat_dayMultiplier_le d.isSunday (c.isHoliday d)
  set multiplier := dayMultiplier d.isSunday (c.isHoliday d)
  have hmantissa : rate.mantissa.natAbs ≤ 10 ^ 20 := by
    have hle := (natAbs_mantissa_le hscale).trans
      (mul_le_mul_of_nonneg_right hrate (by positivity : (0 : ℚ) ≤ 10 ^ 4))
    rw [← pow_add] at hle
    exact_mod_cast hle
  have hroom : rate.mantissa.natAbs * multiplier.toNat ≤ maxMantissa :=
    (Nat.mul_le_mul hmantissa hthree).trans (by decide)
  obtain ⟨amount, hamount, hvalue⟩ := exists_mul_ofUInt32_eq_ok hroom
  refine ⟨⟨d, multiplier, amount⟩, bind_eq_ok.2 ⟨amount, hamount, rfl⟩,
    (scale_mul_le hamount).trans hscale, ?_, fun amount' hamount' => ?_⟩
  · rw [hvalue, abs_mul, Nat.abs_cast, mul_comm]
    exact mul_le_mul (by exact_mod_cast hthree) hrate (abs_nonneg _) (by norm_num)
  · cases hamount.symm.trans hamount'
    rw [hvalue, toRat_ofUInt32]

/-- There is room for the pay of all dates there are if the rate is not too great. -/
theorem exists_ofDates (hdates : dates.Nodup) (hscale : rate.scale ≤ 4)
    (hrate : |rate.toRat| ≤ 10 ^ 16) (c : WorkCalendar) :
    PaysExactly dates rate c ∧ ∃ pay, ofDates dates rate c = .ok pay := by
  obtain ⟨days, hdays⟩ := exists_mapM_eq_ok fun d (_ : d ∈ dates) =>
    (exists_payDay (c := c) hscale hrate d).imp fun _ => And.left
  have hamounts : ∀ a ∈ days.map (·.amount), a.scale ≤ 4 ∧ |a.toRat| ≤ 3 * 10 ^ 16 := by
    intro a ha
    obtain ⟨day, hday, rfl⟩ := List.mem_map.1 ha
    obtain ⟨d, -, hd⟩ := (mem_of_mapM_eq_ok hdays).1 hday
    obtain ⟨day', hday', hscale, hle, -⟩ := exists_payDay (c := c) hscale hrate d
    cases hd.symm.trans hday'
    exact ⟨hscale, hle⟩
  have hsize : ((days.map (·.amount)).map fun a => |a.toRat|).sum ≤ 191491529 * (3 * 10 ^ 16) := by
    have hle := List.sum_le_card_nsmul ((days.map (·.amount)).map fun a => |a.toRat|)
      (3 * 10 ^ 16) fun x hx => by
        obtain ⟨a, ha, rfl⟩ := List.mem_map.1 hx
        exact (hamounts a ha).2
    rw [List.length_map, List.length_map, length_of_mapM_eq_ok hdays, nsmul_eq_mul] at hle
    have hlength : (dates.length : ℚ) ≤ 191491529 := by
      exact_mod_cast Date.length_le_of_nodup hdates
    exact hle.trans (mul_le_mul_of_nonneg_right hlength (by norm_num))
  have hadds : Along add Adds .zero (days.map (·.amount)) := by
    refine along_adds (Nat.zero_le 4) (fun a ha => (hamounts a ha).1) ?_
    rw [toRat_zero, abs_zero, zero_add]
    refine (mul_le_mul_of_nonneg_right hsize (by norm_num)).trans ?_
    norm_num [maxMantissa]
  constructor
  · refine ⟨fun d _ => ?_, fun days' hdays' => ?_⟩
    · obtain ⟨-, -, -, -, hexact⟩ := exists_payDay (c := c) hscale hrate d
      exact hexact
    · cases hdays.symm.trans hdays'
      refine hadds.mono fun s a hsum total htotal => ?_
      obtain ⟨total', htotal', hvalue⟩ := hsum
      cases htotal.symm.trans htotal'
      exact hvalue
  · obtain ⟨total, htotal, -⟩ := exists_foldlM_add hadds
    exact ⟨_, bind_eq_ok.2 ⟨days, hdays, bind_eq_ok.2 ⟨total, htotal, rfl⟩⟩⟩

/-- Dates are paid the rate times their units, to the hundredth, if no digit is dropped on the
    way. At the rate of a salary in hundredths that is not too great there is room for the pay of
    all dates, no digit is dropped, and the pay is near their share of the salary. -/
theorem ofDates_units (hdates : dates.Nodup) (c : WorkCalendar) :
    (∀ rate, PaysExactly dates rate c →
      UnlessOverflow (fun pay =>
        pay.amount.toRat = nearestHundredth (rate.toRat * unitsOf dates c) ∧
          pay.units.map (·.toNat) = .ok (unitsOf dates c))
        (ofDates dates rate c)) ∧
    ∀ salary monthDays, HasPlaces 2 salary.toRat → |salary.toRat| < 10 ^ 15 → 0 < monthDays →
      ∃ rate pay, FieldWages.dailyRate salary monthDays = .ok rate ∧
        ofDates dates rate c = .ok pay ∧
        pay.amount.toRat = nearestHundredth (rate.toRat * unitsOf dates c) ∧
        |pay.amount.toRat - unitsOf dates c * salary.toRat / monthDays.toNat| ≤
          5 / 1000 + 5 / 100000 * unitsOf dates c := by
  refine ⟨fun rate hexact => .intro (fun pay hpay => ?_) (ofDates_stopsBy dates rate c),
    fun salary monthDays hplaces hsmall hdays => ?_⟩
  · exact ⟨toRat_amount hpay hexact, map_units_ofDates hdates hpay⟩
  have hdays₀ : monthDays ≠ 0 := by
    rintro rfl
    exact absurd hdays (by decide)
  obtain ⟨rate, hrate, hnear⟩ := exists_dailyRate hplaces hsmall hdays₀
  have hsize : |rate.toRat| ≤ 10 ^ 16 := by
    have hshare : |salary.toRat / monthDays.toNat| ≤ |salary.toRat| := by
      rw [abs_div, Nat.abs_cast]
      exact div_le_self (abs_nonneg _) (by exact_mod_cast hdays)
    have hsub := abs_sub_abs_le_abs_sub rate.toRat (salary.toRat / monthDays.toNat)
    linarith
  obtain ⟨hexact, pay, hpay⟩ := exists_ofDates hdates (scale_dailyRate_le hrate) hsize c
  have hamount := toRat_amount hpay hexact
  refine ⟨rate, pay, hrate, hpay, hamount, ?_⟩
  have hrounded := (isHundredthsOf_amount hpay (hexact.sum _ (ofDates_eq_ok hpay).1)).2
  have hunits : |pay.due - unitsOf dates c * salary.toRat / monthDays.toNat| ≤
      1 / 2 / 10 ^ 4 * unitsOf dates c := by
    rw [due_eq hpay hexact.products, mul_comm rate.toRat, mul_div_assoc, ← mul_sub, abs_mul,
      Nat.abs_cast, mul_comm]
    exact mul_le_mul_of_nonneg_right hnear (Nat.cast_nonneg _)
  calc |pay.amount.toRat - unitsOf dates c * salary.toRat / monthDays.toNat|
      ≤ |pay.amount.toRat - pay.due| +
          |pay.due - unitsOf dates c * salary.toRat / monthDays.toNat| := abs_sub_le _ _ _
    _ ≤ 1 / 200 + 1 / 2 / 10 ^ 4 * unitsOf dates c := add_le_add hrounded hunits
    _ = 5 / 1000 + 5 / 100000 * unitsOf dates c := by norm_num

/-- A Wednesday, a holiday, and a holiday on a Sunday. -/
def holidayDates : List Date := [.onDay 2, .onDay 3, .onDay 6]

/-- The calendar of the two holidays. -/
def holidayCalendar : WorkCalendar :=
  .ofDays [⟨.onDay 3, false, true⟩, ⟨.onDay 6, false, true⟩]

/-- They are six units. A salary of 1130 is 37.6667 a day, of which six are 226.0002, and the
    pay is the 226 that six days of thirty are. -/
theorem ofDates_units_holidays :
    holidayDates.Nodup ∧ unitsOf holidayDates holidayCalendar = 6 ∧
      (∃ rate : Decimal, rate.toRat = 37.6667 ∧
        PaysExactly holidayDates rate holidayCalendar ∧
        UnlessOverflow (fun pay => pay.amount.toRat = nearestHundredth (37.6667 * 6))
          (ofDates holidayDates rate holidayCalendar)) ∧
      HasPlaces 2 (ofUInt32 1130).toRat ∧ |(ofUInt32 1130).toRat| < 10 ^ 15 ∧ (0 : UInt32) < 30 ∧
      ∃ rate pay, FieldWages.dailyRate (.ofUInt32 1130) 30 = .ok rate ∧
        ofDates holidayDates rate holidayCalendar = .ok pay ∧
        |pay.amount.toRat - 226| ≤ 53 / 10000 := by
  have hdates : holidayDates.Nodup := by decide +kernel
  have hunits : unitsOf holidayDates holidayCalendar = 6 := by decide +kernel
  have hplaces : HasPlaces 2 (ofUInt32 1130).toRat := hasPlaces_of_scale_le (Nat.zero_le 2)
  have hsmall : |(ofUInt32 1130).toRat| < 10 ^ 15 := by
    rw [toRat_ofUInt32]
    decide +kernel
  obtain ⟨hrounded, hnear⟩ := ofDates_units hdates holidayCalendar
  let rate : Decimal := { mantissa := 376667, scale := 4 }
  have hrate : rate.toRat = 37.6667 := by
    rw [toRat_eq]
    norm_num [rate]
  have hexact : PaysExactly holidayDates rate holidayCalendar :=
    ⟨by decide +kernel, by decide +kernel⟩
  refine ⟨hdates, hunits, ⟨rate, hrate, hexact, ?_⟩, hplaces, hsmall, by decide, ?_⟩
  · refine (hrounded rate hexact).mono fun pay hpay => ?_
    rw [hpay.1, hrate, hunits]
    rfl
  · obtain ⟨rate', pay, hrate', hpay, -, hle⟩ := hnear (.ofUInt32 1130) 30 hplaces hsmall (by decide)
    refine ⟨rate', pay, hrate', hpay, ?_⟩
    rw [hunits, toRat_ofUInt32] at hle
    have hshare : (((6 : ℕ) : ℚ) * (1130 : UInt32).toNat / (30 : UInt32).toNat) = 226 := by
      rw [show (1130 : UInt32).toNat = 1130 from rfl, show (30 : UInt32).toNat = 30 from rfl]
      norm_num
    rw [hshare] at hle
    exact hle.trans (by norm_num)

end BasicPay

end FieldWages
