import FieldWages.Proofs.Decimal.Numbers

/-!
# Quotients by one hundred

To divide by one hundred is to move the point by two places. The long division
comes to the same: as long as there are two more places to be had, they take up
what remains, and else the last place is rounded, half to even. So a percentage of
an amount depends on the number of the amount alone (`Decimal.div_hundred_alike`).

* `Decimal.div_hundred`: the quotient is the number with its point moved, fitted.
-/

namespace FieldWages

theorem halfEven_neg (n : ℤ) {d : ℕ} (hd : 0 < d) : halfEven (-n) d = -halfEven n d := by
  have hpos : (0 : ℤ) < d := by omega
  have h₀ := Int.emod_nonneg n hpos.ne'
  have h₁ := Int.emod_lt_of_pos n hpos
  have h₂ := Int.emod_add_mul_ediv n d
  rcases h₀.eq_or_lt with hr | hr
  · -- Nothing remains, on either side.
    obtain ⟨q, rfl⟩ := Int.dvd_of_emod_eq_zero hr.symm
    have hneg := Decimal.Tie.divide_mul .toEven (-q) hd
    have hq := Decimal.Tie.divide_mul .toEven q hd
    rw [neg_mul, mul_comm] at hneg
    rw [mul_comm] at hq
    exact hneg.trans (congrArg Neg.neg hq.symm)
  · have hnegated : -n = (d - n % d) + d * (-(n / d) - 1) := by
      rw [mul_sub, mul_neg, mul_one]
      omega
    have hdiv : -n / (d : ℤ) = -(n / d) - 1 := by
      rw [hnegated, Int.add_mul_ediv_left _ _ hpos.ne',
        Int.ediv_eq_zero_of_lt (by omega) (by omega), zero_add]
    have hmod : -n % (d : ℤ) = d - n % d := by
      rw [hnegated, Int.add_mul_emod_self_left, Int.emod_eq_of_lt (by omega) (by omega)]
    simp only [halfEven, hdiv, hmod]
    generalize n % (d : ℤ) = r at *
    generalize n / (d : ℤ) = q at *
    split_ifs <;> omega

namespace Decimal

/-- A mantissa in range gives up no more places than are too many. -/
theorem exists_fit_eq_ok (f : Fault) {m : ℤ} (s : ℕ) (hm : m.natAbs ≤ maxMantissa) :
    ∃ d, fit f m s = .ok d ∧
      d.toRat = halfEven m (tenPow (s - maxScale)) / 10 ^ (s - (s - maxScale)) := by
  set k := s - maxScale with hk
  have hfits : (halfEven m (tenPow k)).natAbs ≤ maxMantissa ∧ s - k ≤ maxScale := by
    refine ⟨?_, by omega⟩
    rcases Nat.eq_zero_or_pos k with h₀ | hpos
    · have hone := Tie.divide_mul .toEven m (tenPow_pos 0)
      rw [tenPow_zero, Nat.cast_one, mul_one] at hone
      rw [h₀, tenPow_zero]
      exact (congrArg Int.natAbs hone).trans_le hm
    · exact (natAbs_halfEven_le m (one_lt_tenPow hpos)).trans hm
  refine ⟨⟨_, s - k, false, hfits.1, hfits.2, nofun⟩, ?_, toRat_eq _⟩
  -- Before that many places are given up, there are too many.
  have hrange : List.range (s + 1) = List.range k ++ k :: (List.range (s - k)).map (k + 1 + ·) := by
    have hs : s + 1 = k + (s - k + 1) := by omega
    rw [hs, List.range_add, List.range_succ_eq_map, List.map_cons, List.map_map, Nat.add_zero]
    congr 2
    refine List.map_congr_left fun j _ => ?_
    simp only [Function.comp_apply, Nat.succ_eq_add_one]
    omega
  have hbefore : (List.range k).findSome?
      (fun j => ofParts? (halfEven m (tenPow j)) (s - j)) = none := by
    refine List.findSome?_eq_none_iff.2 fun j hj => ?_
    rw [List.mem_range] at hj
    rw [ofParts?, dif_neg (by omega)]
  rw [fit, fit?, hrange, List.findSome?_append, hbefore, List.findSome?_cons, ofParts?,
    dif_pos hfits]
  rfl

namespace Division

/-- There is room for as many digits as fit. -/
theorem le_room {v : Division} {x : ℕ} (hx : 1 ≤ x ∧ x ≤ 9) (hs : v.scale + x ≤ maxScale)
    (hq : v.quotient * tenPow x ≤ maxMantissa) : x ≤ v.room := by
  have hmem : x ∈ (List.range' 1 9).reverse := by
    rw [List.mem_reverse, List.mem_range'_1]
    omega
  rw [room]
  cases hf : (List.range' 1 9).reverse.find? fun (x : Nat) =>
      v.scale + x ≤ maxScale ∧ v.quotient * tenPow x ≤ maxMantissa with
  | none =>
    have hfails := List.find?_eq_none.1 hf x hmem
    rw [decide_eq_true_iff] at hfails
    exact absurd ⟨hs, hq⟩ hfails
  | some y =>
    -- The numbers tried before `y` are those that are greater.
    obtain ⟨-, before, after, hsplit, hbefore⟩ := List.find?_eq_some_iff_append.1 hf
    have hsorted : (before ++ y :: after).Pairwise (· > ·) := by
      rw [← hsplit]
      decide
    rw [hsplit, List.mem_append, List.mem_cons] at hmem
    rcases hmem with hmem | rfl | hmem
    · have hfails := hbefore x hmem
      rw [Bool.not_eq_true', decide_eq_false_iff_not] at hfails
      exact absurd ⟨hs, hq⟩ hfails
    · exact le_rfl
    · exact (List.rel_of_pairwise_cons (List.pairwise_append.1 hsorted).2.1 hmem).le

/-- Where no further digit is to be had, the last one is rounded, half to even. -/
theorem run?_of_last_place {d q r : ℕ} (fuel : ℕ) (fraction : Bool) (hr : r < d)
    (hq : q < maxMantissa) : ∃ w f, run? d (fuel + 1) ⟨q, 28, r⟩ fraction = some (w, f) ∧
      w.scale = 28 ∧ (w.quotient : ℤ) = halfEven (q * d + r) d := by
  have hpos : (0 : ℤ) < d := by omega
  have hdiv : ((q * d + r : ℤ)) / d = q := by
    rw [add_comm, Int.add_mul_ediv_right _ _ hpos.ne',
        Int.ediv_eq_zero_of_lt (by omega) (by omega),
      zero_add]
  have hmod : ((q * d + r : ℤ)) % d = r := by
    rw [add_comm, Int.add_mul_emod_self_right, Int.emod_eq_of_lt (by omega) (by omega)]
  rw [run?]
  simp only [halfEven, hdiv, hmod]
  by_cases hzero : r = 0
  · rw [if_pos hzero, if_pos (by decide), if_pos (by omega)]
    exact ⟨_, _, rfl, rfl, rfl⟩
  · have hroom : room ⟨q, 28, r⟩ = 0 := by
      by_contra hne
      have hfits := (room_fits (Nat.pos_of_ne_zero hne)).2.1
      simp only [maxScale] at hfits
      omega
    rw [if_neg hzero, hroom, if_neg (by decide), if_pos rfl, settle?]
    by_cases hup : d < 2 * r ∨ (2 * r = d ∧ q % 2 = 1)
    · simp only [if_pos hup, shorten?, if_pos (Nat.succ_le_of_lt hq)]
      refine ⟨_, _, rfl, rfl, ?_⟩
      push_cast
      split_ifs <;> omega
    · simp only [if_neg hup, shorten?, if_pos hq.le]
      refine ⟨_, _, rfl, rfl, ?_⟩
      dsimp only
      split_ifs <;> omega

/-- While there are two more places to be had, a division by one hundred comes out
    even. -/
theorem run?_hundred {n s : ℕ} (hn : n ≤ maxMantissa) (hs : s ≤ 26) :
    ∃ w f, run? 100 58 ⟨n / 100, s, n % 100⟩ false = some (w, f) ∧ 0 ≤ w.scale ∧
      (w.quotient : ℚ) / 10 ^ w.scale.toNat = n / 10 ^ (s + 2) := by
  rw [run?]
  by_cases hzero : n % 100 = 0
  · rw [if_pos hzero, if_pos (Int.natCast_nonneg s)]
    refine ⟨_, _, rfl, Int.natCast_nonneg s, ?_⟩
    rw [Int.toNat_natCast, Nat.cast_div (Nat.dvd_of_mod_eq_zero hzero) (by norm_num), pow_add]
    norm_num
    ring
  set v : Division := ⟨n / 100, s, n % 100⟩ with hv
  have htwo : 2 ≤ v.room := by
    refine le_room ⟨by decide, by decide⟩ ?_ ?_
    · simp only [hv, maxScale]
      omega
    · exact (Nat.div_mul_le_self n 100).trans hn
  obtain ⟨hnine, hscale, -⟩ := room_fits (Nat.zero_lt_of_lt htwo)
  obtain ⟨x, hx⟩ := Nat.exists_eq_add_of_le htwo
  have hpow : tenPow (2 + x) = 100 * tenPow x := tenPow_add 2 x
  -- The two places take up the remainder, and further ones are zeros.
  have hextend : v.extend 100 v.room = ⟨n * tenPow x, s + (2 + x : ℕ), 0⟩ := by
    have hmul : n % 100 * (100 * tenPow x) = 100 * (n % 100 * tenPow x) := by ring
    have hquotient : n / 100 * (100 * tenPow x) + n % 100 * tenPow x = n * tenPow x := by
      rw [← mul_assoc, ← add_mul, mul_comm (n / 100), Nat.div_add_mod]
    rw [hx, extend, hv]
    simp only [hpow, hmul, Nat.mul_div_cancel_left _ (by decide : 0 < 100), Nat.mul_mod_right,
      hquotient]
  have hnear : ¬(v.room < 9 ∧ v.scale + v.room < 0) := by
    simp only [hv]
    omega
  rw [if_neg hzero]
  simp only [if_neg hnear, if_neg (Nat.pos_iff_ne_zero.1 (Nat.zero_lt_of_lt htwo)), hextend]
  by_cases hq : n * tenPow x ≤ maxMantissa
  · rw [if_pos hq, run?, if_pos rfl, if_pos (by positivity)]
    refine ⟨_, _, rfl, by positivity, ?_⟩
    rw [← Nat.cast_add, Int.toNat_natCast, Nat.cast_mul, cast_tenPow, ← add_assoc,
      pow_add _ (s + 2), mul_div_mul_right _ _ (by positivity)]
  · -- One zero is too many, and goes.
    obtain ⟨x, rfl⟩ : ∃ y, x = y + 1 := by
      refine Nat.exists_eq_succ_of_ne_zero fun h => hq ?_
      rw [h, tenPow_zero, mul_one]
      exact hn
    have hpositive : ¬(s : ℤ) + (2 + (x + 1) : ℕ) ≤ 0 := by omega
    have hten : n * tenPow (x + 1) = n * tenPow x * 10 := by rw [tenPow_succ, mul_assoc]
    rw [if_neg hq, shorten?, if_neg hq, if_neg hpositive]
    simp only [hten, Nat.mul_mod_left, Nat.mul_div_cancel _ (by decide : 0 < 10)]
    have hplaces : (s : ℤ) + (2 + (x + 1) : ℕ) - 1 = ((s + 2 + x : ℕ) : ℤ) := by omega
    refine ⟨_, _, rfl, ?_, ?_⟩
    · simp only [hplaces]
      exact Int.natCast_nonneg _
    · simp only [hplaces, Int.toNat_natCast, pow_add _ (s + 2)]
      rw [if_neg (by simp), Nat.cast_mul, cast_tenPow, mul_div_mul_right _ _ (by positivity)]

/-- With one more place to be had, the division goes on to it and rounds there. -/
theorem run?_hundred_of_place {n : ℕ} (hn : n ≤ maxMantissa) :
    ∃ w f, run? 100 58 ⟨n / 100, 27, n % 100⟩ false = some (w, f) ∧
      (w.quotient : ℚ) / 10 ^ w.scale.toNat = halfEven n 10 / 10 ^ 28 := by
  rw [run?]
  by_cases hzero : n % 100 = 0
  · rw [if_pos hzero, if_pos (by decide : (0 : ℤ) ≤ 27)]
    refine ⟨_, _, rfl, ?_⟩
    obtain ⟨q, rfl⟩ := Nat.dvd_of_mod_eq_zero hzero
    have hten : halfEven ((100 * q : ℕ) : ℤ) 10 = 10 * q := by
      have h := Tie.divide_mul .toEven (10 * q) (by decide : 0 < 10)
      rw [mul_right_comm] at h
      exact_mod_cast h
    rw [hten, Nat.mul_div_cancel_left q (by decide)]
    push_cast
    norm_num
    ring
  have hroom : room ⟨n / 100, 27, n % 100⟩ = 1 := by
    refine le_antisymm ?_ (le_room ⟨by decide, by decide⟩ (by decide : (27 : ℤ) + 1 ≤ 28) ?_)
    · by_contra hgt
      have hfits := (room_fits (Nat.zero_lt_of_lt (not_le.1 hgt))).2.1
      simp only [maxScale] at hfits
      omega
    · rw [tenPow_succ, tenPow_zero]
      simp only [maxMantissa] at hn ⊢
      omega
  have hextend : (⟨n / 100, 27, n % 100⟩ : Division).extend 100 1 = ⟨n / 10, 28, n % 10 * 10⟩ := by
    have hpow : tenPow 1 = 10 := rfl
    have hquotient : n / 100 * 10 + n % 100 * 10 / 100 = n / 10 := by omega
    have hremainder : n % 100 * 10 % 100 = n % 10 * 10 := by omega
    rw [extend]
    simp only [hpow, hquotient, hremainder]
    rfl
  have hsmall : n / 10 < maxMantissa := by
    simp only [maxMantissa] at hn ⊢
    omega
  obtain ⟨w, f, hw, hscale, hquotient⟩ :=
    run?_of_last_place 56 true (by omega : n % 10 * 10 < 100) hsmall
  have hsplit : ((n / 10 : ℕ) : ℤ) * (100 : ℕ) + (n % 10 * 10 : ℕ) = n * 10 := by omega
  rw [hsplit] at hquotient
  have hnear : ¬(1 < 9 ∧ (27 : ℤ) + (1 : ℕ) < 0) := by decide
  rw [if_neg hzero, hroom]
  simp only [if_neg hnear, if_neg one_ne_zero, hextend, if_pos hsmall.le]
  refine ⟨w, f, hw, ?_⟩
  rw [hscale, ← Int.cast_natCast, hquotient]
  exact congrArg (fun m : ℤ => (m : ℚ) / 10 ^ 28) (Tie.divide_mul_ten .toEven n 10)

end Division

/-- The digits of a quotient write the number that the division ends with. -/
theorem quotientDigits?_of_run? {a b : ℕ} {s : ℤ} {w : Division} {f : Bool}
    (h : Division.run? b 58 ⟨a / b, s, a % b⟩ false = some (w, f)) :
    ∃ p, quotientDigits? a b s = some p ∧
      (p.1 : ℚ) / 10 ^ p.2 = w.quotient / 10 ^ w.scale.toNat := by
  refine ⟨_, Option.bind_eq_some_iff.2 ⟨(w, f), h, rfl⟩, ?_⟩
  split
  · exact (shortens_shortenFraction _).2.2
  · rfl

/-- The digits of a quotient by one hundred: the point is moved by two places, and
    places that are too many are rounded away. -/
theorem quotientDigits?_hundred {n s : ℕ} (hn : n ≤ maxMantissa) (hs : s ≤ maxScale) :
    ∃ p, quotientDigits? n 100 s = some p ∧ (p.1 : ℚ) / 10 ^ p.2 =
      halfEven n (tenPow (s + 2 - maxScale)) / 10 ^ (s + 2 - (s + 2 - maxScale)) := by
  have hsmall : n / 100 < maxMantissa := by
    have := Nat.div_le_div_right (c := 100) hn
    exact this.trans_lt (by decide)
  have hmod : n % 100 < 100 := Nat.mod_lt n (by decide)
  obtain h | rfl | rfl : s ≤ 26 ∨ s = 27 ∨ s = 28 := by
    simp only [maxScale] at hs
    omega
  · obtain ⟨w, f, hw, -, hnumber⟩ := Division.run?_hundred hn h
    obtain ⟨p, hp, hdigits⟩ := quotientDigits?_of_run? hw
    refine ⟨p, hp, (hdigits.trans hnumber).trans ?_⟩
    have hone := Tie.divide_mul .toEven n (tenPow_pos 0)
    rw [tenPow_zero, Nat.cast_one, mul_one] at hone
    have hzero : s + 2 - maxScale = 0 := by simp only [maxScale]; omega
    rw [hzero, tenPow_zero, Nat.sub_zero]
    exact congrArg (fun m : ℤ => (m : ℚ) / 10 ^ (s + 2)) hone.symm
  · obtain ⟨w, f, hw, hnumber⟩ := Division.run?_hundred_of_place hn
    obtain ⟨p, hp, hdigits⟩ := quotientDigits?_of_run? hw
    exact ⟨p, hp, hdigits.trans hnumber⟩
  · obtain ⟨w, f, hw, hscale, hquotient⟩ := Division.run?_of_last_place 57 false hmod hsmall
    obtain ⟨p, hp, hdigits⟩ := quotientDigits?_of_run? hw
    have hsplit : ((n / 100 : ℕ) : ℤ) * (100 : ℕ) + (n % 100 : ℕ) = n := by
      exact_mod_cast Nat.div_add_mod' n 100
    refine ⟨p, hp, hdigits.trans ?_⟩
    rw [hsplit] at hquotient
    rw [hscale, ← Int.cast_natCast, hquotient]
    rfl

/-- A quotient by one hundred is the number with its point moved, fitted. -/
theorem div_hundred (a : Decimal) :
    Alike (· ≈ ·) (a.div hundred) (fit .divisionOverflow a.mantissa (a.scale + 2)) := by
  obtain ⟨d, hd, hnumber⟩ := exists_fit_eq_ok .divisionOverflow (a.scale + 2) a.mantissa_le
  rw [hd]
  by_cases hzero : a.mantissa = 0
  · have hdiv : a.div hundred = .ok zero := by
      rw [div, if_neg (by decide), if_pos hzero]
    rw [hdiv]
    refine .ok ?_
    rw [equiv_iff, hnumber, hzero, toRat_zero]
    have h := Tie.divide_zero .toEven (tenPow (a.scale + 2 - maxScale))
    rw [show halfEven 0 _ = 0 from h, Int.cast_zero, zero_div]
  · obtain ⟨p, hp, hdigits⟩ := quotientDigits?_hundred a.mantissa_le a.scale_le
    obtain ⟨hdigits_le, hplaces_le, -⟩ :=
      quotientDigits?_spec a.mantissa_le (by decide) (Int.ofNat_le.2 a.scale_le) hp
    have hsign : (a.mantissa * hundred.mantissa).sign = a.mantissa.sign := by
      rw [Int.sign_mul]
      exact mul_one _
    have hfits : (a.mantissa.sign * p.1).natAbs ≤ maxMantissa ∧ p.2 ≤ maxScale := by
      rw [Int.natAbs_mul, Int.natAbs_sign_of_ne_zero hzero, one_mul]
      exact ⟨hdigits_le, hplaces_le⟩
    have hdiv : a.div hundred = .ok
        ⟨_, p.2, false, hfits.1, hfits.2, (absurd · Bool.false_ne_true)⟩ := by
      have hscale : (a.scale : ℤ) - hundred.scale = a.scale := sub_zero _
      rw [div, if_neg (by decide), if_neg hzero, hscale,
        show hundred.mantissa.natAbs = 100 from rfl, hp]
      simp only [hsign, ofParts?, dif_pos hfits]
    rw [hdiv]
    refine .ok ?_
    rw [equiv_iff, hnumber, toRat_eq]
    -- Rounding half to even is the same on either side of zero.
    have hround : halfEven a.mantissa (tenPow (a.scale + 2 - maxScale)) =
        a.mantissa.sign * halfEven a.mantissa.natAbs (tenPow (a.scale + 2 - maxScale)) := by
      rcases lt_or_gt_of_ne hzero with hneg | hpos
      · rw [Int.sign_eq_neg_one_of_neg hneg, neg_one_mul, ← halfEven_neg _ (tenPow_pos _),
          Int.ofNat_natAbs_of_nonpos hneg.le, neg_neg]
      · rw [Int.sign_eq_one_of_pos hpos, one_mul, Int.natAbs_of_nonneg hpos.le]
    simp only
    rw [hround, Int.cast_mul, Int.cast_mul, mul_div_assoc, mul_div_assoc, Int.cast_natCast, hdigits]

theorem div_hundred_alike {a b : Decimal} (h : a ≈ b) :
    Alike (· ≈ ·) (a.div hundred) (b.div hundred) := by
  have hfit : Alike (· ≈ ·) (fit .divisionOverflow a.mantissa (a.scale + 2))
      (fit .divisionOverflow b.mantissa (b.scale + 2)) := by
    refine fit_alike _ ?_
    rw [equiv_iff, toRat_eq, toRat_eq] at h
    rw [pow_add, pow_add, ← div_div, ← div_div, h]
  have hleft := Alike.trans (R := (· ≈ ·)) Setoid.trans (div_hundred a) hfit
  exact hleft.trans (R := (· ≈ ·)) Setoid.trans ((div_hundred b).symm Setoid.symm)

end Decimal

end FieldWages
