import FieldWages.Proofs.Decimal.Numbers
import FieldWages.Proofs.Decimal.Hundredth
import FieldWages.Proofs.Overflow

/-!
# Greater numbers, greater decimals

Rounding does not change the order of numbers, and neither does fitting, however
many places it gives up: of two numbers the greater one gives up no fewer places, and
if it gives up more, then because it would be out of range with the places that the
other one keeps. Sums, differences, products and quotients by one hundred are exact
numbers that are fitted (`Decimal.Fits`), so they grow with their operands even where they
drop digits.

* `Decimal.Fits.mono`: a greater number is fitted to a greater decimal;
* `Decimal.fits_add`, `Decimal.fits_sub`, `Decimal.fits_mul`,
  `Decimal.exists_div_hundred_eq_ok`: what the operations fit;
* `Decimal.round_mono`: rounding to a place;
* `Decimal.sum_mono`: sums of more decimals.
-/

namespace FieldWages.Decimal

variable {a a' b b' c d : Decimal} {x y : ℚ} {m m' : ℤ} {s : ℕ}

instance : Preorder Decimal where
  le_refl a := le_iff_toRat.2 le_rfl
  le_trans a b c hab hbc := le_iff_toRat.2 ((le_iff_toRat.1 hab).trans (le_iff_toRat.1 hbc))
  lt_iff_le_not_ge a b := by
    rw [lt_iff_toRat, le_iff_toRat, le_iff_toRat, lt_iff_le_not_ge]

theorem zero_le_iff : zero ≤ a ↔ 0 ≤ a.toRat := by
  rw [le_iff_toRat, toRat_zero]

theorem le_zero_iff : a ≤ zero ↔ a.toRat ≤ 0 := by
  rw [le_iff_toRat, toRat_zero]

theorem not_le_iff_lt : ¬a ≤ b ↔ b < a := by
  rw [le_iff_toRat, lt_iff_toRat, not_le]

theorem not_lt_iff_le : ¬a < b ↔ b ≤ a := by
  rw [le_iff_toRat, lt_iff_toRat, not_lt]

theorem toRat_ofUInt32 (n : UInt32) : (ofUInt32 n).toRat = n.toNat := by
  simp [toRat_eq, ofUInt32]

theorem zero_le_ofUInt32 (n : UInt32) : zero ≤ ofUInt32 n :=
  zero_le_iff.2 (toRat_nonneg_iff.2 (Int.natCast_nonneg _))

theorem ofUInt32_mono {m n : UInt32} (h : m ≤ n) : ofUInt32 m ≤ ofUInt32 n := by
  rw [le_iff_toRat, toRat_ofUInt32, toRat_ofUInt32]
  exact_mod_cast UInt32.le_iff_toNat_le.1 h

/-! ## Rounding -/

theorem Tie.divide_mono (tie : Tie) {n n' : ℤ} (h : n ≤ n') {d : ℕ} (hd : 0 < d) :
    tie.divide n d ≤ tie.divide n' d := by
  by_contra hlt
  obtain ⟨hnear, -⟩ := tie.divide_near n hd
  obtain ⟨-, hnear'⟩ := tie.divide_near n' hd
  -- A quotient is rounded up by half a unit and one that is not less down by as much, so
  -- they are the same.
  have hstep : (tie.divide n' d + 1) * (d : ℤ) ≤ tie.divide n d * d :=
    mul_le_mul_of_nonneg_right (by omega) (Int.natCast_nonneg d)
  rw [add_mul, one_mul] at hstep
  have heq : n = n' := by linarith
  exact hlt (heq ▸ le_rfl)

theorem round_mono (tie : Tie) (places : ℕ) (h : a ≤ b) :
    a.round tie places ≤ b.round tie places := by
  have hplaces : ∀ d : Decimal, ∃ n : ℤ, (d.round tie places).toRat * 10 ^ places = n := by
    intro d
    obtain ⟨n, hn⟩ := hasPlaces_of_scale_le (d.scale_round_le tie places)
    exact ⟨n, by rw [hn, div_mul_cancel₀ _ (by positivity)]⟩
  rw [le_iff_toRat] at h ⊢
  by_contra hlt
  -- As for integers: the two would have to be one number.
  have heq : a.toRat = b.toRat := by
    obtain ⟨na, hna⟩ := hplaces a
    obtain ⟨nb, hnb⟩ := hplaces b
    have hpow : (0 : ℚ) < 10 ^ places := by positivity
    have hstep : (nb : ℚ) + 1 ≤ na := by
      have hlt' : (nb : ℚ) < na := by
        rw [← hna, ← hnb]
        exact mul_lt_mul_of_pos_right (not_le.1 hlt) hpow
      exact_mod_cast hlt'
    have ha := (abs_le.1 (abs_round_sub_le tie places a)).2
    have hb := (abs_le.1 (abs_round_sub_le tie places b)).1
    have hunit : (1 : ℚ) / 2 / 10 ^ places * 10 ^ places = 1 / 2 :=
      div_mul_cancel₀ _ hpow.ne'
    refine le_antisymm h (le_of_mul_le_mul_right ?_ hpow)
    nlinarith
  exact hlt (equiv_iff.1 (round_congr tie places heq)).le

theorem toHundredths_mono (h : a ≤ b) : a.toHundredths ≤ b.toHundredths :=
  round_mono .awayFromZero 2 h

theorem toTenThousandths_mono (h : a ≤ b) : a.toTenThousandths ≤ b.toTenThousandths :=
  round_mono .awayFromZero 4 h

theorem toHundredths_zero : zero.toHundredths = zero := by decide

theorem toTenThousandths_zero : zero.toTenThousandths = zero := by decide

theorem toHundredths_nonneg (h : zero ≤ a) : zero ≤ a.toHundredths :=
  toHundredths_zero ▸ toHundredths_mono h

theorem toTenThousandths_nonneg (h : zero ≤ a) : zero ≤ a.toTenThousandths :=
  toTenThousandths_zero ▸ toTenThousandths_mono h

theorem halfAway_neg (n : ℤ) (d : ℕ) : halfAway (-n) d = -halfAway n d := by
  rcases lt_trichotomy n 0 with h | rfl | h
  · rw [halfAway, halfAway, if_pos (by omega), if_neg (by omega), neg_neg]
  · have hzero : halfAway 0 d = 0 := Tie.divide_zero .awayFromZero d
    rw [neg_zero, hzero, neg_zero]
  · rw [halfAway, halfAway, if_neg (by omega), if_pos (by omega), neg_neg]

theorem toRat_round_neg (places : ℕ) (d : Decimal) :
    (d.neg.round .awayFromZero places).toRat = -(d.round .awayFromZero places).toRat := by
  rw [round, round]
  by_cases h : d.scale ≤ places
  · rw [dif_pos h, dif_pos (show d.neg.scale ≤ places from h), toRat_neg]
  · rw [dif_neg h, dif_neg (show ¬d.neg.scale ≤ places from h), toRat_eq, toRat_eq, ← neg_div,
      ← Int.cast_neg]
    exact congrArg (fun m : ℤ => (m : ℚ) / 10 ^ places) (halfAway_neg d.mantissa _)

theorem toHundredths_neg (d : Decimal) : d.neg.toHundredths.toRat = -d.toHundredths.toRat :=
  toRat_round_neg 2 d

theorem neg_le_iff : a.neg ≤ b ↔ 0 ≤ a.toRat + b.toRat := by
  rw [le_iff_toRat, toRat_neg, neg_le_iff_add_nonneg']

/-! ## Fitting -/

/-- What is fitted is rounded to the first place with which it is in range. -/
theorem fit?_eq_some_spec (h : fit? m s = some d) :
    ∃ k ≤ s, s - k ≤ maxScale ∧ (halfEven m (tenPow k)).natAbs ≤ maxMantissa ∧
      d.toRat = halfEven m (tenPow k) / 10 ^ (s - k) ∧
      ∀ j < k, s - j ≤ maxScale → maxMantissa < (halfEven m (tenPow j)).natAbs := by
  obtain ⟨before, k, after, hrange, hk, hbefore⟩ := List.findSome?_eq_some_iff.1 h
  have hle : k ≤ s := by
    have hmem : k ∈ List.range (s + 1) := hrange ▸ List.mem_append_right _ List.mem_cons_self
    exact Nat.lt_succ_iff.1 (List.mem_range.1 hmem)
  rw [ofParts?] at hk
  split at hk
  · next hfits =>
    cases hk
    refine ⟨k, hle, hfits.2, hfits.1, toRat_eq _, fun j hj hplaces => ?_⟩
    -- A smaller number of places has been tried before.
    have hmem : j ∈ before := by
      have hmem : j ∈ before ++ k :: after := hrange ▸ List.mem_range.2 (by omega)
      have hsorted : (before ++ k :: after).Pairwise (· < ·) := hrange ▸ List.pairwise_lt_range
      rcases List.mem_append.1 hmem with hmem | hmem
      · exact hmem
      rcases List.mem_cons.1 hmem with rfl | hmem
      · exact absurd hj (lt_irrefl _)
      · have := List.rel_of_pairwise_cons (List.pairwise_append.1 hsorted).2.1 hmem
        omega
    by_contra hle'
    have hnone := hbefore j hmem
    rw [ofParts?, dif_pos ⟨not_lt.1 hle', hplaces⟩] at hnone
    cases hnone
  · cases hk

theorem halfEven_mono {n n' : ℤ} (h : n ≤ n') {d : ℕ} (hd : 0 < d) : halfEven n d ≤ halfEven n' d :=
  Tie.divide_mono .toEven h hd

theorem halfEven_nonneg {n : ℤ} (h : 0 ≤ n) {d : ℕ} (hd : 0 < d) : 0 ≤ halfEven n d := by
  have hzero : halfEven 0 d = 0 := Tie.divide_zero .toEven d
  exact hzero ▸ halfEven_mono h hd

/-- With one place less, a number that was out of range still fills the range. -/
theorem le_halfEven_succ {j : ℕ} (h : (maxMantissa : ℤ) < halfEven m (tenPow j)) :
    (maxMantissa : ℤ) ≤ halfEven m (tenPow (j + 1)) * 10 := by
  obtain ⟨hnear, -⟩ := halfEven_near m (tenPow_pos j)
  obtain ⟨-, hnear'⟩ := halfEven_near m (tenPow_pos (j + 1))
  have hpos : (0 : ℤ) < tenPow j := by exact_mod_cast tenPow_pos j
  rw [tenPow_succ, Nat.cast_mul, Nat.cast_ofNat] at hnear'
  have hfill : (maxMantissa + 1) * (tenPow j : ℤ) ≤ halfEven m (tenPow j) * tenPow j :=
    mul_le_mul_of_nonneg_right h hpos.le
  have hscaled : (2 * maxMantissa + 1) * (tenPow j : ℤ) ≤
      (halfEven m (tenPow j * 10) * 20 + 10) * tenPow j := by
    linarith
  have hdigits := le_of_mul_le_mul_right hscaled hpos
  rw [tenPow_succ]
  simp only [maxMantissa] at hdigits ⊢
  omega

/-- Of two numbers that are not negative, the greater one is fitted to a greater decimal. -/
theorem toRat_le_of_fit? (hm : 0 ≤ m) (hle : m ≤ m') (h : fit? m s = some d)
    (h' : fit? m' s = some c) : d.toRat ≤ c.toRat := by
  obtain ⟨k, hk, hplaces, hfits, hd, hmin⟩ := fit?_eq_some_spec h
  obtain ⟨k', hk', hplaces', hfits', hc, hmin'⟩ := fit?_eq_some_spec h'
  rcases lt_trichotomy k k' with hlt | rfl | hgt
  · -- The greater number would be out of range with one place more.
    obtain ⟨j, rfl⟩ : ∃ j, k' = j + 1 := Nat.exists_eq_succ_of_ne_zero (by omega)
    have hout := hmin' j (Nat.lt_succ_self j) (by omega)
    have hnonneg := halfEven_nonneg (hm.trans hle) (tenPow_pos j)
    have hnonneg' := halfEven_nonneg (hm.trans hle) (tenPow_pos (j + 1))
    have hfull := le_halfEven_succ (m := m') (j := j) (by omega)
    generalize halfEven m' (tenPow (j + 1)) = q at *
    have hq : ((halfEven m (tenPow k) : ℤ) : ℚ) ≤ q * 10 := by
      have : halfEven m (tenPow k) ≤ q * 10 := by omega
      exact_mod_cast this
    obtain ⟨i, rfl⟩ := Nat.exists_eq_add_of_le (Nat.lt_succ_iff.1 hlt)
    have hscale : s - k = s - (k + i + 1) + (i + 1) := by omega
    have hten : (10 : ℚ) ≤ 10 ^ (i + 1) := le_self_pow₀ (by norm_num) (Nat.succ_ne_zero i)
    rw [hd, hc, hscale, pow_add, ← div_div, div_le_iff₀ (by positivity), div_mul_eq_mul_div]
    refine div_le_div_of_nonneg_right (hq.trans ?_) (by positivity)
    exact mul_le_mul_of_nonneg_left hten (by exact_mod_cast hnonneg')
  · have hround : ((halfEven m (tenPow k) : ℤ) : ℚ) ≤ halfEven m' (tenPow k) := by
      exact_mod_cast halfEven_mono hle (tenPow_pos k)
    rw [hd, hc]
    exact div_le_div_of_nonneg_right hround (by positivity)
  · -- The smaller number is in range wherever the greater one is.
    have hout := hmin k' hgt hplaces'
    have hround := halfEven_mono hle (tenPow_pos k')
    have hnonneg := halfEven_nonneg hm (tenPow_pos k')
    omega

theorem fit?_neg (m : ℤ) (s : ℕ) : fit? (-m) s = (fit? m s).map neg := by
  rw [fit?, fit?, List.map_findSome?]
  congr 1
  funext k
  rw [Function.comp_apply, halfEven_neg _ (tenPow_pos k), ofParts?, ofParts?]
  by_cases hfits : (halfEven m (tenPow k)).natAbs ≤ maxMantissa ∧ s - k ≤ maxScale
  · rw [dif_pos hfits, dif_pos (by rwa [Int.natAbs_neg])]
    rfl
  · rw [dif_neg hfits, dif_neg (by rwa [Int.natAbs_neg])]
    rfl

/-- Whether a number is fitted to a decimal, or to one of the same number. -/
def Fits (x : ℚ) (d : Decimal) : Prop :=
  ∃ (m : ℤ) (s : ℕ), x = m / 10 ^ s ∧ (fit? m s).map toRat = some d.toRat

theorem fits_toRat (d : Decimal) : Fits d.toRat d := by
  refine ⟨d.mantissa, d.scale, toRat_eq d, ?_⟩
  rw [fit?_of_le d.mantissa_le d.scale_le, Option.map_some, toRat_eq, toRat_eq]

theorem Fits.congr (h : Fits x c) (hcd : c ≈ d) : Fits x d := by
  obtain ⟨m, s, hx, hm⟩ := h
  exact ⟨m, s, hx, by rw [hm, equiv_iff.1 hcd]⟩

theorem Fits.neg (h : Fits x d) : Fits (-x) d.neg := by
  obtain ⟨m, s, rfl, hm⟩ := h
  refine ⟨-m, s, by rw [Int.cast_neg, neg_div], ?_⟩
  obtain ⟨e, he, hnumber⟩ := Option.map_eq_some_iff.1 hm
  rw [fit?_neg, he, Option.map_some, Option.map_some, toRat_neg, toRat_neg, hnumber]

/-- A fitted number can be written with more places. -/
theorem Fits.exists_scale (h : Fits x d) :
    ∃ s, ∀ t, s ≤ t → ∃ (m : ℤ) (e : Decimal), x = m / 10 ^ t ∧ fit? m t = some e ∧ e ≈ d := by
  obtain ⟨m, s, hx, hm⟩ := h
  refine ⟨s, fun t hst => ?_⟩
  have hmt : x = ((m * tenPow (t - s) : ℤ) : ℚ) / 10 ^ t := by
    rw [hx, Int.cast_mul, Int.cast_natCast, cast_tenPow,
      div_eq_div_iff (by positivity) (by positivity), mul_assoc, ← pow_add, Nat.sub_add_cancel hst]
  have hfit := eq_of_zeros (fun m s => (fit? m s).map toRat) map_fit?_mul_ten (hx.symm.trans hmt)
  obtain ⟨e, he, hnumber⟩ := Option.map_eq_some_iff.1 (hfit.symm.trans hm)
  exact ⟨_, e, hmt, he, hnumber⟩

theorem Fits.mono_of_nonneg (hx : 0 ≤ x) (hxy : x ≤ y) (h : Fits x c) (h' : Fits y d) : c ≤ d := by
  obtain ⟨s, h⟩ := h.exists_scale
  obtain ⟨s', h'⟩ := h'.exists_scale
  obtain ⟨m, e, hm, he, hec⟩ := h (max s s') (le_max_left s s')
  obtain ⟨m', e', hm', he', hed⟩ := h' (max s s') (le_max_right s s')
  have hpow : (0 : ℚ) < 10 ^ max s s' := by positivity
  have hm₀ : 0 ≤ m := by
    rw [hm, le_div_iff₀ hpow, zero_mul] at hx
    exact_mod_cast hx
  have hle : m ≤ m' := by
    rw [hm, hm', div_le_div_iff_of_pos_right hpow] at hxy
    exact_mod_cast hxy
  rw [le_iff_toRat, ← equiv_iff.1 hec, ← equiv_iff.1 hed]
  exact toRat_le_of_fit? hm₀ hle he he'

/-- A greater number is fitted to a greater decimal. -/
theorem Fits.mono (h : Fits x c) (h' : Fits y d) (hxy : x ≤ y) : c ≤ d := by
  have hzero : Fits 0 zero := toRat_zero ▸ fits_toRat zero
  have hpos : ∀ {x d}, 0 ≤ x → Fits x d → 0 ≤ d.toRat := fun hx hd =>
    zero_le_iff.1 (mono_of_nonneg le_rfl hx hzero hd)
  rcases le_total 0 x with hx | hx
  · exact mono_of_nonneg hx hxy h h'
  rw [le_iff_toRat]
  have hc := hpos (neg_nonneg.2 hx) h.neg
  rw [toRat_neg] at hc
  rcases le_total 0 y with hy | hy
  · exact (neg_nonneg.1 hc).trans (hpos hy h')
  · -- Below zero, the order of the sizes is the other way round.
    have hneg := le_iff_toRat.1 (mono_of_nonneg (neg_nonneg.2 hy) (neg_le_neg hxy) h'.neg h.neg)
    rw [toRat_neg, toRat_neg] at hneg
    exact neg_le_neg_iff.1 hneg

theorem Fits.equiv (h : Fits x c) (h' : Fits x d) : c ≈ d :=
  le_antisymm (le_iff_toRat.1 (h.mono h' le_rfl)) (le_iff_toRat.1 (h'.mono h le_rfl))

theorem Fits.nonneg (h : Fits x d) (hx : 0 ≤ x) : zero ≤ d :=
  (fits_toRat zero).mono h (toRat_zero.trans_le hx)

theorem Fits.add_mono (h : Fits (a.toRat + x) b) (h' : Fits (a'.toRat + y) b') (ha : a ≤ a')
    (hxy : x ≤ y) : b ≤ b' :=
  h.mono h' (add_le_add (le_iff_toRat.1 ha) hxy)

theorem Fits.le_add (h : Fits (a.toRat + x) b) (hca : c ≤ a) (hx : 0 ≤ x) : c ≤ b :=
  (fits_toRat c).mono h ((le_iff_toRat.1 hca).trans (le_add_of_nonneg_right hx))

/-! ## Operations -/

theorem fits_of_fit {f : Fault} (h : fit f m s = .ok d) : Fits (m / 10 ^ s) d := by
  rw [fit] at h
  split at h
  · next e he =>
    cases h
    exact ⟨m, s, rfl, by rw [he, Option.map_some]⟩
  · cases h

theorem toRat_eq_zero (h : d.mantissa = 0) : d.toRat = 0 := by
  rw [toRat_eq, h, Int.cast_zero, zero_div]

theorem fits_addOr {f : Fault} (h : addOr f a b = .ok c) : Fits (a.toRat + b.toRat) c := by
  rw [addOr] at h
  split at h
  · next ha =>
    cases h
    rw [toRat_eq_zero ha, zero_add]
    exact fits_toRat b
  split at h
  · next hb =>
    cases h
    rw [toRat_eq_zero hb, add_zero]
    exact fits_toRat a
  · have hfits := fits_of_fit h
    rwa [Int.cast_add, Int.cast_mul, Int.cast_mul, Int.cast_natCast, Int.cast_natCast, add_div,
      ← toRat_mul_pow_of_le (le_max_left _ _), ← toRat_mul_pow_of_le (le_max_right _ _),
      mul_div_cancel_right₀ _ (by positivity), mul_div_cancel_right₀ _ (by positivity)] at hfits

theorem fits_add (h : a.add b = .ok c) : Fits (a.toRat + b.toRat) c := fits_addOr h

theorem fits_sub (h : a.sub b = .ok c) : Fits (a.toRat - b.toRat) c := by
  have hfits := fits_addOr h
  rwa [toRat_neg, ← sub_eq_add_neg] at hfits

theorem fits_mul (h : a.mul b = .ok c) : Fits (a.toRat * b.toRat) c := by
  have halike := mul_alike_fit a b
  rw [h] at halike
  obtain ⟨d, hd, hcd⟩ := halike.exists_right
  have hfits := (fits_of_fit hd).congr (Setoid.symm hcd)
  rwa [Int.cast_mul, pow_add, mul_div_mul_comm, ← toRat_eq, ← toRat_eq] at hfits

theorem exists_div_hundred_eq_ok (a : Decimal) :
    ∃ q, a.div hundred = .ok q ∧ Fits (a.toRat / 100) q := by
  obtain ⟨d, hd, -⟩ := exists_fit_eq_ok .divisionOverflow (a.scale + 2) a.mantissa_le
  have halike := div_hundred a
  rw [hd] at halike
  obtain ⟨q, hq, hqd⟩ := halike.exists_left
  refine ⟨q, hq, ?_⟩
  have hfits := (fits_of_fit hd).congr (Setoid.symm hqd)
  rw [pow_add, ← div_div, ← toRat_eq] at hfits
  norm_num at hfits
  exact hfits

theorem sub_eq_error {f : Fault} (h : a.sub b = .error f) : f = .subtractionOverflow := by
  rw [sub, addOr] at h
  split at h
  · cases h
  split at h
  · cases h
  · exact fit_eq_error h

theorem mul_eq_error {f : Fault} (h : a.mul b = .error f) : f = .multiplicationOverflow := by
  have halike := mul_alike_fit a b
  rw [h] at halike
  generalize hfit : fit .multiplicationOverflow _ _ = x at halike
  cases halike with
  | error => exact fit_eq_error hfit

theorem add_unless (a b : Decimal) : UnlessOverflow (Fits (a.toRat + b.toRat)) (a.add b) :=
  .intro (fun _ => fits_add) fun _ h => add_eq_error h ▸ trivial

theorem sub_unless (a b : Decimal) : UnlessOverflow (Fits (a.toRat - b.toRat)) (a.sub b) :=
  .intro (fun _ => fits_sub) fun _ h => sub_eq_error h ▸ trivial

theorem mul_unless (a b : Decimal) : UnlessOverflow (Fits (a.toRat * b.toRat)) (a.mul b) :=
  .intro (fun _ => fits_mul) fun _ h => mul_eq_error h ▸ trivial

/-- Greater operands have a greater sum. -/
theorem add_mono (h : a.add b = .ok c) (ha : a ≤ a') (hb : b ≤ b') :
    UnlessOverflow (c ≤ ·) (a'.add b') :=
  (add_unless a' b').mono fun _ hd => (fits_add h).add_mono hd ha (le_iff_toRat.1 hb)

/-- What is not negative adds up to more. -/
theorem le_add (ha : c ≤ a) (hb : zero ≤ b) : UnlessOverflow (c ≤ ·) (a.add b) :=
  (add_unless a b).mono fun _ hd => hd.le_add ha (zero_le_iff.1 hb)

/-- Factors that are not negative have a greater product if one of them is greater. -/
theorem mul_mono (h : a.mul b = .ok c) (ha : a ≤ a') (hb : zero ≤ b) :
    UnlessOverflow (c ≤ ·) (a'.mul b) :=
  (mul_unless a' b).mono fun _ hd =>
    (fits_mul h).mono hd (mul_le_mul_of_nonneg_right (le_iff_toRat.1 ha) (zero_le_iff.1 hb))

theorem mul_mono_right (h : a.mul b = .ok c) (ha : zero ≤ a) (hb : b ≤ b') :
    UnlessOverflow (c ≤ ·) (a.mul b') :=
  (mul_unless a b').mono fun _ hd =>
    (fits_mul h).mono hd (mul_le_mul_of_nonneg_left (le_iff_toRat.1 hb) (zero_le_iff.1 ha))

theorem zero_le_mul (ha : zero ≤ a) (hb : zero ≤ b) : UnlessOverflow (zero ≤ ·) (a.mul b) :=
  (mul_unless a b).mono fun _ hd => hd.nonneg (mul_nonneg (zero_le_iff.1 ha) (zero_le_iff.1 hb))

theorem div_hundred_mono (h : a.div hundred = .ok c) (ha : a ≤ a') :
    ∃ d, a'.div hundred = .ok d ∧ c ≤ d := by
  obtain ⟨c', hc', hfits⟩ := exists_div_hundred_eq_ok a
  obtain ⟨d, hd, hfits'⟩ := exists_div_hundred_eq_ok a'
  cases h.symm.trans hc'
  exact ⟨d, hd, hfits.mono hfits' (div_le_div_of_nonneg_right (le_iff_toRat.1 ha) (by norm_num))⟩

theorem exists_div_hundred_nonneg (ha : zero ≤ a) : ∃ q, a.div hundred = .ok q ∧ zero ≤ q := by
  obtain ⟨q, hq, hfits⟩ := exists_div_hundred_eq_ok a
  exact ⟨q, hq, hfits.nonneg (div_nonneg (zero_le_iff.1 ha) (by norm_num))⟩

theorem zero_le_div (ha : zero ≤ a) (hb : zero < b) (h : a.div b = .ok c) : zero ≤ c := by
  have hb' : 0 < b.toRat := toRat_zero ▸ lt_iff_toRat.1 hb
  obtain ⟨n, s, -, hc⟩ := div_rounds (zero_le_iff.1 ha) hb' h
  rw [zero_le_iff, hc]
  positivity

/-- Of decimals that are not negative, more have a greater sum. -/
theorem sum_mono {ds es : List Decimal} (h : ds.Sublist es) (hes : ∀ e ∈ es, zero ≤ e)
    (hsum : sum ds = .ok a) : UnlessOverflow (a ≤ ·) (sum es) := by
  have heq : List.SublistForall₂ (· = ·) ds es :=
    List.sublistForall₂_iff.2 ⟨ds, List.forall₂_same.2 fun _ _ => rfl, h⟩
  refine UnlessOverflow.foldlM (R := (· ≤ ·)) heq hes ?_ le_add le_rfl hsum
  rintro s t d _ s' hst rfl - hs
  exact add_mono hs hst le_rfl

end FieldWages.Decimal
