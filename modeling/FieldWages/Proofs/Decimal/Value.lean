import FieldWages.Decimal.Arithmetic
import FieldWages.Proofs.Run
import Mathlib.Algebra.Order.Field.Rat
import Mathlib.Tactic

/-!
# The numbers behind decimals

What the operations on decimals do to the numbers they stand for
(`Decimal.toRat`). Order, minimum and maximum are those of the numbers. Rounding
to a number of places moves a number by at most half a unit of the last place,
and not at all if it has no more places (`HasPlaces`), however many zeros
it is written with.

* `Decimal.le_iff_toRat`: comparing decimals is comparing numbers;
* `Decimal.abs_round_sub_le`, `Decimal.toRat_round`: what rounding does;
* `Decimal.toRat_round_awayFromZero`: the nearest number with so many places, which is half up
  for numbers that are not negative;
* `Decimal.fit?_of_dvd`: zeros can be taken off a number that is too long.
-/

namespace FieldWages

theorem cast_tenPow (n : Nat) : (tenPow n : ℚ) = 10 ^ n := by
  simp [tenPow]

/-- Whether a number has at most so many decimal places. -/
def HasPlaces (places : Nat) (x : ℚ) : Prop := ∃ n : ℤ, x = n / 10 ^ places

namespace HasPlaces

variable {places : Nat} {x y : ℚ}

theorem zero (places : Nat) : HasPlaces places 0 := ⟨0, by simp⟩

theorem add (hx : HasPlaces places x) (hy : HasPlaces places y) : HasPlaces places (x + y) := by
  obtain ⟨m, rfl⟩ := hx
  obtain ⟨n, rfl⟩ := hy
  exact ⟨m + n, by rw [Int.cast_add, add_div]⟩

theorem sub (hx : HasPlaces places x) (hy : HasPlaces places y) : HasPlaces places (x - y) := by
  obtain ⟨m, rfl⟩ := hx
  obtain ⟨n, rfl⟩ := hy
  exact ⟨m - n, by rw [Int.cast_sub, sub_div]⟩

theorem min (hx : HasPlaces places x) (hy : HasPlaces places y) :
    HasPlaces places (Min.min x y) := by
  rcases min_choice x y with h | h <;> rw [h] <;> assumption

end HasPlaces

namespace Decimal

theorem toRat_eq (d : Decimal) : d.toRat = d.mantissa / 10 ^ d.scale := by
  rw [toRat, cast_tenPow]

theorem toRat_mul_pow (d : Decimal) : d.toRat * 10 ^ d.scale = d.mantissa := by
  rw [toRat_eq]
  field_simp

/-! ## Order -/

theorem le_iff_toRat {a b : Decimal} : a ≤ b ↔ a.toRat ≤ b.toRat := by
  rw [le_iff, toRat_eq, toRat_eq, div_le_div_iff₀ (by positivity) (by positivity), ← cast_tenPow,
    ← cast_tenPow]
  norm_cast

theorem lt_iff_toRat {a b : Decimal} : a < b ↔ a.toRat < b.toRat := by
  rw [lt_iff, toRat_eq, toRat_eq, div_lt_div_iff₀ (by positivity) (by positivity), ← cast_tenPow,
    ← cast_tenPow]
  norm_cast

theorem toRat_nonneg_iff {d : Decimal} : 0 ≤ d.toRat ↔ 0 ≤ d.mantissa := by
  rw [toRat_eq, le_div_iff₀ (by positivity), zero_mul, Int.cast_nonneg_iff]

theorem toRat_pos_iff {d : Decimal} : 0 < d.toRat ↔ 0 < d.mantissa := by
  rw [toRat_eq, div_pos_iff_of_pos_right (by positivity), Int.cast_pos]

@[simp]
theorem toRat_zero : zero.toRat = 0 := by
  simp [toRat_eq, zero]

@[simp]
theorem toRat_ofUInt64 (n : UInt64) : (ofUInt64 n).toRat = n.toNat := by
  simp [toRat_eq, ofUInt64]

@[simp]
theorem toRat_hundred : hundred.toRat = 100 := by
  simp [toRat_eq, hundred]

theorem toRat_min (a b : Decimal) : (a.min b).toRat = min a.toRat b.toRat := by
  rw [Decimal.min]
  split
  · next h => rw [min_eq_right (lt_iff_toRat.1 h).le]
  · next h => rw [min_eq_left (not_lt.1 (mt lt_iff_toRat.2 h))]

theorem toRat_max (a b : Decimal) : (a.max b).toRat = max a.toRat b.toRat := by
  rw [Decimal.max]
  split
  · next h => rw [max_eq_right (lt_iff_toRat.1 h).le]
  · next h => rw [max_eq_left (not_lt.1 (mt lt_iff_toRat.2 h))]

/-! ## Sums -/

theorem fit_eq_error {f g : Fault} {m : ℤ} {s : Nat} (h : fit f m s = .error g) : g = f := by
  rw [fit] at h
  split at h <;> cases h
  rfl

theorem add_eq_error {a b : Decimal} {f : Fault} (h : a.add b = .error f) :
    f = .additionOverflow := by
  rw [add, addOr] at h
  split at h
  · cases h
  split at h
  · cases h
  · exact fit_eq_error h

/-- Whether the sum of two decimals, if there is one, is that of their numbers: no
    digit is dropped. -/
def AddsExactly (a b : Decimal) : Prop := ∀ c, a.add b = .ok c → c.toRat = a.toRat + b.toRat

/-- Whether the difference of two decimals, if there is one, is that of their numbers. -/
def SubtractsExactly (a b : Decimal) : Prop := ∀ c, a.sub b = .ok c → c.toRat = a.toRat - b.toRat

/-- Whether the product of two decimals, if there is one, is that of their numbers. -/
def MultipliesExactly (a b : Decimal) : Prop := ∀ c, a.mul b = .ok c → c.toRat = a.toRat * b.toRat

instance (a b : Decimal) : Decidable (a.AddsExactly b) := inferInstanceAs (Decidable (∀ _, _ → _))

instance (a b : Decimal) : Decidable (a.SubtractsExactly b) :=
  inferInstanceAs (Decidable (∀ _, _ → _))

instance (a b : Decimal) : Decidable (a.MultipliesExactly b) :=
  inferInstanceAs (Decidable (∀ _, _ → _))

/-- A sum without a digit dropped is the sum of the numbers. -/
theorem toRat_sum {ds : List Decimal} {total : Decimal} (hexact : Along add AddsExactly zero ds)
    (h : sum ds = .ok total) : total.toRat = (ds.map toRat).sum := by
  have hsum := foldlM_eq_add_sum (μ := toRat) h hexact fun _ _ t hadds hstep => hadds t hstep
  rwa [toRat_zero, zero_add] at hsum

/-! ## Rounding -/

theorem hasPlaces_of_scale_le {places : Nat} {d : Decimal} (h : d.scale ≤ places) :
    HasPlaces places d.toRat := by
  refine ⟨d.mantissa * tenPow (places - d.scale), ?_⟩
  rw [toRat_eq, Int.cast_mul, Int.cast_natCast, cast_tenPow,
    div_eq_div_iff (by positivity) (by positivity), mul_assoc, ← pow_add, Nat.sub_add_cancel h]

theorem Tie.divide_near (tie : Tie) (n : ℤ) {d : Nat} (hd : 0 < d) :
    2 * (tie.divide n d * d) ≤ 2 * n + d ∧ 2 * n ≤ 2 * (tie.divide n d * d) + d := by
  cases tie with
  | toEven => exact halfEven_near n hd
  | awayFromZero => exact halfAway_near n hd

/-- A quotient that comes out even is not rounded. -/
theorem Tie.divide_mul (tie : Tie) (m : ℤ) {d : Nat} (hd : 0 < d) :
    tie.divide (m * d) d = m := by
  obtain ⟨h₁, h₂⟩ := tie.divide_near (m * d) hd
  have hpos : (0 : ℤ) < d := by omega
  generalize tie.divide (m * d) d = q at h₁ h₂
  have h₃ : 2 * q < 2 * m + 2 := by nlinarith
  have h₄ : 2 * m < 2 * q + 2 := by nlinarith
  omega

theorem Tie.abs_divide_sub_le (tie : Tie) (n : ℤ) {d : Nat} (hd : 0 < d) :
    |(tie.divide n d : ℚ) - n / d| ≤ 1 / 2 := by
  obtain ⟨h₁, h₂⟩ := tie.divide_near n hd
  have h₁' : (2 * (tie.divide n d * d) : ℚ) ≤ 2 * n + d := by exact_mod_cast h₁
  have h₂' : (2 * n : ℚ) ≤ 2 * (tie.divide n d * d) + d := by exact_mod_cast h₂
  have hpos : (0 : ℚ) < d := by exact_mod_cast hd
  rw [abs_le]
  constructor
  · rw [le_sub_iff_add_le, ← le_sub_iff_add_le', div_le_iff₀ hpos]
    linarith
  · rw [sub_le_iff_le_add, ← sub_le_iff_le_add', le_div_iff₀ hpos]
    linarith

theorem abs_round_sub_le (tie : Tie) (places : Nat) (d : Decimal) :
    |(d.round tie places).toRat - d.toRat| ≤ 1 / 2 / 10 ^ places := by
  rw [round]
  split
  · simp only [sub_self, abs_zero]
    positivity
  · next h =>
    have hd : d.toRat = d.mantissa / tenPow (d.scale - places) / 10 ^ places := by
      rw [toRat_eq, cast_tenPow, div_div, ← pow_add, Nat.sub_add_cancel (by omega)]
    rw [hd, toRat_eq, ← sub_div, abs_div, abs_of_pos (by positivity : (0 : ℚ) < 10 ^ places)]
    exact div_le_div_of_nonneg_right (tie.abs_divide_sub_le _ (tenPow_pos _)) (by positivity)

theorem scale_round_le (tie : Tie) (places : Nat) (d : Decimal) :
    (d.round tie places).scale ≤ places := by
  rw [round]
  split
  · assumption
  · exact le_rfl

/-- A number is kept by rounding to as many places as it has. -/
theorem toRat_round (tie : Tie) {places : Nat} {d : Decimal} (h : HasPlaces places d.toRat) :
    (d.round tie places).toRat = d.toRat := by
  obtain ⟨n, hn⟩ := h
  rw [round]
  split
  · rfl
  · next hs =>
    have hm : d.mantissa = n * tenPow (d.scale - places) := by
      rw [← Int.cast_inj (α := ℚ), ← toRat_mul_pow, hn, Int.cast_mul, Int.cast_natCast, cast_tenPow,
        div_mul_eq_mul_div, div_eq_iff (by positivity), mul_assoc, ← pow_add,
        Nat.sub_add_cancel (by omega)]
    rw [toRat_eq, hn]
    simp only [hm, Tie.divide_mul tie n (tenPow_pos _)]

theorem abs_toHundredths_sub_le (d : Decimal) : |d.toHundredths.toRat - d.toRat| ≤ 1 / 200 :=
  (abs_round_sub_le .awayFromZero 2 d).trans (by norm_num)

theorem toRat_toHundredths {d : Decimal} (h : HasPlaces 2 d.toRat) :
    d.toHundredths.toRat = d.toRat :=
  toRat_round .awayFromZero h

/-- A tie goes to the integer farther from zero. -/
theorem cast_halfAway (n : ℤ) {d : Nat} (hd : 0 < d) :
    halfAway n d = if 0 ≤ n then ⌊(n / d + 1 / 2 : ℚ)⌋ else -⌊(-n / d + 1 / 2 : ℚ)⌋ := by
  have hfloor : ∀ m : ℤ, (2 * m + d) / (2 * d) = ⌊(m / d + 1 / 2 : ℚ)⌋ := by
    intro m
    have hd' : (d : ℚ) ≠ 0 := by positivity
    have hsum : (m / d + 1 / 2 : ℚ) = ((2 * m + d : ℤ) : ℚ) / ((2 * d : ℕ) : ℚ) := by
      push_cast
      field_simp
    rw [hsum, Rat.floor_intCast_div_natCast]
    norm_num
  rw [halfAway, hfloor, hfloor]
  push_cast
  rfl

end Decimal

theorem floor_add_half (n : ℤ) : ⌊(n + 1 / 2 : ℚ)⌋ = n := by
  rw [Int.floor_intCast_add, Int.floor_eq_zero_iff.2 (by norm_num), add_zero]

/-- The hundredth nearest to a number, the one farther from zero of two that are equally
    near. -/
def nearestHundredth (x : ℚ) : ℚ :=
  if 0 ≤ x then ⌊x * 100 + 1 / 2⌋ / 100 else -(⌊-x * 100 + 1 / 2⌋ / 100)

/-- A number in hundredths is its own nearest hundredth. -/
theorem HasPlaces.nearestHundredth_eq {x : ℚ} (h : HasPlaces 2 x) : nearestHundredth x = x := by
  obtain ⟨n, rfl⟩ := h
  have hpow : (10 : ℚ) ^ 2 = 100 := by norm_num
  rw [nearestHundredth, hpow, neg_mul, div_mul_cancel₀ _ (by norm_num), floor_add_half,
    ← Int.cast_neg, floor_add_half]
  split_ifs
  · rfl
  · rw [Int.cast_neg, neg_div, neg_neg]

namespace Decimal

/-- To so many places means to the nearest number with them, which is half up for numbers
    that are not negative. -/
theorem toRat_round_awayFromZero (places : Nat) (d : Decimal) :
    (d.round .awayFromZero places).toRat =
      if 0 ≤ d.toRat then (⌊d.toRat * 10 ^ places + 1 / 2⌋ / 10 ^ places : ℚ)
      else -(⌊-d.toRat * 10 ^ places + 1 / 2⌋ / 10 ^ places : ℚ) := by
  rw [round]
  split
  · next hs =>
    -- Numbers with those places are their own nearest ones.
    obtain ⟨n, hn⟩ := hasPlaces_of_scale_le hs
    rw [hn, neg_mul, div_mul_cancel₀ _ (by positivity), floor_add_half, ← Int.cast_neg,
      floor_add_half, Int.cast_neg, neg_div, neg_neg, ite_self]
  · next hs =>
    have hscaled : d.toRat * 10 ^ places = d.mantissa / tenPow (d.scale - places) := by
      rw [toRat_eq, cast_tenPow, div_mul_eq_mul_div, div_eq_div_iff (by positivity)
        (by positivity), mul_assoc, ← pow_add, Nat.add_sub_cancel' (le_of_not_ge hs)]
    have hdivide := cast_halfAway d.mantissa (tenPow_pos (d.scale - places))
    rw [neg_mul, hscaled, toRat_eq]
    simp only [Tie.divide, hdivide, toRat_nonneg_iff]
    split_ifs
    · rfl
    · rw [Int.cast_neg, neg_div, neg_div]

/-- To the hundredth means to the nearest one. -/
theorem toRat_toHundredths_eq (d : Decimal) :
    d.toHundredths.toRat = nearestHundredth d.toRat := by
  rw [toHundredths, toRat_round_awayFromZero, nearestHundredth]
  norm_num

/-- To the hundredth means half up, for numbers that are not negative. -/
theorem toRat_toHundredths_eq_floor {d : Decimal} (h : 0 ≤ d.toRat) :
    d.toHundredths.toRat = ⌊d.toRat * 100 + 1 / 2⌋ / 100 := by
  rw [toRat_toHundredths_eq, nearestHundredth, if_pos h]

theorem scale_toHundredths_le (d : Decimal) : d.toHundredths.scale ≤ 2 :=
  d.scale_round_le .awayFromZero 2

/-! ## Products -/

@[simp]
theorem toRat_withSign (negative : Bool) (d : Decimal) : (d.withSign negative).toRat = d.toRat := by
  rw [withSign]
  split <;> rfl

/-- A number is kept by fitting it if that takes no digits but zeros. -/
theorem fit?_of_dvd {m : ℤ} {s k : Nat} (hk : k ≤ s) (hs : s - k ≤ maxScale)
    (hdvd : (tenPow k : ℤ) ∣ m) (hm : (halfEven m (tenPow k)).natAbs ≤ maxMantissa) :
    ∃ d, fit? m s = some d ∧ d.toRat = m / 10 ^ s := by
  have hfits : ofParts? (halfEven m (tenPow k)) (s - k) ≠ none := by
    rw [ofParts?, dif_pos ⟨hm, hs⟩]
    exact Option.some_ne_none _
  cases h : fit? m s with
  | none => exact absurd (List.findSome?_eq_none_iff.1 h k (List.mem_range.2 (by omega))) hfits
  | some d =>
    obtain ⟨before, j, after, hrange, hj, hbefore⟩ := List.findSome?_eq_some_iff.1 h
    refine ⟨d, rfl, ?_⟩
    -- The places given up are the first that fit, so no more than `k` of them.
    have hjk : j ≤ k := by
      have hmem : k ∈ before ++ j :: after := hrange ▸ List.mem_range.2 (by omega)
      have hsorted : (before ++ j :: after).Pairwise (· < ·) := hrange ▸ List.pairwise_lt_range
      rcases List.mem_append.1 hmem with hmem | hmem
      · exact absurd (hbefore k hmem) hfits
      rcases List.mem_cons.1 hmem with rfl | hmem
      · exact le_rfl
      · exact (List.rel_of_pairwise_cons (List.pairwise_append.1 hsorted).2.1 hmem).le
    obtain ⟨n, rfl⟩ : (tenPow j : ℤ) ∣ m :=
      (Int.natCast_dvd_natCast.2 (pow_dvd_pow 10 hjk)).trans hdvd
    have hdivide : halfEven (tenPow j * n) (tenPow j) = n := by
      rw [mul_comm]
      exact Tie.divide_mul .toEven n (tenPow_pos j)
    rw [hdivide] at hj
    rw [ofParts?] at hj
    split at hj <;> cases hj
    rw [toRat_eq, Int.cast_mul, Int.cast_natCast, cast_tenPow, div_eq_div_iff (by positivity)
      (by positivity)]
    simp only
    rw [mul_comm, mul_right_comm, ← pow_add, Nat.add_sub_cancel' (hjk.trans hk), mul_comm]

/-- A product with a whole number keeps all digits if there is room for them. -/
theorem exists_mul_ofUInt32_eq_ok {a : Decimal} {n : UInt32}
    (h : a.mantissa.natAbs * n.toNat ≤ maxMantissa) :
    ∃ product, a.mul (.ofUInt32 n) = .ok product ∧ product.toRat = a.toRat * n.toNat := by
  have hn : (ofUInt32 n).mantissa = n.toNat := rfl
  rw [mul, hn]
  simp only
  split
  · next hzero =>
    refine ⟨zero, rfl, ?_⟩
    rw [toRat_zero, toRat_eq]
    rcases hzero with hzero | hzero
    · rw [hzero, Int.cast_zero, zero_div, zero_mul]
    · rw [Int.natCast_eq_zero.1 hzero, Nat.cast_zero, mul_zero]
  split
  · next hplaces => exact absurd (hplaces.2.trans_le a.scale_le) (by decide)
  · have hm : (a.mantissa * n.toNat).natAbs ≤ maxMantissa := by
      rwa [Int.natAbs_mul, Int.natAbs_natCast]
    have hscale : a.scale + (ofUInt32 n).scale = a.scale := rfl
    rw [fit, hscale, fit?_of_le hm a.scale_le]
    refine ⟨_, rfl, ?_⟩
    rw [toRat_withSign, toRat_eq, toRat_eq, Int.cast_mul, Int.cast_natCast, div_mul_eq_mul_div]

/-- A number that is not too great can be given in percent. -/
theorem exists_mul_hundred_eq_ok {a : Decimal} (h : |a.toRat| ≤ 10 ^ 24) :
    ∃ p, a.mul hundred = .ok p ∧ p.toRat = a.toRat * 100 := by
  by_cases hzero : a.mantissa = 0
  · refine ⟨zero, if_pos (.inl hzero), ?_⟩
    rw [toRat_zero, toRat_eq, hzero, Int.cast_zero, zero_div, zero_mul]
  have hdivide : ∀ (n : ℤ) (k : Nat), halfEven (n * tenPow k) (tenPow k) = n :=
    fun n k => Tie.divide_mul .toEven n (tenPow_pos k)
  obtain ⟨k, hk, hdvd, hm⟩ : ∃ k ≤ a.scale, (tenPow k : ℤ) ∣ a.mantissa * 100 ∧
      (halfEven (a.mantissa * 100) (tenPow k)).natAbs ≤ maxMantissa := by
    by_cases hle : (a.mantissa * 100).natAbs ≤ maxMantissa
    · refine ⟨0, Nat.zero_le _, one_dvd _, ?_⟩
      have := hdivide (a.mantissa * 100) 0
      rw [tenPow_zero, Nat.cast_one, mul_one] at this
      rw [tenPow_zero, this]
      exact hle
    · -- With fewer than two places to give up, the number would be too great.
      have htwo : 2 ≤ a.scale := by
        by_contra hlt
        refine hle ?_
        have hpow : (10 : ℚ) ^ a.scale ≤ 10 ^ 1 := pow_le_pow_right₀ (by norm_num) (by omega)
        have hm : (a.mantissa.natAbs : ℚ) ≤ 10 ^ 24 * 10 ^ 1 := by
          rw [Nat.cast_natAbs, Int.cast_abs, ← toRat_mul_pow, abs_mul,
            abs_of_pos (by positivity : (0 : ℚ) < 10 ^ a.scale)]
          exact mul_le_mul h hpow (by positivity) (by positivity)
        have hm' : a.mantissa.natAbs ≤ 10 ^ 25 := by exact_mod_cast hm
        rw [Int.natAbs_mul]
        exact (Nat.mul_le_mul_right 100 hm').trans (by decide)
      refine ⟨2, htwo, dvd_mul_left _ _, ?_⟩
      have := hdivide a.mantissa 2
      exact le_of_eq_of_le (congrArg Int.natAbs this) a.mantissa_le
  obtain ⟨p, hp, hvalue⟩ := fit?_of_dvd hk ((Nat.sub_le _ _).trans a.scale_le) hdvd hm
  refine ⟨p.withSign (!(a.isShort && hundred.isShort) && a.mantissa * 100 < 0), ?_, ?_⟩
  · have hnonzero : ¬(a.mantissa = 0 ∨ hundred.mantissa = 0) := by
      rintro (h | h)
      · exact hzero h
      · cases h
    have hplaces : ¬((a.isShort && hundred.isShort) = true ∧ 47 < a.scale + hundred.scale) := by
      rintro ⟨-, h⟩
      exact absurd (h.trans_le a.scale_le) (by decide)
    have hfit : fit .multiplicationOverflow (a.mantissa * 100) a.scale = .ok p := by
      rw [fit, hp]
    rw [mul]
    simp only [if_neg hnonzero, if_neg hplaces]
    exact congrArg (Except.map _) hfit
  · rw [toRat_withSign, hvalue, toRat_eq, Int.cast_mul, div_mul_eq_mul_div]
    rfl

end Decimal

end FieldWages
