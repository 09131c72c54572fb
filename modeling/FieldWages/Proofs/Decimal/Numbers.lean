import FieldWages.Decimal.Text
import FieldWages.Proofs.Alike
import FieldWages.Proofs.Decimal.Quotient
import FieldWages.Proofs.Decimal.Sum

/-!
# Decimals of one number

Two decimals are *equivalent*, `a ≈ b`, if they stand for one number: they may differ
in the zeros behind their last digit, and in the sign of a zero. Sums, products,
roundings and plain texts do not tell equivalent decimals apart, as none of them
sees whether a zero is written behind a number (`eq_of_zeros`). Nor does a quotient
by one hundred: it is the dividend with its point moved, fitted if it has too many
places (`div_hundred`).
-/

namespace FieldWages

namespace Decimal

/-- Decimals of one number. -/
instance : Setoid Decimal where
  r a b := a.toRat = b.toRat
  iseqv := ⟨fun _ => rfl, Eq.symm, Eq.trans⟩

variable {a a' b b' : Decimal}

theorem equiv_iff : a ≈ b ↔ a.toRat = b.toRat := Iff.rfl

/-- What does not see a zero written behind a number depends on the number alone. -/
theorem eq_of_zeros {γ : Type} (g : ℤ → ℕ → γ) (hg : ∀ m s, g (m * 10) (s + 1) = g m s)
    {m m' : ℤ} {s s' : ℕ} (h : (m : ℚ) / 10 ^ s = m' / 10 ^ s') : g m s = g m' s' := by
  have hzeros : ∀ k m s, g (m * 10 ^ k) (s + k) = g m s := by
    intro k
    induction k with
    | zero => intro m s; rw [pow_zero, mul_one, add_zero]
    | succ k ih => intro m s; rw [pow_succ, ← mul_assoc, ← add_assoc, hg, ih]
  -- The one with more places is the other one with zeros behind it.
  have hle : ∀ {m m' : ℤ} {s s' : ℕ}, s ≤ s' → (m : ℚ) / 10 ^ s = m' / 10 ^ s' →
      g m s = g m' s' := by
    intro m m' s s' hs h
    obtain ⟨k, rfl⟩ := Nat.exists_eq_add_of_le hs
    have hm : m' = m * 10 ^ k := by
      rw [div_eq_div_iff (by positivity) (by positivity), pow_add, ← mul_assoc,
        mul_right_comm] at h
      exact_mod_cast (mul_right_cancel₀ (by positivity) h).symm
    rw [hm, hzeros]
  rcases le_total s s' with hs | hs
  · exact hle hs h
  · exact (hle hs h.symm).symm

theorem eq_of_equiv {γ : Type} (g : ℤ → ℕ → γ) (hg : ∀ m s, g (m * 10) (s + 1) = g m s)
    (h : a ≈ b) : g a.mantissa a.scale = g b.mantissa b.scale := by
  rw [equiv_iff, toRat_eq, toRat_eq] at h
  exact eq_of_zeros g hg h

theorem mantissa_eq_zero_iff_of_equiv (h : a ≈ b) : a.mantissa = 0 ↔ b.mantissa = 0 := by
  have hzero : ∀ d : Decimal, d.mantissa = 0 ↔ d.toRat = 0 := fun d => by
    rw [toRat_eq, div_eq_zero_iff, Int.cast_eq_zero, or_iff_left (by positivity)]
  rw [hzero, hzero, equiv_iff.1 h]

/-! ## Order, minimum and maximum -/

theorem le_congr (ha : a ≈ a') (hb : b ≈ b') : a ≤ b ↔ a' ≤ b' := by
  rw [le_iff_toRat, le_iff_toRat, equiv_iff.1 ha, equiv_iff.1 hb]

theorem min_congr (ha : a ≈ a') (hb : b ≈ b') : a.min b ≈ a'.min b' := by
  rw [equiv_iff, toRat_min, toRat_min, equiv_iff.1 ha, equiv_iff.1 hb]

theorem max_congr (ha : a ≈ a') (hb : b ≈ b') : a.max b ≈ a'.max b' := by
  rw [equiv_iff, toRat_max, toRat_max, equiv_iff.1 ha, equiv_iff.1 hb]

/-! ## Rounding and fitting -/

/-- A zero behind both parts of a fraction does not show in its rounding. -/
theorem Tie.divide_mul_ten (tie : Tie) (m : ℤ) (d : ℕ) :
    tie.divide (m * 10) (d * 10) = tie.divide m d := by
  cases tie with
  | toEven =>
    have hdiv : m * 10 / ((d * 10 : ℕ) : ℤ) = m / d := by
      rw [Nat.cast_mul]
      exact Int.mul_ediv_mul_of_pos_left _ _ (by decide)
    have hmod : m * 10 % ((d * 10 : ℕ) : ℤ) = m % d * 10 := by
      rw [Nat.cast_mul, mul_comm m, mul_comm (d : ℤ), mul_comm (m % d)]
      exact Int.mul_emod_mul_of_pos _ _ (by decide)
    have hlt : 2 * (m % (d : ℤ) * 10) < ((d * 10 : ℕ) : ℤ) ↔ 2 * (m % (d : ℤ)) < d := by omega
    have hgt : 2 * (m % (d : ℤ) * 10) > ((d * 10 : ℕ) : ℤ) ↔ 2 * (m % (d : ℤ)) > d := by omega
    simp only [divide, halfEven, hdiv, hmod, hlt, hgt]
  | awayFromZero =>
    have hdiv : ∀ n : ℤ, (2 * (n * 10) + ((d * 10 : ℕ) : ℤ)) / (2 * ((d * 10 : ℕ) : ℤ)) =
        (2 * n + d) / (2 * d) := by
      intro n
      have hnum : 2 * (n * 10) + ((d * 10 : ℕ) : ℤ) = (2 * n + d) * 10 := by push_cast; ring
      have hden : 2 * ((d * 10 : ℕ) : ℤ) = 2 * d * 10 := by push_cast; ring
      rw [hnum, hden, Int.mul_ediv_mul_of_pos_left _ _ (by decide)]
    have hsign : (0 ≤ m * 10) ↔ 0 ≤ m := by omega
    simp only [divide, halfAway, hsign, ← neg_mul, hdiv]

theorem round_congr (tie : Tie) (places : ℕ) (h : a ≈ b) :
    a.round tie places ≈ b.round tie places := by
  have hround : ∀ d : Decimal, (d.round tie places).toRat =
      if d.scale ≤ places then (d.mantissa : ℚ) / 10 ^ d.scale
      else tie.divide d.mantissa (tenPow (d.scale - places)) / 10 ^ places := by
    intro d
    rw [round]
    split
    · exact toRat_eq d
    · exact toRat_eq _
  rw [equiv_iff, hround, hround]
  refine eq_of_equiv (fun m s => if s ≤ places then (m : ℚ) / 10 ^ s
    else tie.divide m (tenPow (s - places)) / 10 ^ places) (fun m s => ?_) h
  rcases lt_trichotomy s places with hlt | rfl | hgt
  · rw [if_pos (by omega), if_pos (by omega)]
    push_cast
    rw [pow_succ, mul_div_mul_right _ _ (by norm_num)]
  · have hten : tie.divide (m * 10) (tenPow 1) = m := tie.divide_mul m (tenPow_pos 1)
    rw [if_neg (by omega), if_pos le_rfl, Nat.add_sub_cancel_left, hten]
  · rw [if_neg (by omega), if_neg (by omega), Nat.sub_add_comm hgt.le, tenPow_succ,
      tie.divide_mul_ten]

theorem toHundredths_congr (h : a ≈ b) : a.toHundredths ≈ b.toHundredths :=
  round_congr .awayFromZero 2 h

theorem map_fit?_mul_ten (m : ℤ) (s : ℕ) :
    (fit? (m * 10) (s + 1)).map toRat = (fit? m s).map toRat := by
  have hstep : ∀ k, halfEven (m * 10) (tenPow (k + 1)) = halfEven m (tenPow k) := fun k => by
    rw [tenPow_succ]
    exact Tie.divide_mul_ten .toEven m (tenPow k)
  have hone : halfEven (m * 10) (tenPow 0) = m * 10 := by
    have h := Tie.divide_mul .toEven (m * 10) (tenPow_pos 0)
    rwa [tenPow_zero, Nat.cast_one, mul_one] at h
  -- With the first place given up, the zero is gone.
  have hrest : fit? (m * 10) (s + 1) = (ofParts? (m * 10) (s + 1)).or (fit? m s) := by
    rw [fit?, List.range_succ_eq_map, List.findSome?_cons, hone, Nat.sub_zero, List.findSome?_map]
    cases ofParts? (m * 10) (s + 1) with
    | some d => rfl
    | none =>
      simp only [Function.comp_def, Nat.succ_eq_add_one, hstep, Nat.add_sub_add_right, fit?,
        Option.none_or]
  rw [hrest]
  by_cases hfits : (m * 10).natAbs ≤ maxMantissa ∧ s + 1 ≤ maxScale
  · have hm : m.natAbs ≤ maxMantissa := by omega
    have hs : s ≤ maxScale := by omega
    rw [ofParts?, dif_pos hfits, Option.some_or, fit?_of_le hm hs, Option.map_some, Option.map_some,
      toRat_eq, toRat_eq]
    simp only
    push_cast
    rw [pow_succ, mul_div_mul_right _ _ (by norm_num)]
  · rw [ofParts?, dif_neg hfits, Option.none_or]

/-- What a number is fitted to depends on the number alone. -/
theorem fit_alike (f : Fault) {m m' : ℤ} {s s' : ℕ} (h : (m : ℚ) / 10 ^ s = m' / 10 ^ s') :
    Alike (· ≈ ·) (fit f m s) (fit f m' s') := by
  have hmap := eq_of_zeros (fun m s => (fit? m s).map toRat) map_fit?_mul_ten h
  rw [fit, fit]
  cases hd : fit? m s with
  | none =>
    rw [hd, Option.map_none, eq_comm, Option.map_eq_none_iff] at hmap
    rw [hmap]
    exact .error f
  | some d =>
    rw [hd, Option.map_some, eq_comm, Option.map_eq_some_iff] at hmap
    obtain ⟨d', hd', hnumber⟩ := hmap
    rw [hd']
    exact .ok hnumber.symm

/-! ## Sums and products -/

theorem addOr_alike (f : Fault) (ha : a ≈ a') (hb : b ≈ b') :
    Alike (· ≈ ·) (addOr f a b) (addOr f a' b') := by
  rw [addOr, addOr]
  by_cases ha₀ : a.mantissa = 0
  · rw [if_pos ha₀, if_pos ((mantissa_eq_zero_iff_of_equiv ha).1 ha₀)]
    exact .ok hb
  by_cases hb₀ : b.mantissa = 0
  · rw [if_neg ha₀, if_neg (mt (mantissa_eq_zero_iff_of_equiv ha).2 ha₀), if_pos hb₀,
      if_pos ((mantissa_eq_zero_iff_of_equiv hb).1 hb₀)]
    exact .ok ha
  rw [if_neg ha₀, if_neg (mt (mantissa_eq_zero_iff_of_equiv ha).2 ha₀), if_neg hb₀,
    if_neg (mt (mantissa_eq_zero_iff_of_equiv hb).2 hb₀)]
  have hsum : ∀ x y : Decimal, ((x.mantissa * tenPow (max x.scale y.scale - x.scale) +
      y.mantissa * tenPow (max x.scale y.scale - y.scale) : ℤ) : ℚ) / 10 ^ max x.scale y.scale =
      x.toRat + y.toRat := by
    intro x y
    rw [div_eq_iff (by positivity), add_mul, toRat_mul_pow_of_le (le_max_left _ _),
      toRat_mul_pow_of_le (le_max_right _ _)]
    push_cast
    rfl
  refine fit_alike f ?_
  rw [hsum, hsum, equiv_iff.1 ha, equiv_iff.1 hb]

theorem add_alike (ha : a ≈ a') (hb : b ≈ b') : Alike (· ≈ ·) (a.add b) (a'.add b') :=
  addOr_alike _ ha hb

@[simp]
theorem toRat_neg (d : Decimal) : d.neg.toRat = -d.toRat := by
  rw [toRat_eq, toRat_eq, neg, Int.cast_neg, neg_div]

theorem sub_alike (ha : a ≈ a') (hb : b ≈ b') : Alike (· ≈ ·) (a.sub b) (a'.sub b') := by
  refine addOr_alike _ ha ?_
  rw [equiv_iff, toRat_neg, toRat_neg, equiv_iff.1 hb]

/-- What is fitted is the number rounded to some place, which is in range. -/
theorem exists_of_fit?_eq_some {m : ℤ} {s : ℕ} {d : Decimal} (h : fit? m s = some d) :
    ∃ k ≤ s, s - k ≤ maxScale ∧ d.toRat = halfEven m (tenPow k) / 10 ^ (s - k) := by
  obtain ⟨k, hk, hd⟩ := List.exists_of_findSome?_eq_some h
  rw [ofParts?] at hd
  split at hd
  · next hfits =>
    cases hd
    exact ⟨k, Nat.lt_succ_iff.1 (List.mem_range.1 hk), hfits.2, toRat_eq _⟩
  · cases hd

/-- A number less than half a unit of its last possible place is fitted to zero. -/
theorem fit_eq_zero (f : Fault) {m : ℤ} {s : ℕ} (h : 2 * m.natAbs < tenPow (s - maxScale)) :
    ∃ d, fit f m s = .ok d ∧ d ≈ zero := by
  have hzero : ∀ k, s - maxScale ≤ k → halfEven m (tenPow k) = 0 := by
    intro k hk
    have hpow : tenPow (s - maxScale) ≤ tenPow k := Nat.pow_le_pow_right (by decide) hk
    obtain ⟨h₁, h₂⟩ := halfEven_near m (tenPow_pos k)
    generalize halfEven m (tenPow k) = q at h₁ h₂
    generalize tenPow k = d at *
    have hq₁ : q < 1 := by
      by_contra hq
      nlinarith [(by omega : (1 : ℤ) ≤ q), (by omega : (2 : ℤ) * m < d), Int.natCast_nonneg d]
    have hq₂ : -1 < q := by
      by_contra hq
      nlinarith [(by omega : q ≤ (-1 : ℤ)), (by omega : -(2 : ℤ) * m < d), Int.natCast_nonneg d]
    omega
  rw [fit]
  cases hd : fit? m s with
  | none =>
    have hnone := List.findSome?_eq_none_iff.1 hd (s - maxScale) (List.mem_range.2 (by omega))
    have hfits : (0 : ℤ).natAbs ≤ maxMantissa ∧ s - (s - maxScale) ≤ maxScale := by
      refine ⟨Nat.zero_le _, ?_⟩
      omega
    rw [hzero _ le_rfl, ofParts?, dif_pos hfits] at hnone
    cases hnone
  | some d =>
    obtain ⟨k, -, hk, hnumber⟩ := exists_of_fit?_eq_some hd
    refine ⟨d, rfl, ?_⟩
    rw [equiv_iff, hnumber, hzero k (by omega), toRat_zero, Int.cast_zero, zero_div]

/-- A product is the exact one, fitted. -/
theorem mul_alike_fit (a b : Decimal) : Alike (· ≈ ·) (a.mul b)
    (fit .multiplicationOverflow (a.mantissa * b.mantissa) (a.scale + b.scale)) := by
  rw [mul]
  by_cases hzero : a.mantissa = 0 ∨ b.mantissa = 0
  · obtain ⟨d, hd, hnumber⟩ := fit_eq_zero .multiplicationOverflow (m := a.mantissa * b.mantissa)
      (s := a.scale + b.scale) (by rw [mul_eq_zero.2 hzero]; exact tenPow_pos _)
    rw [hd]
    simp only [if_pos hzero]
    exact .ok (Setoid.symm hnumber)
  by_cases htiny : (a.isShort && b.isShort) = true ∧ 47 < a.scale + b.scale
  · -- Two short mantissas behind so many places are less than half a unit of the last one.
    have hlt : 2 * (a.mantissa * b.mantissa).natAbs < tenPow (a.scale + b.scale - maxScale) := by
      obtain ⟨hshort, hplaces⟩ := htiny
      rw [Bool.and_eq_true, isShort, isShort, decide_eq_true_iff, decide_eq_true_iff] at hshort
      have hpow : tenPow 20 ≤ tenPow (a.scale + b.scale - maxScale) :=
        Nat.pow_le_pow_right (by decide) (by simp only [maxScale]; omega)
      have hten : tenPow 20 = 100000000000000000000 := rfl
      rw [Int.natAbs_mul]
      have hmul := Nat.mul_le_mul (Nat.le_of_lt hshort.1) (Nat.le_of_lt hshort.2)
      simp only [shortMantissa] at hmul
      omega
    obtain ⟨d, hd, hnumber⟩ := fit_eq_zero .multiplicationOverflow hlt
    rw [hd]
    simp only [if_neg hzero, if_pos htiny]
    exact .ok (Setoid.symm hnumber)
  · simp only [if_neg hzero, if_neg htiny]
    cases fit .multiplicationOverflow (a.mantissa * b.mantissa) (a.scale + b.scale) with
    | ok d => exact .ok (toRat_withSign _ d)
    | error f => exact .error f

theorem mul_alike (ha : a ≈ a') (hb : b ≈ b') : Alike (· ≈ ·) (a.mul b) (a'.mul b') := by
  have hmul : ∀ x y : Decimal, ((x.mantissa * y.mantissa : ℤ) : ℚ) / 10 ^ (x.scale + y.scale) =
      x.toRat * y.toRat := fun x y => by
    rw [toRat_eq, toRat_eq, div_mul_div_comm, pow_add, Int.cast_mul]
  have hfit := fit_alike .multiplicationOverflow (((hmul a b).trans (congrArg₂ (· * ·) ha hb)).trans
    (hmul a' b').symm)
  have hleft := Alike.trans (R := (· ≈ ·)) Setoid.trans (mul_alike_fit a b) hfit
  exact hleft.trans (R := (· ≈ ·)) Setoid.trans ((mul_alike_fit a' b').symm Setoid.symm)

/-! ## Plain text -/

theorem stripZeros_mul_ten (m : ℤ) (s : ℕ) : stripZeros (m * 10) (s + 1) = stripZeros m s := by
  rw [stripZeros, if_pos (Int.mul_emod_left m 10), Int.mul_ediv_cancel m (by decide)]

/-- The plain text is that of the number. -/
theorem plainText_congr (h : a ≈ b) : a.plainText = b.plainText := by
  have hstrip := eq_of_equiv stripZeros stripZeros_mul_ten h
  have hnormalize : a.normalize = b.normalize := by simp only [normalize, hstrip]
  rw [plainText, plainText, hnormalize]

end Decimal

end FieldWages
