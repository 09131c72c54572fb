import FieldWages.Piecework
import FieldWages.Proofs.Decimal.Quotient
import FieldWages.Proofs.Run

/-!
# Counts in percent

A count in percent of a minimum is found by a division of as many digits as a
decimal has, and then rounded to the hundredth. Counts are words of 64 bits, so
the digits tell every quotient from the numbers at which the hundredth changes,
and the percentage is the exact one, rounded half up.

* `piecePercent_spec`: the percentage of every count;
* `fullScore_le_piecePercent_iff`: when it is a hundred or more;
* `piecePercent_mono`, `piecePercent_halfUp`: the percentages of more units and of greater
  minimums.
-/

namespace FieldWages

open Decimal

variable {c m : UInt64}

/-- A count in percent of a minimum is the exact percentage, half up to the hundredth. -/
theorem piecePercent_spec (c : UInt64) (hm : m ≠ 0) :
    ∃ q, piecePercent c m = .ok q ∧
      q.toRat = ⌊(10000 * c.toNat / m.toNat + 1 / 2 : ℚ)⌋ / 100 := by
  have hm' : 0 < m.toNat := Nat.pos_of_ne_zero fun h => hm (UInt64.toNat.inj h)
  have hc₀ : 0 ≤ (ofUInt64 c).toRat := by
    rw [toRat_ofUInt64]
    positivity
  have hm₀ : 0 < (ofUInt64 m).toRat := by
    rw [toRat_ofUInt64]
    exact_mod_cast hm'
  obtain ⟨ratio, hratio⟩ := exists_div_eq_ok hc₀ hm₀ (Nat.le_refl 0)
  obtain ⟨n, t, hrounds, hvalue⟩ := div_rounds hc₀ hm₀ hratio
  rw [toRat_ofUInt64, toRat_ofUInt64] at hrounds
  -- The ratio is no greater than the count, far from where a product overflows.
  have hsmall : |ratio.toRat| ≤ 10 ^ 24 := by
    have hle : (c.toNat / m.toNat : ℚ) ≤ 2 ^ 64 :=
      (div_le_self (by positivity) (by exact_mod_cast hm')).trans (by exact_mod_cast c.toNat_lt.le)
    have hone : (1 : ℚ) ≤ 10 ^ t := one_le_pow₀ (by norm_num)
    rw [hvalue, abs_of_nonneg (by positivity), div_le_iff₀ (by positivity)]
    have hnear := (abs_le.1 hrounds.near).2
    nlinarith
  obtain ⟨p, hp, hpvalue⟩ := exists_mul_hundred_eq_ok hsmall
  refine ⟨p.toHundredths, ?_, ?_⟩
  · rw [piecePercent, if_neg hm]
    exact bind_eq_ok.2 ⟨ratio, hratio, bind_eq_ok.2 ⟨p, hp, rfl⟩⟩
  · have hp₀ : 0 ≤ p.toRat := by
      rw [hpvalue, hvalue]
      positivity
    have hc := c.toNat_lt
    have hm := m.toNat_lt
    have hfloor := hrounds.floor_eq 4 hm' (by omega) (by omega)
    have hscaled : (n / 10 ^ t * 100 * 100 : ℚ) = n / 10 ^ t * 10 ^ 4 := by ring
    have hpercent : (10000 * c.toNat / m.toNat : ℚ) = c.toNat / m.toNat * 10 ^ 4 := by ring
    rw [toRat_toHundredths_eq_floor hp₀, hpvalue, hvalue, hscaled, hfloor, hpercent]

/-- A count is a hundred percent of a minimum, as the hundredth tells, if it lacks no
    more than a twenty-thousandth of it. -/
theorem fullScore_le_piecePercent_iff {q : Decimal} (hm : m ≠ 0)
    (h : piecePercent c m = .ok q) : fullScore ≤ q ↔ 19999 * m.toNat ≤ 20000 * c.toNat := by
  have hm' : 0 < m.toNat := Nat.pos_of_ne_zero fun h => hm (UInt64.toNat.inj h)
  obtain ⟨q', hq', hvalue⟩ := piecePercent_spec c hm
  cases h.symm.trans hq'
  have hpercent : (10000 * c.toNat / m.toNat : ℚ) = c.toNat / m.toNat * 10 ^ 4 := by ring
  have hfloor : ((9999 : ℕ) + 1 : ℤ) ≤ ⌊(10000 * c.toNat / m.toNat + 1 / 2 : ℚ)⌋ ↔
      19999 * m.toNat ≤ 20000 * c.toNat := by
    rw [Int.le_floor, hpercent]
    exact Rounds.le_half_up_iff 4 c.toNat hm' 9999
  rw [Decimal.le_iff_toRat, fullScore, toRat_hundred, hvalue, le_div_iff₀ (by norm_num), ← hfloor]
  constructor
  · intro h
    exact_mod_cast (by linarith : (10000 : ℚ) ≤ ⌊(10000 * c.toNat / m.toNat + 1 / 2 : ℚ)⌋)
  · intro h
    have : (10000 : ℚ) ≤ ⌊(10000 * c.toNat / m.toNat + 1 / 2 : ℚ)⌋ := by exact_mod_cast h
    linarith

theorem scale_piecePercent_le {q : Decimal} (h : piecePercent c m = .ok q) : q.scale ≤ 2 := by
  rw [piecePercent] at h
  split at h
  · cases h
    exact Nat.zero_le 2
  · obtain ⟨ratio, -, h⟩ := bind_eq_ok.1 h
    obtain ⟨percent, -, h⟩ := bind_eq_ok.1 h
    cases h
    exact percent.scale_toHundredths_le

/-- More units of a lesser minimum are no lesser percentage. -/
theorem piecePercent_mono {c' m' : UInt64} {q q' : Decimal} (hc : c ≤ c') (hm : m' ≤ m)
    (hm₀ : m' ≠ 0) (h : piecePercent c m = .ok q) (h' : piecePercent c' m' = .ok q') : q ≤ q' := by
  have hpos : 0 < m'.toNat := Nat.pos_of_ne_zero fun hzero => hm₀ (UInt64.toNat.inj hzero)
  have hm₁ : m ≠ 0 := by
    rintro rfl
    exact hpos.not_ge hm
  obtain ⟨r, hr, hvalue⟩ := piecePercent_spec c hm₁
  obtain ⟨r', hr', hvalue'⟩ := piecePercent_spec c' hm₀
  cases h.symm.trans hr
  cases h'.symm.trans hr'
  have hle : (10000 * c.toNat / m.toNat : ℚ) ≤ 10000 * c'.toNat / m'.toNat := by
    have hcount : (c.toNat : ℚ) ≤ c'.toNat := by exact_mod_cast hc
    have hminimum : (m'.toNat : ℚ) ≤ m.toNat := by exact_mod_cast hm
    have hpos' : (0 : ℚ) < m'.toNat := by exact_mod_cast hpos
    gcongr
  rw [Decimal.le_iff_toRat, hvalue, hvalue']
  gcongr

/-- A count in percent of a minimum is in range for all words, and it is the exact percentage,
    half up to the hundredth. More units make it no lesser, and a greater minimum no greater. -/
theorem piecePercent_halfUp (c : UInt64) (hm : m ≠ 0) :
    ∃ q, piecePercent c m = .ok q ∧ q.scale ≤ 2 ∧
      q.toRat = ⌊(100 * c.toNat / m.toNat * 100 + 1 / 2 : ℚ)⌋ / 100 ∧
      (∀ c' q', c ≤ c' → piecePercent c' m = .ok q' → q ≤ q') ∧
      ∀ m' q', m ≤ m' → piecePercent c m' = .ok q' → q' ≤ q := by
  obtain ⟨q, hq, hvalue⟩ := piecePercent_spec c hm
  refine ⟨q, hq, scale_piecePercent_le hq, ?_, fun c' q' hc hq' => ?_, fun m' q' hm' hq' => ?_⟩
  · rw [hvalue, mul_comm (100 * (c.toNat : ℚ) / m.toNat), ← mul_div_assoc, ← mul_assoc]
    norm_num
  · exact piecePercent_mono hc (UInt64.le_refl m) hm hq hq'
  · exact piecePercent_mono (UInt64.le_refl c) hm' hm hq' hq

/-- One unit of twenty thousand is half a hundredth of a percent, which is rounded up; the
    greatest count there is of a minimum of three is in range. -/
theorem piecePercent_halfUp_tie :
    (20000 : UInt64) ≠ 0 ∧ (3 : UInt64) ≠ 0 ∧
      (∃ q, piecePercent 1 20000 = .ok q ∧ q.toRat = 1 / 100) ∧
      ∃ q, piecePercent 18446744073709551615 3 = .ok q ∧ q.toRat = 614891469123651720500 := by
  have htie : (20000 : UInt64) ≠ 0 := by decide
  have hthree : (3 : UInt64) ≠ 0 := by decide
  obtain ⟨q, hq, -, hvalue, -⟩ := piecePercent_halfUp 1 htie
  obtain ⟨q', hq', -, hvalue', -⟩ := piecePercent_halfUp 18446744073709551615 hthree
  refine ⟨htie, hthree, ⟨q, hq, ?_⟩, q', hq', ?_⟩
  · rw [hvalue, show (1 : UInt64).toNat = 1 from rfl, show (20000 : UInt64).toNat = 20000 from rfl]
    norm_num
  · rw [hvalue', show (18446744073709551615 : UInt64).toNat = 18446744073709551615 from rfl,
      show (3 : UInt64).toNat = 3 from rfl]
    norm_num

end FieldWages
