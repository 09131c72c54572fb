import FieldWages.Decimal.Basic

/-!
# Rounding

A quotient of integers is rounded to the nearest integer, a tie going to the
even neighbour (`halfEven`) or away from zero (`halfAway`). Both stay within
half a unit of the quotient; they differ on ties only. A decimal is rounded to
fewer places by dividing its mantissa (`Decimal.round`).

* `halfEven_near`, `halfAway_near`: the result is within half a unit;
* `natAbs_halfAway_le`: rounding away digits does not enlarge a mantissa.
-/

namespace FieldWages

/-- The integer nearest to `n / d`, the even one of two that are equally near. -/
def halfEven (n : Int) (d : Nat) : Int :=
  let q := n / d
  let r := n % d
  if 2 * r < d then q
  else if 2 * r > d then q + 1
  else if q % 2 = 0 then q else q + 1

/-- The integer nearest to `n / d`, the one farther from zero of two that are
    equally near. -/
def halfAway (n : Int) (d : Nat) : Int :=
  if 0 ≤ n then (2 * n + d) / (2 * d) else -((2 * -n + d) / (2 * d))

theorem halfEven_near (n : Int) {d : Nat} (hd : 0 < d) :
    2 * (halfEven n d * d) ≤ 2 * n + d ∧ 2 * n ≤ 2 * (halfEven n d * d) + d := by
  have hpos : (0 : Int) < d := by omega
  have h0 := Int.emod_nonneg n (Int.ne_of_gt hpos)
  have h1 := Int.emod_lt_of_pos n hpos
  have h2 := Int.emod_add_mul_ediv n d
  have hs : (n / d + 1) * (d : Int) = d * (n / d) + d := by
    rw [Int.add_mul, Int.one_mul, Int.mul_comm]
  have hc : n / d * (d : Int) = d * (n / d) := Int.mul_comm _ _
  simp only [halfEven]
  split
  · rw [hc]; omega
  split
  · rw [hs]; omega
  split
  · rw [hc]; omega
  · rw [hs]; omega

theorem halfAway_near (n : Int) {d : Nat} (hd : 0 < d) :
    2 * (halfAway n d * d) ≤ 2 * n + d ∧ 2 * n ≤ 2 * (halfAway n d * d) + d := by
  have key : ∀ m : Int, 2 * ((2 * m + d) / (2 * d) * d) ≤ 2 * m + d ∧
      2 * m < 2 * ((2 * m + d) / (2 * d) * d) + d := by
    intro m
    have hpos : (0 : Int) < 2 * d := by omega
    have h0 := Int.emod_nonneg (2 * m + d) (Int.ne_of_gt hpos)
    have h1 := Int.emod_lt_of_pos (2 * m + d) hpos
    have h2 := Int.emod_add_mul_ediv (2 * m + d) (2 * d)
    have hc : 2 * ((2 * m + d) / (2 * d) * (d : Int)) = 2 * d * ((2 * m + d) / (2 * d)) := by
      rw [Int.mul_comm _ (d : Int), Int.mul_assoc]
    rw [hc]
    omega
  simp only [halfAway]
  split
  · have := key n; omega
  · have := key (-n)
    rw [Int.neg_mul]
    omega

/-- Dividing by at least two and rounding does not enlarge an integer. -/
theorem natAbs_halfAway_le (n : Int) {d : Nat} (hd : 1 < d) :
    (halfAway n d).natAbs ≤ n.natAbs := by
  have key : ∀ m : Int, 0 ≤ m → 0 ≤ (2 * m + d) / (2 * d) ∧ (2 * m + d) / (2 * d) ≤ m := by
    intro m hm
    have hpos : (0 : Int) < 2 * d := by omega
    refine ⟨Int.ediv_nonneg (by omega) (by omega), ?_⟩
    have hlt : (2 * m + d) / (2 * d) < m + 1 := by
      rw [Int.ediv_lt_iff_lt_mul hpos]
      have h4 : 2 * m ≤ m * d := by
        rw [Int.mul_comm 2 m]
        exact Int.mul_le_mul_of_nonneg_left (by omega) hm
      have hm' : 0 ≤ m * d := Int.mul_nonneg hm (by omega)
      have he : (m + 1) * (2 * (d : Int)) = 2 * (m * d) + 2 * d := by
        rw [Int.add_mul, Int.one_mul, ← Int.mul_assoc, Int.mul_comm m 2, Int.mul_assoc]
      rw [he]
      omega
    omega
  simp only [halfAway]
  split
  · rename_i h
    have := key n h
    omega
  · rename_i h
    have := key (-n) (by omega)
    rw [Int.natAbs_neg]
    omega

/-- Dividing by at least two and rounding does not enlarge an integer. -/
theorem natAbs_halfEven_le (n : Int) {d : Nat} (hd : 1 < d) :
    (halfEven n d).natAbs ≤ n.natAbs := by
  have hpos : (0 : Int) < d := by omega
  have h0 := Int.emod_nonneg n (Int.ne_of_gt hpos)
  have h1 := Int.emod_lt_of_pos n hpos
  have h2 := Int.emod_add_mul_ediv n d
  -- The quotient lies between zero and `n`, so only its upper neighbour needs care.
  have h3 : 0 ≤ n → 2 * (n / d) ≤ d * (n / d) ∧ 0 ≤ n / d := fun hn => by
    have := Int.ediv_nonneg hn (Int.le_of_lt hpos)
    exact ⟨Int.mul_le_mul_of_nonneg_right (by omega) this, this⟩
  have h4 : n < 0 → n ≤ n / d ∧ n / d < 0 := fun hn => by
    refine ⟨(Int.le_ediv_iff_mul_le hpos).2 ?_, Int.ediv_neg_of_neg_of_pos hn hpos⟩
    have := Int.mul_le_mul_of_nonpos_left (a := n) (b := d) (c := 1) (by omega) (by omega)
    omega
  simp only [halfEven]
  by_cases hn : 0 ≤ n
  · obtain ⟨h5, h6⟩ := h3 hn
    split
    · omega
    split
    · omega
    split <;> omega
  · obtain ⟨h5, h6⟩ := h4 (by omega)
    split
    · omega
    split
    · omega
    split <;> omega

namespace Decimal

/-- Which neighbour a tie goes to. -/
inductive Tie where
  | toEven
  | awayFromZero
deriving DecidableEq, Repr

/-- The integer nearest to `n / d`. -/
def Tie.divide (tie : Tie) (n : Int) (d : Nat) : Int :=
  match tie with
  | .toEven => halfEven n d
  | .awayFromZero => halfAway n d

theorem Tie.natAbs_divide_le (tie : Tie) (n : Int) {d : Nat} (hd : 1 < d) :
    (tie.divide n d).natAbs ≤ n.natAbs := by
  cases tie
  · exact natAbs_halfEven_le n hd
  · exact natAbs_halfAway_le n hd

@[simp]
theorem Tie.divide_zero (tie : Tie) (d : Nat) : tie.divide 0 d = 0 := by
  cases tie
  · simp [Tie.divide, halfEven]
  · rcases Nat.eq_zero_or_pos d with rfl | hd
    · simp [Tie.divide, halfAway]
    · have : ((2 * 0 + d) / (2 * d) : Int) = 0 := Int.ediv_eq_zero_of_lt (by omega) (by omega)
      simpa [Tie.divide, halfAway] using this

/-- The nearest decimal of the given number of places; one that has no more
    places than that is kept as it is. -/
def round (tie : Tie) (places : Nat) (d : Decimal) : Decimal :=
  if h : d.scale ≤ places then d
  else
    { mantissa := tie.divide d.mantissa (tenPow (d.scale - places))
      scale := places
      negativeZero := d.negativeZero
      mantissa_le :=
        Nat.le_trans (tie.natAbs_divide_le _ (one_lt_tenPow (by omega))) d.mantissa_le
      scale_le := by have := d.scale_le; omega
      mantissa_eq_zero := fun h => by rw [d.mantissa_eq_zero h, Tie.divide_zero] }

/-- Rounded to the hundredth: every amount that is paid and every count of hours. -/
def toHundredths (d : Decimal) : Decimal := d.round .awayFromZero 2

/-- Rounded to the ten-thousandth: every rate of pay. -/
def toTenThousandths (d : Decimal) : Decimal := d.round .awayFromZero 4

/-- Strips trailing zeros, at most `s` of them, off an integer; the second part
    is how many places are left. -/
def stripZeros (m : Int) : Nat → Int × Nat
  | 0 => (m, 0)
  | s + 1 => if m % 10 = 0 then stripZeros (m / 10) s else (m, s + 1)

theorem natAbs_stripZeros_le (m : Int) (s : Nat) : (stripZeros m s).1.natAbs ≤ m.natAbs := by
  induction s generalizing m with
  | zero => exact Nat.le_refl _
  | succ s ih =>
    simp only [stripZeros]
    split
    · have := ih (m / 10)
      omega
    · exact Nat.le_refl _

theorem stripZeros_scale_le (m : Int) (s : Nat) : (stripZeros m s).2 ≤ s := by
  induction s generalizing m with
  | zero => exact Nat.le_refl _
  | succ s ih =>
    simp only [stripZeros]
    split
    · exact Nat.le_succ_of_le (ih _)
    · exact Nat.le_refl _

/-- The same number with no more places than it needs, and a zero without sign. -/
def normalize (d : Decimal) : Decimal where
  mantissa := (stripZeros d.mantissa d.scale).1
  scale := (stripZeros d.mantissa d.scale).2
  mantissa_le := Nat.le_trans (natAbs_stripZeros_le _ _) d.mantissa_le
  scale_le := Nat.le_trans (stripZeros_scale_le _ _) d.scale_le

end Decimal

end FieldWages
