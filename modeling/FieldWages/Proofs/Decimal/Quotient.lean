import FieldWages.Decimal.Quotient
import FieldWages.Proofs.Decimal.Value

/-!
# The digits of a quotient

A long division never changes the number it finds the digits of, quotient and
remainder taken together (`Division.value`). What it ends with is that number
itself, or the multiple of the last place nearest to it, with as many places as
there can be (`Rounds`). So a quotient compares to a number of few places as the
exact one does, unless the two are closer than half a unit of that last place.

* `Decimal.Division.value_extend`: further digits keep the value;
* `Decimal.Division.rounds_of_run?`: what a division ends with;
* `Decimal.div_rounds`: what a quotient of decimals is;
* `Decimal.Rounds.le_iff`, `Decimal.Rounds.floor_eq`: quotients, thresholds and ties.
-/

namespace FieldWages

namespace Decimal

/-- Whether `n / 10 ^ s` stands for `x`: it is `x`, or the nearest number with `s`
    places, where one place more would not fit. -/
structure Rounds (x : ℚ) (n s : Nat) : Prop where
  scale_le : s ≤ maxScale
  digits_le : n ≤ maxMantissa
  near : |n - x * 10 ^ s| ≤ 1 / 2
  full : n = x * 10 ^ s ∨ s = maxScale ∨ maxMantissa < 10 * n + 10

namespace Division

variable {d x : Nat} {v w : Division}

/-! ## Further digits -/

/-- The number a division by `d` finds the digits of. -/
def value (v : Division) (d : Nat) : ℚ := (v.quotient + v.remainder / d) / 10 ^ v.scale

/-- Whether quotient and scale of a division are in range, and the remainder is one. -/
structure InRange (v : Division) (d : Nat) : Prop where
  quotient_le : v.quotient ≤ maxMantissa
  scale_le : v.scale ≤ maxScale
  remainder_lt : v.remainder < d

theorem value_mul_pow (v : Division) (d : Nat) :
    v.value d * 10 ^ v.scale = v.quotient + v.remainder / d :=
  div_mul_cancel₀ _ (zpow_ne_zero _ (by norm_num))

/-- A division begins with the value of its fraction. -/
theorem value_start {a b : Nat} (hb : 0 < b) (s : ℤ) :
    Division.value ⟨a / b, s, a % b⟩ b = a / b / 10 ^ s := by
  have hb' : (b : ℚ) ≠ 0 := by positivity
  have hdiv : (a : ℚ) = b * (a / b : ℕ) + (a % b : ℕ) := by
    exact_mod_cast (Nat.div_add_mod a b).symm
  rw [value]
  congr 1
  field_simp
  rw [hdiv, mul_comm (b : ℚ)]

theorem value_extend (v : Division) (hd : 0 < d) (x : Nat) :
    (v.extend d x).value d = v.value d := by
  have hx : (tenPow x : ℚ) ≠ 0 := Nat.cast_ne_zero.2 (tenPow_pos x).ne'
  -- The remainder, shifted by the digits, is divided with a remainder again.
  have hdiv : (v.remainder * tenPow x : ℚ) =
      d * (v.remainder * tenPow x / d : ℕ) + (v.remainder * tenPow x % d : ℕ) := by
    exact_mod_cast (Nat.div_add_mod (v.remainder * tenPow x) d).symm
  have hsum : ((v.quotient * tenPow x + v.remainder * tenPow x / d : ℕ) +
      (v.remainder * tenPow x % d : ℕ) / d : ℚ) = (v.quotient + v.remainder / d) * tenPow x := by
    have hd' : (d : ℚ) ≠ 0 := by positivity
    rw [Nat.cast_add, Nat.cast_mul]
    field_simp
    linarith
  have hpow : (10 : ℚ) ^ (v.scale + x) = 10 ^ v.scale * tenPow x := by
    rw [zpow_add₀ (by norm_num), zpow_natCast, cast_tenPow]
  simp only [value, extend]
  rw [hsum, hpow, mul_div_mul_right _ _ hx]

/-- Room is for digits that fit, nine at most. -/
theorem room_fits (h : 0 < v.room) :
    v.room ≤ 9 ∧ v.scale + v.room ≤ maxScale ∧ v.quotient * tenPow v.room ≤ maxMantissa := by
  unfold room at *
  cases hf : (List.range' 1 9).reverse.find? fun (x : Nat) =>
      v.scale + x ≤ maxScale ∧ v.quotient * tenPow x ≤ maxMantissa with
  | none => rw [hf] at h; cases h
  | some x =>
    have hx := List.mem_reverse.1 (List.mem_of_find?_eq_some hf)
    have hfits := List.find?_some hf
    rw [List.mem_range'_1] at hx
    rw [decide_eq_true_iff] at hfits
    exact ⟨Nat.le_of_lt_succ hx.2, hfits⟩

/-- There is no room only where not one digit more fits. -/
theorem full_of_room_eq_zero (h : v.room = 0) :
    maxScale ≤ v.scale ∨ maxMantissa < v.quotient * 10 := by
  rw [room] at h
  cases hf : (List.range' 1 9).reverse.find? fun (x : Nat) =>
      v.scale + x ≤ maxScale ∧ v.quotient * tenPow x ≤ maxMantissa with
  | none =>
    have hone := List.find?_eq_none.1 hf 1 (by decide)
    rw [decide_eq_true_iff, not_and_or, not_le, not_le] at hone
    exact hone.imp (fun h => by omega) id
  | some x =>
    have hx := List.mem_reverse.1 (List.mem_of_find?_eq_some hf)
    rw [List.mem_range'_1] at hx
    rw [hf, Option.getD_some] at h
    omega

/-! ## The last digit -/

/-- A quotient just out of range is shortened to the nearest one with a place less. -/
theorem shorten?_spec (hr : v.remainder < d) (hgt : maxMantissa < v.quotient)
    (hle : v.quotient ≤ maxMantissa + tenPow 9) (h : v.shorten? = some w) :
    0 < v.scale ∧ w.scale = v.scale - 1 ∧ w.quotient ≤ maxMantissa ∧
      maxMantissa < 10 * w.quotient + 10 ∧
      |w.quotient - (v.quotient + v.remainder / d : ℚ) / 10| ≤ 1 / 2 := by
  have hd : (0 : ℚ) < d := by exact_mod_cast Nat.zero_lt_of_lt hr
  have hr₀ : (0 : ℚ) ≤ v.remainder / d := by positivity
  have hr₁ : (v.remainder / d : ℚ) < 1 := (div_lt_one hd).2 (by exact_mod_cast hr)
  have hq : (v.quotient : ℚ) = 10 * (v.quotient / 10 : ℕ) + (v.quotient % 10 : ℕ) := by
    exact_mod_cast (Nat.div_add_mod v.quotient 10).symm
  have hdigit : v.quotient % 10 < 10 := Nat.mod_lt _ (by decide)
  have hmax : maxMantissa = 79228162514264337593543950335 := rfl
  have hten : tenPow 9 = 1000000000 := rfl
  rw [shorten?, if_neg (by omega)] at h
  split at h
  · cases h
  next hscale =>
  cases h
  refine ⟨by omega, rfl, ?_, ?_, ?_⟩
  · simp only
    split <;> omega
  · simp only
    split <;> omega
  · simp only
    split
    · next hup =>
      have hfive : (5 : ℚ) ≤ (v.quotient % 10 : ℕ) := by
        exact_mod_cast (by omega : 5 ≤ v.quotient % 10)
      have hnine : ((v.quotient % 10 : ℕ) : ℚ) ≤ 9 := by
        exact_mod_cast (by omega : v.quotient % 10 ≤ 9)
      rw [abs_le, Nat.cast_add, Nat.cast_one]
      constructor <;> linarith
    · next hup =>
      -- With the digit five, the quotient is kept only if nothing remains.
      rw [abs_le]
      by_cases hfive : v.quotient % 10 = 5
      · have hzero : v.remainder = 0 := by
          by_contra hne
          exact hup (.inr ⟨hfive, .inl hne⟩)
        rw [hzero, Nat.cast_zero, zero_div, hq, hfive]
        constructor <;> push_cast <;> linarith
      · have hfour : ((v.quotient % 10 : ℕ) : ℚ) ≤ 4 := by
          exact_mod_cast (by omega : v.quotient % 10 ≤ 4)
        have hzero : (0 : ℚ) ≤ (v.quotient % 10 : ℕ) := Nat.cast_nonneg _
        constructor <;> linarith

/-- The last digit is rounded by the remainder, and dropped if it overflows. -/
theorem settle?_spec (hv : v.InRange d) (h : v.settle? d = some w) :
    (w.scale = v.scale ∧ w.quotient ≤ maxMantissa ∧ v.quotient ≤ w.quotient ∧
      |w.quotient - (v.quotient + v.remainder / d : ℚ)| ≤ 1 / 2) ∨
    (0 < v.scale ∧ w.scale = v.scale - 1 ∧ w.quotient ≤ maxMantissa ∧
      maxMantissa < 10 * w.quotient + 10 ∧
      |w.quotient - (v.quotient + v.remainder / d : ℚ) / 10| ≤ 1 / 2) := by
  have hd : (0 : ℚ) < d := by exact_mod_cast Nat.zero_lt_of_lt hv.remainder_lt
  have hr₀ : (0 : ℚ) ≤ v.remainder / d := by positivity
  have hr₁ : (v.remainder / d : ℚ) < 1 := (div_lt_one hd).2 (by exact_mod_cast hv.remainder_lt)
  rw [settle?] at h
  by_cases hup : d < 2 * v.remainder ∨ (2 * v.remainder = d ∧ v.quotient % 2 = 1)
  · have hhalf : (1 / 2 : ℚ) ≤ v.remainder / d := by
      rw [div_le_div_iff₀ (by norm_num) hd]
      exact_mod_cast (by omega : 1 * d ≤ v.remainder * 2)
    simp only [if_pos hup] at h
    by_cases hle : v.quotient + 1 ≤ maxMantissa
    · rw [shorten?, if_pos hle] at h
      cases h
      refine .inl ⟨rfl, hle, Nat.le_succ _, ?_⟩
      rw [abs_le, Nat.cast_add, Nat.cast_one]
      constructor <;> linarith
    · -- The quotient was all nines in binary; one more has six for its last digit.
      have hmax : v.quotient = maxMantissa := by
        have := hv.quotient_le
        omega
      rw [shorten?, if_neg hle] at h
      split at h
      · cases h
      next hscale =>
      rw [hmax] at h
      have hw := Option.some.inj h
      have hq : w.quotient = (maxMantissa + 1) / 10 + 1 := by
        rw [← hw]
        exact if_pos (Or.inl (by norm_num))
      have hs : w.scale = v.scale - 1 := by rw [← hw]
      refine .inr ⟨not_le.1 hscale, hs, by rw [hq]; decide, by rw [hq]; decide, ?_⟩
      rw [abs_le, hq, hmax]
      constructor <;> push_cast <;> linarith
  · have hhalf : (v.remainder / d : ℚ) ≤ 1 / 2 := by
      rw [div_le_div_iff₀ hd (by norm_num)]
      exact_mod_cast (by omega : v.remainder * 2 ≤ 1 * d)
    simp only [if_neg hup] at h
    rw [shorten?, if_pos hv.quotient_le] at h
    cases h
    refine .inl ⟨rfl, hv.quotient_le, le_rfl, ?_⟩
    rw [abs_le]
    constructor <;> linarith

/-! ## The end of a division -/

theorem InRange.extend (hv : v.InRange d) {x : Nat} (hs : v.scale + x ≤ maxScale)
    (hq : (v.extend d x).quotient ≤ maxMantissa) : (v.extend d x).InRange d :=
  ⟨hq, hs, Nat.mod_lt _ (Nat.zero_lt_of_lt hv.remainder_lt)⟩

/-- Digits found at a scale that is not negative. -/
theorem rounds_toNat {y : ℚ} {n : Nat} {s : ℤ} (h₀ : 0 ≤ s) (hs : s ≤ maxScale)
    (hn : n ≤ maxMantissa) (near : |n - y * 10 ^ s| ≤ 1 / 2)
    (full : n = y * 10 ^ s ∨ s = maxScale ∨ maxMantissa < 10 * n + 10) :
    Rounds y n s.toNat := by
  obtain ⟨k, rfl⟩ := Int.eq_ofNat_of_zero_le h₀
  rw [zpow_natCast] at near full
  exact ⟨Int.ofNat_le.1 hs, hn, near, full.imp_right (Or.imp_left Int.ofNat.inj)⟩

theorem rounds_of_settle? (hv : v.InRange d) (h₀ : 0 ≤ v.scale)
    (hfull : maxScale ≤ v.scale ∨ maxMantissa < v.quotient * 10) (h : v.settle? d = some w) :
    0 ≤ w.scale ∧ Rounds (v.value d) w.quotient w.scale.toNat := by
  rcases settle?_spec hv h with ⟨hs, hq, hle, hnear⟩ | ⟨hpos, hs, hq, hgt, hnear⟩
  · rw [hs]
    rw [← value_mul_pow] at hnear
    refine ⟨h₀, rounds_toNat h₀ hv.scale_le hq hnear (.inr ?_)⟩
    exact hfull.imp (le_antisymm hv.scale_le) fun h => by omega
  · have hle := hv.scale_le
    rw [← value_mul_pow, mul_div_assoc, div_eq_mul_inv, ← zpow_sub_one₀ (by norm_num),
      ← hs] at hnear
    exact ⟨by omega, rounds_toNat (by omega) (by omega) hq hnear (.inr (.inr hgt))⟩

/-- How a division that ends can begin: it is over, or it goes on with further
    digits, or it ends by rounding. -/
theorem run?_cases {fuel : Nat} {fraction fraction' : Bool} (hs : v.scale ≤ maxScale)
    (h : run? d (fuel + 1) v fraction = some (w, fraction')) :
    (v.remainder = 0 ∧ 0 ≤ v.scale ∧ v = w) ∨
    (∃ (x : Nat) (f : Bool), v.scale + x ≤ maxScale ∧ (v.extend d x).quotient ≤ maxMantissa ∧
      run? d fuel (v.extend d x) f = some (w, fraction')) ∨
    (v.room = 0 ∧ 0 ≤ v.scale ∧ v.settle? d = some w) ∨
    (0 < v.room ∧ maxMantissa < (v.extend d v.room).quotient ∧
      (v.extend d v.room).shorten? = some w) := by
  rw [run?] at h
  by_cases hzero : v.remainder = 0
  · rw [if_pos hzero] at h
    by_cases h₀ : 0 ≤ v.scale
    · rw [if_pos h₀] at h
      cases h
      exact .inl ⟨hzero, h₀, rfl⟩
    · rw [if_neg h₀] at h
      by_cases hq : (v.extend d (min 9 (-v.scale).toNat)).quotient ≤ maxMantissa
      · exact .inr (.inl ⟨_, fraction, by omega, hq, (if_pos hq).symm.trans h⟩)
      · cases (if_neg hq).symm.trans h
  · rw [if_neg hzero] at h
    by_cases hfar : v.room < 9 ∧ v.scale + v.room < 0
    · cases (if_pos hfar).symm.trans h
    replace h := (if_neg hfar).symm.trans h
    by_cases hx : v.room = 0
    · obtain ⟨u, hu, huw⟩ := Option.map_eq_some_iff.1 ((if_pos hx).symm.trans h)
      cases huw
      exact .inr (.inr (.inl ⟨hx, by omega, hu⟩))
    · replace h := (if_neg hx).symm.trans h
      by_cases hq : (v.extend d v.room).quotient ≤ maxMantissa
      · have hroom := room_fits (Nat.pos_of_ne_zero hx)
        exact .inr (.inl ⟨_, true, hroom.2.1, hq, (if_pos hq).symm.trans h⟩)
      · obtain ⟨u, hu, huw⟩ := Option.map_eq_some_iff.1 ((if_neg hq).symm.trans h)
        cases huw
        exact .inr (.inr (.inr ⟨Nat.pos_of_ne_zero hx, not_le.1 hq, hu⟩))

/-- Nine digits more than fit exceed the range by less than those digits. -/
theorem extend_le (hv : v.InRange d) (hx : 0 < v.room) :
    (v.extend d v.room).quotient ≤ maxMantissa + tenPow 9 := by
  obtain ⟨hnine, -, hfits⟩ := room_fits hx
  have hlt : v.remainder * tenPow v.room / d < tenPow v.room :=
    (Nat.div_lt_iff_lt_mul (Nat.zero_lt_of_lt hv.remainder_lt)).2 (by
      rw [Nat.mul_comm]
      exact Nat.mul_lt_mul_of_pos_left hv.remainder_lt (tenPow_pos _))
  have hpow : tenPow v.room ≤ tenPow 9 := Nat.pow_le_pow_right (by decide) hnine
  simp only [extend]
  omega

/-- A division that ends has found the digits of its value. -/
theorem rounds_of_run? {fuel : Nat} {fraction fraction' : Bool} (hv : v.InRange d)
    (h : run? d fuel v fraction = some (w, fraction')) :
    0 ≤ w.scale ∧ Rounds (v.value d) w.quotient w.scale.toNat := by
  induction fuel generalizing v fraction with
  | zero => cases h
  | succ fuel ih =>
    have hd : 0 < d := Nat.zero_lt_of_lt hv.remainder_lt
    rcases run?_cases hv.scale_le h with
      ⟨hzero, h₀, rfl⟩ | ⟨x, f, hs, hq, h⟩ | ⟨hx, h₀, h⟩ | ⟨hx, hgt, h⟩
    · -- It is over, and nothing remains: the quotient is the value.
      have hexact : (v.quotient : ℚ) = v.value d * 10 ^ v.scale := by
        rw [value_mul_pow, hzero, Nat.cast_zero, zero_div, add_zero]
      refine ⟨h₀, rounds_toNat h₀ hv.scale_le hv.quotient_le ?_ (.inl hexact)⟩
      rw [← hexact, sub_self, abs_zero]
      norm_num
    · -- It goes on, and further digits keep the value.
      rw [← value_extend v hd x]
      exact ih (hv.extend hs hq) h
    · exact rounds_of_settle? hv h₀ (full_of_room_eq_zero hx) h
    · -- The further digits are one too many, and the last is rounded away.
      obtain ⟨hpos, hs, hq, hgt, hnear⟩ :=
        shorten?_spec (Nat.mod_lt _ hd) hgt (extend_le hv hx) h
      have hle : (v.extend d v.room).scale ≤ maxScale := (room_fits hx).2.1
      rw [← value_mul_pow, value_extend v hd, mul_div_assoc, div_eq_mul_inv,
        ← zpow_sub_one₀ (by norm_num), ← hs] at hnear
      exact ⟨by omega, rounds_toNat (by omega) (by omega) hq hnear (.inr (.inr hgt))⟩

/-- A last digit can be rounded if the value is in range. -/
theorem exists_settle?_eq_some (hv : v.InRange d) (h₀ : 0 ≤ v.scale)
    (hx : v.value d ≤ maxMantissa) : ∃ w, v.settle? d = some w := by
  rw [settle?, shorten?]
  by_cases hup : d < 2 * v.remainder ∨ (2 * v.remainder = d ∧ v.quotient % 2 = 1)
  · simp only [if_pos hup]
    by_cases hle : v.quotient + 1 ≤ maxMantissa
    · exact ⟨_, if_pos hle⟩
    have hs : ¬v.scale ≤ 0 := by
      -- Without places, the quotient is the value rounded up, beyond the range.
      intro hs
      have hvalue := value_mul_pow v d
      rw [le_antisymm hs h₀, zpow_zero, mul_one] at hvalue
      have hmax : (maxMantissa : ℚ) ≤ v.quotient := by
        exact_mod_cast Nat.lt_succ_iff.1 (not_le.1 hle)
      have hlt := hv.remainder_lt
      have hpos : (0 : ℚ) < v.remainder / d :=
        div_pos (by exact_mod_cast (by omega : 0 < v.remainder))
          (by exact_mod_cast Nat.zero_lt_of_lt hlt)
      linarith
    exact ⟨_, (if_neg hle).trans (if_neg hs)⟩
  · simp only [if_neg hup]
    exact ⟨_, if_pos hv.quotient_le⟩

/-- A division ends if the point is not out of reach and the value is in range: no
    more digits are found than there are places. -/
theorem exists_run?_eq_some (fuel : Nat) (fraction : Bool) (hv : v.InRange d) (h₀ : 0 ≤ v.scale)
    (hx : v.value d ≤ maxMantissa) (hfuel : (maxScale : ℤ) - v.scale < fuel) :
    ∃ w, run? d fuel v fraction = some w := by
  -- Every step but the last adds a place, and there are no more than the scale has.
  induction fuel generalizing v fraction with
  | zero =>
    have := hv.scale_le
    omega
  | succ fuel ih =>
    have hd : 0 < d := Nat.zero_lt_of_lt hv.remainder_lt
    rw [run?]
    by_cases hzero : v.remainder = 0
    · rw [if_pos hzero, if_pos h₀]
      exact ⟨_, rfl⟩
    rw [if_neg hzero]
    have hnear : ¬(v.room < 9 ∧ v.scale + v.room < 0) := by omega
    simp only [if_neg hnear]
    by_cases hroom : v.room = 0
    · obtain ⟨w, hw⟩ := exists_settle?_eq_some hv h₀ hx
      rw [if_pos hroom, hw]
      exact ⟨_, rfl⟩
    rw [if_neg hroom]
    obtain ⟨-, hs, -⟩ := room_fits (Nat.pos_of_ne_zero hroom)
    by_cases hq : (v.extend d v.room).quotient ≤ maxMantissa
    · rw [if_pos hq]
      refine ih true (hv.extend hs hq) ?_ ?_ ?_
      · simp only [extend]
        omega
      · rw [value_extend v hd]
        exact hx
      · simp only [extend]
        omega
    · have hpos : ¬(v.extend d v.room).scale ≤ 0 := by
        simp only [extend]
        omega
      rw [if_neg hq, shorten?, if_neg hq, if_neg hpos]
      exact ⟨_, rfl⟩

end Division

/-! ## Trailing zeros -/

/-- Whether `q` writes the number of `p` with no more digits and places. -/
def Shortens (p q : Nat × Nat) : Prop :=
  q.1 ≤ p.1 ∧ q.2 ≤ p.2 ∧ (q.1 : ℚ) / 10 ^ q.2 = p.1 / 10 ^ p.2

theorem Shortens.trans {p q r : Nat × Nat} (hpq : Shortens p q) (hqr : Shortens q r) :
    Shortens p r := by
  obtain ⟨h₁, h₂, h₃⟩ := hpq
  obtain ⟨h₄, h₅, h₆⟩ := hqr
  exact ⟨h₄.trans h₁, h₅.trans h₂, h₆.trans h₃⟩

theorem shortens_dropZeros (k m : Nat) (p : Nat × Nat) : Shortens p (dropZeros k m p) := by
  rw [dropZeros]
  split
  · next h =>
    obtain ⟨hk, -, hdiv⟩ := h
    refine ⟨Nat.div_le_self _ _, Nat.sub_le _ _, ?_⟩
    rw [Nat.cast_div (Nat.dvd_of_mod_eq_zero hdiv) (Nat.cast_ne_zero.2 (tenPow_pos k).ne'),
      cast_tenPow, div_div, ← pow_add, Nat.add_sub_cancel' hk]
  · exact ⟨le_rfl, le_rfl, rfl⟩

theorem shortens_shortenFraction (p : Nat × Nat) : Shortens p (shortenFraction p) := by
  rw [shortenFraction]
  refine Shortens.trans ?_ (shortens_dropZeros 1 1 _)
  refine Shortens.trans ?_ (shortens_dropZeros 2 1 _)
  refine Shortens.trans ?_ (shortens_dropZeros 4 1 _)
  refine Shortens.trans ?_ (shortens_dropZeros 8 shortMantissa _)
  exact (shortens_dropZeros 8 shortMantissa _).trans (shortens_dropZeros 8 shortMantissa _)

/-! ## Quotients -/

/-- The digits of a quotient, with its trailing zeros or without them. -/
theorem quotientDigits?_spec {a b : Nat} {s : ℤ} {p : Nat × Nat} (ha : a ≤ maxMantissa)
    (hb : 0 < b) (hs : s ≤ maxScale) (h : quotientDigits? a b s = some p) :
    p.1 ≤ maxMantissa ∧ p.2 ≤ maxScale ∧
      ∃ n t, Rounds (a / b / 10 ^ s) n t ∧ (p.1 : ℚ) / 10 ^ p.2 = n / 10 ^ t := by
  obtain ⟨⟨w, fraction⟩, hw, h⟩ := Option.bind_eq_some_iff.1 h
  have hstart : Division.InRange ⟨a / b, s, a % b⟩ b :=
    ⟨(Nat.div_le_self a b).trans ha, hs, Nat.mod_lt a hb⟩
  obtain ⟨-, hrounds⟩ := Division.rounds_of_run? hstart hw
  rw [Division.value_start hb] at hrounds
  have hshort : Shortens (w.quotient, w.scale.toNat) p := by
    cases h
    split
    · exact shortens_shortenFraction _
    · exact ⟨le_rfl, le_rfl, rfl⟩
  obtain ⟨h₁, h₂, h₃⟩ := hshort
  exact ⟨h₁.trans hrounds.digits_le, h₂.trans hrounds.scale_le, _, _, hrounds, h₃⟩

theorem exists_quotientDigits?_eq_some {a b s : Nat} (ha : a ≤ maxMantissa) (hb : 0 < b)
    (hs : s ≤ maxScale) : ∃ p, quotientDigits? a b s = some p := by
  have hstart : Division.InRange ⟨a / b, s, a % b⟩ b :=
    ⟨(Nat.div_le_self a b).trans ha, Int.ofNat_le.2 hs, Nat.mod_lt a hb⟩
  have hvalue : Division.value ⟨a / b, s, a % b⟩ b ≤ maxMantissa := by
    rw [Division.value_start hb, zpow_natCast]
    calc (a / b / 10 ^ s : ℚ) ≤ a := by
          refine (div_le_self (by positivity) (one_le_pow₀ (by norm_num))).trans ?_
          exact div_le_self (Nat.cast_nonneg a) (by exact_mod_cast hb)
      _ ≤ maxMantissa := by exact_mod_cast ha
  obtain ⟨w, hw⟩ := Division.exists_run?_eq_some 58 false hstart (Int.natCast_nonneg s) hvalue
    (by simp only [maxScale]; omega)
  exact ⟨_, Option.bind_eq_some_iff.2 ⟨w, hw, rfl⟩⟩

theorem toRat_div_toRat (a b : Decimal) :
    a.toRat / b.toRat = (a.mantissa / b.mantissa : ℚ) / 10 ^ ((a.scale : ℤ) - b.scale) := by
  rw [toRat_eq, toRat_eq, zpow_sub₀ (by norm_num), zpow_natCast, zpow_natCast, div_div_div_eq,
    div_div_div_eq, mul_comm (b.mantissa : ℚ)]

/-- The quotient of positive decimals has the digits found, if there are any. -/
theorem div_of_pos {a b : Decimal} (ha : 0 < a.mantissa) (hb : 0 < b.mantissa) {p : Nat × Nat}
    (h : quotientDigits? a.mantissa.natAbs b.mantissa.natAbs ((a.scale : ℤ) - b.scale) = some p) :
    ∃ q n t, a.div b = .ok q ∧ Rounds (a.toRat / b.toRat) n t ∧ q.toRat = n / 10 ^ t := by
  have hscale := a.scale_le
  obtain ⟨h₁, h₂, n, t, hrounds, hp⟩ :=
    quotientDigits?_spec a.mantissa_le (Int.natAbs_pos.2 hb.ne') (by omega) h
  have hsign : (a.mantissa * b.mantissa).sign = 1 := Int.sign_eq_one_of_pos (Int.mul_pos ha hb)
  have hdigits : (p.1 : ℤ).natAbs ≤ maxMantissa ∧ p.2 ≤ maxScale := ⟨h₁, h₂⟩
  rw [← Int.cast_natCast a.mantissa.natAbs, ← Int.cast_natCast b.mantissa.natAbs,
    Int.natAbs_of_nonneg ha.le, Int.natAbs_of_nonneg hb.le, ← toRat_div_toRat] at hrounds
  refine ⟨{ mantissa := p.1, scale := p.2, mantissa_le := h₁, scale_le := h₂ }, n, t, ?_,
    hrounds, ?_⟩
  · rw [div, if_neg hb.ne', if_neg ha.ne', h]
    simp only [hsign, one_mul, ofParts?, dif_pos hdigits]
  · rw [toRat_eq, ← hp]
    rfl

/-- A quotient stands for the exact one. -/
theorem div_rounds {a b q : Decimal} (ha : 0 ≤ a.toRat) (hb : 0 < b.toRat)
    (h : a.div b = .ok q) : ∃ n t, Rounds (a.toRat / b.toRat) n t ∧ q.toRat = n / 10 ^ t := by
  rw [toRat_nonneg_iff] at ha
  have hb' := toRat_pos_iff.1 hb
  rcases ha.eq_or_lt with hzero | hpos
  · have hq : zero = q := by
      rw [div, if_neg hb'.ne', if_pos hzero.symm] at h
      exact Except.ok.inj h
    refine ⟨0, 0, ⟨by decide, by decide, ?_, .inl ?_⟩, ?_⟩
    · simp [toRat_eq a, ← hzero]
    · simp [toRat_eq a, ← hzero]
    · simp [← hq]
  · cases hdigits : quotientDigits? a.mantissa.natAbs b.mantissa.natAbs
        ((a.scale : ℤ) - b.scale) with
    | none =>
      rw [div, if_neg hb'.ne', if_neg hpos.ne', hdigits] at h
      cases h
    | some p =>
      obtain ⟨q', n, t, hq', hrounds, hn⟩ := div_of_pos hpos hb' hdigits
      cases hq'.symm.trans h
      exact ⟨n, t, hrounds, hn⟩

/-- A dividend with as many places as the divisor has a quotient. -/
theorem exists_div_eq_ok {a b : Decimal} (ha : 0 ≤ a.toRat) (hb : 0 < b.toRat)
    (hs : b.scale ≤ a.scale) : ∃ q, a.div b = .ok q := by
  rw [toRat_nonneg_iff] at ha
  rw [toRat_pos_iff] at hb
  rcases ha.eq_or_lt with hzero | hpos
  · exact ⟨zero, by rw [div, if_neg hb.ne', if_pos hzero.symm]⟩
  · have hscale := a.scale_le
    obtain ⟨p, hp⟩ := exists_quotientDigits?_eq_some (s := a.scale - b.scale) a.mantissa_le
      (Int.natAbs_pos.2 hb.ne') (by omega)
    rw [Nat.cast_sub hs] at hp
    obtain ⟨q, _, _, hq, -, -⟩ := div_of_pos hpos hb hp
    exact ⟨q, hq⟩

/-! ## Thresholds -/

namespace Rounds

variable {c m n s : Nat}

theorem near_mul (h : Rounds (c / m) n s) (hm : 0 < m) :
    2 * (n * m) ≤ 2 * (c * 10 ^ s) + m ∧ 2 * (c * 10 ^ s) ≤ 2 * (n * m) + m := by
  have hm' : (0 : ℚ) < m := by exact_mod_cast hm
  obtain ⟨h₁, h₂⟩ := abs_le.1 h.near
  have hx : (c / m * 10 ^ s : ℚ) * m = c * 10 ^ s := by field_simp
  constructor
  · have : (2 * (n * m) : ℚ) ≤ 2 * (c * 10 ^ s) + m := by nlinarith
    exact_mod_cast this
  · have : (2 * (c * 10 ^ s) : ℚ) ≤ 2 * (n * m) + m := by nlinarith
    exact_mod_cast this

/-- A quotient of integers is on the same side of `k / l` as the number that stands
    for it, if that is the quotient itself, or has enough places to be `k / l` and to
    be told from it. -/
theorem le_iff (h : Rounds (c / m) n s) (hm : 0 < m) {l : Nat} (hl : 0 < l)
    (hgap : (n : ℚ) = c / m * 10 ^ s ∨ (l ∣ 10 ^ s ∧ l * m < 2 * 10 ^ s)) (k : Nat) :
    k * 10 ^ s ≤ l * n ↔ k * m ≤ l * c := by
  rcases hgap with hexact | ⟨⟨e, he⟩, hgap⟩
  · have hm' : (m : ℚ) ≠ 0 := by positivity
    have hnm : n * m = c * 10 ^ s := by
      have : (n * m : ℚ) = c * 10 ^ s := by rw [hexact]; field_simp
      exact_mod_cast this
    have hpow : 0 < 10 ^ s := by positivity
    calc k * 10 ^ s ≤ l * n ↔ k * 10 ^ s * m ≤ l * n * m := (Nat.mul_le_mul_right_iff hm).symm
      _ ↔ k * m * 10 ^ s ≤ l * c * 10 ^ s := by
        rw [mul_assoc l, hnm, mul_right_comm, mul_assoc l]
      _ ↔ k * m ≤ l * c := Nat.mul_le_mul_right_iff hpow
  · obtain ⟨hle, hge⟩ := h.near_mul hm
    rw [he] at hgap hle hge ⊢
    have hkn : k * (l * e) ≤ l * n ↔ k * e ≤ n := by
      rw [mul_left_comm, Nat.mul_le_mul_left_iff hl]
    rw [hkn]
    constructor
    · intro hk
      -- Were the quotient below `k / l`, it would be so by more than it is rounded.
      by_contra hlt
      have h₁ : (l * c + 1) * e ≤ k * m * e := Nat.mul_le_mul_right e (not_le.1 hlt)
      have h₂ : k * e * m ≤ n * m := Nat.mul_le_mul_right m hk
      have h₃ : l * m < l * (2 * e) := by linarith
      have h₄ : m < 2 * e := lt_of_mul_lt_mul_left h₃ (Nat.zero_le l)
      nlinarith
    · intro hk
      have h₁ : k * m * e ≤ l * c * e := Nat.mul_le_mul_right e hk
      have h₂ : 2 * (k * e) * m ≤ (2 * n + 1) * m := by nlinarith
      have h₃ := Nat.le_of_mul_le_mul_right h₂ hm
      omega

/-- The digits of a quotient of integers that are not too great tell it from every multiple
    of half a unit of a place. -/
theorem gap (places : Nat) (h : Rounds (c / m) n s) (hm : 0 < m)
    (hc : 10 ^ places * c ≤ 10 ^ 27) (hm' : 10 ^ places * m ≤ 10 ^ 27) :
    (n : ℚ) = c / m * 10 ^ s ∨
      (2 * 10 ^ places ∣ 10 ^ s ∧ 2 * 10 ^ places * m < 2 * 10 ^ s) := by
  refine h.full.imp_right fun hfull => ?_
  have hbig : 10 ^ places * m < 10 ^ s := by
    rcases hfull with rfl | hn
    · exact hm'.trans_lt (by decide)
    · -- The quotient has all its digits, and it is no greater than the dividend.
      have hmax : maxMantissa = 79228162514264337593543950335 := rfl
      have h₁ : 2 * (n * (10 ^ places * m)) ≤
          2 * (10 ^ places * c * 10 ^ s) + 10 ^ places * m := by
        linarith [Nat.mul_le_mul_left (10 ^ places) (h.near_mul hm).1]
      have h₂ : 10 ^ places * c * 10 ^ s ≤ 10 ^ 27 * 10 ^ s := Nat.mul_le_mul_right _ hc
      have h₃ : 7922816251426433759354395033 * (10 ^ places * m) ≤ n * (10 ^ places * m) :=
        Nat.mul_le_mul_right _ (by omega)
      have hpow : 0 < 10 ^ s := by positivity
      linarith
  have hlt : places < s := by
    have hle : 10 ^ places ≤ 10 ^ places * m := Nat.le_mul_of_pos_right _ hm
    exact (Nat.pow_lt_pow_iff_right (by decide)).1 (hle.trans_lt hbig)
  refine ⟨Dvd.dvd.trans ?_ (pow_dvd_pow 10 hlt), by rw [mul_assoc]; omega⟩
  rw [pow_succ, mul_comm]
  exact Nat.mul_dvd_mul_left _ (by decide)

/-- When a quotient of integers, in units of a place, is rounded up beyond `k`. -/
theorem le_half_up_iff (places a : Nat) {b : Nat} (hb : 0 < b) (k : Nat) :
    ((k + 1 : ℤ) : ℚ) ≤ a / b * 10 ^ places + 1 / 2 ↔
      (2 * k + 1) * b ≤ 2 * 10 ^ places * a := by
  have hb' : (0 : ℚ) < b := by exact_mod_cast hb
  rw [← sub_le_iff_le_add, div_mul_eq_mul_div, le_div_iff₀ hb', ← Nat.cast_le (α := ℚ)]
  push_cast
  constructor <;> intro h <;> linarith

/-- What stands for a quotient of integers rounds to so many places as the quotient does: no
    tie is crossed. -/
theorem floor_eq (places : Nat) (h : Rounds (c / m) n s) (hm : 0 < m)
    (hc : 10 ^ places * c ≤ 10 ^ 27) (hm' : 10 ^ places * m ≤ 10 ^ 27) :
    ⌊(n / 10 ^ s * 10 ^ places + 1 / 2 : ℚ)⌋ = ⌊(c / m * 10 ^ places + 1 / 2 : ℚ)⌋ := by
  -- Two integers are equal if they are above the same integers; below one, all are.
  refine eq_of_forall_le_iff fun k => ?_
  rw [Int.le_floor, Int.le_floor]
  rcases le_or_gt k 0 with hk | hk
  · have hk' : (k : ℚ) ≤ 0 := by exact_mod_cast hk
    have h₁ : (0 : ℚ) ≤ n / 10 ^ s * 10 ^ places + 1 / 2 := by positivity
    have h₂ : (0 : ℚ) ≤ c / m * 10 ^ places + 1 / 2 := by positivity
    exact iff_of_true (hk'.trans h₁) (hk'.trans h₂)
  · obtain ⟨j, rfl⟩ : ∃ j : Nat, k = j + 1 := ⟨(k - 1).toNat, by omega⟩
    have hleft := le_half_up_iff places n (by positivity : 0 < 10 ^ s) j
    rw [Nat.cast_pow, Nat.cast_ofNat] at hleft
    rw [hleft, le_half_up_iff places c hm j]
    exact h.le_iff hm (by positivity) (h.gap places hm hc hm') (2 * j + 1)

end Rounds

/-! ## Signs -/

theorem neg_ofParts? (m : ℤ) (s : Nat) : ofParts? (-m) s = (ofParts? m s).map neg := by
  by_cases h : m.natAbs ≤ maxMantissa ∧ s ≤ maxScale
  · have hneg : (-m).natAbs ≤ maxMantissa ∧ s ≤ maxScale := by rwa [Int.natAbs_neg]
    rw [ofParts?, dif_pos hneg, ofParts?, dif_pos h]
    rfl
  · have hneg : ¬((-m).natAbs ≤ maxMantissa ∧ s ≤ maxScale) := by rwa [Int.natAbs_neg]
    rw [ofParts?, dif_neg hneg, ofParts?, dif_neg h]
    rfl

/-- The quotient of the opposite number is opposite. -/
protected theorem neg_div (a b : Decimal) : a.neg.div b = (a.div b).map neg := by
  have hmantissa : a.neg.mantissa = -a.mantissa := rfl
  by_cases hb : b.mantissa = 0
  · rw [div, if_pos hb, div, if_pos hb]
    rfl
  by_cases ha : a.mantissa = 0
  · rw [div, if_neg hb, if_pos (by rw [hmantissa, ha, neg_zero]), div, if_neg hb, if_pos ha]
    rfl
  rw [div, if_neg hb, if_neg (by rwa [hmantissa, neg_eq_zero]), div, if_neg hb, if_neg ha,
    hmantissa, Int.natAbs_neg, neg_mul, Int.sign_neg, show a.neg.scale = a.scale from rfl]
  cases quotientDigits? a.mantissa.natAbs b.mantissa.natAbs ((a.scale : ℤ) - b.scale) with
  | none => rfl
  | some p =>
    simp only [neg_mul, neg_ofParts?]
    cases ofParts? ((a.mantissa * b.mantissa).sign * p.1) p.2 <;> rfl

end Decimal

end FieldWages
