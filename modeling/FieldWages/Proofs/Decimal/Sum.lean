import FieldWages.Proofs.Decimal.Value

/-!
# Sums of decimals

A sum of decimals with so many places has no more places. It is exact as long as
its digits are in range, and it is then so in whatever order the decimals come,
since the sizes of all of them bound every sum on the way (`along_adds`).

* `Decimal.exists_add_eq_ok`: two decimals whose sum is in range;
* `Decimal.exists_foldlM_add`: a sum each step of which is exact;
* `Decimal.along_adds`: a sum of decimals that are small enough.
-/

namespace FieldWages.Decimal

variable {a b c : Decimal} {places : Nat}

/-- Whether two decimals have a sum, and it is that of their numbers. -/
def Adds (a b : Decimal) : Prop := ∃ c, a.add b = .ok c ∧ c.toRat = a.toRat + b.toRat

instance (a b : Decimal) : Decidable (a.Adds b) :=
  match h : a.add b with
  | .ok c => decidable_of_iff (c.toRat = a.toRat + b.toRat)
      ⟨fun hc => ⟨c, h, hc⟩, fun ⟨_, hd, hc⟩ => by cases h.symm.trans hd; exact hc⟩
  | .error _ => isFalse fun ⟨_, hc, _⟩ => nomatch h.symm.trans hc

theorem scale_fit_le {f : Fault} {m : ℤ} {s : Nat} (h : fit f m s = .ok c) : c.scale ≤ s := by
  rw [fit] at h
  split at h
  · next d hd =>
    cases h
    obtain ⟨k, -, hk⟩ := List.exists_of_findSome?_eq_some hd
    rw [ofParts?] at hk
    split at hk <;> cases hk
    exact Nat.sub_le s k
  · cases h

theorem scale_addOr_le {f : Fault} (ha : a.scale ≤ places) (hb : b.scale ≤ places)
    (h : addOr f a b = .ok c) : c.scale ≤ places := by
  rw [addOr] at h
  split at h
  · cases h
    exact hb
  split at h
  · cases h
    exact ha
  · exact (scale_fit_le h).trans (max_le ha hb)

theorem scale_mul_le (h : a.mul b = .ok c) : c.scale ≤ a.scale + b.scale := by
  rw [mul] at h
  dsimp only at h
  split at h
  · cases h
    exact Nat.zero_le _
  split at h
  · cases h
    exact Nat.zero_le _
  · obtain ⟨d, hd, rfl⟩ := map_eq_ok.1 h
    refine le_of_eq_of_le ?_ (scale_fit_le hd)
    rw [withSign]
    split <;> rfl

/-- Places are not added to by adding up. -/
theorem scale_foldlM_add_le {ds : List Decimal} {s t : Decimal} (hs : s.scale ≤ places)
    (hds : ∀ d ∈ ds, d.scale ≤ places) (h : ds.foldlM add s = .ok t) : t.scale ≤ places :=
  foldlM_invariant (P := fun t => t.scale ≤ places) h hs
    fun _ d _ hd hs hadd => scale_addOr_le hs (hds d hd) hadd

/-- The parts of a number with at least as many places as a decimal has. -/
theorem toRat_mul_pow_of_le (h : a.scale ≤ places) :
    a.toRat * 10 ^ places = a.mantissa * tenPow (places - a.scale) := by
  rw [toRat_eq, div_mul_eq_mul_div, div_eq_iff (by positivity), cast_tenPow, mul_assoc, ← pow_add,
    Nat.sub_add_cancel h]

theorem natAbs_mantissa_le (h : a.scale ≤ places) :
    (a.mantissa.natAbs : ℚ) ≤ |a.toRat| * 10 ^ places := by
  have hone : (1 : ℚ) ≤ tenPow (places - a.scale) := by exact_mod_cast tenPow_pos _
  rw [← abs_of_pos (by positivity : (0 : ℚ) < 10 ^ places), ← abs_mul, toRat_mul_pow_of_le h,
    abs_mul, Nat.abs_cast, Nat.cast_natAbs, Int.cast_abs]
  exact le_mul_of_one_le_right (abs_nonneg _) hone

/-- Two decimals have an exact sum if its digits are in range. -/
theorem exists_add_eq_ok (ha : a.scale ≤ places) (hb : b.scale ≤ places)
    (h : |a.toRat + b.toRat| * 10 ^ places ≤ maxMantissa) :
    ∃ c, a.add b = .ok c ∧ c.scale ≤ places ∧ c.toRat = a.toRat + b.toRat := by
  have hzero : ∀ {d : Decimal}, d.mantissa = 0 → d.toRat = 0 := fun {d} hd => by
    rw [toRat_eq, hd, Int.cast_zero, zero_div]
  rw [add, addOr]
  by_cases ha₀ : a.mantissa = 0
  · exact ⟨b, if_pos ha₀, hb, by rw [hzero ha₀, zero_add]⟩
  by_cases hb₀ : b.mantissa = 0
  · exact ⟨a, (if_neg ha₀).trans (if_pos hb₀), ha, by rw [hzero hb₀, add_zero]⟩
  rw [if_neg ha₀, if_neg hb₀]
  dsimp only
  set s := max a.scale b.scale with hs
  set m := a.mantissa * tenPow (s - a.scale) + b.mantissa * tenPow (s - b.scale) with hm
  have hsum : (m : ℚ) = (a.toRat + b.toRat) * 10 ^ s := by
    rw [add_mul, toRat_mul_pow_of_le (le_max_left _ _), toRat_mul_pow_of_le (le_max_right _ _), hm]
    push_cast
    rfl
  have hmax : m.natAbs ≤ maxMantissa := by
    have hpow : (10 : ℚ) ^ s ≤ 10 ^ places := pow_le_pow_right₀ (by norm_num) (max_le ha hb)
    have habs : (m.natAbs : ℚ) ≤ maxMantissa := by
      rw [Nat.cast_natAbs, Int.cast_abs, hsum, abs_mul,
        abs_of_pos (by positivity : (0 : ℚ) < 10 ^ s)]
      exact (mul_le_mul_of_nonneg_left hpow (abs_nonneg _)).trans h
    exact_mod_cast habs
  refine ⟨⟨m, s, false, hmax, max_le a.scale_le b.scale_le, (absurd · Bool.false_ne_true)⟩, ?_,
    max_le ha hb, ?_⟩
  · rw [fit, fit?_of_le hmax (max_le a.scale_le b.scale_le)]
  · rw [toRat_eq, hsum]
    exact mul_div_cancel_right₀ _ (by positivity)

/-- A sum each step of which is exact is the sum of the numbers. -/
theorem exists_foldlM_add {ds : List Decimal} {s : Decimal} (h : Along add Adds s ds) :
    ∃ t, ds.foldlM add s = .ok t ∧ t.toRat = s.toRat + (ds.map toRat).sum := by
  induction ds generalizing s with
  | nil => exact ⟨s, rfl, (add_zero _).symm⟩
  | cons d ds ih =>
    obtain ⟨⟨u, hu, hsum⟩, hrest⟩ := h
    obtain ⟨t, ht, htotal⟩ := ih (hrest u hu)
    refine ⟨t, ?_, ?_⟩
    · rw [List.foldlM_cons, hu]
      exact ht
    · rw [htotal, hsum, List.map_cons, List.sum_cons, add_assoc]

/-- Decimals of few places are added exactly if their sizes together are in range. -/
theorem along_adds {ds : List Decimal} {s : Decimal} (hs : s.scale ≤ places)
    (hds : ∀ d ∈ ds, d.scale ≤ places)
    (h : (|s.toRat| + (ds.map fun d => |d.toRat|).sum) * 10 ^ places ≤ maxMantissa) :
    Along add Adds s ds := by
  induction ds generalizing s with
  | nil => trivial
  | cons d ds ih =>
    rw [List.map_cons, List.sum_cons, ← add_assoc] at h
    have hpow : (0 : ℚ) ≤ 10 ^ places := by positivity
    have hrest : 0 ≤ (ds.map fun d => |d.toRat|).sum :=
      List.sum_nonneg fun x hx => by
        obtain ⟨d, -, rfl⟩ := List.mem_map.1 hx
        exact abs_nonneg _
    have habs := abs_add_le s.toRat d.toRat
    obtain ⟨u, hu, hscale, hsum⟩ := exists_add_eq_ok hs (hds d List.mem_cons_self)
      ((mul_le_mul_of_nonneg_right (by linarith) hpow).trans h)
    refine ⟨⟨u, hu, hsum⟩, fun v hv => ?_⟩
    cases hu.symm.trans hv
    refine ih hscale (fun e he => hds e (List.mem_cons_of_mem d he)) ?_
    rw [hsum]
    exact (mul_le_mul_of_nonneg_right (by linarith) hpow).trans h

end FieldWages.Decimal
