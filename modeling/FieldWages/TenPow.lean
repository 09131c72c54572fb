/-!
# Powers of ten

* `tenPow_add`: a power of a sum of exponents is a product.
-/

namespace FieldWages

/-- The power of ten with an exponent. -/
def tenPow (n : Nat) : Nat := Nat.pow 10 n

@[simp]
theorem tenPow_zero : tenPow 0 = 1 := rfl

theorem tenPow_succ (n : Nat) : tenPow (n + 1) = tenPow n * 10 := rfl

theorem tenPow_pos (n : Nat) : 0 < tenPow n := by
  induction n with
  | zero => decide
  | succ n ih => rw [tenPow_succ]; omega

theorem one_lt_tenPow {n : Nat} (h : 0 < n) : 1 < tenPow n := by
  cases n with
  | zero => contradiction
  | succ n =>
    have := tenPow_pos n
    rw [tenPow_succ]
    omega

theorem tenPow_add (m n : Nat) : tenPow (m + n) = tenPow m * tenPow n := by
  induction n with
  | zero => simp
  | succ n ih => rw [← Nat.add_assoc, tenPow_succ, tenPow_succ, ih, Nat.mul_assoc]

end FieldWages
