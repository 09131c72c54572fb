import FieldWages.TenPow
import FieldWages.Text.Digits
import Mathlib.Tactic

/-!
# Digits read back

The digits of a number have its value, also behind zeros, and they are taken off a
text that does not go on with a digit (`EndsDigits`).

* `valueOf_digits`, `valueOf_padded`: the value of a number that was written;
* `takeWhile_digits`, `dropWhile_digits`, `takeDigits_append`: the digits a text
  begins with, and the rest.
-/

namespace FieldWages.Text

variable {c : Char} {cs ds rest : List Char} {n width : ℕ}

/-! ## Writing -/

theorem isDigit_of_mem_digits (h : c ∈ digits n) : c.isDigit :=
  Nat.isDigit_of_mem_toDigits (by decide) (by decide) h

theorem digits_ne_nil (n : ℕ) : digits n ≠ [] := Nat.toDigits_ne_nil

theorem valueOf_digits (n : ℕ) : valueOf (digits n) = n :=
  Nat.ofDigitChars_toDigits (by decide) (by decide)

theorem length_digits_le (hwidth : 0 < width) (h : n < 10 ^ width) :
    (digits n).length ≤ width :=
  (Nat.length_toDigits_le_iff (by decide) hwidth).2 h

theorem isDigit_of_mem_padded (h : c ∈ padded width n) : c.isDigit := by
  rw [padded, List.leftpad, List.mem_append] at h
  rcases h with h | h
  · rw [List.eq_of_mem_replicate h]
    decide
  · exact isDigit_of_mem_digits h

theorem padded_ne_nil (width n : ℕ) : padded width n ≠ [] := by
  rw [padded, List.leftpad]
  exact List.append_ne_nil_of_right_ne_nil _ (digits_ne_nil n)

theorem valueOf_padded (width n : ℕ) : valueOf (padded width n) = n := by
  rw [padded, List.leftpad, valueOf, Nat.ofDigitChars_append, Nat.ofDigitChars_replicate_zero]
  exact valueOf_digits n

theorem length_padded (hwidth : 0 < width) (h : n < 10 ^ width) :
    (padded width n).length = width := by
  have := length_digits_le hwidth h
  rw [padded, List.length_leftpad]
  omega

/-- No number but zero begins with the digit zero. -/
theorem head?_digits_ne (h : 0 < n) : (digits n).head? ≠ some '0' := by
  induction n using Nat.strongRecOn with
  | ind n ih =>
    rw [digits, Nat.toDigits_eq_if (by decide)]
    split
    · next hlt => interval_cases n <;> decide
    · next hge =>
      have hhead := ih (n / 10) (by omega) (by omega)
      rwa [List.head?_append_of_ne_nil _ Nat.toDigits_ne_nil]

/-! ## Taking digits off a text -/

/-- Whether a text does not go on with a digit. -/
def EndsDigits (rest : List Char) : Prop := ∀ c ∈ rest.head?, c.isDigit = false

theorem endsDigits_nil : EndsDigits [] := fun c h => absurd h (Option.not_mem_none c)

theorem endsDigits_cons (h : c.isDigit = false) : EndsDigits (c :: cs) := by
  rintro _ ⟨⟩
  exact h

theorem takeWhile_digits (hds : ∀ c ∈ ds, c.isDigit) (hrest : EndsDigits rest) :
    (ds ++ rest).takeWhile Char.isDigit = ds := by
  rw [List.takeWhile_append_of_pos hds]
  cases rest with
  | nil => rw [List.takeWhile_nil, List.append_nil]
  | cons c cs =>
    rw [List.takeWhile_cons_of_neg (by rw [hrest c rfl]; decide), List.append_nil]

theorem dropWhile_digits (hds : ∀ c ∈ ds, c.isDigit) (hrest : EndsDigits rest) :
    (ds ++ rest).dropWhile Char.isDigit = rest := by
  rw [List.dropWhile_append_of_pos hds]
  cases rest with
  | nil => rfl
  | cons c cs => rw [List.dropWhile_cons_of_neg (by rw [hrest c rfl]; decide)]

theorem takeDigits_append (hds : ∀ c ∈ ds, c.isDigit) (hrest : EndsDigits rest)
    (hn : ds.length ≤ n) : takeDigits n (ds ++ rest) = (ds, rest) := by
  simp only [takeDigits, takeWhile_digits hds hrest]
  rw [List.take_of_length_le hn, List.drop_left]

theorem toNat_of_isDigit (h : c.isDigit) : 48 ≤ c.toNat ∧ c.toNat ≤ 57 := by
  simp only [Char.isDigit, Bool.and_eq_true, decide_eq_true_iff, ge_iff_le,
    UInt32.le_iff_toNat_le] at h
  exact h

theorem isBlank_eq_false (h : c.isDigit) : isBlank c = false := by
  have hc := toNat_of_isDigit h
  simp only [isBlank, Bool.or_eq_false_iff, Bool.and_eq_false_iff, decide_eq_false_iff_not,
    beq_eq_false_iff_ne]
  omega

/-- A digit is no blank to skip. -/
theorem skipBlanks_digits (hds : ∀ c ∈ ds, c.isDigit) (hne : ds ≠ []) :
    skipBlanks (ds ++ rest) = ds ++ rest := by
  obtain ⟨c, cs, rfl⟩ := List.exists_cons_of_ne_nil hne
  rw [skipBlanks, List.cons_append, List.dropWhile_cons_of_neg]
  rw [isBlank_eq_false (hds c List.mem_cons_self)]
  decide

end FieldWages.Text
