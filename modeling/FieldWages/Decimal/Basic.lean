import FieldWages.TenPow

/-!
# Decimals

A *decimal* is an integer mantissa of at most ninety-six bits with a scale of
at most twenty-eight: the number `mantissa / 10 ^ scale`. The scale is part of
the value, as it says how many places are written, so `1.5` and `1.50` are two
decimals of one number (`Decimal.toRat`). So is the sign of a zero, which is
left when all digits of a negative number are rounded away. The order is that of
the numbers and sees neither.

* `Decimal.le_iff`, `Decimal.lt_iff`: comparing two decimals is comparing
  integers, after bringing both to one scale.
-/

namespace FieldWages

/-- The greatest mantissa: ninety-six bits, all set. -/
abbrev maxMantissa : Nat := 79228162514264337593543950335

/-- The greatest scale. -/
abbrev maxScale : Nat := 28

/-- The number `mantissa / 10 ^ scale`, written with `scale` places. -/
structure Decimal where
  /-- The digits, with their sign. -/
  mantissa : Int
  /-- How many of the digits stand behind the point. -/
  scale : Nat
  /-- Whether this is a zero with a minus sign. -/
  negativeZero : Bool := false
  mantissa_le : mantissa.natAbs ≤ maxMantissa := by decide
  scale_le : scale ≤ maxScale := by decide
  mantissa_eq_zero : negativeZero = true → mantissa = 0 := by
    exact fun h => absurd h Bool.false_ne_true
deriving DecidableEq

namespace Decimal

/-- The number a decimal stands for. -/
def toRat (d : Decimal) : Rat := (d.mantissa : Rat) / tenPow d.scale

/-- The decimal of these parts, if they are in range. -/
def ofParts? (mantissa : Int) (scale : Nat) : Option Decimal :=
  if h : mantissa.natAbs ≤ maxMantissa ∧ scale ≤ maxScale then
    some { mantissa, scale, mantissa_le := h.1, scale_le := h.2 }
  else none

/-- An integer in range, without places. -/
def ofInt? (n : Int) : Option Decimal := ofParts? n 0

/-- A word of thirty-two bits as a decimal. -/
def ofUInt32 (n : UInt32) : Decimal where
  mantissa := n.toNat
  scale := 0
  mantissa_le := by have := n.toNat_lt; simp only [maxMantissa]; omega

/-- A word of sixty-four bits as a decimal. -/
def ofUInt64 (n : UInt64) : Decimal where
  mantissa := n.toNat
  scale := 0
  mantissa_le := by have := n.toNat_lt; simp only [maxMantissa]; omega

/-- Zero, without places. -/
def zero : Decimal := { mantissa := 0, scale := 0 }

/-- One, without places. -/
def one : Decimal := { mantissa := 1, scale := 0 }

/-- Sixty, without places: the minutes of an hour. -/
def sixty : Decimal := { mantissa := 60, scale := 0 }

/-- One hundred, without places: the whole, in percent. -/
def hundred : Decimal := { mantissa := 100, scale := 0 }

instance : Inhabited Decimal := ⟨zero⟩

/-- The decimal of the opposite sign; a zero stays as it is. -/
def neg (d : Decimal) : Decimal where
  mantissa := -d.mantissa
  scale := d.scale
  negativeZero := d.negativeZero
  mantissa_le := by rw [Int.natAbs_neg]; exact d.mantissa_le
  scale_le := d.scale_le
  mantissa_eq_zero := fun h => by rw [d.mantissa_eq_zero h]; rfl

/-- The decimal that stands for a number of the given sign: a zero takes over a
    minus sign, and any other decimal has its own. -/
def withSign (negative : Bool) (d : Decimal) : Decimal :=
  if h : negative = true ∧ d.mantissa = 0 then
    { d with negativeZero := true, mantissa_eq_zero := fun _ => h.2 }
  else d

/-! ## Order -/

instance : LE Decimal :=
  ⟨fun a b => a.mantissa * tenPow b.scale ≤ b.mantissa * tenPow a.scale⟩

instance : LT Decimal :=
  ⟨fun a b => a.mantissa * tenPow b.scale < b.mantissa * tenPow a.scale⟩

theorem le_iff {a b : Decimal} :
    a ≤ b ↔ a.mantissa * tenPow b.scale ≤ b.mantissa * tenPow a.scale := Iff.rfl

theorem lt_iff {a b : Decimal} :
    a < b ↔ a.mantissa * tenPow b.scale < b.mantissa * tenPow a.scale := Iff.rfl

instance (a b : Decimal) : Decidable (a ≤ b) :=
  inferInstanceAs (Decidable (a.mantissa * tenPow b.scale ≤ b.mantissa * tenPow a.scale))

instance (a b : Decimal) : Decidable (a < b) :=
  inferInstanceAs (Decidable (a.mantissa * tenPow b.scale < b.mantissa * tenPow a.scale))

/-- The smaller of two decimals: the first of two that are equal as numbers. -/
protected def min (a b : Decimal) : Decimal := if b < a then b else a

/-- The greater of two decimals: the first of two that are equal as numbers. -/
protected def max (a b : Decimal) : Decimal := if a < b then b else a

end Decimal

end FieldWages
