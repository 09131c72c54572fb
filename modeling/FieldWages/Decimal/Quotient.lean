import FieldWages.Decimal.Arithmetic

/-!
# Quotients

A quotient is found by long division, up to nine digits at a time, until it
comes out even or no further digit fits; then the last digit is rounded, half
to even. The digits of a fraction are afterwards shortened: of its trailing
zeros, groups of eight go only while thirty-two binary digits vanish with
them, and then four, two and one of those that are left.

* `Decimal.div`: the quotient of two decimals, or a fault.
-/

namespace FieldWages

namespace Decimal

/-- The state of a long division: the quotient so far, its scale (negative while
    digits before the point are missing), and what remains to be divided. -/
structure Division where
  quotient : Nat
  scale : Int
  remainder : Nat
deriving Repr

/-- How many more digits fit behind the quotient, nine at most. -/
def Division.room (v : Division) : Nat :=
  ((List.range' 1 9).reverse.find? fun (x : Nat) =>
    v.scale + x ≤ maxScale ∧ v.quotient * tenPow x ≤ maxMantissa).getD 0

/-- The division with `x` more digits. -/
def Division.extend (v : Division) (d x : Nat) : Division where
  quotient := v.quotient * tenPow x + v.remainder * tenPow x / d
  scale := v.scale + x
  remainder := v.remainder * tenPow x % d

/-- Takes the last digit off a quotient that is out of range, and rounds by it
    and by what remains; `none` if there is no place to give up. -/
def Division.shorten? (v : Division) : Option Division :=
  if v.quotient ≤ maxMantissa then some v
  else if v.scale ≤ 0 then none
  else
    let q := v.quotient / 10
    let digit := v.quotient % 10
    let up := 5 < digit ∨ (digit = 5 ∧ (v.remainder ≠ 0 ∨ q % 2 = 1))
    some ⟨if up then q + 1 else q, v.scale - 1, 0⟩

/-- Rounds the last digit by what remains of the division by `d`, half to even. -/
def Division.settle? (v : Division) (d : Nat) : Option Division :=
  let up := d < 2 * v.remainder ∨ (2 * v.remainder = d ∧ v.quotient % 2 = 1)
  Division.shorten? ⟨if up then v.quotient + 1 else v.quotient, v.scale, 0⟩

/-- Divides on by `d`, at most `fuel` times: the result, and whether a digit was
    needed that the dividend did not have. Without room for nine digits the point
    has to come into reach. -/
def Division.run? (d : Nat) : (fuel : Nat) → Division → (fraction : Bool) → Option (Division × Bool)
  | 0, _, _ => none
  | fuel + 1, v, fraction =>
    if v.remainder = 0 then
      if 0 ≤ v.scale then some (v, fraction)
      else
        let w := v.extend d (min 9 (-v.scale).toNat)
        if w.quotient ≤ maxMantissa then run? d fuel w fraction else none
    else
      let x := v.room
      if x < 9 ∧ v.scale + x < 0 then none
      else if x = 0 then (v.settle? d).map (·, true)
      else
        let w := v.extend d x
        if w.quotient ≤ maxMantissa then run? d fuel w true else w.shorten?.map (·, true)

/-- Drops `k` trailing zeros if there are that many, `m` divides the digits and
    there are `k` places. -/
def dropZeros (k m : Nat) (p : Nat × Nat) : Nat × Nat :=
  if k ≤ p.2 ∧ p.1 % m = 0 ∧ p.1 % tenPow k = 0 then (p.1 / tenPow k, p.2 - k) else p

/-- The digits of a fraction with fewer trailing zeros. -/
def shortenFraction (p : Nat × Nat) : Nat × Nat :=
  let eights := dropZeros 8 shortMantissa (dropZeros 8 shortMantissa (dropZeros 8 shortMantissa p))
  dropZeros 1 1 (dropZeros 2 1 (dropZeros 4 1 eights))

/-- The digits and the scale of `a / b` for positive mantissas. -/
def quotientDigits? (a : Nat) (b : Nat) (s : Int) : Option (Nat × Nat) := do
  let (v, fraction) ← Division.run? b 58 ⟨a / b, s, a % b⟩ false
  let p := (v.quotient, v.scale.toNat)
  pure (if fraction then shortenFraction p else p)

/-- The quotient of two decimals. -/
def div (a b : Decimal) : Except Fault Decimal :=
  if b.mantissa = 0 then .error .divisionByZero
  else if a.mantissa = 0 then .ok zero
  else
    match quotientDigits? a.mantissa.natAbs b.mantissa.natAbs ((a.scale : Int) - b.scale) with
    | none => .error .divisionOverflow
    | some (q, s) =>
      match ofParts? ((a.mantissa * b.mantissa).sign * q) s with
      | some d => .ok d
      | none => .error .divisionOverflow

end Decimal

end FieldWages
