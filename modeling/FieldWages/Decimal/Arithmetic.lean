import FieldWages.Decimal.Rounding
import FieldWages.Fault

/-!
# Sums and products

A sum or a product is formed exactly and then *fitted*: as few places as
possible are rounded away, half to even, until mantissa and scale are in range
(`Decimal.fit?`). If even the integer nearest to it is out of range, the
operation is a fault. Zero is neutral in a sum together with its scale, and a
product with zero is the plain zero. A product that is rounded to zero keeps its
sign.

* `Decimal.fit?_of_le`: what is in range already is kept as it is.
-/

namespace FieldWages

namespace Decimal

/-- The decimal nearest to `m / 10 ^ s` that keeps the most places. -/
def fit? (m : Int) (s : Nat) : Option Decimal :=
  (List.range (s + 1)).findSome? fun k => ofParts? (halfEven m (tenPow k)) (s - k)

theorem fit?_of_le {m : Int} {s : Nat} (hm : m.natAbs ≤ maxMantissa) (hs : s ≤ maxScale) :
    fit? m s = some { mantissa := m, scale := s, mantissa_le := hm, scale_le := hs } := by
  have h1 : halfEven m (tenPow 0) = m := by simp [halfEven]
  rw [fit?, List.range_succ_eq_map, List.findSome?_cons, h1, ofParts?, dif_pos ⟨hm, hs⟩]
  rfl

/-- The decimal nearest to `m / 10 ^ s`, or the fault `f` if there is none. -/
def fit (f : Fault) (m : Int) (s : Nat) : Except Fault Decimal :=
  match fit? m s with
  | some d => .ok d
  | none => .error f

/-- The sum, where a zero leaves the other operand untouched; `f` is the fault
    if it is out of range. -/
def addOr (f : Fault) (a b : Decimal) : Except Fault Decimal :=
  if a.mantissa = 0 then .ok b
  else if b.mantissa = 0 then .ok a
  else
    let s := max a.scale b.scale
    fit f (a.mantissa * tenPow (s - a.scale) + b.mantissa * tenPow (s - b.scale)) s

/-- The sum of two decimals. -/
def add (a b : Decimal) : Except Fault Decimal := addOr .additionOverflow a b

/-- The difference of two decimals. -/
def sub (a b : Decimal) : Except Fault Decimal := addOr .subtractionOverflow a b.neg

/-- The bound of mantissas that fit thirty-two bits. -/
abbrev shortMantissa : Nat := 4294967296

/-- Whether a decimal has a mantissa that fits thirty-two bits. -/
def isShort (d : Decimal) : Bool := d.mantissa.natAbs < shortMantissa

/-- The product of two decimals. That of two short ones vanishes if it has more
    than 47 places, and has no sign if it is rounded to zero. -/
def mul (a b : Decimal) : Except Fault Decimal :=
  let short := a.isShort && b.isShort
  if a.mantissa = 0 ∨ b.mantissa = 0 then .ok zero
  else if short ∧ 47 < a.scale + b.scale then .ok zero
  else
    let product := a.mantissa * b.mantissa
    (fit .multiplicationOverflow product (a.scale + b.scale)).map
      (withSign (!short && product < 0))

/-- The sum of a list, from the left. -/
def sum (ds : List Decimal) : Except Fault Decimal := ds.foldlM add zero

end Decimal

end FieldWages
