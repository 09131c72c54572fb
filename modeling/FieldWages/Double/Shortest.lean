import FieldWages.TenPow
import FieldWages.Text.Digits

/-!
# Shortest digits

A number with a fraction or an exponent is read as a double, and a double is
known by the shortest decimal that reads back as it: of the decimals with the
fewest digits among the reals that round to the double, the nearest, and the
greater of two equally near. It is found by exact integer arithmetic: for one
digit, two digits and so on, the two neighbours of the double on that grid of
decimals are tried.

* `Shortest.ofFloat?`: the shortest decimal of a double that is finite;
* `Shortest.plainChars`: its digits without exponent.
-/

namespace FieldWages

/-- The decimal `± digits * 10 ^ exponent`, with no trailing zero in its digits. -/
structure Shortest where
  negative : Bool
  digits : Nat
  exponent : Int
deriving DecidableEq, Repr

namespace Shortest

/-- A positive double, `mantissa * 2 ^ exponent`. -/
structure Binary where
  mantissa : Nat
  exponent : Int
  /-- The double below is only half as far away as the one above. -/
  narrowBelow : Bool
deriving Repr

/-- The parts of a finite double, without its sign. -/
def Binary.ofBits (bits : UInt64) : Binary :=
  let e := ((bits >>> 52) &&& 0x7FF).toNat
  let f := (bits &&& 0xFFFFFFFFFFFFF).toNat
  if e = 0 then ⟨f, -1074, false⟩ else ⟨0x10000000000000 + f, (e : Int) - 1075, f == 0 && 1 < e⟩

/-- Compares `a * 10 ^ i` with `n * 2 ^ j`. -/
def compareScaled (a : Nat) (i : Int) (n : Nat) (j : Int) : Ordering :=
  compare (a * tenPow i.toNat <<< (-j).toNat) (n * tenPow (-i).toNat <<< j.toNat)

/-- Whether `a * 10 ^ i` is among the reals that round to a double. The ends of
    the interval are if the mantissa is even. -/
def Binary.readsBack (x : Binary) (a : Nat) (i : Int) : Bool :=
  let low := compareScaled a i (4 * x.mantissa - (if x.narrowBelow then 1 else 2)) (x.exponent - 2)
  let high := compareScaled a i (4 * x.mantissa + 2) (x.exponent - 2)
  let even := x.mantissa % 2 == 0
  (low == .gt || (even && low == .eq)) && (high == .lt || (even && high == .eq))

/-- How many multiples of `10 ^ i` a double contains. -/
def Binary.floorAt (x : Binary) (i : Int) : Nat :=
  (x.mantissa * tenPow (-i).toNat <<< x.exponent.toNat)
    / (tenPow i.toNat <<< (-x.exponent).toNat)

/-- The least `k` for which a double is below `10 ^ k`, found from its integral
    part after a shift by 400 places. -/
def Binary.magnitude (x : Binary) : Int :=
  ((Text.digits (x.floorAt (-400))).length : Int) - 400

/-- The neighbour on the grid of multiples of `10 ^ i` that reads back as the
    double: the nearer of two, the greater of two equally near. -/
def Binary.onGrid? (x : Binary) (i : Int) : Option Nat :=
  let a := x.floorAt i
  match x.readsBack a i, x.readsBack (a + 1) i with
  | true, true =>
    if compareScaled (2 * a + 1) i (2 * x.mantissa) x.exponent = .gt then some a else some (a + 1)
  | true, false => some a
  | false, true => some (a + 1)
  | false, false => none

/-- Moves trailing zeros, at most `fuel` of them, from digits to exponent. -/
def stripZeros : (fuel : Nat) → Nat → Int → Nat × Int
  | 0, a, i => (a, i)
  | fuel + 1, a, i => if a % 10 = 0 then stripZeros fuel (a / 10) (i + 1) else (a, i)

/-- Digits and exponent of the shortest decimal of a positive double. Seventeen
    digits always suffice; were it not so, all digits of the double would be given. -/
def Binary.shortest (x : Binary) : Nat × Int :=
  let k := x.magnitude
  let found := (List.range 17).findSome? fun (n : Nat) =>
    (x.onGrid? (k - 1 - n)).map fun a => (a, k - 1 - n)
  let (a, i) := found.getD (x.floorAt (-1074), -1074)
  stripZeros 400 a i

/-- The shortest decimal of a double, if it is finite. -/
def ofFloat? (x : Float) : Option Shortest :=
  let bits := x.toBits
  if (bits >>> 52) &&& 0x7FF = 0x7FF then none
  else
    let binary := Binary.ofBits bits
    let negative := bits >>> 63 = 1
    if binary.mantissa = 0 then some ⟨negative, 0, 0⟩
    else
      let (a, i) := binary.shortest
      some ⟨negative, a, i⟩

/-- The digits without exponent, and with a point only if there is a fraction. -/
def plainChars (x : Shortest) : List Char :=
  (if x.negative then ['-'] else []) ++
    if 0 ≤ x.exponent then Text.digits (x.digits * tenPow x.exponent.toNat)
    else
      let places := (-x.exponent).toNat
      Text.digits (x.digits / tenPow places)
        ++ '.' :: Text.padded places (x.digits % tenPow places)

/-- The digits as a number with a fraction is written: with a point, or with an
    exponent if it is large or small. -/
def chars (x : Shortest) : List Char :=
  let ds := Text.digits x.digits
  let lead := x.exponent + ds.length
  let sign := if x.negative then ['-'] else []
  if 0 ≤ x.exponent ∧ lead ≤ 16 then x.plainChars ++ ['.', '0']
  else if -5 < lead ∧ lead ≤ 16 then x.plainChars
  else
    let e := lead - 1
    sign ++ ds.take 1 ++ (if ds.length = 1 then [] else '.' :: ds.drop 1) ++
      'e' :: (if e < 0 then ['-'] else []) ++ Text.digits e.natAbs

end Shortest

end FieldWages
