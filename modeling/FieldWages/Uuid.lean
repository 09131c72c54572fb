import FieldWages.Text.Digits

/-!
# Identifiers

An identifier is a number of 128 bits, written as thirty-two digits to the base
sixteen in groups of 8, 4, 4, 4 and 12 with hyphens between them. It may also be
given without hyphens, or with them between braces or behind `urn:uuid:`. The
case of letters does not matter, neither in the digits nor in front of them.
-/

namespace FieldWages

/-- An identifier of 128 bits. -/
structure Uuid where
  value : BitVec 128
deriving DecidableEq

namespace Uuid

/-- The written form of an identifier. -/
def toText (u : Uuid) : String :=
  let hex := (Nat.toDigits 16 u.value.toNat).leftpad 32 '0'
  String.ofList
    (hex.take 8 ++ '-' :: (hex.drop 8).take 4 ++ '-' :: (hex.drop 12).take 4
      ++ '-' :: (hex.drop 16).take 4 ++ '-' :: hex.drop 20)

/-- Reads thirty-two digits. -/
def ofDigits? (cs : List Char) : Option Uuid :=
  if cs.length = 32 then (Text.readNatIn? 16 cs).map (⟨.ofNat 128 ·⟩) else none

/-- Reads digits in groups with hyphens between them. -/
def ofGroups? (cs : List Char) : Option Uuid :=
  if cs.length = 36 ∧ cs[8]? = some '-' ∧ cs[13]? = some '-' ∧ cs[18]? = some '-'
      ∧ cs[23]? = some '-' then
    ofDigits? (cs.take 8 ++ (cs.drop 9).take 4 ++ (cs.drop 14).take 4 ++ (cs.drop 19).take 4
      ++ cs.drop 24)
  else none

/-- Whether a text begins with `urn:uuid:`, in letters of either case. -/
def isUrn (cs : List Char) : Bool :=
  (cs.take 9).map Char.toLower == ['u', 'r', 'n', ':', 'u', 'u', 'i', 'd', ':']

/-- The identifier a text stands for, if it stands for one. -/
def ofText? (text : String) : Option Uuid :=
  match text.toList with
  | '\x7b' :: cs =>
    if cs.getLast? = some '\x7d' then ofGroups? cs.dropLast else none
  | cs => if isUrn cs then ofGroups? (cs.drop 9) else (ofDigits? cs).or (ofGroups? cs)

end Uuid

end FieldWages
