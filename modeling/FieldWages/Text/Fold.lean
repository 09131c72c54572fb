/-!
# Codes

Codes of concepts and of retirement schemes are compared without regard to the
case of ASCII letters; all other characters stand for themselves.
-/

namespace FieldWages

/-- The folded form of a code: its ASCII letters in upper case. -/
def foldCode (code : String) : String := String.ofList (code.toList.map Char.toUpper)

/-- Whether two codes are one, but for the case of ASCII letters. -/
def sameCode (a b : String) : Bool := foldCode a == foldCode b

end FieldWages
