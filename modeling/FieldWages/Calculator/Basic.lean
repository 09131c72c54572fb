import FieldWages.PayContext

/-!
# Calculators

A *calculator* gives the outcome of a concept in a context: an amount with the
reasoning behind it, and a diagnostic if it had to do without something. An
outcome that is *degraded* has the amount zero, and its reasoning is the
message of its diagnostic.
-/

namespace FieldWages

/-- What a calculator finds. -/
structure Outcome where
  amount : Decimal
  reasoning : String
  diagnostic : Option Diagnostic
deriving DecidableEq

namespace Outcome

/-- An amount that lacks nothing. -/
def paid (amount : Decimal) (reasoning : String) : Outcome := ⟨amount, reasoning, none⟩

/-- Nothing, for want of something; the message names the concept. -/
def degraded (code conceptCode message : String) : Outcome :=
  let message := conceptCode ++ ": " ++ message
  ⟨.zero, message, some ⟨code, message, none⟩⟩

end Outcome

/-- The outcome of a concept in a context. -/
abbrev Calculator := PayContext → Concept → Except Fault Outcome

end FieldWages
