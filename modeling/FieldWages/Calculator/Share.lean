import FieldWages.Calculator.Basic
import FieldWages.Decimal.Text

/-!
# Shares of income

The calculators of what is withheld or contributed in proportion to the income
accumulated so far.
-/

namespace FieldWages.Calculator

/-- The configured percentage of the income accumulated so far. -/
def percentageOfIncome : Calculator := fun ctx c =>
  match c.value with
  | none => .ok (.degraded Diagnostic.missingConceptValue c.code "no percentage configured")
  | some percent => do
    let product ← ctx.totalIncome.mul percent
    let amount ← product.div .hundred
    let percentText := percent.plainText
    let income := ctx.totalIncome.plainText
    let amountText := amount.plainText
    pure (.paid amount s!"{percentText}% of accumulated income ${income} = ${amountText}")

/-- The same for members of a health plan; nothing for others. -/
def healthPlan : Calculator := fun ctx c =>
  match ctx.employee.healthScheme with
  | none =>
    .ok (.degraded Diagnostic.noHealthScheme c.code "employee is not enrolled in a health plan")
  | some _ => percentageOfIncome ctx c

end FieldWages.Calculator
