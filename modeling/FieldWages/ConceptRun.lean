import FieldWages.Calculator.Registry
import FieldWages.Payslip

/-!
# Concept runs

The concepts of a context are calculated in their order. A retirement concept
is passed over unless the employee pays into it, and a concept without
calculator is passed over with a diagnostic. For every other one the outcome is
rounded to the hundredth and added to the total of its category, and a line
and a step of the audit trail are written, which show the totals before and
after.

* `ConceptRun.ofContext`: the run of all concepts of a context.
-/

namespace FieldWages

/-- A run over concepts: the context with its ledger, and what has been written. -/
structure ConceptRun where
  context : PayContext
  lines : List ConceptLine
  steps : List AuditStep
  /-- Whether the want of a retirement scheme has been remarked upon. -/
  schemeNoted : Bool

namespace ConceptRun

/-- The run before the first concept. -/
def start (ctx : PayContext) : ConceptRun := ⟨ctx, [], [], false⟩

/-- A decimal as the audit trail shows it. -/
def shown (d : Decimal) : Json := .str d.toText

/-- What a step reads, by name in alphabetical order. -/
def stepInput (ctx : PayContext) (c : Concept) : Json :=
  .obj
    [("configured_value", (c.value.map shown).getD .null),
     ("total_deductions_before", shown ctx.totalDeductions),
     ("total_income_before", shown ctx.totalIncome)]

/-- What a step writes, by name in alphabetical order. -/
def stepOutput (ctx : PayContext) (amount : Decimal) : Json :=
  .obj
    [("amount", shown amount),
     ("total_deductions", shown ctx.totalDeductions),
     ("total_employer_contributions", shown ctx.totalEmployerContributions),
     ("total_income", shown ctx.totalIncome)]

/-- Passes over a retirement concept the employee does not pay into; if there is
    no scheme at all, the first time with a diagnostic. -/
def skipRetirement (run : ConceptRun) : ConceptRun :=
  if run.context.employee.retirementScheme.isNone && !run.schemeNoted then
    { run with
      schemeNoted := true
      context := run.context.note
        ⟨Diagnostic.noRetirementScheme,
          "employee has no retirement scheme; retirement concepts skipped", none⟩ }
  else run

/-- Passes over a concept that has no calculator. -/
def skipUnknown (run : ConceptRun) (c : Concept) : ConceptRun :=
  { run with
    context := run.context.note
      ⟨Diagnostic.unknownConcept, "no calculator registered for concept '" ++ c.code ++ "'", none⟩ }

/-- Enters the outcome of a concept. -/
def enter (run : ConceptRun) (c : Concept) (outcome : Outcome) : Except Fault ConceptRun := do
  let before := run.context
  let amount := outcome.amount.toHundredths
  let noted := (outcome.diagnostic.map before.note).getD before
  let after ← noted.accumulate c.category amount
  let line : ConceptLine := ⟨c.code, c.category, c.value, amount⟩
  let step : AuditStep :=
    { number := .ofNat run.steps.length + 1
      conceptCode := c.code
      category := c.category
      input := stepInput before c
      output := stepOutput after amount
      reasoning := outcome.reasoning }
  pure { run with context := after, lines := run.lines ++ [line], steps := run.steps ++ [step] }

/-- The run with one more concept. -/
def next (registry : Registry) (run : ConceptRun) (c : Concept) : Except Fault ConceptRun :=
  if c.category = .retirement ∧ !run.context.employee.contributesTo c.code then
    .ok run.skipRetirement
  else
    match registry.get? c.code with
    | none => .ok (run.skipUnknown c)
    | some calculator => do
      let outcome ← calculator run.context c
      run.enter c outcome

/-- The run of all concepts of a context. -/
def ofContext (ctx : PayContext) (registry : Registry) : Except Fault ConceptRun :=
  ctx.concepts.foldlM (next registry) (start ctx)

end ConceptRun

end FieldWages
