import FieldWages.Calculator.Basic
import FieldWages.Decimal.Text

/-!
# Earnings

The calculators of what is earned. Those that pay by salary degrade without
one; overtime and night work look at their hours first, so that no salary is
missed where there is nothing to pay.
-/

namespace FieldWages.Calculator

/-- Goes on with `next` if there is a salary to pay by. -/
def needSalary (ctx : PayContext) (c : Concept) (next : Except Fault Outcome) :
    Except Fault Outcome :=
  if ctx.employee.salaryOrZero ≤ .zero then
    .ok (.degraded Diagnostic.missingSalary c.code "monthly salary is missing or zero")
  else next

/-- The basic pay of the dates worked. -/
def basicSalary : Calculator := fun ctx c =>
  needSalary ctx c <|
    if ctx.workedDates.isEmpty then
      .ok (.degraded Diagnostic.noWorkedDates c.code "no worked dates in the period")
    else do
      let days := ctx.basicPay.days.length
      let units := (← ctx.basicPay.units).toNat
      let rate := ctx.dailyRate.plainText
      let amount := ctx.basicPay.amount.plainText
      pure (.paid ctx.basicPay.amount
        s!"{days} worked days ({units} day-rate units) × ${rate} = ${amount}")

/-- The pay of the weekly rest days. -/
def restDay : Calculator := fun ctx c =>
  needSalary ctx c <|
    let complete := ctx.restDays.completeWeeks.toNat
    let weeks := ctx.restDays.weeks.length
    let rate := ctx.dailyRate.plainText
    let bonus := ctx.restDays.bonus.plainText
    .ok (.paid ctx.restDays.bonus s!"{complete} of {weeks} weeks complete × ${rate} = ${bonus}")

/-- Hours paid at the hourly rate with a surcharge in percent: the one configured
    for the concept, or else the agreed one. -/
def surchargedHours (hours : PayContext → Decimal) (agreed : OvertimeRates → Decimal)
    (label : String) : Calculator := fun ctx c =>
  let hours := hours ctx
  if hours ≤ .zero then .ok (.paid .zero s!"no {label} hours")
  else needSalary ctx c do
    let surcharge := c.value.getD (agreed ctx.parameters.overtime)
    let share ← surcharge.div .hundred
    let factor ← Decimal.one.add share
    let rate ← ctx.hourlyRate.mul factor
    let amount ← hours.mul rate
    let hoursText := hours.plainText
    let rateText := rate.plainText
    let hourly := ctx.hourlyRate.plainText
    let percent := surcharge.plainText
    let amountText := amount.plainText
    pure (.paid amount
      s!"{hoursText} {label} hours × ${rateText} (hourly ${hourly} + {percent}%) = ${amountText}")

/-- Overtime of the first tier. -/
def overtimeTier1 : Calculator :=
  surchargedHours (·.hours.overtimeTier1) (·.tier1Surcharge) "tier 1 overtime"

/-- Overtime of the second tier. -/
def overtimeTier2 : Calculator :=
  surchargedHours (·.hours.overtimeTier2) (·.tier2Surcharge) "tier 2 overtime"

/-- Sunday and holiday hours above the daily limit. -/
def holidayOvertime : Calculator :=
  surchargedHours (·.hours.holidaySundayExtra) (·.holidaySurcharge) "Sunday/holiday extra"

/-- The surcharge of night hours; the hours themselves are paid elsewhere. -/
def nightSurcharge : Calculator := fun ctx c =>
  let hours := ctx.hours.night
  if hours ≤ .zero then .ok (.paid .zero "no night hours")
  else needSalary ctx c do
    let surcharge := c.value.getD ctx.parameters.overtime.nightSurcharge
    let pay ← hours.mul ctx.hourlyRate
    let share ← pay.mul surcharge
    let amount ← share.div .hundred
    let hoursText := hours.plainText
    let hourly := ctx.hourlyRate.plainText
    let percent := surcharge.plainText
    let amountText := amount.plainText
    pure (.paid amount s!"{hoursText} night hours × ${hourly} × {percent}% = ${amountText}")

/-- The pay of units above the minimum. -/
def pieceworkExcess : Calculator := fun ctx _ => do
  let units := (← ctx.piecework.excessUnits).toNat
  let days := ctx.piecework.days.size
  let total := ctx.piecework.totalExcessPay.plainText
  pure (.paid ctx.piecework.totalExcessPay
    s!"{units} excess units over {days} piecework days = ${total}")

/-- The configured bonus, if no minimum was missed. -/
def productivityBonus : Calculator := fun ctx c =>
  match c.value with
  | none => .ok (.degraded Diagnostic.missingConceptValue c.code "no bonus amount configured")
  | some value =>
    match ctx.piecework.score with
    | none =>
      .ok (.degraded Diagnostic.noPiecework c.code "employee has no piecework dates in the period")
    | some score =>
      if fullScore ≤ score then
        let bonus := value.plainText
        .ok (.paid value s!"productivity score 100: bonus ${bonus}")
      else .ok (.paid .zero "minimum task requirement missed on at least one date")

/-- The configured monthly allowance for dependents, in the share that the
    working days of the period are of those of the month. -/
def familyAllowance : Calculator := fun ctx c =>
  match c.value with
  | none => .ok (.degraded Diagnostic.missingConceptValue c.code "no monthly allowance configured")
  | some value =>
    if !ctx.employee.hasDependents then .ok (.paid .zero "no dependents declared")
    else
      let days := ctx.parameters.workingDays
      let total := ctx.parameters.totalWorkingDays
      let dependents := ctx.employee.dependents.toNat
      let valueText := value.plainText
      if total = 0 ∨ total ≤ days then
        .ok (.paid value s!"{dependents} dependents: full allowance ${valueText}")
      else do
        let product ← value.mul (.ofUInt32 days)
        let amount ← product.div (.ofUInt32 total)
        let daysText := days.toNat
        let totalText := total.toNat
        let amountText := (amount.round .toEven 2).plainText
        pure (.paid amount
          s!"{dependents} dependents: ${valueText} × {daysText}/{totalText} working days = ${amountText}")

/-- The configured amount as it is. -/
def fixedAmount : Calculator := fun _ c =>
  match c.value with
  | none => .ok (.degraded Diagnostic.missingConceptValue c.code "no amount configured")
  | some value =>
    let text := value.plainText
    .ok (.paid value s!"fixed amount ${text}")

end FieldWages.Calculator
