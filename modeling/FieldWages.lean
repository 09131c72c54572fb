import FieldWages.Attendance
import FieldWages.BasicPay
import FieldWages.Calculator.Basic
import FieldWages.Calculator.Income
import FieldWages.Calculator.Registry
import FieldWages.Calculator.Share
import FieldWages.Clock.Basic
import FieldWages.Clock.Text
import FieldWages.Concept
import FieldWages.ConceptRun
import FieldWages.Configuration
import FieldWages.Configuration.Files
import FieldWages.Count
import FieldWages.DailyHours
import FieldWages.Date.Basic
import FieldWages.Date.Civil
import FieldWages.Date.Text
import FieldWages.Decimal.Arithmetic
import FieldWages.Decimal.Basic
import FieldWages.Decimal.Quotient
import FieldWages.Decimal.Rounding
import FieldWages.Decimal.Text
import FieldWages.Diagnostic
import FieldWages.Double.Reading
import FieldWages.Double.Shortest
import FieldWages.Employee
import FieldWages.Fault
import FieldWages.HourBreakdown
import FieldWages.Json.Basic
import FieldWages.Json.Parser
import FieldWages.Labor
import FieldWages.NightWork
import FieldWages.Parameters
import FieldWages.PayContext
import FieldWages.PayRun
import FieldWages.Payroll
import FieldWages.Payslip
import FieldWages.Period
import FieldWages.Piecework
import FieldWages.Record.Form
import FieldWages.Record.Input
import FieldWages.Record.Payslip
import FieldWages.Record.Reader
import FieldWages.Record.Stage
import FieldWages.Refusal
import FieldWages.RestDay
import FieldWages.SortedMap
import FieldWages.TenPow
import FieldWages.Text.Digits
import FieldWages.Text.Fold
import FieldWages.Uuid
import FieldWages.WorkCalendar
import FieldWages.Yaml.Basic
import FieldWages.Yaml.Parser
import FieldWages.Yaml.Text
import FieldWages.Proofs.ConceptRun
import FieldWages.Proofs.SortedMap
import FieldWages.Proofs.Payroll
import FieldWages.Proofs.Period.Weeks
import FieldWages.Proofs.RestDayWeeks
import FieldWages.Proofs.Sample
import FieldWages.Proofs.Decimal.Quotient
import FieldWages.Proofs.Piecework.Percent
import FieldWages.Proofs.Piecework.Tally
import FieldWages.Proofs.Piecework.Score
import FieldWages.Proofs.Hours
import FieldWages.Proofs.PayRun.Report
import FieldWages.Proofs.SameWork.Detail
import FieldWages.Proofs.Unpaid.Detail
import FieldWages.Proofs.ConceptRun.Selection
import FieldWages.Proofs.ConceptRun.Insertion
import FieldWages.Proofs.Decimal.Monotone
import FieldWages.Proofs.MoreWork.Concepts
import FieldWages.Proofs.MoreWork.Context
import FieldWages.Proofs.MoreWork.Detail
import FieldWages.Proofs.MoreWork.Hours
import FieldWages.Proofs.Breakdown
import FieldWages.Proofs.WorkedDates
import FieldWages.Proofs.Faults
import FieldWages.Proofs.Calculators
import FieldWages.Proofs.WorkCalendar
import FieldWages.Proofs.Refusals
import FieldWages.Proofs.Piecework.Room
import FieldWages.Proofs.Piecework.Excess
import FieldWages.Proofs.OutOfRange
import FieldWages.Proofs.Erasure
import FieldWages.Proofs.Erasure.Data
import FieldWages.Proofs.Configuration.Accepted
import FieldWages.Proofs.NightWork
import FieldWages.Proofs.NightWork.Length
import FieldWages.Proofs.RestDay
import FieldWages.Proofs.Text.Digits
import FieldWages.Proofs.Decimal.Text
import FieldWages.Proofs.Date.Text
import FieldWages.Proofs.Clock.Text
import FieldWages.Proofs.Uuid
import FieldWages.Proofs.Json
import FieldWages.Proofs.Record
import FieldWages.Proofs.Record.Payslip
import FieldWages.Proofs.Cut.Days
import FieldWages.Proofs.Cut.Hours
import FieldWages.Proofs.Cut.Pay
import FieldWages.Proofs.Cut.Detail
import FieldWages.Proofs.Breakdown.Tiers
import FieldWages.Proofs.BasicPay
import FieldWages.Proofs.Breakdown.Within
import FieldWages.Proofs.Remarks
import FieldWages.Proofs.ConceptRun.Degradation
import FieldWages.Proofs.Period.Saturdays
import FieldWages.Proofs.Registry
import FieldWages.Proofs.Allowance
import FieldWages.Proofs.Spelling.Concepts
import FieldWages.Proofs.Spelling.Detail
