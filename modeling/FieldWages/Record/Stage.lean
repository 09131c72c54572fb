import FieldWages.PayContext
import FieldWages.Record.Form

/-!
# Records of the stages

The forms of what the stages of a calculation find: hours, basic pay, rest days,
piecework, what is known of a date, and diagnostics.
-/

namespace FieldWages

open Record

instance : JsonForm DailyHours where
  toJson h := .obj [("total_hours", toJson h.total), ("night_hours", toJson h.night)]
  ofJson? := Record.ofJson? do
    let total ← field "total_hours"
    let night ← field "night_hours"
    pure { total, night }

instance : JsonForm HourBreakdown where
  toJson h := .obj
    [("normal", toJson h.normal),
     ("overtime_tier1", toJson h.overtimeTier1),
     ("overtime_tier2", toJson h.overtimeTier2),
     ("holiday_sunday", toJson h.holidaySunday),
     ("holiday_sunday_extra", toJson h.holidaySundayExtra),
     ("night", toJson h.night),
     ("total", toJson h.total)]
  ofJson? := Record.ofJson? do
    let normal ← field "normal"
    let overtimeTier1 ← field "overtime_tier1"
    let overtimeTier2 ← field "overtime_tier2"
    let holidaySunday ← field "holiday_sunday"
    let holidaySundayExtra ← field "holiday_sunday_extra"
    let night ← field "night"
    let total ← field "total"
    pure { normal, overtimeTier1, overtimeTier2, holidaySunday, holidaySundayExtra, night, total }

instance : JsonForm DayFlags where
  toJson f := .obj
    [("is_holiday", toJson f.isHoliday),
     ("is_sunday", toJson f.isSunday),
     ("is_working_day", toJson f.isWorkingDay)]
  ofJson? := Record.ofJson? do
    let isHoliday ← field "is_holiday"
    let isSunday ← field "is_sunday"
    let isWorkingDay ← field "is_working_day"
    pure { isHoliday, isSunday, isWorkingDay }

instance : JsonForm Diagnostic where
  toJson d := .obj
    [("code", toJson d.code), ("message", toJson d.message), ("date", toJson d.date)]
  ofJson? := Record.ofJson? do
    let code ← field "code"
    let message ← field "message"
    let date ← field? "date"
    pure { code, message, date }

instance : JsonForm DayPay where
  toJson p := .obj
    [("date", toJson p.date), ("multiplier", toJson p.multiplier), ("amount", toJson p.amount)]
  ofJson? := Record.ofJson? do
    let date ← field "date"
    let multiplier ← field "multiplier"
    let amount ← field "amount"
    pure { date, multiplier, amount }

instance : JsonForm BasicPay where
  toJson p := .obj
    [("daily_rate", toJson p.dailyRate), ("days", toJson p.days), ("amount", toJson p.amount)]
  ofJson? := Record.ofJson? do
    let dailyRate ← field "daily_rate"
    let days ← field "days"
    let amount ← field "amount"
    pure { dailyRate, days, amount }

instance : JsonForm RestDayWeek where
  toJson w := .obj
    [("monday", toJson w.monday),
     ("required_days", toJson w.requiredDays),
     ("attended_days", toJson w.attendedDays),
     ("missing_days", toJson w.missingDays),
     ("complete", toJson w.complete)]
  ofJson? := Record.ofJson? do
    let monday ← field "monday"
    let requiredDays ← field "required_days"
    let attendedDays ← field "attended_days"
    let missingDays ← field "missing_days"
    let complete ← field "complete"
    pure { monday, requiredDays, attendedDays, missingDays, complete }

instance : JsonForm RestDaySummary where
  toJson s := .obj
    [("weeks", toJson s.weeks),
     ("complete_weeks", toJson s.completeWeeks),
     ("bonus", toJson s.bonus)]
  ofJson? := Record.ofJson? do
    let weeks ← field "weeks"
    let completeWeeks ← field "complete_weeks"
    let bonus ← field "bonus"
    pure { weeks, completeWeeks, bonus }

instance : JsonForm PieceworkDay where
  toJson d := .obj
    [("date", toJson d.date),
     ("productivity_count", toJson d.count),
     ("min_task_requirement", toJson d.minimum),
     ("productivity_percent", toJson d.percent),
     ("excess_units", toJson d.excessUnits),
     ("excess_pay", toJson d.excessPay)]
  ofJson? := Record.ofJson? do
    let date ← field "date"
    let count ← field "productivity_count"
    let minimum ← field "min_task_requirement"
    let percent ← field "productivity_percent"
    let excessUnits ← field "excess_units"
    let excessPay ← field "excess_pay"
    pure { date, count, minimum, percent, excessUnits, excessPay }

instance : JsonForm PieceworkSummary where
  toJson s := .obj
    [("days", toJson s.days),
     ("score", toJson s.score),
     ("total_excess_pay", toJson s.totalExcessPay),
     ("diagnostics", toJson s.diagnostics)]
  ofJson? := Record.ofJson? do
    let days ← field "days"
    let score ← field? "score"
    let totalExcessPay ← field "total_excess_pay"
    let diagnostics ← field "diagnostics"
    pure { days, score, totalExcessPay, diagnostics }

end FieldWages
