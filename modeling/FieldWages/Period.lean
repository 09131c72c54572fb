import FieldWages.Date.Basic

/-!
# Pay periods

A *period* is a range of dates, both ends included. A week runs from Monday to
Saturday and belongs to the period that contains its Saturday, so that
consecutive periods share no week and lose none. A week may begin before its
period does; the attendance that counts for it starts with its Monday
(`Period.windowStart`).
-/

namespace FieldWages

/-- The dates from `start` to `stop`, both included. -/
structure Period where
  start : Date
  stop : Date
deriving DecidableEq, Repr

/-- A week from Monday to Saturday. -/
structure Week where
  monday : Date
  saturday : Date
deriving DecidableEq, Repr

/-- The six days of a week. -/
def Week.days (w : Week) : List Date := w.monday.through w.saturday

namespace Period

/-- Whether a date is in the period. -/
def contains (p : Period) (d : Date) : Bool := p.start ≤ d && d ≤ p.stop

/-- The dates of the period in order. -/
def days (p : Period) : List Date := p.start.through p.stop

/-- How many days after the start of the period its first Saturday comes. -/
def daysToSaturday (p : Period) : Nat := (12 - p.start.daysFromMonday) % 7

/-- So many consecutive weeks, the first with the given Saturday. -/
def weeksFrom (saturday : Date) : Nat → Except Fault (List Week)
  | 0 => .ok []
  | n + 1 => do
    let monday ← saturday.earlier 5
    let next ← saturday.later 7
    let weeks ← weeksFrom next n
    pure (⟨monday, saturday⟩ :: weeks)

/-- The weeks whose Saturday is in the period, in order. The Saturday behind the
    last of them must be a date as well. -/
def weeks (p : Period) : Except Fault (List Week) := do
  let saturday ← p.start.later p.daysToSaturday
  weeksFrom saturday ((p.stop.serial - saturday.serial + 7) / 7).toNat

/-- The first date whose attendance counts for a week of the period. -/
def windowStart (p : Period) : Except Fault Date := do
  let weeks ← p.weeks
  pure (match weeks with
    | [] => p.start
    | w :: _ => w.monday.min p.start)

end Period

end FieldWages
