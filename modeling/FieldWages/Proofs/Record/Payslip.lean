import FieldWages.Proofs.Payroll
import FieldWages.Proofs.Record
import FieldWages.Proofs.Sample
import FieldWages.Record.Payslip

/-!
# Payslips read back

The records of the input and of a payslip are read from their forms as they were
written but for the minus signs of zeros, which `unsignZeros` takes off each of them.
Each is nested so deep as its fields are and one level more; what the steps of a
computed detail read and wrote is flat, so the detail itself is nested five levels
deep at most.

* `Employee.readAs`, …, `IssuedDetail.readAs`: the reader of every record finds its
  fields in their order;
* `ConceptRun.within_steps`: the steps of a run are nested two levels deep;
* `Payroll.records_restored`: records are read from their texts.
-/

namespace FieldWages

open JsonForm Record

/-! ## Records of the input -/

variable {d : ℕ}

theorem readAs_optionString : ReadAs (@id (Option String)) :=
  readAs_string.option_id fun _ h => by cases h

theorem readAs_optionUInt32 : ReadAs (@id (Option UInt32)) :=
  readAs_uint32.option_id fun _ h => by cases h

theorem readAs_optionDate : ReadAs (@id (Option Date)) :=
  readAs_date.option_id fun _ h => by cases h

theorem readAs_optionTimeOfDay : ReadAs (@id (Option TimeOfDay)) :=
  readAs_timeOfDay.option_id fun _ h => by cases h

theorem readAs_optionDecimal : ReadAs (Option.map Decimal.unsignZero) :=
  readAs_decimal.option fun _ h => by cases h

namespace Employee

/-- An employee without minus signs of zeros. -/
def unsignZeros (e : Employee) : Employee :=
  { e with monthlySalary := e.monthlySalary.map Decimal.unsignZero }

theorem readAs : ReadAs unsignZeros := fun _ =>
  Finds.ofJson?_obj <|
    (finds_field rfl readAs_string).bind <|
    (finds_fieldOr _ rfl readAs_string).bind <|
    (finds_fieldOr _ rfl readAs_optionDecimal).bind <|
    (finds_fieldOr _ rfl readAs_optionString).bind <|
    (finds_fieldOr _ rfl readAs_optionString).bind <|
    (finds_fieldOr _ rfl readAs_uint32).bind <|
    finds_pure _

theorem within (e : Employee) : (toJson e).Within (d + 1) := .obj (by simp)

end Employee

namespace AttendanceEntry

/-- An entry without minus signs of zeros. -/
def unsignZeros (e : AttendanceEntry) : AttendanceEntry :=
  { e with paidHours := e.paidHours.map Decimal.unsignZero }

theorem readAs : ReadAs unsignZeros := fun _ =>
  Finds.ofJson?_obj <|
    (finds_field rfl readAs_string).bind <|
    (finds_field rfl readAs_string).bind <|
    (finds_field rfl readAs_dateTime).bind <|
    (finds_fieldOr _ rfl readAs_optionTimeOfDay).bind <|
    (finds_fieldOr _ rfl readAs_optionTimeOfDay).bind <|
    (finds_fieldOr _ rfl readAs_optionDecimal).bind <|
    (finds_fieldOr _ rfl readAs_optionUInt32).bind <|
    (finds_fieldOr _ rfl readAs_optionString).bind <|
    finds_pure _

theorem within (e : AttendanceEntry) : (toJson e).Within (d + 1) := .obj (by simp)

end AttendanceEntry

namespace Labor

/-- A labor without minus signs of zeros. -/
def unsignZeros (l : Labor) : Labor :=
  { l with basePrice := l.basePrice.map Decimal.unsignZero }

theorem readAs : ReadAs unsignZeros := fun _ =>
  Finds.ofJson?_obj <|
    (finds_field rfl readAs_string).bind <|
    (finds_field rfl readAs_string).bind <|
    (finds_fieldOr _ rfl readAs_bool).bind <|
    (finds_fieldOr _ rfl readAs_optionUInt32).bind <|
    (finds_fieldOr _ rfl readAs_optionDecimal).bind <|
    finds_pure _

theorem within (l : Labor) : (toJson l).Within (d + 1) := .obj (by simp)

end Labor

namespace Concept

/-- A concept without minus signs of zeros. -/
def unsignZeros (c : Concept) : Concept :=
  { c with value := c.value.map Decimal.unsignZero }

theorem readAs : ReadAs unsignZeros := fun _ =>
  Finds.ofJson?_obj <|
    (finds_field rfl readAs_string).bind <|
    (finds_field rfl readAs_category).bind <|
    (finds_fieldOr _ rfl readAs_optionDecimal).bind <|
    (finds_fieldOr _ rfl readAs_optionString).bind <|
    finds_pure _

theorem within (c : Concept) : (toJson c).Within (d + 1) := .obj (by simp)

end Concept

namespace OvertimeRates

/-- Overtime rates without minus signs of zeros. -/
def unsignZeros (r : OvertimeRates) : OvertimeRates where
  tier1Hours := r.tier1Hours.unsignZero
  tier1Surcharge := r.tier1Surcharge.unsignZero
  tier2Surcharge := r.tier2Surcharge.unsignZero
  holidaySurcharge := r.holidaySurcharge.unsignZero
  nightSurcharge := r.nightSurcharge.unsignZero

theorem readAs : ReadAs unsignZeros := fun _ =>
  Finds.ofJson?_obj <|
    (finds_fieldOr _ rfl readAs_decimal).bind <|
    (finds_fieldOr _ rfl readAs_decimal).bind <|
    (finds_fieldOr _ rfl readAs_decimal).bind <|
    (finds_fieldOr _ rfl readAs_decimal).bind <|
    (finds_fieldOr _ rfl readAs_decimal).bind <|
    finds_pure _

theorem within (r : OvertimeRates) : (toJson r).Within (d + 1) := .obj (by simp)

end OvertimeRates

namespace Settings

/-- Settings without minus signs of zeros. -/
def unsignZeros (s : Settings) : Settings :=
  { s with
    dailyNormalHours := s.dailyNormalHours.unsignZero
    overtime := s.overtime.unsignZeros }

theorem readAs : ReadAs unsignZeros := fun _ =>
  Finds.ofJson?_obj <|
    (finds_fieldOr _ rfl readAs_decimal).bind <|
    (finds_fieldOr _ rfl readAs_uint32).bind <|
    (finds_fieldOr _ rfl OvertimeRates.readAs).bind <|
    (finds_fieldOr _ rfl readAs_uint64).bind <|
    finds_pure _

theorem within (s : Settings) : (toJson s).Within (d + 2) :=
  .obj (by simp [OvertimeRates.within])

end Settings

namespace Period

theorem readAs : ReadAs (@id Period) := fun _ =>
  Finds.ofJson?_obj <|
    (finds_field rfl readAs_date).bind <|
    (finds_field rfl readAs_date).bind <|
    finds_pure _

theorem within (p : Period) : (toJson p).Within (d + 1) := .obj (by simp)

end Period

namespace Parameters

/-- Parameters without minus signs of zeros. -/
def unsignZeros (p : Parameters) : Parameters :=
  { p with
    overtime := p.overtime.unsignZeros
    dailyNormalHours := p.dailyNormalHours.unsignZero }

theorem readAs : ReadAs unsignZeros := fun _ =>
  Finds.ofJson?_obj <|
    (finds_field rfl Period.readAs).bind <|
    (finds_field rfl readAs_uint32).bind <|
    (finds_field rfl readAs_uint32).bind <|
    (finds_field rfl OvertimeRates.readAs).bind <|
    (finds_field rfl readAs_decimal).bind <|
    (finds_field rfl readAs_uint32).bind <|
    finds_pure _

theorem within (p : Parameters) : (toJson p).Within (d + 2) :=
  .obj (by simp [Period.within, OvertimeRates.within])

end Parameters

/-! ## Records of a payslip -/

namespace HourBreakdown

/-- A breakdown without minus signs of zeros. -/
def unsignZeros (h : HourBreakdown) : HourBreakdown where
  normal := h.normal.unsignZero
  overtimeTier1 := h.overtimeTier1.unsignZero
  overtimeTier2 := h.overtimeTier2.unsignZero
  holidaySunday := h.holidaySunday.unsignZero
  holidaySundayExtra := h.holidaySundayExtra.unsignZero
  night := h.night.unsignZero
  total := h.total.unsignZero

theorem readAs : ReadAs unsignZeros := fun _ =>
  Finds.ofJson?_obj <|
    (finds_field rfl readAs_decimal).bind <|
    (finds_field rfl readAs_decimal).bind <|
    (finds_field rfl readAs_decimal).bind <|
    (finds_field rfl readAs_decimal).bind <|
    (finds_field rfl readAs_decimal).bind <|
    (finds_field rfl readAs_decimal).bind <|
    (finds_field rfl readAs_decimal).bind <|
    finds_pure _

theorem within (h : HourBreakdown) : (toJson h).Within (d + 1) := .obj (by simp)

end HourBreakdown

namespace ConceptLine

/-- A line without minus signs of zeros. -/
def unsignZeros (l : ConceptLine) : ConceptLine :=
  { l with
    configuredValue := l.configuredValue.map Decimal.unsignZero
    amount := l.amount.unsignZero }

theorem readAs : ReadAs unsignZeros := fun _ =>
  Finds.ofJson?_obj <|
    (finds_field rfl readAs_string).bind <|
    (finds_field rfl readAs_category).bind <|
    (finds_field? rfl readAs_optionDecimal).bind <|
    (finds_field rfl readAs_decimal).bind <|
    finds_pure _

theorem within (l : ConceptLine) : (toJson l).Within (d + 1) := .obj (by simp)

end ConceptLine

namespace DayDetail

/-- A day worked without minus signs of zeros. -/
def unsignZeros (d : DayDetail) : DayDetail :=
  { d with
    hours := d.hours.unsignZero
    nightHours := d.nightHours.unsignZero
    productivityPercent := d.productivityPercent.map Decimal.unsignZero }

theorem readAs : ReadAs unsignZeros := fun _ =>
  Finds.ofJson?_obj <|
    (finds_field rfl readAs_date).bind <|
    (finds_field rfl readAs_weekday).bind <|
    (finds_field rfl readAs_decimal).bind <|
    (finds_field rfl readAs_decimal).bind <|
    (finds_field? rfl readAs_optionDecimal).bind <|
    (finds_field rfl readAs_bool).bind <|
    (finds_field rfl readAs_bool).bind <|
    finds_pure _

theorem within (day : DayDetail) : (toJson day).Within (d + 1) := .obj (by simp)

end DayDetail

namespace Diagnostic

theorem readAs : ReadAs (@id Diagnostic) := fun _ =>
  Finds.ofJson?_obj <|
    (finds_field rfl readAs_string).bind <|
    (finds_field rfl readAs_string).bind <|
    (finds_field? rfl readAs_optionDate).bind <|
    finds_pure _

theorem within (g : Diagnostic) : (toJson g).Within (d + 1) := .obj (by simp)

end Diagnostic

namespace AuditStep

theorem readAs : ReadAs (@id AuditStep) := fun _ =>
  Finds.ofJson?_obj <|
    (finds_field rfl readAs_uint32).bind <|
    (finds_field rfl readAs_string).bind <|
    (finds_field rfl readAs_category).bind <|
    (finds_field rfl readAs_json).bind <|
    (finds_field rfl readAs_json).bind <|
    (finds_field rfl readAs_string).bind <|
    finds_pure _

/-- What a step reads and writes may be any value; its form is nested one deeper. -/
theorem within {s : AuditStep} (hinput : s.input.Within d) (houtput : s.output.Within d) :
    (toJson s).Within (d + 1) := .obj (by simp [hinput, houtput])

end AuditStep

theorem AuditTrace.readAs : ReadAs (@id AuditTrace) := fun _ =>
  Finds.ofJson?_obj <|
    (finds_field rfl AuditStep.readAs.list_id).bind <|
    (finds_field rfl Diagnostic.readAs.list_id).bind <|
    (finds_field rfl readAs_uint64).bind <|
    finds_pure _

theorem readAs_uuid : ReadAs (@id Uuid) := fun u => (textOf?_str ..).trans u.ofText?_toText

theorem readAs_timestamp : ReadAs (@id Timestamp) := fun t =>
  (textOf?_str ..).trans t.ofText?_toText

namespace PayrollDetail

/-- A detail without minus signs of zeros. The steps show their amounts as texts. -/
def unsignZeros (d : PayrollDetail) : PayrollDetail :=
  { d with
    concepts := d.concepts.map ConceptLine.unsignZeros
    hours := d.hours.unsignZeros
    productivityScore := d.productivityScore.map Decimal.unsignZero
    totalIncome := d.totalIncome.unsignZero
    totalDeductions := d.totalDeductions.unsignZero
    totalEmployerContributions := d.totalEmployerContributions.unsignZero
    netPay := d.netPay.unsignZero
    dayDetails := d.dayDetails.map DayDetail.unsignZeros }

end PayrollDetail

namespace IssuedDetail

/-- An issued detail without minus signs of zeros. -/
def unsignZeros (i : IssuedDetail) : IssuedDetail := { i with detail := i.detail.unsignZeros }

theorem readAs : ReadAs unsignZeros := fun _ =>
  Finds.ofJson?_obj <|
    (finds_field rfl readAs_uuid).bind <|
    (finds_field rfl readAs_timestamp).bind <|
    (finds_field rfl readAs_string).bind <|
    (finds_field rfl readAs_string).bind <|
    (finds_field rfl Period.readAs).bind <|
    (finds_field rfl ConceptLine.readAs.list).bind <|
    (finds_field rfl HourBreakdown.readAs).bind <|
    (finds_field rfl readAs_uint32).bind <|
    (finds_field rfl readAs_uint32).bind <|
    (finds_field? rfl readAs_optionDecimal).bind <|
    (finds_field rfl readAs_decimal).bind <|
    (finds_field rfl readAs_decimal).bind <|
    (finds_field rfl readAs_decimal).bind <|
    (finds_field rfl readAs_decimal).bind <|
    (finds_field rfl DayDetail.readAs.list).bind <|
    (finds_field rfl AuditTrace.readAs).bind <|
    finds_pure _

theorem within {i : IssuedDetail} (hsteps : ∀ s ∈ i.detail.steps, (toJson s).Within (d + 1)) :
    (toJson i).Within (d + 4) := by
  let trace : AuditTrace := ⟨i.detail.steps, i.detail.diagnostics, i.durationMicros⟩
  have htrace : (toJson trace).Within (d + 3) :=
    .obj (by simp [trace, within_list hsteps, within_list fun g _ => Diagnostic.within g])
  have hmembers : ∀ m ∈ i.detail.members, m.2.Within (d + 3) := by
    simp [PayrollDetail.members, Period.within, HourBreakdown.within,
      within_list fun l _ => ConceptLine.within l, within_list fun day _ => DayDetail.within day]
  refine .obj (List.forall_mem_cons.2 ⟨.str _, List.forall_mem_cons.2 ⟨.str _, ?_⟩⟩)
  exact List.forall_mem_append.2 ⟨hmembers, List.forall_mem_singleton.2 htrace⟩

end IssuedDetail

namespace ConceptRun

theorem within_shown (a : Decimal) : (shown a).Within d := .str _

theorem within_stepInput (ctx : PayContext) (c : Concept) : (stepInput ctx c).Within 1 := by
  cases hvalue : c.value with
  | none => exact .obj (by simp [hvalue, within_shown, Json.Within.null])
  | some v => exact .obj (by simp [hvalue, within_shown])

theorem within_stepOutput (ctx : PayContext) (amount : Decimal) :
    (stepOutput ctx amount).Within 1 := .obj (by simp [within_shown])

/-- The steps of a run show nothing that is nested deeply. -/
theorem within_steps {ctx : PayContext} {registry : Registry} {run : ConceptRun}
    (h : ofContext ctx registry = .ok run) : ∀ s ∈ run.steps, (toJson s).Within 2 := by
  refine foldlM_invariant (P := fun run => ∀ s ∈ run.steps, (toJson s).Within 2) h
    (List.forall_mem_nil _) fun run c run' _ hrun hnext => ?_
  rcases next_cases hnext with ⟨-, -, rfl⟩ | ⟨-, -, rfl⟩ | ⟨-, _, o, -, -, henter⟩
  · obtain ⟨g, b, he⟩ := run.skipRetirement_eq
    rwa [he]
  · exact hrun
  · obtain ⟨after, g, -, rfl⟩ := enter_eq_ok henter
    refine List.forall_mem_append.2 ⟨hrun, List.forall_mem_singleton.2 ?_⟩
    exact AuditStep.within (within_stepInput ..) (within_stepOutput ..)

end ConceptRun

/-! ## Texts -/

/-- What is written as a text, and is not nested too deeply, is read from the text. -/
theorem JsonForm.ReadAs.ofText? {α : Type} [JsonForm α] {f : α → α} (h : ReadAs f) {a : α}
    (ha : (toJson a).Within 127) : (Json.ofText? (toJson a).toText).bind ofJson? = some (f a) := by
  rw [Json.ofText?_toText ha, Option.bind_some, h a]

namespace Payroll

/-- Employees, attendance, labors, concepts, settings and parameters, and every detail
    that is computed and then issued, are read from their texts as they were written:
    what is missing is missing again, and every decimal has its mantissa and its scale
    again. Only a zero loses a minus sign, which no comparison of decimals sees. -/
theorem records_restored :
    (∀ e : Employee, (Json.ofText? (toJson e).toText).bind ofJson? = some e.unsignZeros) ∧
    (∀ e : AttendanceEntry, (Json.ofText? (toJson e).toText).bind ofJson? = some e.unsignZeros) ∧
    (∀ l : Labor, (Json.ofText? (toJson l).toText).bind ofJson? = some l.unsignZeros) ∧
    (∀ c : Concept, (Json.ofText? (toJson c).toText).bind ofJson? = some c.unsignZeros) ∧
    (∀ s : Settings, (Json.ofText? (toJson s).toText).bind ofJson? = some s.unsignZeros) ∧
    (∀ p : Parameters, (Json.ofText? (toJson p).toText).bind ofJson? = some p.unsignZeros) ∧
    ∀ employee attendance inputs registry detail,
      compute employee attendance inputs registry = .ok detail → ∀ id timestamp duration,
        let issued : IssuedDetail := ⟨id, timestamp, detail, duration⟩
        (Json.ofText? (toJson issued).toText).bind ofJson? = some issued.unsignZeros := by
  refine ⟨fun e => Employee.readAs.ofText? e.within,
    fun e => AttendanceEntry.readAs.ofText? e.within, fun l => Labor.readAs.ofText? l.within,
    fun c => Concept.readAs.ofText? c.within, fun s => Settings.readAs.ofText? s.within,
    fun p => Parameters.readAs.ofText? p.within, ?_⟩
  intro employee attendance inputs registry detail h id timestamp duration
  obtain ⟨-, ctx, run, -, hrun, h⟩ := compute_eq_ok_iff.1 h
  obtain ⟨net, -, h⟩ := bind_eq_ok.1 h
  rw [pure_eq_ok] at h
  subst h
  have hsteps := ConceptRun.within_steps hrun
  exact IssuedDetail.readAs.ofText? ((IssuedDetail.within hsteps).mono (by decide))

/-- The detail of a day with a bonus of 12.5. -/
theorem records_restored_bonus : ∃ detail,
    compute .plain [.ofHours 2 800]
      { PayrollInputs.plain (.between 2 8) 6 with
        concepts := [.plain "BONUS" .income (Decimal.ofParts? 125 1)] }
      ConceptRun.bonusRegistry = .ok detail ∧
    detail.netPay = { mantissa := 125, scale := 1 } ∧
    ∀ id timestamp duration,
      let issued : IssuedDetail := ⟨id, timestamp, detail, duration⟩
      (Json.ofText? (toJson issued).toText).bind ofJson? = some issued.unsignZeros := by
  have hdetail : (compute .plain [.ofHours 2 800]
      { PayrollInputs.plain (.between 2 8) 6 with
        concepts := [.plain "BONUS" .income (Decimal.ofParts? 125 1)] }
      ConceptRun.bonusRegistry).map (·.netPay) = .ok { mantissa := 125, scale := 1 } := by
    decide +kernel
  obtain ⟨detail, hdetail, hnet⟩ := map_eq_ok.1 hdetail
  exact ⟨detail, hdetail, hnet, records_restored.2.2.2.2.2.2 _ _ _ _ detail hdetail⟩

end Payroll

end FieldWages
