import FieldWages.Proofs.Erasure.Data
import FieldWages.Proofs.OutOfRange

/-!
# Missing data

Much of what is known of an employee, their attendance, the labors, the calendar and the
plan is optional. What is missing is done without: by a steady registry, an input fails only
for what it is refused for and for what gets out of range (`Payroll.compute_fails_iff`), and
none of the checks fails for want of something. So to erase data never turns a success into a
failure, short of an amount that gets out of range. Counts have room if they had it before: a
calculator can only miss it by counting where it has not counted so far, which no calculator
of the standard registry does (`Registry.KeepsRoom`).

* `Registry.keepsRoom_standard`, `Registry.Total.keepsRoom`: registries that do not;
* `ConceptRun.ofContext_stopsBy_of_erasesTo`, `Payroll.context_stopsBy_of_erasesTo`: what can
  stop a calculation with data erased.
-/

namespace FieldWages

/-! ## Concepts with data erased -/

/-- Whether a context is what another one becomes with data erased: employee, parameters and
    concepts are the same but for those, and what is counted has room if it had it before. -/
structure PayContext.ErasesTo (ctx ctx' : PayContext) : Prop where
  employee : ctx.employee.ErasesTo ctx'.employee
  parameters : ctx'.parameters = ctx.parameters
  concepts : List.Forall₂ Concept.ErasesTo ctx.concepts ctx'.concepts
  units : ∃ n, ctx'.basicPay.units = .ok n
  excessUnits : (∃ n, ctx.piecework.excessUnits = .ok n) → ∃ n, ctx'.piecework.excessUnits = .ok n

theorem PayContext.ErasesTo.of_sameBasis {a b a' b' : PayContext} (h : a.ErasesTo a')
    (hab : a.SameBasis b) (hab' : a'.SameBasis b') : b.ErasesTo b' := by
  obtain ⟨_, _, _, _, rfl⟩ := hab
  obtain ⟨_, _, _, _, rfl⟩ := hab'
  exact ⟨h.employee, h.parameters, h.concepts, h.units, h.excessUnits⟩

/-- Who pays into a retirement concept with data erased pays into it. -/
theorem Employee.ErasesTo.contributesTo {e e' : Employee} (h : e.ErasesTo e') {code : String}
    (hcode : e'.contributesTo code) : e.contributesTo code := by
  obtain ⟨scheme, hscheme, hsame⟩ := (Option.any_eq_true _ _).1 hcode
  exact (Option.any_eq_true _ _).2 ⟨scheme, h.retirementScheme.mem hscheme, hsame⟩

/-- Whether a calculator that finds room for its counts finds it with data erased as well. -/
def Calculator.KeepsRoom (calculator : Calculator) : Prop :=
  ∀ ctx c ctx' c', ctx.ErasesTo ctx' → c.ErasesTo c' → (∃ o, calculator ctx c = .ok o) →
    calculator ctx' c' ≠ .error .countOverflow

/-- The context without the dates of its piecework. -/
def PayContext.withoutPieces (ctx : PayContext) : PayContext :=
  { ctx with piecework := { ctx.piecework with days := .empty } }

namespace Calculator

/-- A calculator that counts no pieces has room for what it counts. -/
theorem keepsRoom_of_ends {calculator : Calculator}
    (hends : ∀ ctx c, Ends ctx c (calculator ctx c))
    (hpieces : ∀ ctx c, calculator ctx.withoutPieces c = calculator ctx c) :
    calculator.KeepsRoom := by
  intro ctx c ctx' c' h _ _ herror
  -- Without pieces only dates are counted, which always have room.
  have hfit : ctx'.withoutPieces.CountsFit := ⟨h.units, 0, rfl⟩
  have hends' := hends ctx'.withoutPieces c'
  rw [hpieces, herror] at hends'
  cases hends' with
  | overflow hoverflow => exact hoverflow
  | noRoom hnot => exact hnot hfit

/-- Pieces are counted whatever is known of the rest. -/
theorem keepsRoom_pieceworkExcess : KeepsRoom pieceworkExcess := by
  rintro ctx c ctx' c' h - ⟨o, ho⟩ herror
  obtain ⟨n, hn, -⟩ := bind_eq_ok.1 ho
  obtain ⟨n', hn'⟩ := h.excessUnits ⟨n, hn⟩
  rw [pieceworkExcess, hn'] at herror
  cases herror

end Calculator

namespace Registry

/-- Whether every calculator of a registry keeps its room. -/
def KeepsRoom (r : Registry) : Prop :=
  ∀ code calculator, r.get? code = some calculator → calculator.KeepsRoom

theorem keepsRoom_standard : standard.KeepsRoom := by
  have hentries : ∀ e ∈ standardEntries, e.2 = Calculator.pieceworkExcess ∨
      ∀ ctx c, e.2 ctx.withoutPieces c = e.2 ctx c := by
    rw [← List.forall_iff_forall_mem]
    simp only [standardEntries, List.Forall]
    exact ⟨.inr fun _ _ => rfl, .inr fun _ _ => rfl, .inr fun _ _ => rfl, .inr fun _ _ => rfl,
      .inr fun _ _ => rfl, .inr fun _ _ => rfl, .inl trivial, .inr fun _ _ => rfl,
      .inr fun _ _ => rfl, .inr fun _ _ => rfl, .inr fun _ _ => rfl, .inr fun _ _ => rfl,
      .inr fun _ _ => rfl, .inr fun _ _ => rfl, .inr fun _ _ => rfl, .inr fun _ _ => rfl,
      .inr fun _ _ => rfl, .inr fun _ _ => rfl, .inr fun _ _ => rfl, .inr fun _ _ => rfl⟩
  intro code calculator hget
  obtain ⟨e, he, rfl⟩ := exists_of_get?_standard hget
  rcases hentries e he with hexcess | hpieces
  · rw [hexcess]
    exact Calculator.keepsRoom_pieceworkExcess
  · exact Calculator.keepsRoom_of_ends (ends_standard hget) hpieces

/-- Calculators that never give up keep their room. -/
theorem Total.keepsRoom {r : Registry} (hr : r.Total) : r.KeepsRoom := by
  intro code calculator hget ctx c ctx' c' _ _ _ herror
  obtain ⟨o, ho⟩ := hr code calculator hget ctx' c'
  cases ho.symm.trans herror

end Registry

namespace ConceptRun

variable {registry : Registry} {ctx ctx' : PayContext}

/-- A concept that was got through stops a run only by an amount with data erased. -/
theorem next_stopsBy_of_erasesTo (hr : registry.Steady) (hkeeps : registry.KeepsRoom)
    {run run₁ run' : ConceptRun} {c c' : Concept} (h : run.context.ErasesTo run'.context)
    (hc : c.ErasesTo c') (hnext : next registry run c = .ok run₁) :
    StopsBy Fault.IsOverflow (next registry run' c') := by
  intro f hf
  rcases next_stopsBy hr run' c' f hf with hoverflow | ⟨rfl, -⟩
  · exact hoverflow
  have hcode : c'.code = c.code := (congrArg Concept.code hc.others :)
  have hcategory : c'.category = c.category := (congrArg Concept.category hc.others :)
  obtain ⟨hcalculated, calculator, hget, hstop⟩ := next_eq_error hf
  rw [hcode] at hcalculated hget
  rw [hcategory] at hcalculated
  rcases next_cases hnext with ⟨hretirement, hnot, -⟩ | ⟨-, hnone, -⟩ | ⟨-, _, o, hget', ho, -⟩
  · -- Who did not pay into a scheme does not pay into it now.
    refine absurd ⟨hretirement, ?_⟩ hcalculated
    simpa using mt h.employee.contributesTo hnot
  · cases hnone.symm.trans hget
  · -- The calculator had room for its counts, and an amount is no count.
    cases hget.symm.trans hget'
    rcases hstop with hstop | ⟨o', -, hstop⟩
    · exact absurd hstop (hkeeps c.code calculator hget _ c _ c' h hc ⟨o, ho⟩)
    · cases PayContext.accumulate_eq_error hstop

/-- A run that came to its end is stopped only by an amount with data erased. -/
theorem ofContext_stopsBy_of_erasesTo (hr : registry.Steady) (hkeeps : registry.KeepsRoom)
    (h : ctx.ErasesTo ctx') {run : ConceptRun} (hrun : ofContext ctx registry = .ok run) :
    StopsBy Fault.IsOverflow (ofContext ctx' registry) := by
  refine .foldlM_of_ok (R := fun run run' => run.context.ErasesTo run'.context) h.concepts
    (fun hst hc hnext => ⟨next_stopsBy_of_erasesTo hr hkeeps hst hc hnext, fun t ht => ?_⟩) h hrun
  exact hst.of_sameBasis (sameBasis_next hnext) (sameBasis_next ht)

end ConceptRun

/-! ## Calculations with data erased -/

namespace Payroll

variable {employee employee' : Employee} {attendance attendance' : List AttendanceEntry}
  {inputs inputs' : PayrollInputs} {registry : Registry}

/-- An entry that is refused with data erased is refused with them. -/
theorem exists_refused_of_erasesTo
    (ha : List.Forall₂ AttendanceEntry.ErasesTo attendance attendance') {id : String}
    (h : ∃ e ∈ attendance', e.employeeId ≠ id ∨ ∃ hours ∈ e.paidHours, hours < .zero) :
    ∃ e ∈ attendance, e.employeeId ≠ id ∨ ∃ hours ∈ e.paidHours, hours < .zero := by
  induction ha with
  | nil => exact h
  | @cons e e' es es' he _ ih =>
    rw [List.exists_mem_cons_iff] at h ⊢
    refine h.imp (.imp (fun hid => ?_) ?_) ih
    · rwa [(congrArg AttendanceEntry.employeeId he.others :)] at hid
    · exact fun ⟨hours, hhours, hneg⟩ => ⟨hours, he.paidHours.mem hhours, hneg⟩

/-- No check fails for want of something. -/
theorem Unacceptable.of_erasesTo {q : Parameters} (he : employee.ErasesTo employee')
    (ha : List.Forall₂ AttendanceEntry.ErasesTo attendance attendance')
    (h : Unacceptable employee' attendance' q) : Unacceptable employee attendance q := by
  have hid : employee'.id = employee.id := (congrArg Employee.id he.others :)
  rw [Unacceptable, hid] at h
  refine h.imp_right (.imp_right (.imp_right (.imp ?_ (exists_refused_of_erasesTo ha))))
  rintro ⟨salary, hsalary, hneg⟩
  exact ⟨salary, he.monthlySalary.mem hsalary, hneg⟩

/-- An input fails by a refusal or by what is out of range. -/
theorem fails_cases (hr : registry.Steady) {e : Failure}
    (h : compute employee attendance inputs registry = .error e) :
    (∃ r, e = .refused r ∧ RefusedBy employee attendance inputs.parameters r) ∨
      ∃ f, e = .faulted f ∧ OutOfRange attendance inputs.parameters.period f := by
  cases e with
  | refused r => exact .inl ⟨r, rfl, compute_eq_refused_iff.1 h⟩
  | faulted f => exact .inr ⟨f, rfl, outOfRange_of_compute hr h⟩

/-- The weeks of a period for which there is a detail are found. -/
theorem exists_weeks_of_compute {detail : PayrollDetail}
    (h : compute employee attendance inputs registry = .ok detail) :
    ∃ ws, inputs.parameters.period.weeks = .ok ws := by
  obtain ⟨-, ctx, run, hctx, -⟩ := compute_eq_ok_iff.1 h
  obtain ⟨first, hfirst, -⟩ := (prepared_of_context hctx).restDays
  obtain ⟨ws, hws, -⟩ := bind_eq_ok.1 hfirst
  exact ⟨ws, hws⟩

section

variable (he : employee.ErasesTo employee')
  (ha : List.Forall₂ AttendanceEntry.ErasesTo attendance attendance') (hi : inputs.ErasesTo inputs')

include ha hi

/-- The stages of an input that has a detail are stopped only by an amount with data erased. -/
theorem context_stopsBy_of_erasesTo {detail : PayrollDetail}
    (h : compute employee attendance inputs registry = .ok detail)
    (haccepted : refusal? employee' attendance' inputs'.parameters = none) :
    StopsBy Fault.IsOverflow (context employee' attendance' inputs') := by
  obtain ⟨ws, hws⟩ := exists_weeks_of_compute h
  obtain ⟨-, ctx, -, hctx, -⟩ := compute_eq_ok_iff.1 h
  obtain ⟨found, hfound, -⟩ := (prepared_of_context hctx).piecework
  refine context_stopsBy_of_piecework haccepted (fun _ hf => hf) ?_ ?_
  · -- The weeks are those of the period, which nothing is erased from.
    rw [hi.parameters, hws]
    nofun
  · rw [hi.parameters]
    exact PieceworkSummary.ofAttendance_stopsBy_of_erasesTo hi.labors ha hfound

include he

theorem erasesTo_of_context {ctx ctx' : PayContext}
    (hctx : context employee attendance inputs = .ok ctx)
    (hctx' : context employee' attendance' inputs' = .ok ctx') : ctx.ErasesTo ctx' := by
  have hp := prepared_of_context hctx
  have hp' := prepared_of_context hctx'
  obtain ⟨found, hfound, hpiecework, -⟩ := hp.piecework
  obtain ⟨found', hfound', hpiecework', -⟩ := hp'.piecework
  rw [hi.parameters] at hfound'
  have hroom := PieceworkSummary.exists_excessUnits_of_erasesTo hi.labors ha hfound hfound'
  constructor
  · rwa [hp.employee_eq, hp'.employee_eq]
  · rw [hp.parameters_eq, hp'.parameters_eq, hi.parameters]
  · rw [hp.concepts_eq, hp'.concepts_eq]
    exact hi.concepts
  · exact exists_units_of_context hctx'
  · rw [hpiecework, hpiecework']
    exact hroom

/-- The calculation of an input that has a detail is stopped only by an amount with data
    erased, if the calculators keep their room. -/
theorem computeAccepted_stopsBy_of_erasesTo (hr : registry.Steady) (hkeeps : registry.KeepsRoom)
    {detail : PayrollDetail} (h : compute employee attendance inputs registry = .ok detail)
    (haccepted : refusal? employee' attendance' inputs'.parameters = none) :
    StopsBy Fault.IsOverflow (computeAccepted employee' attendance' inputs' registry) := by
  obtain ⟨-, ctx, run, hctx, hrun, -⟩ := compute_eq_ok_iff.1 h
  refine .bind (context_stopsBy_of_erasesTo ha hi h haccepted) fun ctx' hctx' => ?_
  have herases := erasesTo_of_context he ha hi hctx hctx'
  refine .bind (ConceptRun.ofContext_stopsBy_of_erasesTo hr hkeeps herases hrun) fun _ _ => ?_
  exact .bind (Decimal.sub_stopsBy _ _) fun _ _ => .ok _

end

/-- By a steady registry, an input is refused for the first check it does not pass, and else
    fails only by what is out of range; so if nothing is, it fails exactly if some check does. To
    erase data from an input that has a detail leaves one that has a detail, unless an amount
    gets out of range, or, by a registry that does not keep its room, a count of more than
    `2 ^ 32` entries. -/
theorem compute_fails_iff (hr : registry.Steady) (employee : Employee)
    (attendance : List AttendanceEntry) (inputs : PayrollInputs) :
    (∀ r, compute employee attendance inputs registry = .error (.refused r) ↔
      RefusedBy employee attendance inputs.parameters r) ∧
    (∀ f, compute employee attendance inputs registry = .error (.faulted f) →
      OutOfRange attendance inputs.parameters.period f) ∧
    ((∀ f, OutOfRange attendance inputs.parameters.period f →
        compute employee attendance inputs registry ≠ .error (.faulted f)) →
      ((∃ e, compute employee attendance inputs registry = .error e) ↔
        Unacceptable employee attendance inputs.parameters)) ∧
    ∀ detail employee' attendance' inputs',
      compute employee attendance inputs registry = .ok detail →
      employee.ErasesTo employee' →
      List.Forall₂ AttendanceEntry.ErasesTo attendance attendance' →
      inputs.ErasesTo inputs' →
      ∀ e, compute employee' attendance' inputs' registry = .error e →
        ∃ f, e = .faulted f ∧ f.IsOverflowOf attendance.length ∧
          (registry.KeepsRoom → f.IsOverflow) := by
  refine ⟨fun r => compute_eq_refused_iff, fun f => outOfRange_of_compute hr,
    fun hrange => ⟨?_, fun h => ?_⟩, ?_⟩
  · rintro ⟨e, he⟩
    rcases fails_cases hr he with ⟨r, -, hrefused⟩ | ⟨f, rfl, hf⟩
    · exact exists_refusedBy_iff.1 ⟨r, hrefused⟩
    · exact absurd he (hrange f hf)
  · obtain ⟨r, hrefused⟩ := exists_refusedBy_iff.2 h
    exact ⟨_, compute_eq_refused_iff.2 hrefused⟩
  · intro detail employee' attendance' inputs' hdetail hemployee hattendance hinputs e he
    rcases fails_cases hr he with ⟨r, rfl, hrefused⟩ | ⟨f, rfl, hf⟩
    · -- What is refused with data erased would be refused with them.
      rw [hinputs.parameters] at hrefused
      obtain ⟨r, hrefused⟩ := exists_refusedBy_iff.2
        ((exists_refusedBy_iff.1 ⟨r, hrefused⟩).of_erasesTo hemployee hattendance)
      exact nomatch hdetail.symm.trans (compute_eq_refused_iff.2 hrefused)
    · obtain ⟨haccepted, hstop⟩ := compute_eq_faulted_iff.1 he
      refine ⟨f, rfl, ?_, fun hkeeps => ?_⟩
      · rw [hinputs.parameters] at hf
        cases hf with
        | amount hf => exact .inl hf
        | count hlength => exact .inr ⟨rfl, hattendance.length_eq ▸ hlength⟩
        | date hf =>
          obtain ⟨ws, hws⟩ := exists_weeks_of_compute hdetail
          exact nomatch hws.symm.trans hf
      · exact computeAccepted_stopsBy_of_erasesTo hemployee hattendance hinputs hr hkeeps hdetail
          haccepted f hstop

/-- The harvest of the week with holidays, paid by the piece. -/
def harvestWeek : PayrollInputs :=
  { holidayWeek with
    labors := [("PICKING", ⟨"PICKING", "", true, some 10, some (.ofUInt32 2)⟩)]
    concepts := [.plain "BASIC_SALARY" .income none, .plain "PIECEWORK_EXCESS" .income none,
      .plain "INCOME_TAX" .deduction (some .hundred)] }

/-- The same without calendar, labors and the value of the tax. -/
def erasedWeek : PayrollInputs :=
  { harvestWeek with
    calendar := ⟨.empty⟩
    labors := []
    concepts := harvestWeek.concepts.map fun c => { c with value := none } }

theorem harvestWeek_erasesTo : harvestWeek.ErasesTo erasedWeek where
  parameters := rfl
  calendar _ := .inr rfl
  labors _ _ h := nomatch h
  concepts := by
    rw [erasedWeek, List.forall₂_map_right_iff, List.forall₂_same]
    exact fun _ _ => ⟨.inr rfl, .inl rfl, rfl⟩

/-- Of an entry of another employee and one with negative hours behind it, the first is why
    the attendance is refused. Without them there is a detail, which only an amount that is out
    of range can keep from being there without salary, count, labor and the rest. -/
theorem compute_fails_iff_harvest :
    let employee := { Employee.plain with monthlySalary := some (.ofUInt32 3000) }
    let picking := AttendanceEntry.ofUnits 2 15 "PICKING"
    let foreign := { AttendanceEntry.ofHours 3 800 with employeeId := "W-2" }
    let negative := { AttendanceEntry.ofHours 3 0 with paidHours := Decimal.ofParts? (-100) 2 }
    compute employee [picking, foreign, negative] harvestWeek .standard =
      .error (.refused (.invalidAttendance "W-1" "entry 'A-1' belongs to employee 'W-2'")) ∧
    (compute employee [picking] harvestWeek .standard).isOk ∧
    ∀ e, compute .plain [.ofHours 2 800] erasedWeek .standard = .error e →
      ∃ f, e = .faulted f ∧ f.IsOverflow := by
  intro employee picking foreign negative
  have hok : (compute employee [picking] harvestWeek .standard).isOk := by decide +kernel
  refine ⟨?_, hok, ?_⟩
  · refine ((compute_fails_iff Registry.steady_standard employee _ harvestWeek).1 _).2 ?_
    have hattendance : [picking, foreign, negative] = [picking] ++ foreign :: [negative] := rfl
    refine .entry ⟨by decide, by decide, by decide +kernel⟩ (by decide +kernel) hattendance ?_
      (.foreign (by decide))
    exact List.forall_mem_singleton.2 ⟨rfl, by decide +kernel⟩
  · cases hdetail : compute employee [picking] harvestWeek .standard with
    | error e =>
      rw [hdetail] at hok
      cases hok
    | ok detail =>
      have hemployee : employee.ErasesTo .plain := ⟨.inr rfl, .inl rfl, .inl rfl, rfl⟩
      have hentry : picking.ErasesTo (.ofHours 2 800) :=
        ⟨.inl rfl, .inl rfl, .inl rfl, .inr rfl, .inr rfl, rfl⟩
      intro e he
      obtain ⟨f, rfl, -, hf⟩ :=
        (compute_fails_iff Registry.steady_standard employee [picking] harvestWeek).2.2.2 detail
          .plain [.ofHours 2 800] erasedWeek hdetail hemployee (.cons hentry .nil)
          harvestWeek_erasesTo e he
      exact ⟨f, rfl, hf Registry.keepsRoom_standard⟩

end Payroll

end FieldWages
