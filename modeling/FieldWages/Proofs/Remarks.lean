import FieldWages.Proofs.ConceptRun.Selection
import FieldWages.Proofs.OutOfRange
import FieldWages.Proofs.SameWork.Piecework

/-!
# The remarks of a detail

A calculation remarks upon what it had to do without, at three stages and each time in
another way: dates without calendar data are filtered, labors whose units cannot be counted
are reported once each, and concepts are remarked upon as they are met. What is remarked of
a member of a list can be told from that member and those before it (`inTurn`), without any
state: a labor is remarked upon at the entry that is the first to count units of it, and the
want of a scheme at the concept that is the first to be passed over for it.

* `PieceworkTally.diagnostics_foldl`: the remarks on labors;
* `ConceptRun.diagnostics_next`, `ConceptRun.diagnostics_foldlM`: the remarks on concepts;
* `Payroll.remarks_listed`: the remarks of a detail, in their order.
-/

namespace FieldWages

/-! ## Remarks on labors -/

/-- Whether piecework has a positive minimum and price. -/
def Labor.hasTerms (l : Labor) : Bool :=
  l.minTaskRequirement.any (0 < ·) && l.basePrice.any (Decimal.zero < ·)

/-- Piecework lacks its terms if the minimum or the price is not positive. -/
theorem Labor.terms?_eq_none_iff {l : Labor} (h : l.isPiecework) :
    l.terms? = none ↔ l.hasTerms = false := by
  rw [terms?, hasTerms, h]
  cases l.minTaskRequirement with
  | none => simp
  | some minimum =>
    cases l.basePrice with
    | none => simp
    | some price => simp [imp_iff_not_or]

/-- The labor an entry counts units of, if it is in a period. -/
def AttendanceEntry.countedLabor? (p : Period) (e : AttendanceEntry) : Option String :=
  if p.contains e.workDate ∧ e.productivityCount.isSome then e.laborId else none

namespace LaborCatalog

variable {labors : LaborCatalog} {p : Period} {id : String} {d : Date}

/-- What is remarked upon a labor on a date: that it is not there, or that it is piecework
    without terms. -/
def remark? (labors : LaborCatalog) (id : String) (d : Date) : Option Diagnostic :=
  match labors.find? id with
  | none =>
    some ⟨Diagnostic.laborNotFound, s!"labor '{id}' not found; productivity skipped", d⟩
  | some labor =>
    if labor.isPiecework && !labor.hasTerms then
      some ⟨Diagnostic.pieceworkTermsMissing,
        s!"labor '{id}' lacks a positive minimum task requirement or base price; treated as non-piecework",
        d⟩
    else none

/-- What is remarked upon the labor of an entry that comes after others: nothing if one of
    them has counted units of it. -/
def remarkIn? (labors : LaborCatalog) (p : Period) (x : List AttendanceEntry × AttendanceEntry) :
    Option Diagnostic :=
  (x.2.countedLabor? p).bind fun id =>
    if ∃ e ∈ x.1, e.countedLabor? p = some id then none else labors.remark? id x.2.workDate

theorem isSome_remark?_iff : (labors.remark? id d).isSome ↔ labors.Lacks id := by
  rw [remark?, Lacks]
  cases labors.find? id with
  | none => simp
  | some labor =>
    simp only [Option.some.injEq, forall_eq']
    cases hpiecework : labor.isPiecework with
    | false => simp
    | true => simp [Labor.terms?_eq_none_iff hpiecework]

end LaborCatalog

theorem exists_countedLabor?_iff {es : List AttendanceEntry} {p : Period} {id : String} :
    (∃ e ∈ es, e.countedLabor? p = some id) ↔ ∃ d, p.contains d ∧ CountedOn es d id := by
  constructor
  · rintro ⟨e, he, hid⟩
    rw [AttendanceEntry.countedLabor?] at hid
    split at hid
    · next h => exact ⟨e.workDate, h.1, e, he, rfl, hid, h.2⟩
    · cases hid
  · rintro ⟨_, hp, e, he, rfl, hid, hu⟩
    exact ⟨e, he, by rw [AttendanceEntry.countedLabor?, if_pos ⟨hp, hu⟩, hid]⟩

namespace PieceworkTally

variable {labors : LaborCatalog} {p : Period} {t : PieceworkTally} {e : AttendanceEntry}

theorem diagnostics_report (t : PieceworkTally) (id : String) (d : Diagnostic) :
    (t.report id d).diagnostics = t.diagnostics ++ if id ∈ t.reported then [] else [d] := by
  rw [report]
  split
  · exact (List.append_nil _).symm
  · rfl

/-- An entry that counts units adds a remark if its labor has one and is not reported yet. -/
theorem diagnostics_addEntry (labors : LaborCatalog) (p : Period) (t : PieceworkTally)
    (e : AttendanceEntry) : (t.addEntry labors p e).diagnostics = t.diagnostics ++
      match e.countedLabor? p with
      | some id => if id ∈ t.reported then [] else (labors.remark? id e.workDate).toList
      | .none => [] := by
  rw [addEntry]
  split
  · next id units hp hl hu =>
    have hid : e.countedLabor? p = some id := by
      rw [AttendanceEntry.countedLabor?, if_pos ⟨hp, by rw [hu]; rfl⟩, hl]
    rw [hid]
    dsimp only [LaborCatalog.remark?]
    cases labors.find? id with
    | none => exact diagnostics_report ..
    | some labor =>
      dsimp only
      cases hpiecework : labor.isPiecework with
      | false => simp
      | true =>
        rw [Bool.not_true, if_neg Bool.false_ne_true, Bool.true_and]
        split
        · next hterms =>
          rw [diagnostics_report, (Labor.terms?_eq_none_iff hpiecework).1 hterms]
          rfl
        · next terms hterms =>
          have hhas : labor.hasTerms := by
            by_contra hhas
            rw [(Labor.terms?_eq_none_iff hpiecework).2 (Bool.eq_false_iff.2 hhas)] at hterms
            cases hterms
          simp [hhas, count]
  · next hnot =>
    have hid : e.countedLabor? p = .none := by
      rw [AttendanceEntry.countedLabor?]
      split
      · next h =>
        cases hl : e.laborId with
        | none => rfl
        | some id =>
          obtain ⟨units, hu⟩ := Option.isSome_iff_exists.1 h.2
          exact absurd hu (hnot id units h.1 hl)
      · rfl
    rw [hid]
    exact (List.append_nil _).symm

/-- The remarks on labors are those of the entries in turn. -/
theorem diagnostics_foldl (labors : LaborCatalog) (p : Period) (es : List AttendanceEntry) :
    (es.foldl (addEntry labors p) .none).diagnostics =
      (inTurn es).filterMap (labors.remarkIn? p) := by
  induction es using List.reverseRecOn with
  | nil => rfl
  | append_singleton es e ih =>
    rw [List.foldl_append, List.foldl_cons, List.foldl_nil, diagnostics_addEntry, ih, inTurn_concat,
      List.filterMap_append]
    congr 1
    -- Reported are the labors with a remark that the entries before have counted units of.
    have hreported : ∀ id, id ∈ (es.foldl (addEntry labors p) .none).reported ↔
        (labors.remark? id e.workDate).isSome ∧ ∃ e ∈ es, e.countedLabor? p = some id := by
      intro id
      rw [(remarked_foldl labors p es).mem_reported, LaborCatalog.isSome_remark?_iff,
        exists_countedLabor?_iff]
    cases hid : e.countedLabor? p with
    | none => simp [LaborCatalog.remarkIn?, hid]
    | some id =>
      cases hremark : labors.remark? id e.workDate with
      | none => simp [LaborCatalog.remarkIn?, hid, hremark]
      | some remark =>
        by_cases hcounted : ∃ e ∈ es, e.countedLabor? p = some id
        · simp [LaborCatalog.remarkIn?, hid, hreported, hremark, hcounted]
        · simp [LaborCatalog.remarkIn?, hid, hreported, hremark, hcounted]

end PieceworkTally

/-! ## Remarks on concepts -/

namespace ConceptRun

variable {ctx : PayContext} {registry : Registry} {run run' : ConceptRun} {c : Concept}
  {before : List Concept}

/-- What is remarked upon a concept that comes after others, at most one thing: that there is
    no scheme, if it is the first to be passed over for that; that it is unknown; or what its
    calculator finds lacking, behind a run over the concepts before. -/
def remarksOn (ctx : PayContext) (registry : Registry) (x : List Concept × Concept) :
    List Diagnostic :=
  if x.2.Concerns ctx.employee then
    match registry.get? x.2.code with
    | none => [Fate.unknownRemark x.2]
    | some calculator =>
      match x.1.foldlM (next registry) (start ctx) >>= fun run => calculator run.context x.2 with
      | .ok o => o.diagnostic.toList
      | .error _ => []
  else if ctx.employee.retirementScheme = none ∧ ∀ c ∈ x.1, c.Concerns ctx.employee then
    [Fate.schemeRemark]
  else []

theorem length_remarksOn_le (ctx : PayContext) (registry : Registry)
    (x : List Concept × Concept) : (remarksOn ctx registry x).length ≤ 1 := by
  rw [remarksOn]
  split_ifs
  · split
    · exact le_rfl
    · split
      · exact Option.length_toList_le
      · exact Nat.zero_le 1
  · exact le_rfl
  · exact Nat.zero_le 1

/-- Without a scheme, the concepts that do not concern the employee are those for retirement. -/
theorem concerns_iff_of_no_scheme {employee : Employee} (h : employee.retirementScheme = none) :
    c.Concerns employee ↔ c.category ≠ .retirement := by
  rw [Concept.Concerns, Employee.contributesTo, h]
  exact ⟨fun hconcerns hc => Bool.false_ne_true (hconcerns hc), fun hc hr => absurd hr hc⟩

/-- A step adds the remarks on its concept. -/
theorem diagnostics_next (hrun : before.foldlM (next registry) (start ctx) = .ok run)
    (h : next registry run c = .ok run') : run'.context.diagnostics =
      run.context.diagnostics ++ remarksOn ctx registry (before, c) := by
  obtain ⟨log, hlog, ht⟩ := (tells_start ctx registry).foldlM hrun
  have hemployee := ht.employee_eq
  rw [remarksOn]
  dsimp only
  rcases next_cases h with ⟨hc, hpays, rfl⟩ | ⟨hconcerns, hget, rfl⟩ |
    ⟨hconcerns, calculator, o, hget, ho, h⟩
  · have hnot : ¬c.Concerns ctx.employee := fun hconcerns => hpays (hemployee ▸ hconcerns hc)
    rw [if_neg hnot, skipRetirement, hemployee]
    -- The want of a scheme has been noted if a retirement concept has been met.
    have hnoted : run.schemeNoted ↔ ctx.employee.retirementScheme = none ∧
        ∃ c ∈ before, c.category = .retirement := by
      rw [ht.schemeNoted, ← hlog, List.nil_append]
      simp only [List.mem_map, exists_exists_and_eq_and]
    by_cases hscheme : ctx.employee.retirementScheme = none
    · have hfirst : (∀ c ∈ before, c.Concerns ctx.employee) ↔ ¬run.schemeNoted := by
        rw [hnoted, and_iff_right hscheme, not_exists]
        simp only [concerns_iff_of_no_scheme hscheme, not_and]
      by_cases hold : run.schemeNoted
      · simp [hscheme, hfirst, hold]
      · simp [hscheme, hfirst, hold]
        rfl
    · simp [hscheme]
  all_goals rw [← Concept.concerns_iff, hemployee] at hconcerns
  · rw [if_pos hconcerns, hget]
    rfl
  · rw [if_pos hconcerns, hget, hrun]
    dsimp only
    rw [show (Except.ok run >>= fun run => calculator run.context c) = .ok o from ho]
    exact enter_diagnostics h

/-- The remarks of a run are those on its concepts in turn. -/
theorem diagnostics_foldlM {cs : List Concept}
    (h : cs.foldlM (next registry) (start ctx) = .ok run) : run.context.diagnostics =
      ctx.diagnostics ++ (inTurn cs).flatMap (remarksOn ctx registry) := by
  induction cs using List.reverseRecOn generalizing run with
  | nil =>
    cases h
    exact (List.append_nil _).symm
  | append_singleton cs c ih =>
    rw [List.foldlM_append] at h
    obtain ⟨run₁, hrun₁, h⟩ := bind_eq_ok.1 h
    rw [List.foldlM_cons] at h
    obtain ⟨run₂, hrun₂, h⟩ := bind_eq_ok.1 h
    cases h
    rw [diagnostics_next hrun₁ hrun₂, ih hrun₁, inTurn_concat, List.flatMap_append,
      List.flatMap_singleton, List.append_assoc]

end ConceptRun

/-! ## The remarks of a detail -/

namespace Payroll

variable {employee : Employee} {attendance : List AttendanceEntry} {inputs : PayrollInputs}
  {registry : Registry} {ctx : PayContext} {detail : PayrollDetail}

/-- The remark that the calendar does not mention a date. -/
def gapRemark (d : Date) : Diagnostic :=
  ⟨Diagnostic.calendarDataMissing, "no calendar data; treated as non-holiday", some d⟩

/-- Whether diagnostics are the remarks on the dates worked that the calendar does not mention, in
    order; then those on labors, one for each labor that lacks something and is counted in the
    period, at the first entry that does so; then those on the concepts in turn. -/
structure Remarks (attendance : List AttendanceEntry) (inputs : PayrollInputs)
    (registry : Registry) (ctx : PayContext) (gaps : List Date) (diagnostics : List Diagnostic) :
    Prop where
  ascending : gaps.Pairwise (· < ·)
  mem_gaps : ∀ d, d ∈ gaps ↔ inputs.parameters.period.contains d ∧ WorkedOn attendance d ∧
    inputs.calendar.day? d = none
  diagnostics_eq : diagnostics = gaps.map gapRemark ++
    (inTurn attendance).filterMap (inputs.labors.remarkIn? inputs.parameters.period) ++
    (inTurn inputs.concepts).flatMap (ConceptRun.remarksOn ctx registry)
  /-- No labor is remarked upon twice, and none is forgotten. -/
  labors : ∃ ids : List String, ids.Nodup ∧
    (∀ id, id ∈ ids ↔ inputs.labors.Lacks id ∧
      ∃ d, inputs.parameters.period.contains d ∧ CountedOn attendance d id) ∧
    ((inTurn attendance).filterMap
        (inputs.labors.remarkIn? inputs.parameters.period)).map Diagnostic.undated =
      ids.map inputs.labors.remarkOn
  concepts : ∀ x ∈ inTurn inputs.concepts, (ConceptRun.remarksOn ctx registry x).length ≤ 1

theorem remarks (hctx : context employee attendance inputs = .ok ctx) {run : ConceptRun}
    (hrun : ConceptRun.ofContext ctx registry = .ok run) :
    ∃ gaps, Remarks attendance inputs registry ctx gaps run.context.diagnostics := by
  have hprepared := prepared_of_context hctx
  obtain ⟨found, hfound, -, hdiagnostics⟩ := hprepared.piecework
  refine ⟨ctx.workedDates.filter fun d => (inputs.calendar.day? d).isNone, ?_, fun d => ?_, ?_, ?_,
    fun x _ => ConceptRun.length_remarksOn_le ctx registry x⟩
  · rw [hprepared.workedDates_eq]
    exact (List.pairwise_map.2 ctx.dailyHours.sorted).filter _
  · rw [List.mem_filter, hprepared.workedDates_eq,
      DailyHoursMap.mem_keys_ofAttendance hprepared.dailyHours, Option.isNone_iff_eq_none, and_assoc]
  · have hlabors : found.diagnostics =
        (inTurn attendance).filterMap (inputs.labors.remarkIn? inputs.parameters.period) := by
      obtain ⟨days, -, hfound⟩ := bind_eq_ok.1 hfound
      obtain ⟨total, -, hfound⟩ := bind_eq_ok.1 hfound
      cases hfound
      exact PieceworkTally.diagnostics_foldl _ _ _
    rw [ConceptRun.diagnostics_foldlM hrun, hdiagnostics, hlabors, hprepared.concepts_eq]
    rfl
  · have hremarked :=
      PieceworkTally.remarked_foldl inputs.labors inputs.parameters.period attendance
    rw [← PieceworkTally.diagnostics_foldl]
    refine ⟨_, List.nodup_reverse.2 hremarked.nodup, fun id => ?_, hremarked.diagnostics_eq⟩
    rw [List.mem_reverse, hremarked.mem_reported]

/-- The diagnostics of a detail are the remarks on its dates, its labors and its concepts, in
    this order; an accepted input has a detail unless something is out of range. -/
theorem remarks_listed (haccepted : refusal? employee attendance inputs.parameters = none)
    (hr : registry.Steady) :
    (∃ detail ctx gaps, compute employee attendance inputs registry = .ok detail ∧
      context employee attendance inputs = .ok ctx ∧
      Remarks attendance inputs registry ctx gaps detail.diagnostics) ∨
    ∃ f, compute employee attendance inputs registry = .error (.faulted f) ∧
      OutOfRange attendance inputs.parameters.period f := by
  rcases exists_compute_of_accepted haccepted registry with ⟨detail, h⟩ | ⟨f, hf, hrange⟩
  · obtain ⟨-, ctx, run, hctx, hrun, hdetail⟩ := compute_eq_ok_iff.1 h
    obtain ⟨gaps, hremarks⟩ := remarks hctx hrun
    obtain ⟨net, -, hdetail⟩ := bind_eq_ok.1 hdetail
    cases hdetail
    exact .inl ⟨_, ctx, gaps, h, hctx, hremarks⟩
  · exact .inr ⟨f, hf, hrange hr⟩

/-- Piecework without a price. -/
def unpricedLabor : Labor := ⟨"pruning", "", true, some 10, none⟩

/-- Work on a Wednesday, and on the Tuesday before: of a labor without terms twice, and of
    one that is not in the catalogue, which has been counted before the period too. -/
def unpricedAttendance : List AttendanceEntry :=
  [.ofUnits 0 5 "harvest", .ofUnits 2 5 "pruning", .ofUnits 1 5 "harvest", .ofUnits 1 7 "pruning"]

/-- The concepts are two of retirement, one that is unknown, and the basic salary. -/
def unpricedWeek : PayrollInputs :=
  { PayrollInputs.plain (.between 1 7) 6 with
    labors := [("pruning", unpricedLabor)]
    concepts := [.plain "BASIC_SALARY" .income none, .plain "ONP" .retirement none,
      .plain "TIP" .income none, .plain "AFP_PRIMA" .retirement none] }

/-- Dates come in their order and labors in that of the entries. The employee has neither
    scheme nor salary. -/
theorem remarks_listed_unpriced :
    refusal? .plain unpricedAttendance unpricedWeek.parameters = none ∧
      Registry.standard.Steady ∧
      ∃ detail ctx gaps, compute .plain unpricedAttendance unpricedWeek .standard = .ok detail ∧
        detail.diagnostics.map (fun d => (d.code, d.date)) =
          [("CALENDAR_DATA_MISSING", some (.onDay 1)), ("CALENDAR_DATA_MISSING", some (.onDay 2)),
            ("PIECEWORK_TERMS_MISSING", some (.onDay 2)), ("LABOR_NOT_FOUND", some (.onDay 1)),
            ("MISSING_SALARY", none), ("NO_RETIREMENT_SCHEME", none), ("UNKNOWN_CONCEPT", none)] ∧
        Remarks unpricedAttendance unpricedWeek .standard ctx gaps detail.diagnostics := by
  have haccepted : refusal? .plain unpricedAttendance unpricedWeek.parameters = none := by
    decide +kernel
  have hcodes : (compute .plain unpricedAttendance unpricedWeek .standard).map
      (fun d => d.diagnostics.map fun d => (d.code, d.date)) = .ok
        [("CALENDAR_DATA_MISSING", some (.onDay 1)), ("CALENDAR_DATA_MISSING", some (.onDay 2)),
          ("PIECEWORK_TERMS_MISSING", some (.onDay 2)), ("LABOR_NOT_FOUND", some (.onDay 1)),
          ("MISSING_SALARY", none), ("NO_RETIREMENT_SCHEME", none), ("UNKNOWN_CONCEPT", none)] := by
    decide +kernel
  obtain ⟨detail, hdetail, hcodes⟩ := map_eq_ok.1 hcodes
  refine ⟨haccepted, Registry.steady_standard, ?_⟩
  rcases remarks_listed haccepted Registry.steady_standard with
    ⟨detail', ctx, gaps, hdetail', -, hremarks⟩ | ⟨f, hf, -⟩
  · cases hdetail.symm.trans hdetail'
    exact ⟨detail, ctx, gaps, hdetail, hcodes, hremarks⟩
  · cases hdetail.symm.trans hf

end Payroll

end FieldWages
