import FieldWages.Proofs.Configuration
import FieldWages.Proofs.OutOfRange
import FieldWages.Proofs.PayRun.Report

/-!
# What a configuration warrants

Settings and concepts are checked once, when a configuration is made of them. The first
check that fails tells why there is none (`Configuration.RefusedBy`). What a calculation and
a run check of their settings holds under every configuration, so no calculation is refused
for its settings or its period, and no run for its places; both may still be stopped by what
gets out of range, and a run by more places than can be granted.

* `Configuration.exists_ofParts_eq_ok_iff`: which settings and concepts make a configuration;
* `Configuration.ofParts_eq_error_iff`: why others make none;
* `Configuration.ofParts_warrants`: what holds under a configuration.
-/

namespace FieldWages

/-- Whether no two codes of a plan are equal but for case. -/
def DistinctCodes (cs : List Concept) : Prop :=
  cs.Pairwise fun c c' => ¬EqualCodes c.code c'.code

/-- Whether a refusal is one of an employee or of attendance. -/
inductive Refusal.OfEmployee : Refusal → Prop
  | employee (field message : String) : OfEmployee (.invalidEmployee field message)
  | attendance (employeeId message : String) : OfEmployee (.invalidAttendance employeeId message)

theorem repeatedCode?_nil_eq_none_iff {cs : List Concept} :
    repeatedCode? [] cs = none ↔ DistinctCodes cs := by
  rw [repeatedCode?_eq_none_iff, List.Nodup, List.pairwise_map, DistinctCodes]
  simp only [foldCode_eq_iff, ne_eq, List.not_mem_nil, not_false_eq_true, implies_true, and_true]

/-- The first code that repeats an earlier one stands behind a plan of distinct codes. -/
theorem repeatedCode?_nil_eq_some_iff {cs : List Concept} {code : String} :
    repeatedCode? [] cs = some code ↔
      ∃ before c after, cs = before ++ c :: after ∧ c.code = code ∧ DistinctCodes before ∧
        ∃ b ∈ before, EqualCodes b.code c.code := by
  rw [repeatedCode?_eq_some_iff]
  simp only [repeatedCode?_nil_eq_none_iff, foldCode_eq_iff, List.not_mem_nil, false_or]

namespace Configuration

variable {settings : Settings} {concepts : List Concept} {config : Configuration} {r : Refusal}

/-- Whether settings and concepts make a configuration. -/
structure Sound (settings : Settings) (concepts : List Concept) : Prop where
  planned : concepts ≠ []
  codes : DistinctCodes concepts
  dailyNormalHours : .zero < settings.dailyNormalHours
  monthDays : settings.monthDays ≠ 0
  concurrencyLimit : settings.concurrencyLimit ≠ 0

/-- Why settings and concepts make no configuration: the first check that fails, and of the
    codes the first that repeats an earlier one. -/
inductive RefusedBy (settings : Settings) (concepts : List Concept) : Refusal → Prop
  | noConcepts (h : concepts = []) :
    RefusedBy settings concepts (.invalidConfig "no concepts configured")
  | repeated {before after : List Concept} {c : Concept}
    (hconcepts : concepts = before ++ c :: after) (hbefore : DistinctCodes before)
    (h : ∃ b ∈ before, EqualCodes b.code c.code) :
    RefusedBy settings concepts (.invalidConfig ("concept '" ++ c.code ++ "' is configured twice"))
  | dailyHours (hplanned : concepts ≠ []) (hcodes : DistinctCodes concepts)
    (h : settings.dailyNormalHours ≤ .zero) :
    RefusedBy settings concepts (.invalidConfig "daily_normal_hours must be positive")
  | monthDays (hplanned : concepts ≠ []) (hcodes : DistinctCodes concepts)
    (hhours : .zero < settings.dailyNormalHours) (h : settings.monthDays = 0) :
    RefusedBy settings concepts (.invalidConfig "month_calculation_days must be greater than zero")
  | workers (hplanned : concepts ≠ []) (hcodes : DistinctCodes concepts)
    (hhours : .zero < settings.dailyNormalHours) (hmonth : settings.monthDays ≠ 0)
    (h : settings.concurrencyLimit = 0) :
    RefusedBy settings concepts (.invalidConfig "concurrency_limit must be greater than zero")

/-! ## Checks -/

theorem configProblem?_nil : configProblem? settings [] = some .noConcepts := rfl

/-- The first code of a plan that repeats an earlier one is its problem. -/
theorem configProblem?_of_repeated {before after : List Concept} {c : Concept}
    (hbefore : DistinctCodes before) (h : ∃ b ∈ before, EqualCodes b.code c.code) :
    configProblem? settings (before ++ c :: after) = some (.repeatedConcept c.code) := by
  have hcode : repeatedCode? [] (before ++ c :: after) = some c.code :=
    repeatedCode?_nil_eq_some_iff.2 ⟨before, c, after, rfl, rfl, hbefore, h⟩
  have hplanned : ¬(before ++ c :: after).isEmpty := by
    rw [List.isEmpty_iff]
    exact List.append_ne_nil_of_right_ne_nil _ (List.cons_ne_nil _ _)
  rw [configProblem?, if_neg hplanned, hcode]

/-- Behind the checks of a plan come those of the settings. -/
theorem configProblem?_of_distinctCodes (hplanned : concepts ≠ [])
    (hcodes : DistinctCodes concepts) : configProblem? settings concepts =
      if settings.dailyNormalHours ≤ .zero then some .dailyHoursNotPositive
      else if settings.monthDays = 0 then some .noMonthDays
      else if settings.concurrencyLimit = 0 then some .noWorkers
      else none := by
  rw [configProblem?, if_neg fun hnil => hplanned (List.isEmpty_iff.1 hnil),
    repeatedCode?_nil_eq_none_iff.2 hcodes]

/-- A plan is empty, or some code is the first to repeat an earlier one, or all differ. -/
theorem plan_cases (concepts : List Concept) : concepts = [] ∨
    (∃ before c after, concepts = before ++ c :: after ∧ DistinctCodes before ∧
      ∃ b ∈ before, EqualCodes b.code c.code) ∨
    concepts ≠ [] ∧ DistinctCodes concepts := by
  rcases eq_or_ne concepts [] with hnil | hplanned
  · exact .inl hnil
  · cases h : repeatedCode? [] concepts with
    | some code =>
      obtain ⟨before, c, after, hconcepts, -, hbefore, hc⟩ := repeatedCode?_nil_eq_some_iff.1 h
      exact .inr (.inl ⟨before, c, after, hconcepts, hbefore, hc⟩)
    | none => exact .inr (.inr ⟨hplanned, repeatedCode?_nil_eq_none_iff.1 h⟩)

theorem configProblem?_eq_none_iff :
    configProblem? settings concepts = none ↔ Sound settings concepts := by
  constructor
  · intro h
    rcases plan_cases concepts with rfl | ⟨before, c, after, rfl, hbefore, hc⟩ | ⟨hplanned, hcodes⟩
    · cases h.symm.trans configProblem?_nil
    · cases h.symm.trans (configProblem?_of_repeated hbefore hc)
    · rw [configProblem?_of_distinctCodes hplanned hcodes] at h
      split_ifs at h with hhours hmonth hlimit
      exact ⟨hplanned, hcodes, Decimal.not_le_iff_lt.1 hhours, hmonth, hlimit⟩
  · intro h
    rw [configProblem?_of_distinctCodes h.planned h.codes,
      if_neg (Decimal.not_le_iff_lt.2 h.dailyNormalHours), if_neg h.monthDays,
      if_neg h.concurrencyLimit]

/-- The problem that is found is that of the first check that fails. -/
theorem exists_configProblem?_iff :
    (∃ p, configProblem? settings concepts = some p ∧ p.refusal = r) ↔
      RefusedBy settings concepts r := by
  constructor
  · rintro ⟨p, h, rfl⟩
    rcases plan_cases concepts with rfl | ⟨before, c, after, rfl, hbefore, hc⟩ | ⟨hplanned, hcodes⟩
    · cases h
      exact .noConcepts rfl
    · cases h.symm.trans (configProblem?_of_repeated hbefore hc)
      exact .repeated rfl hbefore hc
    · rw [configProblem?_of_distinctCodes hplanned hcodes] at h
      split_ifs at h with hhours hmonth hlimit <;> cases h
      · exact .dailyHours hplanned hcodes hhours
      · exact .monthDays hplanned hcodes (Decimal.not_le_iff_lt.1 hhours) hmonth
      · exact .workers hplanned hcodes (Decimal.not_le_iff_lt.1 hhours) hmonth hlimit
  · intro h
    cases h with
    | noConcepts h =>
      subst h
      exact ⟨.noConcepts, configProblem?_nil, rfl⟩
    | repeated hconcepts hbefore h =>
      subst hconcepts
      exact ⟨_, configProblem?_of_repeated hbefore h, rfl⟩
    | dailyHours hplanned hcodes h =>
      refine ⟨.dailyHoursNotPositive, ?_, rfl⟩
      rw [configProblem?_of_distinctCodes hplanned hcodes, if_pos h]
    | monthDays hplanned hcodes hhours h =>
      refine ⟨.noMonthDays, ?_, rfl⟩
      rw [configProblem?_of_distinctCodes hplanned hcodes,
        if_neg (Decimal.not_le_iff_lt.2 hhours), if_pos h]
    | workers hplanned hcodes hhours hmonth h =>
      refine ⟨.noWorkers, ?_, rfl⟩
      rw [configProblem?_of_distinctCodes hplanned hcodes,
        if_neg (Decimal.not_le_iff_lt.2 hhours), if_neg hmonth, if_pos h]

/-! ## Configurations -/

/-- A configuration is one of the settings and the concepts it is made of. -/
theorem ofParts_eq_ok_iff : ofParts settings concepts = .ok config ↔
    config.settings = settings ∧ config.concepts = concepts := by
  rw [ofParts]
  split
  · next p h =>
    refine ⟨nofun, ?_⟩
    rintro ⟨rfl, rfl⟩
    exact nomatch h.symm.trans config.sound
  · next h =>
    constructor
    · rintro ⟨⟩
      exact ⟨rfl, rfl⟩
    · rintro ⟨rfl, rfl⟩
      rfl

theorem exists_ofParts_eq_ok_iff :
    (∃ config, ofParts settings concepts = .ok config) ↔ Sound settings concepts := by
  rw [← configProblem?_eq_none_iff]
  simp only [ofParts_eq_ok_iff]
  constructor
  · rintro ⟨config, rfl, rfl⟩
    exact config.sound
  · exact fun h => ⟨⟨settings, concepts, h⟩, rfl, rfl⟩

theorem ofParts_eq_error_iff :
    ofParts settings concepts = .error r ↔ RefusedBy settings concepts r := by
  rw [← exists_configProblem?_iff, ofParts]
  split
  · next p h =>
    rw [h, Except.error.injEq]
    exact ⟨fun hr => ⟨p, rfl, hr⟩, fun ⟨p', hp, hr⟩ => Option.some.inj hp ▸ hr⟩
  · next h =>
    exact ⟨nofun, fun ⟨_, hp, _⟩ => nomatch h.symm.trans hp⟩

/-! ## What is checked again -/

/-- The parameters of a period make sense. -/
theorem sound_of_parameters {start stop : Date} {workingDays totalWorkingDays : UInt32}
    {q : Parameters} (h : config.parameters start stop workingDays totalWorkingDays = .ok q) :
    q.Sound := by
  have hsound := configProblem?_eq_none_iff.1 config.sound
  rw [parameters] at h
  split_ifs at h with hperiod
  cases h
  exact ⟨hperiod, hsound.monthDays, Decimal.not_le_iff_lt.2 hsound.dailyNormalHours⟩

end Configuration

/-- With parameters that make sense, what is refused is an employee or their attendance. -/
theorem Payroll.RefusedBy.ofEmployee {employee : Employee} {attendance : List AttendanceEntry}
    {q : Parameters} {r : Refusal} (h : RefusedBy employee attendance q r) (hq : q.Sound) :
    r.OfEmployee := by
  cases h with
  | period h => exact absurd h hq.period
  | monthDays _ h => exact absurd h hq.monthDays
  | dailyHours _ _ h => exact absurd h hq.dailyNormalHours
  | salary => exact .employee _ _
  | entry _ _ _ _ h =>
    cases h with
    | foreign => exact .attendance _ _
    | negative => exact .attendance _ _

/-- A run with places is stopped by the total it adds up, or by more places than can be
    granted. -/
theorem PayRun.eq_faulted_of_run {shared : PayrollInputs} {registry : Registry} {limit : UInt64}
    {order : List EmployeeInput} {e : Failure} (hlimit : limit ≠ 0)
    (h : run shared registry limit order = .error e) :
    e = .faulted .additionOverflow ∨ maxWorkers < limit.toNat ∧ e = .faulted .tooManyWorkers := by
  by_cases hmax : limit.toNat ≤ maxWorkers
  · rw [run_eq hlimit hmax, report_settle] at h
    cases hsum : Decimal.sum (netPays shared registry order) with
    | ok total =>
      rw [hsum] at h
      cases h
    | error f =>
      rw [hsum] at h
      cases h
      obtain ⟨_, _, _, _, -, -, hadd⟩ := foldlM_eq_error hsum
      exact .inl (congrArg Failure.faulted (Decimal.add_eq_error hadd))
  · rw [run, if_neg hlimit, if_pos (not_le.1 hmax)] at h
    cases h
    exact .inr ⟨not_le.1 hmax, rfl⟩

namespace Configuration

/-- Settings and concepts make a configuration exactly if they are sound, and else are refused
    for the first check that fails; a configuration keeps them as they are. Under it, no
    calculation of a period is refused but for its employee or their attendance, nor stopped,
    by a steady registry, but by what is out of range. A run is never refused: if its places
    can be granted, only the total of the net pays can stop it. -/
theorem ofParts_warrants (settings : Settings) (concepts : List Concept) :
    ((∃ config, ofParts settings concepts = .ok config) ↔ Sound settings concepts) ∧
    (∀ r, ofParts settings concepts = .error r ↔ RefusedBy settings concepts r) ∧
    ∀ config, ofParts settings concepts = .ok config →
      config.settings = settings ∧ config.concepts = concepts ∧
      (∀ start stop workingDays totalWorkingDays q,
        config.parameters start stop workingDays totalWorkingDays = .ok q →
        ∀ calendar labors employee attendance registry,
          let inputs := config.payrollInputs q calendar labors
          (∀ r, Payroll.compute employee attendance inputs registry = .error (.refused r) →
            r.OfEmployee) ∧
          (registry.Steady →
            ∀ f, Payroll.compute employee attendance inputs registry = .error (.faulted f) →
              Payroll.OutOfRange attendance q.period f)) ∧
      ∀ shared registry completed e,
        PayRun.run shared registry config.settings.concurrencyLimit completed = .error e →
        e = .faulted .additionOverflow ∨
          maxWorkers < config.settings.concurrencyLimit.toNat ∧ e = .faulted .tooManyWorkers := by
  refine ⟨exists_ofParts_eq_ok_iff, fun r => ofParts_eq_error_iff, fun config hconfig => ?_⟩
  obtain ⟨hsettings, hconcepts⟩ := ofParts_eq_ok_iff.1 hconfig
  refine ⟨hsettings, hconcepts, ?_, fun shared registry completed e h => ?_⟩
  · intro start stop workingDays totalWorkingDays q hq calendar labors employee attendance registry
    refine ⟨fun r h => ?_, fun hr f h => Payroll.outOfRange_of_compute hr h⟩
    exact (Payroll.compute_eq_refused_iff.1 h).ofEmployee (sound_of_parameters hq)
  · have hsound := configProblem?_eq_none_iff.1 config.sound
    exact PayRun.eq_faulted_of_run hsound.concurrencyLimit h

/-- Of two codes that are there in another case already, the first is why a plan is refused.
    Under the standard configuration an employee with a negative salary is refused for it, and
    a run has its report unless the total of the net pays overflows. -/
theorem ofParts_warrants_standard :
    let plan := ["ONP", "ESSALUD", "Onp", "essalud"].map fun code => Concept.plain code .income none
    let employee := { Employee.plain with monthlySalary := some (Decimal.ofUInt32 1).neg }
    ofParts .standard plan = .error (.invalidConfig "concept 'Onp' is configured twice") ∧
    ∃ config q, ofParts .standard standardConcepts = .ok config ∧
      config.parameters (.onDay 2) (.onDay 8) 6 26 = .ok q ∧
      (∃ r, Payroll.compute employee [] (config.payrollInputs q ⟨.empty⟩ []) .standard =
        .error (.refused r) ∧ r.OfEmployee) ∧
      ∀ shared completed e, PayRun.run shared .standard config.settings.concurrencyLimit completed =
        .error e → e = .faulted .additionOverflow := by
  intro plan employee
  have hstandard : ofParts .standard standardConcepts = .ok standard :=
    ofParts_eq_ok_iff.2 ⟨rfl, rfl⟩
  obtain ⟨-, -, hwarrants⟩ := ofParts_warrants .standard standardConcepts
  obtain ⟨-, -, hcompute, hrun⟩ := hwarrants standard hstandard
  obtain ⟨q, hq⟩ : ∃ q, standard.parameters (.onDay 2) (.onDay 8) 6 26 = .ok q := ⟨_, rfl⟩
  refine ⟨?_, standard, q, hstandard, hq, ?_, fun shared completed e h => ?_⟩
  · have hplan : plan = [.plain "ONP" .income none, .plain "ESSALUD" .income none] ++
        .plain "Onp" .income none :: [.plain "essalud" .income none] := rfl
    refine ((ofParts_warrants .standard plan).2.1 _).2 (.repeated hplan ?_ ?_)
    · exact repeatedCode?_nil_eq_none_iff.1 (by decide +kernel)
    · exact ⟨_, List.mem_cons_self, foldCode_eq_iff.1 (by decide +kernel)⟩
  · have hrefused : Payroll.compute employee [] (standard.payrollInputs q ⟨.empty⟩ []) .standard =
        .error (.refused (.invalidEmployee "monthly_salary" "cannot be negative")) :=
      Payroll.compute_eq_refused_iff.2
        (.salary (sound_of_parameters hq) rfl (by decide +kernel))
    exact ⟨_, hrefused, (hcompute _ _ _ _ q hq ⟨.empty⟩ [] employee [] .standard).1 _ hrefused⟩
  · refine (hrun shared .standard completed e h).resolve_right fun hmax => ?_
    exact absurd hmax.1 (by decide)

/-- With more places than can be granted a configuration is made as well, but no run under it
    has a report, not even one of nobody. -/
theorem not_warranted_of_maxWorkers_lt :
    ∃ config q,
      ofParts { Settings.standard with concurrencyLimit := 2305843009213693952 }
        [.plain "BASIC_SALARY" .income none] = .ok config ∧
      config.parameters (.onDay 2) (.onDay 2) 1 26 = .ok q ∧
      PayRun.run (config.payrollInputs q ⟨.empty⟩ []) .standard config.settings.concurrencyLimit [] =
        .error (.faulted .tooManyWorkers) := by
  exact ⟨⟨_, _, by decide +kernel⟩, _, ofParts_eq_ok_iff.2 ⟨rfl, rfl⟩, rfl, rfl⟩

end Configuration

end FieldWages
