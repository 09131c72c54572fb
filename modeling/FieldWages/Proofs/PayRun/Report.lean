import FieldWages.Proofs.Decimal.Sum
import FieldWages.Proofs.PayRun.Workers
import FieldWages.Proofs.Payroll
import FieldWages.Proofs.Sample

/-!
# Reports

The report of a run has the detail of every employee whose calculation succeeds,
and of every other the reason there is none (`Reports`). What a calculation comes
to depends on the employee and the shared inputs alone, so the order in which
results come in, and the places of the run, show only in the order of the lists
(`PayRunReport.Alike`).

What the employees do share is the sum of their net pays. It is added up as the
results come in, and if it leaves the range of decimals on the way, there is no
report at all, though every calculation has succeeded. It cannot if the sizes of
the net pays together are in range.

* `PayRun.report_settle`: the report of results in an order;
* `PayRun.run_reports`: what a report says, and that it says it for any order;
* `PayRun.exists_run_eq_ok_iff`: when there is a report.
-/

namespace FieldWages

/-- Whether two reports say the same, up to the order of their lists. -/
structure PayRunReport.Alike (r r' : PayRunReport) : Prop where
  details : r.details.Perm r'.details
  failures : r.failures.Perm r'.failures
  totalNetPay : r.totalNetPay.toRat = r'.totalNetPay.toRat

namespace PayRun

variable {shared : PayrollInputs} {registry : Registry} {limit : UInt64}
  {inputs order : List EmployeeInput} {i : EmployeeInput}

/-! ## Results -/

/-- What the calculation of an employee comes to, taken alone. -/
def outcome (shared : PayrollInputs) (registry : Registry) (i : EmployeeInput) :
    Except Failure PayrollDetail :=
  Payroll.compute i.employee i.attendance shared registry

/-- What is reported of an employee who has no detail: whose it is, and the text of
    the refusal, or that of the fault with a remark in front. -/
inductive Explains (shared : PayrollInputs) (registry : Registry) (i : EmployeeInput) :
    EmployeeFailure → Prop
  | refused {r : Refusal} (h : outcome shared registry i = .error (.refused r)) :
    Explains shared registry i ⟨i.employee.id, r.message⟩
  | faulted {f : Fault} (h : outcome shared registry i = .error (.faulted f)) :
    Explains shared registry i ⟨i.employee.id, "calculation panicked: " ++ f.message⟩

/-- The details of the employees who have one, in order. -/
def detailsOf (shared : PayrollInputs) (registry : Registry) (order : List EmployeeInput) :
    List PayrollDetail :=
  order.filterMap fun i => (outcome shared registry i).toOption

/-- The failures of the employees who have none, in order. -/
def failuresOf (shared : PayrollInputs) (registry : Registry) (order : List EmployeeInput) :
    List EmployeeFailure :=
  order.filterMap fun i =>
    match settle shared registry i with
    | .ok _ => none
    | .error f => some f

/-- What is added up to the total of a report, in order. -/
def netPays (shared : PayrollInputs) (registry : Registry) (order : List EmployeeInput) :
    List Decimal :=
  (detailsOf shared registry order).map (·.netPay)

theorem settle_of_ok {d : PayrollDetail} (h : outcome shared registry i = .ok d) :
    settle shared registry i = .ok d := by
  rw [outcome] at h
  rw [settle, h]

theorem settle_of_error {f : Failure} (h : outcome shared registry i = .error f) :
    settle shared registry i = .error ⟨i.employee.id, failureMessage f⟩ := by
  rw [outcome] at h
  rw [settle, h]

theorem foldlM_addResult (order : List EmployeeInput) (r : PayRunReport) :
    (order.map (settle shared registry)).foldlM addResult r =
      ((netPays shared registry order).foldlM Decimal.add r.totalNetPay).map fun total =>
        ⟨r.details ++ detailsOf shared registry order,
          r.failures ++ failuresOf shared registry order, total⟩ := by
  induction order generalizing r with
  | nil =>
    simp only [detailsOf, failuresOf, List.filterMap_nil, List.append_nil]
    rfl
  | cons i order ih =>
    rw [List.map_cons, List.foldlM_cons]
    simp only [netPays, detailsOf, failuresOf, List.filterMap_cons]
    cases h : outcome shared registry i with
    | ok d =>
      simp only [settle_of_ok h, Except.toOption, List.map_cons, List.foldlM_cons]
      cases hsum : r.totalNetPay.add d.netPay with
      | error f => simp only [addResult, hsum]; rfl
      | ok total =>
        have hadd : addResult r (.ok d) =
            .ok { r with details := r.details ++ [d], totalNetPay := total } := by
          rw [addResult, hsum]
          rfl
        rw [hadd]
        refine (ih _).trans ?_
        simp only [List.append_assoc, List.singleton_append]
        rfl
    | error f =>
      simp only [settle_of_error h, Except.toOption]
      refine (ih _).trans ?_
      simp only [List.append_assoc, List.singleton_append]
      rfl

/-- The report of results in an order: the details, the failures, and the sum of the
    net pays from the left. -/
theorem report_settle (order : List EmployeeInput) :
    report (order.map (settle shared registry)) =
      (Decimal.sum (netPays shared registry order)).map fun total =>
        ⟨detailsOf shared registry order, failuresOf shared registry order, total⟩ :=
  foldlM_addResult order .none

theorem run_eq (hlimit : limit ≠ 0) (hmax : limit.toNat ≤ maxWorkers) :
    run shared registry limit order =
      Failure.lift (report (order.map (settle shared registry))) := by
  rw [run, if_neg hlimit, if_neg (not_lt.2 hmax)]

/-! ## What a report says -/

/-- Whether a report is one on these employees. -/
structure Reports (shared : PayrollInputs) (registry : Registry) (inputs : List EmployeeInput)
    (r : PayRunReport) : Prop where
  /-- Each employee is reported on once: those who succeed with their details, those who
      fail with what explains it. -/
  accounted : ∃ succeeded failed, (succeeded ++ failed).Perm inputs ∧
    List.Forall₂ (fun i d => outcome shared registry i = .ok d) succeeded r.details ∧
    List.Forall₂ (Explains shared registry) failed r.failures
  totalNetPay : r.totalNetPay.toRat = (r.details.map (·.netPay.toRat)).sum
  /-- Employees of distinct ids are found with their own details. -/
  found : (inputs.map (·.employee.id)).Nodup → ∀ i ∈ inputs,
    r.detailFor? i.employee.id = (outcome shared registry i).toOption

theorem accounted (shared : PayrollInputs) (registry : Registry) (order : List EmployeeInput) :
    ∃ succeeded failed, (succeeded ++ failed).Perm order ∧
      List.Forall₂ (fun i d => outcome shared registry i = .ok d) succeeded
        (detailsOf shared registry order) ∧
      List.Forall₂ (Explains shared registry) failed (failuresOf shared registry order) := by
  induction order with
  | nil => exact ⟨[], [], .nil, .nil, .nil⟩
  | cons i order ih =>
    obtain ⟨succeeded, failed, hperm, hdetails, hfailures⟩ := ih
    simp only [detailsOf, failuresOf, List.filterMap_cons]
    cases h : outcome shared registry i with
    | ok d =>
      rw [settle_of_ok h]
      exact ⟨i :: succeeded, failed, .cons i hperm, .cons h hdetails, hfailures⟩
    | error f =>
      rw [settle_of_error h]
      refine ⟨succeeded, i :: failed, List.perm_middle.trans (.cons i hperm), hdetails,
        .cons ?_ hfailures⟩
      cases f with
      | refused r => exact .refused h
      | faulted f => exact .faulted h

theorem mem_detailsOf {d : PayrollDetail} :
    d ∈ detailsOf shared registry order ↔ ∃ i ∈ order, outcome shared registry i = .ok d := by
  rw [detailsOf, List.mem_filterMap]
  refine exists_congr fun i => and_congr_right fun _ => ?_
  cases outcome shared registry i <;> simp [Except.toOption]

/-- Of employees with distinct ids, each id leads to the detail of its employee. -/
theorem find?_detailsOf (hperm : order.Perm inputs)
    (hids : (inputs.map (·.employee.id)).Nodup) (hi : i ∈ inputs) :
    ((detailsOf shared registry order).find? fun d => d.employeeId = i.employee.id) =
      (outcome shared registry i).toOption := by
  -- A detail of the id is that of an employee of the id, and there is no other one.
  have hown : ∀ d ∈ detailsOf shared registry order, d.employeeId = i.employee.id →
      outcome shared registry i = .ok d := by
    intro d hd hid
    obtain ⟨j, hj, hjd⟩ := mem_detailsOf.1 hd
    have hji : j = i := List.inj_on_of_nodup_map hids (hperm.subset hj) hi
      ((Payroll.employeeId_of_compute hjd).symm.trans hid)
    exact hji ▸ hjd
  cases hfind : (detailsOf shared registry order).find? fun d => d.employeeId = i.employee.id with
  | some d =>
    have hid := List.find?_some hfind
    rw [hown d (List.mem_of_find?_eq_some hfind) (by simpa using hid)]
    rfl
  | none =>
    cases h : outcome shared registry i with
    | error f => rfl
    | ok d =>
      have hd := mem_detailsOf.2 ⟨i, hperm.symm.subset hi, h⟩
      have hne := List.find?_eq_none.1 hfind d hd
      exact absurd (Payroll.employeeId_of_compute h) (by simpa using hne)

/-- Whether the net pays, in the order the results come in, are added up without
    overflow and without a digit dropped. -/
def NetPaysAdd (shared : PayrollInputs) (registry : Registry) (order : List EmployeeInput) : Prop :=
  Along Decimal.add Decimal.Adds .zero (netPays shared registry order)

instance : Decidable (NetPaysAdd shared registry order) :=
  inferInstanceAs (Decidable (Along Decimal.add Decimal.Adds .zero _))

/-- A run whose net pays add up has a report on its employees. -/
theorem exists_run_eq_ok (hlimit : limit ≠ 0) (hmax : limit.toNat ≤ maxWorkers)
    (hperm : order.Perm inputs) (hadd : NetPaysAdd shared registry order) :
    ∃ r, run shared registry limit order = .ok r ∧ Reports shared registry inputs r ∧
      r.details = detailsOf shared registry order ∧
      r.failures = failuresOf shared registry order := by
  obtain ⟨total, htotal, hsum⟩ := Decimal.exists_foldlM_add hadd
  have htotal' : Decimal.sum (netPays shared registry order) = .ok total := htotal
  refine ⟨⟨detailsOf shared registry order, failuresOf shared registry order, total⟩, ?_,
    ⟨?_, ?_, fun hids i hi => find?_detailsOf hperm hids hi⟩, rfl, rfl⟩
  · rw [run_eq hlimit hmax, report_settle, htotal']
    rfl
  · obtain ⟨succeeded, failed, h⟩ := accounted shared registry order
    exact ⟨succeeded, failed, h.1.trans hperm, h.2⟩
  · rw [hsum, Decimal.toRat_zero, zero_add, netPays, List.map_map]
    rfl

/-- With any number of places that can be granted, and whatever the order in which the
    results come in, the report is one on all employees, each by what its own
    calculation comes to, and up to the order of the lists it is the same, unless
    adding up the net pays fails or drops a digit. -/
theorem run_reports (hlimit : limit ≠ 0) (hmax : limit.toNat ≤ maxWorkers)
    (horder : Completes limit.toNat inputs order) (hadd : NetPaysAdd shared registry order) :
    ∃ r, run shared registry limit order = .ok r ∧ Reports shared registry inputs r ∧
      ∀ limit' order', limit' ≠ 0 → limit'.toNat ≤ maxWorkers →
        Completes limit'.toNat inputs order' → NetPaysAdd shared registry order' →
        ∃ r', run shared registry limit' order' = .ok r' ∧ r'.Alike r := by
  obtain ⟨r, hr, hreports, hd, hf⟩ := exists_run_eq_ok hlimit hmax horder.perm hadd
  refine ⟨r, hr, hreports, fun limit' order' hlimit' hmax' horder' hadd' => ?_⟩
  obtain ⟨r', hr', hreports', hd', hf'⟩ := exists_run_eq_ok hlimit' hmax' horder'.perm hadd'
  have hperm : order'.Perm order := horder'.perm.trans horder.perm.symm
  have hdetails : r'.details.Perm r.details := by
    rw [hd, hd']
    exact hperm.filterMap _
  refine ⟨r', hr', hdetails, ?_, ?_⟩
  · rw [hf, hf']
    exact hperm.filterMap _
  · rw [hreports'.totalNetPay, hreports.totalNetPay]
    exact (hdetails.map _).sum_eq

/-- An employee with eight hours on the first day. -/
def onOneDay (id : String) (monthlySalary : Option Decimal) : EmployeeInput where
  employee := { Employee.plain with id, monthlySalary }
  attendance := [{ AttendanceEntry.ofHours 0 800 with employeeId := id }]

/-- A month of one day, at the end of which everybody owes a great advance. -/
def greatAdvance : PayrollInputs where
  parameters := { Parameters.plain (.between 0 0) 1 with monthDays := 1 }
  calendar := ⟨.empty⟩
  labors := []
  concepts :=
    [.plain "BASIC_SALARY" .income none,
     .plain "ADVANCE" .deduction (Decimal.ofInt? 25000000000000000000000000000)]

/-- Two employees who earn more than their advance, each most of what a decimal can
    hold. -/
def rich : List EmployeeInput :=
  ["A", "B"].map fun id => onOneDay id (Decimal.ofInt? 70000000000000000000000000000)

/-- An employee who earns nothing. -/
def poor : EmployeeInput := onOneDay "C" none

/-- If the employee who only owes comes in first, the net pays add up. -/
theorem run_reports_poor_first : (1 : UInt64) ≠ 0 ∧ Completes 1 (rich ++ [poor]) (poor :: rich) ∧
    NetPaysAdd greatAdvance .standard (poor :: rich) ∧
    ∃ r, run greatAdvance .standard 1 (poor :: rich) = .ok r ∧
      Reports greatAdvance .standard (rich ++ [poor]) r := by
  have horder : Completes 1 (rich ++ [poor]) (poor :: rich) :=
    (completes_iff Nat.one_pos).2 (List.perm_append_singleton poor rich).symm
  have hadd : NetPaysAdd greatAdvance .standard (poor :: rich) := by decide +kernel
  have hlimit : (1 : UInt64) ≠ 0 := by decide
  obtain ⟨r, hr, hreports, -⟩ := run_reports hlimit (by decide) horder hadd
  exact ⟨hlimit, horder, hadd, r, hr, hreports⟩

/-- With more places than can be granted there is no report, not even on one employee. -/
theorem not_reports_of_maxWorkers_lt : (2305843009213693952 : UInt64) ≠ 0 ∧
    Completes (2305843009213693952 : UInt64).toNat [poor] [poor] ∧
    NetPaysAdd greatAdvance .standard [poor] ∧
    ¬∃ r, run greatAdvance .standard 2305843009213693952 [poor] = .ok r := by
  refine ⟨by decide, (completes_iff (by decide)).2 (.refl _), by decide +kernel, ?_⟩
  rintro ⟨r, hr⟩
  cases hr

/-! ## When there is a report -/

/-- What is paid out is given in hundredths. -/
theorem scale_netPay_le {employee : Employee} {attendance : List AttendanceEntry}
    {detail : PayrollDetail}
    (h : Payroll.compute employee attendance shared registry = .ok detail) :
    detail.netPay.scale ≤ 2 := by
  obtain ⟨-, ctx, run, hctx, hrun, h⟩ := Payroll.compute_eq_ok_iff.1 h
  obtain ⟨net, hnet, h⟩ := bind_eq_ok.1 h
  rw [pure_eq_ok] at h
  subst h
  have hprepared := Payroll.prepared_of_context hctx
  obtain ⟨hbalanced, haudited⟩ := ConceptRun.balanced_and_audited hrun
  -- The totals begin with zero, and every line is rounded to hundredths.
  have hamounts : ∀ selected, ∀ d ∈ ConceptRun.amountsOf selected run.lines, d.scale ≤ 2 := by
    intro selected d hd
    obtain ⟨l, hl, rfl⟩ := List.mem_map.1 hd
    exact haudited.rounded l (List.mem_of_mem_filter hl)
  have hincome : run.context.totalIncome.scale ≤ 2 :=
    Decimal.scale_foldlM_add_le (by rw [hprepared.totalIncome_eq]; decide) (hamounts _)
      hbalanced.income
  have hdeductions : run.context.totalDeductions.scale ≤ 2 :=
    Decimal.scale_foldlM_add_le (by rw [hprepared.totalDeductions_eq]; decide) (hamounts _)
      hbalanced.deductions
  exact Decimal.scale_addOr_le (b := run.context.totalDeductions.neg) hincome hdeductions hnet

/-- Net pays whose sizes together are in range are added up in any order. -/
theorem netPaysAdd_of_sum_le
    (h : ((netPays shared registry order).map fun d => |d.toRat|).sum * 100 ≤ maxMantissa) :
    NetPaysAdd shared registry order := by
  refine Decimal.along_adds (show Decimal.zero.scale ≤ 2 from Nat.zero_le 2) (fun d hd => ?_) ?_
  · obtain ⟨detail, hdetail, rfl⟩ := List.mem_map.1 hd
    obtain ⟨i, -, hi⟩ := mem_detailsOf.1 hdetail
    exact scale_netPay_le hi
  · have hpow : (10 : ℚ) ^ 2 = 100 := by norm_num
    rw [Decimal.toRat_zero, abs_zero, zero_add, hpow]
    exact h

/-- There is a report exactly if the places of the run can be granted and the sum of
    the net pays stays in range, in the order the results come in; it does in every
    order if their sizes together are in range. Whatever else befalls an employee is
    no fault of the run. -/
theorem exists_run_eq_ok_iff (hlimit : limit ≠ 0) :
    ((∃ r, run shared registry limit order = .ok r) ↔
      limit.toNat ≤ maxWorkers ∧ ∃ total, Decimal.sum (netPays shared registry order) = .ok total) ∧
    (∀ f, run shared registry limit order = .error f →
      f = .faulted .tooManyWorkers ∨ f = .faulted .additionOverflow) ∧
    (limit.toNat ≤ maxWorkers →
      ((netPays shared registry order).map fun d => |d.toRat|).sum * 100 ≤ maxMantissa →
      ∃ r, run shared registry limit order = .ok r ∧ Reports shared registry order r) := by
  refine ⟨?_, fun f h => ?_, fun hmax hsum => ?_⟩
  · by_cases hmax : limit.toNat ≤ maxWorkers
    · rw [run_eq hlimit hmax, report_settle]
      cases Decimal.sum (netPays shared registry order) with
      | ok total => exact ⟨fun _ => ⟨hmax, total, rfl⟩, fun _ => ⟨_, rfl⟩⟩
      | error f => exact ⟨fun h => (nomatch h.choose_spec), fun h => (nomatch h.2.choose_spec)⟩
    · rw [run, if_neg hlimit, if_pos (not_le.1 hmax)]
      exact ⟨fun h => (nomatch h.choose_spec), fun h => absurd h.1 hmax⟩
  · by_cases hmax : limit.toNat ≤ maxWorkers
    · rw [run_eq hlimit hmax, report_settle] at h
      cases hsum : Decimal.sum (netPays shared registry order) with
      | ok total => rw [hsum] at h; cases h
      | error g =>
        rw [hsum] at h
        cases h
        obtain ⟨_, _, _, _, -, -, hadd⟩ := foldlM_eq_error hsum
        exact .inr (by rw [Decimal.add_eq_error hadd])
    · rw [run, if_neg hlimit, if_pos (not_le.1 hmax)] at h
      cases h
      exact .inl rfl
  · obtain ⟨r, hr, hreports, -, -⟩ := exists_run_eq_ok hlimit hmax (.refl order)
      (netPaysAdd_of_sum_le hsum)
    exact ⟨r, hr, hreports⟩

/-- There is a report if the employee who only owes comes in first. -/
theorem exists_run_eq_ok_poor_first : (1 : UInt64) ≠ 0 ∧
    ∃ r, run greatAdvance .standard 1 (poor :: rich) = .ok r := by
  refine ⟨by decide, (exists_run_eq_ok_iff (by decide)).1.2 ⟨by decide, ?_⟩⟩
  have hsum : (Decimal.sum (netPays greatAdvance .standard (poor :: rich))).isOk = true := by
    decide +kernel
  cases h : Decimal.sum (netPays greatAdvance .standard (poor :: rich)) with
  | ok total => exact ⟨total, rfl⟩
  | error f => rw [h] at hsum; cases hsum

/-- There is none if that employee comes in last, though each of the three can be
    calculated. -/
theorem not_exists_run_eq_ok_poor_last :
    (∀ i ∈ rich ++ [poor], (outcome greatAdvance .standard i).isOk) ∧
    Completes 1 (rich ++ [poor]) (rich ++ [poor]) ∧
    ¬∃ r, run greatAdvance .standard 1 (rich ++ [poor]) = .ok r := by
  refine ⟨by decide +kernel, (completes_iff Nat.one_pos).2 (.refl _), ?_⟩
  have hrun : (run greatAdvance .standard 1 (rich ++ [poor])).isOk = false := by decide +kernel
  rintro ⟨r, hr⟩
  rw [hr] at hrun
  cases hrun

end PayRun

end FieldWages
