import FieldWages.Proofs.Decimal.Value
import FieldWages.Proofs.Run
import FieldWages.Proofs.Sample
import FieldWages.Payslip
import FieldWages.ConceptRun

/-!
# The ledger of a concept run

A run over concepts posts every amount to the total of its category and writes a
line and a step for it. The ledger is *balanced* if each total is its opening
value with the amounts of its lines added from the left, and the trail is
*audited* if lines and steps match one by one and each step opens with the
totals the one before it closed with. Passing over a concept touches neither.

* `ConceptRun.next_cases`, `ConceptRun.next_eq_error`: what a concept can do to a run;
* `ConceptRun.Balanced.next`, `ConceptRun.Audited.next`: a step of the run keeps
  both, and so does the run (`ConceptRun.balanced_and_audited`);
* `ConceptRun.sameBasis`: the run leaves all else in the context as it was;
* `ConceptRun.ofContext_balanced_or_stops`: how a run can end, with any registry.
-/

namespace FieldWages

/-! ## The basis of a context -/

/-- Whether two contexts agree in everything but their ledgers. -/
def PayContext.SameBasis (a b : PayContext) : Prop :=
  ∃ income deductions contributions diagnostics, b =
    { a with
      totalIncome := income
      totalDeductions := deductions
      totalEmployerContributions := contributions
      diagnostics := diagnostics }

namespace PayContext

theorem SameBasis.refl (a : PayContext) : a.SameBasis a := ⟨_, _, _, _, rfl⟩

theorem SameBasis.trans {a b c : PayContext} (hab : a.SameBasis b) (hbc : b.SameBasis c) :
    a.SameBasis c := by
  obtain ⟨_, _, _, _, rfl⟩ := hab
  obtain ⟨i, d, e, g, rfl⟩ := hbc
  exact ⟨i, d, e, g, rfl⟩

theorem sameBasis_note (a : PayContext) (d : Diagnostic) : a.SameBasis (a.note d) :=
  ⟨_, _, _, _, rfl⟩

/-! ## Posting -/

/-- A total with an amount added if it is posted there. -/
def post (posted : Bool) (total amount : Decimal) : Except Fault Decimal :=
  if posted then total.add amount else .ok total

/-- An amount is posted to the total of its category, and to that alone. -/
theorem accumulate_eq_ok {ctx after : PayContext} {category : Category} {amount : Decimal}
    (h : ctx.accumulate category amount = .ok after) :
    ∃ i d e, post (category == .income) ctx.totalIncome amount = .ok i ∧
      post category.isDeduction ctx.totalDeductions amount = .ok d ∧
      post (category == .employerContribution) ctx.totalEmployerContributions amount = .ok e ∧
      after =
        { ctx with totalIncome := i, totalDeductions := d, totalEmployerContributions := e } := by
  cases category <;> obtain ⟨t, ht, h⟩ := bind_eq_ok.1 h <;> cases h
  case income => exact ⟨t, _, _, ht, rfl, rfl, rfl⟩
  case employerContribution => exact ⟨_, _, t, rfl, rfl, ht, rfl⟩
  all_goals exact ⟨_, t, _, rfl, ht, rfl, rfl⟩

theorem accumulate_eq_error {ctx : PayContext} {category : Category} {amount : Decimal} {f : Fault}
    (h : ctx.accumulate category amount = .error f) : f = .additionOverflow := by
  cases category <;>
    · rcases bind_eq_error.1 h with h | ⟨_, _, h⟩
      · exact Decimal.add_eq_error h
      · cases h

/-- A remark does not meddle with the totals. -/
theorem accumulate_note (ctx : PayContext) (d : Diagnostic) (category : Category)
    (amount : Decimal) :
    (ctx.note d).accumulate category amount = (ctx.accumulate category amount).map (·.note d) := by
  cases category <;> simp only [accumulate, note] <;> cases Decimal.add _ _ <;> rfl

/-- With a remark or without one, a context is the same but for its diagnostics. -/
theorem noted_eq (ctx : PayContext) (d : Option Diagnostic) :
    (d.map ctx.note).getD ctx = { ctx with diagnostics := ctx.diagnostics ++ d.toList } := by
  cases d with
  | none => rw [Option.toList_none, List.append_nil, Option.map_none, Option.getD_none]
  | some d => rfl

end PayContext

/-! ## One concept -/

/-- Whether no calculator of a registry gives up. -/
def Registry.Total (r : Registry) : Prop :=
  ∀ code calculator, r.get? code = some calculator → ∀ ctx c, ∃ o, calculator ctx c = .ok o

namespace Registry

theorem total_empty : empty.Total := fun _ _ h => nomatch h

theorem Total.register {r : Registry} {code : String} {calculator : Calculator} (hr : r.Total)
    (hc : ∀ ctx c, ∃ o, calculator ctx c = .ok o) : (r.register code calculator).Total := by
  intro code' calculator' h
  rw [get?_register] at h
  split at h
  · cases h
    exact hc
  · exact hr code' calculator' h

/-- What is found after some registrations is one of them, or was there before. -/
theorem exists_of_get?_foldl {entries : List (String × Calculator)} {r : Registry} {code : String}
    {calculator : Calculator}
    (h : (entries.foldl (fun r e => r.register e.1 e.2) r).get? code = some calculator) :
    (∃ e ∈ entries, e.2 = calculator) ∨ r.get? code = some calculator := by
  induction entries generalizing r with
  | nil => exact .inr h
  | cons e es ih =>
    rcases ih h with ⟨x, hx, hcalculator⟩ | h
    · exact .inl ⟨x, List.mem_cons_of_mem _ hx, hcalculator⟩
    · rw [get?_register] at h
      split at h
      · cases h
        exact .inl ⟨e, List.mem_cons_self, rfl⟩
      · exact .inr h

theorem exists_of_get?_standard {code : String} {calculator : Calculator}
    (h : standard.get? code = some calculator) : ∃ e ∈ standardEntries, e.2 = calculator :=
  (exists_of_get?_foldl h).resolve_right nofun

/-- Of registrations under codes that differ each one is found. -/
theorem get?_foldl_of_mem {entries : List (String × Calculator)} {r : Registry}
    {e : String × Calculator} (hcodes : (entries.map (foldCode ·.1)).Nodup) (he : e ∈ entries) :
    (entries.foldl (fun r e => r.register e.1 e.2) r).get? e.1 = some e.2 := by
  induction entries using List.reverseRecOn with
  | nil => cases he
  | append_singleton entries x ih =>
    rw [List.map_append, List.nodup_append] at hcodes
    obtain ⟨hcodes, -, hnew⟩ := hcodes
    rw [List.foldl_append, List.foldl_cons, List.foldl_nil, get?_register]
    rcases List.mem_append.1 he with he | he
    · have hne := hnew _ (List.mem_map_of_mem he) _ (List.mem_map_of_mem List.mem_cons_self)
      rw [if_neg hne.symm, ih hcodes he]
    · rw [List.mem_singleton.1 he, if_pos rfl]

/-- Every code of the standard registry has its calculator, however it is spelled. -/
theorem get?_standard {e : String × Calculator} (he : e ∈ standardEntries) {code : String}
    (hcode : sameCode code e.1) : standard.get? code = some e.2 := by
  rw [get?, eq_of_beq hcode]
  exact get?_foldl_of_mem (by decide) he

end Registry

theorem Calculator.fixedAmount_eq_ok (ctx : PayContext) (c : Concept) :
    ∃ o, fixedAmount ctx c = .ok o := by
  rw [fixedAmount]
  split
  · exact ⟨_, rfl⟩
  · exact ⟨_, rfl⟩

namespace ConceptRun

variable {ctx : PayContext} {registry : Registry} {run run' : ConceptRun} {c : Concept}

theorem skipRetirement_eq (run : ConceptRun) :
    ∃ g b, run.skipRetirement =
      ⟨{ run.context with diagnostics := g }, run.lines, run.steps, b⟩ := by
  rw [skipRetirement]
  split
  · exact ⟨_, _, rfl⟩
  · exact ⟨_, _, rfl⟩

/-- The line an outcome is entered as. -/
def lineOf (c : Concept) (o : Outcome) : ConceptLine :=
  ⟨c.code, c.category, c.value, o.amount.toHundredths⟩

/-- The step an outcome is entered with, between two states of the ledger. -/
def stepOf (before after : PayContext) (n : Nat) (c : Concept) (o : Outcome) : AuditStep where
  number := .ofNat n + 1
  conceptCode := c.code
  category := c.category
  input := stepInput before c
  output := stepOutput after o.amount.toHundredths
  reasoning := o.reasoning

/-- What entering an outcome does to a run: its amount is posted, a line and a
    step are written. -/
theorem enter_eq_ok {o : Outcome} (h : run.enter c o = .ok run') :
    ∃ after g, run.context.accumulate c.category o.amount.toHundredths = .ok after ∧
      run' = ⟨{ after with diagnostics := g }, run.lines ++ [lineOf c o],
        run.steps ++ [stepOf run.context after run.steps.length c o], run.schemeNoted⟩ := by
  obtain ⟨noted, hnoted, h⟩ := bind_eq_ok.1 h
  cases h
  cases hd : o.diagnostic with
  | none =>
    rw [hd] at hnoted
    exact ⟨noted, noted.diagnostics, hnoted, rfl⟩
  | some d =>
    rw [hd, Option.map_some, Option.getD_some, PayContext.accumulate_note] at hnoted
    cases hacc : run.context.accumulate c.category o.amount.toHundredths with
    | error f => rw [hacc] at hnoted; cases hnoted
    | ok after =>
      rw [hacc] at hnoted
      cases hnoted
      exact ⟨after, _, rfl, rfl⟩

theorem enter_eq_error {o : Outcome} {f : Fault} (h : run.enter c o = .error f) :
    run.context.accumulate c.category o.amount.toHundredths = .error f := by
  rcases bind_eq_error.1 h with h | ⟨_, _, h⟩
  · cases hd : o.diagnostic with
    | none => rwa [hd] at h
    | some d =>
      rw [hd, Option.map_some, Option.getD_some, PayContext.accumulate_note] at h
      cases hacc : run.context.accumulate c.category o.amount.toHundredths with
      | error g => rw [hacc] at h; cases h; rfl
      | ok after => rw [hacc] at h; cases h
  · cases h

/-- What a concept can do to a run: it is passed over, for one of two reasons, or
    its outcome is entered. -/
theorem next_cases (h : next registry run c = .ok run') :
    (c.category = .retirement ∧ ¬run.context.employee.contributesTo c.code ∧
      run' = run.skipRetirement) ∨
    (¬(c.category = .retirement ∧ !run.context.employee.contributesTo c.code) ∧
      registry.get? c.code = none ∧ run' = run.skipUnknown c) ∨
    (¬(c.category = .retirement ∧ !run.context.employee.contributesTo c.code) ∧
      ∃ calculator o, registry.get? c.code = some calculator ∧
        calculator run.context c = .ok o ∧ run.enter c o = .ok run') := by
  rw [next] at h
  split at h
  · next hc =>
    cases h
    exact .inl ⟨hc.1, by simpa using hc.2, rfl⟩
  · next hc =>
    refine .inr ?_
    split at h
    · next hget =>
      cases h
      exact .inl ⟨hc, hget, rfl⟩
    · next calculator hget =>
      obtain ⟨o, ho, h⟩ := bind_eq_ok.1 h
      exact .inr ⟨hc, calculator, o, hget, ho, h⟩

/-- A concept stops a run if its calculator gives up, or its amount cannot be posted. -/
theorem next_eq_error {f : Fault} (h : next registry run c = .error f) :
    ¬(c.category = .retirement ∧ !run.context.employee.contributesTo c.code) ∧
      ∃ calculator, registry.get? c.code = some calculator ∧
        (calculator run.context c = .error f ∨ ∃ o, calculator run.context c = .ok o ∧
          run.context.accumulate c.category o.amount.toHundredths = .error f) := by
  rw [next] at h
  split at h
  · cases h
  · next hc =>
    split at h
    · cases h
    · next calculator hget =>
      refine ⟨hc, calculator, hget, (bind_eq_error.1 h).imp_right ?_⟩
      exact fun ⟨o, ho, henter⟩ => ⟨o, ho, enter_eq_error henter⟩

theorem sameBasis_next (h : next registry run c = .ok run') :
    run.context.SameBasis run'.context := by
  rcases next_cases h with ⟨-, -, rfl⟩ | ⟨-, -, rfl⟩ | ⟨-, _, o, -, -, h⟩
  · obtain ⟨g, b, he⟩ := run.skipRetirement_eq
    rw [he]
    exact ⟨_, _, _, g, rfl⟩
  · exact run.context.sameBasis_note _
  · obtain ⟨after, g, hafter, rfl⟩ := enter_eq_ok h
    obtain ⟨i, d, e, -, -, -, rfl⟩ := PayContext.accumulate_eq_ok hafter
    exact ⟨i, d, e, g, rfl⟩

/-- A run over concepts changes nothing in the context but the ledger. -/
theorem sameBasis (h : ofContext ctx registry = .ok run) : ctx.SameBasis run.context :=
  foldlM_invariant (P := fun run => ctx.SameBasis run.context) h (.refl ctx)
    fun _ _ _ _ hs hnext => hs.trans (sameBasis_next hnext)

/-! ## The totals -/

/-- The amounts of the lines of the categories selected, in order. -/
def amountsOf (selected : Category → Bool) (lines : List ConceptLine) : List Decimal :=
  (lines.filter (selected ·.category)).map (·.amount)

/-- A total with the amounts of its lines added, from the left. -/
def totalOf (selected : Category → Bool) (opening : Decimal) (lines : List ConceptLine) :
    Except Fault Decimal :=
  (amountsOf selected lines).foldlM Decimal.add opening

theorem totalOf_concat {selected : Category → Bool} {opening total : Decimal}
    {lines : List ConceptLine} (l : ConceptLine) (h : totalOf selected opening lines = .ok total) :
    totalOf selected opening (lines ++ [l]) =
      PayContext.post (selected l.category) total l.amount := by
  unfold totalOf amountsOf at *
  rw [List.filter_append, List.map_append, List.foldlM_append, h]
  cases hl : selected l.category with
  | true =>
    have hf : [l].filter (selected ·.category) = [l] := by simp [hl]
    rw [hf]
    exact bind_pure (m := Except Fault) _
  | false =>
    have hf : [l].filter (selected ·.category) = [] := by simp [hl]
    rw [hf]
    rfl

/-- Each total is its opening value with the amounts of its lines added: income
    with income, deductions with all that is withheld, contributions with what
    the employer pays. -/
structure Balanced (ctx : PayContext) (run : ConceptRun) : Prop where
  income : totalOf (· == .income) ctx.totalIncome run.lines = .ok run.context.totalIncome
  deductions :
    totalOf Category.isDeduction ctx.totalDeductions run.lines = .ok run.context.totalDeductions
  contributions :
    totalOf (· == .employerContribution) ctx.totalEmployerContributions run.lines =
      .ok run.context.totalEmployerContributions

theorem balanced_start (ctx : PayContext) : (start ctx).Balanced ctx := ⟨rfl, rfl, rfl⟩

theorem Balanced.next (hb : run.Balanced ctx) (h : next registry run c = .ok run') :
    run'.Balanced ctx := by
  rcases next_cases h with ⟨-, -, rfl⟩ | ⟨-, -, rfl⟩ | ⟨-, _, o, -, -, h⟩
  · obtain ⟨g, b, he⟩ := run.skipRetirement_eq
    rw [he]
    exact ⟨hb.income, hb.deductions, hb.contributions⟩
  · exact ⟨hb.income, hb.deductions, hb.contributions⟩
  · obtain ⟨after, g, hafter, rfl⟩ := enter_eq_ok h
    obtain ⟨i, d, e, hi, hd, he, rfl⟩ := PayContext.accumulate_eq_ok hafter
    exact ⟨(totalOf_concat (lineOf c o) hb.income).trans hi,
      (totalOf_concat (lineOf c o) hb.deductions).trans hd,
      (totalOf_concat (lineOf c o) hb.contributions).trans he⟩

/-! ## The audit trail -/

/-- The text of a member of an object. -/
def textOf? (v : Json) (name : String) : Option String :=
  match v with
  | .obj members =>
    match Json.member? members name with
    | some (.str text) => some text
    | _ => none
  | _ => none

/-- Whether a step shows these totals before its amount is posted. -/
def Opens (s : AuditStep) (income deductions : String) : Prop :=
  textOf? s.input "total_income_before" = some income ∧
    textOf? s.input "total_deductions_before" = some deductions

/-- Whether a step shows these totals after its amount is posted. -/
def Closes (s : AuditStep) (income deductions : String) : Prop :=
  textOf? s.output "total_income" = some income ∧
    textOf? s.output "total_deductions" = some deductions

/-- Whether a step tells of a line: code, category and amount are the same. -/
def TellsOf (s : AuditStep) (l : ConceptLine) : Prop :=
  s.conceptCode = l.code ∧ s.category = l.category ∧
    textOf? s.output "amount" = some l.amount.toText

theorem stepOf_opens (before after : PayContext) (n : Nat) (c : Concept) (o : Outcome) :
    Opens (stepOf before after n c o) before.totalIncome.toText before.totalDeductions.toText := by
  simp [Opens, textOf?, stepOf, stepInput, shown, Json.member?]

theorem stepOf_closes (before after : PayContext) (n : Nat) (c : Concept) (o : Outcome) :
    Closes (stepOf before after n c o) after.totalIncome.toText after.totalDeductions.toText := by
  simp [Closes, textOf?, stepOf, stepOutput, shown, Json.member?]

theorem stepOf_tellsOf (before after : PayContext) (n : Nat) (c : Concept) (o : Outcome) :
    TellsOf (stepOf before after n c o) (lineOf c o) := by
  simp [TellsOf, textOf?, stepOf, lineOf, stepOutput, shown, Json.member?]

/-- The trail of a run: a step for each line, numbered from one, the first of
    them opening with the totals the run began with and each later one with those
    the step before it closed with. -/
structure Audited (ctx : PayContext) (run : ConceptRun) : Prop where
  told : List.Forall₂ TellsOf run.steps run.lines
  numbered : run.steps.map (·.number) = (List.range' 1 run.steps.length).map UInt32.ofNat
  opened : ∀ s ∈ run.steps.head?, Opens s ctx.totalIncome.toText ctx.totalDeductions.toText
  linked : run.steps.IsChain fun s t => ∃ income deductions,
    Closes s income deductions ∧ Opens t income deductions
  closed : ∀ s ∈ run.steps.getLast?,
    Closes s run.context.totalIncome.toText run.context.totalDeductions.toText ∧
      textOf? s.output "total_employer_contributions" =
        some run.context.totalEmployerContributions.toText
  rounded : ∀ l ∈ run.lines, l.amount.scale ≤ 2

theorem audited_start (ctx : PayContext) : (start ctx).Audited ctx where
  told := .nil
  numbered := rfl
  opened _ hs := nomatch hs
  linked := .nil
  closed _ hs := nomatch hs
  rounded _ hl := nomatch hl

/-- Without a step there is no line, so the totals are still the opening ones. -/
theorem Audited.totals_of_steps_eq_nil (ha : run.Audited ctx) (hb : run.Balanced ctx)
    (h : run.steps = []) : run.context.totalIncome = ctx.totalIncome ∧
      run.context.totalDeductions = ctx.totalDeductions := by
  have hl : run.lines = [] := by
    have := ha.told
    rw [h, List.forall₂_nil_left_iff] at this
    exact this
  have hi := hb.income
  have hd := hb.deductions
  rw [hl] at hi hd
  exact ⟨(pure_eq_ok.1 hi).symm, (pure_eq_ok.1 hd).symm⟩

theorem Audited.next (ha : run.Audited ctx) (hb : run.Balanced ctx)
    (h : next registry run c = .ok run') : run'.Audited ctx := by
  rcases next_cases h with ⟨-, -, rfl⟩ | ⟨-, -, rfl⟩ | ⟨-, _, o, -, -, h⟩
  · obtain ⟨g, b, he⟩ := run.skipRetirement_eq
    rw [he]
    exact ⟨ha.told, ha.numbered, ha.opened, ha.linked, ha.closed, ha.rounded⟩
  · exact ⟨ha.told, ha.numbered, ha.opened, ha.linked, ha.closed, ha.rounded⟩
  · obtain ⟨after, g, -, rfl⟩ := enter_eq_ok h
    have hopens := stepOf_opens run.context after run.steps.length c o
    refine ⟨?_, ?_, ?_, ?_, ?_, ?_⟩
    · exact List.rel_append ha.told (.cons (stepOf_tellsOf _ _ _ _ _) .nil)
    · simp only [List.map_append, ha.numbered, List.length_append, List.length_singleton,
        List.range'_concat, List.map_cons, List.map_nil, stepOf]
      simp [Nat.add_comm]
    · -- The new step is the first one only if nothing has been posted yet.
      intro s hs
      cases hsteps : run.steps with
      | nil =>
        obtain ⟨hi, hd⟩ := ha.totals_of_steps_eq_nil hb hsteps
        rw [hsteps] at hs hopens
        cases hs
        rwa [hi, hd] at hopens
      | cons t ts =>
        rw [hsteps] at hs
        exact ha.opened s (by rw [hsteps]; exact hs)
    · refine ha.linked.append (.singleton _) fun s hs t ht => ?_
      cases ht
      exact ⟨_, _, (ha.closed s hs).1, hopens⟩
    · intro s hs
      rw [List.getLast?_append, List.getLast?_singleton, Option.some_or] at hs
      cases hs
      exact ⟨stepOf_closes _ _ _ _ _, by simp [textOf?, stepOf, stepOutput, shown, Json.member?]⟩
    · intro l hl
      rcases List.mem_append.1 hl with hl | hl
      · exact ha.rounded l hl
      · rw [List.mem_singleton.1 hl]
        exact o.amount.scale_toHundredths_le

/-- A run over concepts that has got so far is balanced and audited. -/
theorem balanced_and_audited {cs : List Concept}
    (h : cs.foldlM (next registry) (start ctx) = .ok run) : run.Balanced ctx ∧ run.Audited ctx :=
  foldlM_invariant (P := fun run => run.Balanced ctx ∧ run.Audited ctx) h
    ⟨balanced_start ctx, audited_start ctx⟩
    fun _ _ _ _ ⟨hb, ha⟩ hnext => ⟨hb.next hnext, ha.next hb hnext⟩

/-! ## Whole runs -/

/-- The run stops at a concept whose amount does not fit its total any more. -/
def Overflows (ctx : PayContext) (registry : Registry) : Prop :=
  ∃ before c after run calculator o, ctx.concepts = before ++ c :: after ∧
    before.foldlM (next registry) (start ctx) = .ok run ∧
    registry.get? c.code = some calculator ∧ calculator run.context c = .ok o ∧
    run.context.accumulate c.category o.amount.toHundredths = .error .additionOverflow ∧
    ofContext ctx registry = .error .additionOverflow

/-- The run stops at a concept whose calculator gives up. -/
def GivesUp (ctx : PayContext) (registry : Registry) : Prop :=
  ∃ before c after run calculator f, ctx.concepts = before ++ c :: after ∧
    before.foldlM (next registry) (start ctx) = .ok run ∧
    registry.get? c.code = some calculator ∧ calculator run.context c = .error f ∧
    ofContext ctx registry = .error f

/-- A run is stopped by a total that overflows, or by a calculator that gives up. -/
theorem overflows_or_givesUp {f : Fault} (h : ofContext ctx registry = .error f) :
    Overflows ctx registry ∨ GivesUp ctx registry := by
  obtain ⟨before, c, after, run, hconcepts, hrun, hc⟩ := foldlM_eq_error h
  obtain ⟨-, calculator, hget, hgivesUp | ⟨o, ho, hacc⟩⟩ := next_eq_error hc
  · exact .inr ⟨before, c, after, run, calculator, f, hconcepts, hrun, hget, hgivesUp, h⟩
  · cases PayContext.accumulate_eq_error hacc
    exact .inl ⟨before, c, after, run, calculator, o, hconcepts, hrun, hget, ho, hacc, h⟩

/-- Calculators that never give up do not stop a run. -/
theorem not_givesUp_of_total (hr : registry.Total) : ¬GivesUp ctx registry := by
  rintro ⟨_, c, _, run, calculator, f, -, -, hget, hgivesUp, -⟩
  obtain ⟨o, ho⟩ := hr c.code calculator hget run.context c
  cases ho.symm.trans hgivesUp

theorem netPay_assemble (ctx : PayContext) (lines : List ConceptLine) (steps : List AuditStep) :
    (PayrollDetail.assemble ctx lines steps).map (·.netPay) =
      ctx.totalIncome.sub ctx.totalDeductions := by
  rw [PayrollDetail.assemble, PayContext.netPay]
  cases ctx.totalIncome.sub ctx.totalDeductions <;> rfl

theorem numbers_of_audited (ha : run.Audited ctx) (hn : run.steps.length < UInt32.size) :
    run.steps.map (·.number.toNat) = List.range' 1 run.steps.length := by
  have h := congrArg (List.map UInt32.toNat) ha.numbered
  rw [List.map_map, List.map_map] at h
  refine h.trans ((List.map_congr_left fun k hk => ?_).trans (List.map_id _))
  have hk' := List.mem_range'_1.1 hk
  exact UInt32.toNat_ofNat_of_lt' (by omega)

/-- Ledger and audit trail of a run stay consistent, whatever the registry: a run over
    concepts ends balanced and audited, and what the detail of its context pays out is the
    income less the deductions; or else it stops at a total that overflows, or at a calculator
    that gives up. -/
theorem ofContext_balanced_or_stops (ctx : PayContext) (registry : Registry) :
    (∃ run, ofContext ctx registry = .ok run ∧ run.Balanced ctx ∧ run.Audited ctx ∧
      (run.steps.length < UInt32.size →
        run.steps.map (·.number.toNat) = List.range' 1 run.steps.length) ∧
      (PayrollDetail.assemble run.context run.lines run.steps).map (·.netPay) =
        run.context.totalIncome.sub run.context.totalDeductions) ∨
    Overflows ctx registry ∨ GivesUp ctx registry := by
  cases h : ofContext ctx registry with
  | error f => exact .inr (overflows_or_givesUp h)
  | ok run =>
    obtain ⟨hb, ha⟩ := balanced_and_audited h
    exact .inl ⟨run, rfl, hb, ha, numbers_of_audited ha, netPay_assemble _ _ _⟩

/-- A registry whose one calculator pays what is configured. -/
def bonusRegistry : Registry := Registry.empty.register "BONUS" Calculator.fixedAmount

theorem bonusRegistry_total : bonusRegistry.Total :=
  Registry.total_empty.register Calculator.fixedAmount_eq_ok

/-- A context with a bonus, a concept of a scheme the employee is not in, one
    without calculator, and an advance on the bonus. -/
def bonusContext : PayContext where
  employee := .plain
  parameters := .plain (.between 0 6) 6
  workedDates := []
  calendar := .empty
  dailyHours := .empty
  hours := .none
  piecework := .none
  basicPay := ⟨.zero, [], .zero⟩
  restDays := .none
  dailyRate := .zero
  hourlyRate := .zero
  concepts :=
    [.plain "Bonus" .income (Decimal.ofParts? 100005 3),
     .plain "BONUS" .retirement (some .hundred),
     .plain "TIP" .income none,
     .plain "BONUS" .deduction (Decimal.ofParts? 3050 2)]
  totalIncome := .zero
  totalDeductions := .zero
  totalEmployerContributions := .zero
  diagnostics := []

/-- The bonus is rounded to 100.01, and 69.51 of it is left. -/
theorem bonus_balanced : bonusRegistry.Total ∧
    ∃ run, ofContext bonusContext bonusRegistry = .ok run ∧ run.Balanced bonusContext ∧
      run.Audited bonusContext ∧
      (run.steps.length < UInt32.size →
        run.steps.map (·.number.toNat) = List.range' 1 run.steps.length) ∧
      (PayrollDetail.assemble run.context run.lines run.steps).map (·.netPay) =
        run.context.totalIncome.sub run.context.totalDeductions := by
  refine ⟨bonusRegistry_total,
    (ofContext_balanced_or_stops bonusContext bonusRegistry).resolve_right (not_or.2 ⟨?_, ?_⟩)⟩
  · rintro ⟨_, _, _, _, _, _, _, _, _, _, _, h⟩
    have : (ofContext bonusContext bonusRegistry).isOk = true := by decide +kernel
    rw [h] at this
    cases this
  · exact not_givesUp_of_total bonusRegistry_total

end ConceptRun

end FieldWages
