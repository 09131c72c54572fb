import FieldWages.Proofs.Alike
import FieldWages.Proofs.ConceptRun

/-!
# What a concept depends on

Of the ledger, the calculators of the standard registry read the income alone. So a
concept that is not earned can be put into the plan, or taken out of it, at any place:
the other concepts come to the same amounts for the same reasons, and the income stays.
All it changes is the total it is posted to, so the two runs can part only where that
total overflows, or where the concept itself cannot be calculated. And what comes later
in the plan never changes what came before.

* `ConceptRun.Apart`: runs that differ in one total, and in what no calculator reads;
* `ConceptRun.next_apart`, `ConceptRun.foldlM_apart`: such runs go on side by side, as long
  as the one total can be added up;
* `ConceptRun.ofPlan_insert`: a plan with one more concept.
-/

namespace FieldWages

/-! ## Accounts -/

/-- One of the totals of a ledger. -/
inductive Account where
  | income
  | deductions
  | contributions
deriving DecidableEq

/-- The total that amounts of a category are posted to. -/
def Category.account : Category → Account
  | .income => .income
  | .deduction | .retirement | .employeeContribution => .deductions
  | .employerContribution => .contributions

theorem Category.account_ne_income {c : Category} (h : c ≠ .income) : c.account ≠ .income := by
  cases c <;> first | exact absurd rfl h | exact Account.noConfusion

namespace PayContext

/-- The total of an account. -/
def total (ctx : PayContext) : Account → Decimal
  | .income => ctx.totalIncome
  | .deductions => ctx.totalDeductions
  | .contributions => ctx.totalEmployerContributions

/-- The context with another total in an account. -/
def setTotal (ctx : PayContext) (k : Account) (total : Decimal) : PayContext :=
  match k with
  | .income => { ctx with totalIncome := total }
  | .deductions => { ctx with totalDeductions := total }
  | .contributions => { ctx with totalEmployerContributions := total }

variable {ctx : PayContext} {k j : Account} {t : Decimal}

@[simp]
theorem total_setTotal (ctx : PayContext) (k : Account) (t : Decimal) :
    (ctx.setTotal k t).total k = t := by
  cases k <;> rfl

theorem total_setTotal_of_ne (h : k ≠ j) : (ctx.setTotal k t).total j = ctx.total j := by
  cases k <;> cases j <;> first | exact absurd rfl h | rfl

/-- What is left of a context without one of its totals, its diagnostics and its list of
    concepts. -/
def mask (k : Account) (ctx : PayContext) : PayContext :=
  { ctx.setTotal k .zero with diagnostics := [], concepts := [] }

@[simp]
theorem mask_setTotal (ctx : PayContext) (k : Account) (t : Decimal) :
    (ctx.setTotal k t).mask k = ctx.mask k := by
  cases k <;> rfl

theorem mask_setTotal_of_ne (h : k ≠ j) : (ctx.setTotal j t).mask k = (ctx.mask k).setTotal j t := by
  cases k <;> cases j <;> first | exact absurd rfl h | rfl

theorem total_mask_of_ne (h : k ≠ j) : (ctx.mask k).total j = ctx.total j := by
  cases k <;> cases j <;> first | exact absurd rfl h | rfl

theorem mask_diagnostics (ctx : PayContext) (k : Account) (g : List Diagnostic) :
    PayContext.mask k { ctx with diagnostics := g } = ctx.mask k := by
  cases k <;> rfl

theorem employee_mask (ctx : PayContext) (k : Account) : (ctx.mask k).employee = ctx.employee := by
  cases k <;> rfl

end PayContext

/-! ## Calculators -/

/-- Whether a calculator reads nothing of the ledger but the income, and not the list of
    concepts. -/
def Calculator.ReadsIncome (calculator : Calculator) : Prop :=
  ∀ (ctx : PayContext) d e g cs c, calculator
    { ctx with
      totalDeductions := d
      totalEmployerContributions := e
      diagnostics := g
      concepts := cs } c = calculator ctx c

/-- Whether no calculator of a registry reads anything else. -/
def Registry.ReadsIncome (r : Registry) : Prop :=
  ∀ code calculator, r.get? code = some calculator → calculator.ReadsIncome

theorem Registry.readsIncome_standard : standard.ReadsIncome := by
  have hentries : ∀ e ∈ standardEntries, e.2.ReadsIncome := by
    rw [← List.forall_iff_forall_mem]
    simp only [standardEntries, List.Forall]
    and_intros <;> exact fun _ _ _ _ _ _ => rfl
  intro code calculator h
  obtain ⟨e, he, rfl⟩ := exists_of_get?_standard h
  exact hentries e he

theorem Calculator.ReadsIncome.eq_mask {calculator : Calculator} (hr : calculator.ReadsIncome)
    {k : Account} (hk : k ≠ .income) (ctx : PayContext) (c : Concept) :
    calculator (ctx.mask k) c = calculator ctx c := by
  cases k with
  | income => exact absurd rfl hk
  | deductions => exact hr ctx .zero ctx.totalEmployerContributions [] [] c
  | contributions => exact hr ctx ctx.totalDeductions .zero [] [] c

namespace ConceptRun

variable {registry : Registry} {run run' run₁ run₁' : ConceptRun} {c : Concept} {k : Account}
  {cs : List Concept}

/-! ## Entries -/

/-- A line with the reason for it. -/
abbrev Entry := ConceptLine × String

/-- Whether lines and steps of a run show these entries. -/
def Shows (run : ConceptRun) (entries : List Entry) : Prop :=
  run.lines = entries.map (·.1) ∧ run.steps.map (·.reasoning) = entries.map (·.2)

/-- Whether a run goes on to another by these entries. -/
def Adds (run : ConceptRun) (entries : List Entry) (run₁ : ConceptRun) : Prop :=
  run₁.lines = run.lines ++ entries.map (·.1) ∧
    run₁.steps.map (·.reasoning) = run.steps.map (·.reasoning) ++ entries.map (·.2)

theorem adds_nil (hlines : run₁.lines = run.lines) (hsteps : run₁.steps = run.steps) :
    run.Adds [] run₁ :=
  ⟨by rw [hlines, List.map_nil, List.append_nil], by rw [hsteps, List.map_nil, List.append_nil]⟩

theorem Adds.trans {run₂ : ConceptRun} {xs ys : List Entry} (h : run.Adds xs run₁)
    (h' : run₁.Adds ys run₂) : run.Adds (xs ++ ys) run₂ := by
  rw [Adds, h'.1, h'.2, h.1, h.2]
  simp only [List.map_append, List.append_assoc, and_self]

theorem Shows.adds {xs ys : List Entry} (h : run.Shows xs) (h' : run.Adds ys run₁) :
    run₁.Shows (xs ++ ys) := by
  rw [Shows, h'.1, h'.2, h.1, h.2, List.map_append, List.map_append]
  exact ⟨rfl, rfl⟩

theorem shows_start (ctx : PayContext) : (start ctx).Shows [] := ⟨rfl, rfl⟩

/-! ## Entering -/

/-- The entry an outcome makes. -/
def entryOf (c : Concept) (o : Outcome) : Entry := (lineOf c o, o.reasoning)

/-- The run with an outcome entered, by which the total of its account has become `t`. -/
def entered (run : ConceptRun) (c : Concept) (o : Outcome) (t : Decimal) : ConceptRun :=
  let after := run.context.setTotal c.category.account t
  { context := { after with diagnostics := run.context.diagnostics ++ o.diagnostic.toList }
    lines := run.lines ++ [lineOf c o]
    steps := run.steps ++ [stepOf run.context after run.steps.length c o]
    schemeNoted := run.schemeNoted }

/-- Whether an outcome can be entered is for the total of its account to say. -/
theorem enter_eq (run : ConceptRun) (c : Concept) (o : Outcome) :
    run.enter c o =
      (run.context.total c.category.account).add o.amount.toHundredths >>= fun t =>
        pure (run.entered c o t) := by
  obtain ⟨amount, reasoning, diagnostic⟩ := o
  obtain ⟨code, category, value, description⟩ := c
  unfold enter entered
  cases diagnostic <;> cases category <;>
    simp only [PayContext.accumulate, PayContext.note, PayContext.total, PayContext.setTotal,
      Category.account, Option.map_none, Option.map_some, Option.getD_none, Option.getD_some,
      Option.toList_none, Option.toList_some, List.append_nil] <;>
    cases Decimal.add _ _ <;> rfl

theorem entered_adds (run : ConceptRun) (c : Concept) (o : Outcome) (t : Decimal) :
    run.Adds [entryOf c o] (run.entered c o t) :=
  ⟨rfl, List.map_append⟩

theorem total_entered (run : ConceptRun) (c : Concept) (o : Outcome) (t : Decimal) :
    (run.entered c o t).context.total c.category.account = t :=
  run.context.total_setTotal c.category.account t

theorem total_entered_of_ne {o : Outcome} {t : Decimal} (h : c.category.account ≠ k) :
    (run.entered c o t).context.total k = run.context.total k :=
  PayContext.total_setTotal_of_ne h

theorem mask_entered (run : ConceptRun) (c : Concept) (o : Outcome) (t : Decimal) :
    (run.entered c o t).context.mask c.category.account =
      run.context.mask c.category.account :=
  (PayContext.mask_diagnostics _ _ _).trans (run.context.mask_setTotal _ t)

theorem mask_entered_of_ne {o : Outcome} {t : Decimal} (h : k ≠ c.category.account) :
    (run.entered c o t).context.mask k =
      (run.context.mask k).setTotal c.category.account t :=
  (PayContext.mask_diagnostics _ _ _).trans (PayContext.mask_setTotal_of_ne h)

/-! ## Runs apart -/

/-- Whether the contexts of two runs are the same but for one total, and for diagnostics
    and the list of concepts. -/
def Apart (k : Account) (run run' : ConceptRun) : Prop :=
  run.context.mask k = run'.context.mask k

/-- Whether a run passes over a concept: nothing is written, and at most remarked upon. -/
def PassesOver (run run₁ : ConceptRun) : Prop :=
  run.Adds [] run₁ ∧ ∀ k, run.Apart k run₁ ∧ run₁.context.total k = run.context.total k

theorem passesOver_skipRetirement (run : ConceptRun) : run.PassesOver run.skipRetirement := by
  obtain ⟨g, b, he⟩ := run.skipRetirement_eq
  rw [he]
  refine ⟨adds_nil rfl rfl, fun k => ⟨(run.context.mask_diagnostics k g).symm, ?_⟩⟩
  cases k <;> rfl

theorem passesOver_skipUnknown (run : ConceptRun) (c : Concept) :
    run.PassesOver (run.skipUnknown c) := by
  refine ⟨adds_nil rfl rfl, fun k => ⟨(run.context.mask_diagnostics k _).symm, ?_⟩⟩
  cases k <;> rfl

/-- What a concept can do to a run, and to any other that is apart from it: it is passed
    over by both, or has the same outcome to be entered by both. -/
theorem next_apart_cases (hr : registry.ReadsIncome) (hk : k ≠ .income)
    (hnext : next registry run c = .ok run₁) :
    (run.PassesOver run₁ ∧ ∀ run', run.Apart k run' →
      ∃ run₁', next registry run' c = .ok run₁' ∧ run'.PassesOver run₁') ∨
    ∃ o, run.enter c o = .ok run₁ ∧
      ∀ run', run.Apart k run' → next registry run' c = run'.enter c o := by
  have hemployee : ∀ {run'}, run.Apart k run' → run'.context.employee = run.context.employee := by
    intro run' h
    rw [← run.context.employee_mask k, h, PayContext.employee_mask]
  rcases next_cases hnext with ⟨hc, hpays, rfl⟩ | ⟨hc, hget, rfl⟩ | ⟨hc, calculator, o, hget, ho, he⟩
  · refine .inl ⟨run.passesOver_skipRetirement, fun run' h => ?_⟩
    refine ⟨_, ?_, run'.passesOver_skipRetirement⟩
    rw [next, if_pos ⟨hc, by rwa [hemployee h, Bool.not_eq_true', ← Bool.not_eq_true]⟩]
  · refine .inl ⟨run.passesOver_skipUnknown c, fun run' h => ?_⟩
    refine ⟨_, ?_, run'.passesOver_skipUnknown c⟩
    rw [next, if_neg (by rwa [hemployee h]), hget]
  · refine .inr ⟨o, he, fun run' h => ?_⟩
    have hreads := (hr _ _ hget).eq_mask hk
    rw [next, if_neg (by rwa [hemployee h]), hget]
    dsimp only
    rw [← hreads, ← h, hreads, ho]
    rfl

/-- The amounts posted to an account, added to its total from the left. -/
def postedTo (k : Account) (opening : Decimal) (entries : List Entry) : Except Fault Decimal :=
  totalOf (·.account = k) opening (entries.map (·.1))

theorem postedTo_append (k : Account) (opening : Decimal) (xs ys : List Entry) :
    postedTo k opening (xs ++ ys) = postedTo k opening xs >>= fun t => postedTo k t ys := by
  simp only [postedTo, totalOf, amountsOf, List.map_append, List.filter_append, List.foldlM_append]

theorem postedTo_entryOf (k : Account) (opening : Decimal) (c : Concept) (o : Outcome) :
    postedTo k opening [entryOf c o] =
      if c.category.account = k then opening.add o.amount.toHundredths else .ok opening := by
  rw [postedTo, totalOf, amountsOf]
  split
  · next h => simp [entryOf, lineOf, h]
  · next h => simp [entryOf, lineOf, h]; rfl

/-- How a run goes on that is apart from one that adds some entries: it adds the same, if
    they can be posted to its total. -/
def GoesApart (k : Account) (run' : ConceptRun) (added : List Entry) (run₁ : ConceptRun)
    (outcome : Except Fault ConceptRun) : Prop :=
  Alike (fun t run₁' =>
      run₁.Apart k run₁' ∧ run'.Adds added run₁' ∧ run₁'.context.total k = t)
    (postedTo k (run'.context.total k) added) outcome

/-- A step of two runs that are apart. -/
theorem next_apart (hr : registry.ReadsIncome) (hk : k ≠ .income)
    (hnext : next registry run c = .ok run₁) :
    ∃ added, run.Adds added run₁ ∧
      ∀ run', run.Apart k run' → GoesApart k run' added run₁ (next registry run' c) := by
  rcases next_apart_cases hr hk hnext with ⟨⟨hadds, hover⟩, h'⟩ | ⟨o, he, h'⟩
  · refine ⟨[], hadds, fun run' h => ?_⟩
    obtain ⟨run₁', h', hadds', hover'⟩ := h' run' h
    rw [h']
    exact .ok ⟨(hover k).1.symm.trans (h.trans (hover' k).1), hadds', (hover' k).2⟩
  · rw [enter_eq] at he
    obtain ⟨t, ht, he⟩ := bind_eq_ok.1 he
    cases he
    refine ⟨[entryOf c o], run.entered_adds c o t, fun run' h => ?_⟩
    rw [h' run' h, enter_eq, GoesApart, postedTo_entryOf]
    by_cases hck : c.category.account = k
    · -- The amount goes to the total in which the runs differ.
      subst hck
      rw [if_pos rfl]
      cases (run'.context.total c.category.account).add o.amount.toHundredths with
      | error f => exact .error f
      | ok t' =>
        refine .ok ⟨?_, run'.entered_adds c o t', run'.total_entered c o t'⟩
        rw [Apart, mask_entered, mask_entered]
        exact h
    · -- The amount goes to a total in which they agree.
      have htotal : run'.context.total c.category.account = run.context.total c.category.account := by
        rw [← PayContext.total_mask_of_ne (Ne.symm hck), ← h,
          PayContext.total_mask_of_ne (Ne.symm hck)]
      rw [if_neg hck, htotal, ht]
      refine .ok ⟨?_, run'.entered_adds c o t, total_entered_of_ne hck⟩
      rw [Apart, mask_entered_of_ne (Ne.symm hck), mask_entered_of_ne (Ne.symm hck), h]

/-- Runs that are apart go on side by side. -/
theorem foldlM_apart (hr : registry.ReadsIncome) (hk : k ≠ .income)
    (hrun : cs.foldlM (next registry) run = .ok run₁) :
    ∃ added, run.Adds added run₁ ∧
      ∀ run', run.Apart k run' → GoesApart k run' added run₁ (cs.foldlM (next registry) run') := by
  induction cs generalizing run with
  | nil =>
    rw [List.foldlM_nil, pure_eq_ok] at hrun
    subst hrun
    exact ⟨[], adds_nil rfl rfl, fun run' h => .ok ⟨h, adds_nil rfl rfl, rfl⟩⟩
  | cons c cs ih =>
    rw [List.foldlM_cons] at hrun
    obtain ⟨mid, hmid, hrun⟩ := bind_eq_ok.1 hrun
    obtain ⟨own, hown, hstep⟩ := next_apart hr hk hmid
    obtain ⟨rest, hrest, hsteps⟩ := ih hrun
    refine ⟨own ++ rest, hown.trans hrest, fun run' h => ?_⟩
    unfold GoesApart
    rw [List.foldlM_cons, postedTo_append]
    refine (hstep run' h).bind fun {t mid'} hmid' => ?_
    obtain ⟨hapart, hown', rfl⟩ := hmid'
    refine Alike.mono (fun h => ?_) (hsteps mid' hapart)
    exact ⟨h.1, hown'.trans h.2.1, h.2.2⟩

/-! ## One more concept -/

/-- Whether entries are those of a single concept: there is one at most. -/
def EntriesOf (c : Concept) (own : List Entry) : Prop :=
  own.length ≤ 1 ∧ ∀ e ∈ own, e.1.code = c.code ∧ e.1.category = c.category

/-- A concept changes nothing but the total of its account. -/
theorem next_own (h : next registry run c = .ok run₁) :
    ∃ own, EntriesOf c own ∧ run.Adds own run₁ ∧ run.Apart c.category.account run₁ := by
  have hover (h : run.PassesOver run₁) :
      ∃ own, EntriesOf c own ∧ run.Adds own run₁ ∧ run.Apart c.category.account run₁ :=
    ⟨[], ⟨Nat.zero_le 1, fun _ he => (List.not_mem_nil he).elim⟩, h.1, (h.2 _).1⟩
  rcases next_cases h with ⟨-, -, rfl⟩ | ⟨-, -, rfl⟩ | ⟨-, _, o, -, -, h⟩
  · exact hover run.passesOver_skipRetirement
  · exact hover (run.passesOver_skipUnknown c)
  · rw [enter_eq] at h
    obtain ⟨t, -, h⟩ := bind_eq_ok.1 h
    cases h
    refine ⟨[entryOf c o], ⟨le_rfl, fun e he => ?_⟩, run.entered_adds c o t,
      (run.mask_entered c o t).symm⟩
    cases List.mem_singleton.1 he
    exact ⟨rfl, rfl⟩

/-- A run adds some entries to what it starts from. -/
theorem foldlM_adds (hrun : cs.foldlM (next registry) run = .ok run₁) :
    ∃ added, run.Adds added run₁ :=
  foldlM_invariant (P := fun run₁ => ∃ added, run.Adds added run₁) hrun ⟨[], adds_nil rfl rfl⟩
    fun _ _ _ _ ⟨_, hadds⟩ hnext =>
      have ⟨_, _, hown, _⟩ := next_own hnext
      ⟨_, hadds.trans hown⟩

/-- The run with another list of concepts in its context. -/
def withConcepts (cs : List Concept) (run : ConceptRun) : ConceptRun :=
  { run with context := { run.context with concepts := cs } }

theorem skipRetirement_withConcepts (cs : List Concept) (run : ConceptRun) :
    (run.withConcepts cs).skipRetirement = run.skipRetirement.withConcepts cs := by
  rw [skipRetirement, skipRetirement]
  by_cases h : run.context.employee.retirementScheme.isNone && !run.schemeNoted
  · rw [if_pos h]
    exact if_pos h
  · rw [if_neg h]
    exact if_neg h

theorem enter_withConcepts (cs : List Concept) (run : ConceptRun) (c : Concept) (o : Outcome) :
    (run.withConcepts cs).enter c o = (run.enter c o).map (withConcepts cs) := by
  rw [enter_eq, enter_eq]
  have htotal : (run.withConcepts cs).context.total c.category.account =
      run.context.total c.category.account := by
    cases c.category.account <;> rfl
  rw [htotal]
  cases (run.context.total c.category.account).add o.amount.toHundredths with
  | error f => rfl
  | ok t =>
    refine congrArg Except.ok ?_
    unfold entered
    cases c.category.account <;> rfl

/-- No step looks at the list of concepts. -/
theorem next_withConcepts (hr : registry.ReadsIncome) (cs : List Concept) (run : ConceptRun)
    (c : Concept) :
    next registry (run.withConcepts cs) c = (next registry run c).map (withConcepts cs) := by
  rw [next, next, show (run.withConcepts cs).context.employee = run.context.employee from rfl]
  split
  · rw [skipRetirement_withConcepts]
    rfl
  · cases hget : registry.get? c.code with
    | none => rfl
    | some calculator =>
      have hreads : calculator (run.withConcepts cs).context c = calculator run.context c :=
        hr _ _ hget run.context run.context.totalDeductions
          run.context.totalEmployerContributions run.context.diagnostics cs c
      dsimp only
      rw [hreads]
      cases calculator run.context c with
      | error f => rfl
      | ok o => exact enter_withConcepts cs run c o

theorem foldlM_withConcepts (hr : registry.ReadsIncome) (l : List Concept) (cs : List Concept)
    (run : ConceptRun) : cs.foldlM (next registry) (run.withConcepts l) =
      (cs.foldlM (next registry) run).map (withConcepts l) := by
  induction cs generalizing run with
  | nil => rfl
  | cons c cs ih =>
    rw [List.foldlM_cons, List.foldlM_cons, next_withConcepts hr]
    cases next registry run c with
    | error f => rfl
    | ok mid => exact ih mid

/-- The run of a plan in a context. -/
def ofPlan (ctx : PayContext) (plan : List Concept) : Except Fault ConceptRun :=
  ofContext { ctx with concepts := plan } .standard

theorem ofPlan_eq (ctx : PayContext) (plan : List Concept) :
    ofPlan ctx plan = (plan.foldlM (next .standard) (start ctx)).map (withConcepts plan) :=
  foldlM_withConcepts Registry.readsIncome_standard plan plan (start ctx)

/-- A plan whose beginning has been run goes on from there. -/
theorem ofPlan_append {ctx : PayContext} {before : List Concept} (after : List Concept)
    (h : before.foldlM (next .standard) (start ctx) = .ok run) :
    ofPlan ctx (before ++ after) =
      (after.foldlM (next .standard) run).map (withConcepts (before ++ after)) := by
  rw [ofPlan_eq, List.foldlM_append, h]
  rfl

/-- The run of a plan is that of its beginning, which shows the first of its entries, and
    what comes behind. -/
theorem exists_of_ofPlan_append {ctx : PayContext} {before after : List Concept}
    (h : ofPlan ctx (before ++ after) = .ok run) :
    ∃ head first behind, before.foldlM (next .standard) (start ctx) = .ok head ∧
      ofPlan ctx before = .ok (head.withConcepts before) ∧ head.Shows first ∧
      after.foldlM (next .standard) head = .ok behind ∧
      run = behind.withConcepts (before ++ after) := by
  rw [ofPlan_eq, List.foldlM_append] at h
  obtain ⟨behind, h, hrun⟩ := map_eq_ok.1 h
  obtain ⟨head, hhead, hbehind⟩ := bind_eq_ok.1 h
  obtain ⟨first, hfirst⟩ := foldlM_adds hhead
  refine ⟨head, first, behind, hhead, ?_, (shows_start ctx).adds hfirst, hbehind, hrun.symm⟩
  rw [ofPlan_eq, hhead]
  rfl

theorem totalIncome_eq_of_apart (hk : k ≠ .income) (h : run.Apart k run') :
    run'.context.totalIncome = run.context.totalIncome := by
  have htotal := congrArg (·.total .income) h
  rw [PayContext.total_mask_of_ne hk, PayContext.total_mask_of_ne hk] at htotal
  exact htotal.symm

/-- A plan with one more concept. Calculators read nothing of the ledger but the income.
    Neither the concept nor what comes later changes what came before.
    If it is not earned, the others come to the same as without it, entry by entry, and so
    does the income. The run with it goes as far as the run without it, unless the
    concept cannot be calculated or the later entries cannot be posted to its account
    behind it; and the run without it goes as far as the run with it, unless the later
    entries cannot be posted without it. -/
theorem ofPlan_insert (ctx : PayContext) (before after : List Concept) (c : Concept) :
    Registry.standard.ReadsIncome ∧
    (∀ part whole, ofPlan ctx (before ++ after) = .ok part →
      ofPlan ctx (before ++ c :: after) = .ok whole →
      ∃ head first rest rest', ofPlan ctx before = .ok head ∧ head.Shows first ∧
        part.Shows (first ++ rest) ∧ whole.Shows (first ++ rest')) ∧
    (c.category ≠ .income →
      (∀ part, ofPlan ctx (before ++ after) = .ok part →
        ∃ head first rest, ofPlan ctx before = .ok head ∧ head.Shows first ∧
          part.Shows (first ++ rest) ∧
          Alike (fun _ whole => ∃ own, EntriesOf c own ∧ whole.Shows (first ++ own ++ rest) ∧
              whole.context.totalIncome = part.context.totalIncome)
            (next .standard head c >>= fun behind =>
              postedTo c.category.account (behind.context.total c.category.account) rest)
            (ofPlan ctx (before ++ c :: after))) ∧
      (∀ whole, ofPlan ctx (before ++ c :: after) = .ok whole →
        ∃ head first own rest, ofPlan ctx before = .ok head ∧ head.Shows first ∧ EntriesOf c own ∧
          whole.Shows (first ++ own ++ rest) ∧
          Alike (fun _ part => part.Shows (first ++ rest) ∧
              part.context.totalIncome = whole.context.totalIncome)
            (postedTo c.category.account (head.context.total c.category.account) rest)
            (ofPlan ctx (before ++ after)))) := by
  have hr := Registry.readsIncome_standard
  have htotal : ∀ (run : ConceptRun) cs k,
      (run.withConcepts cs).context.total k = run.context.total k := by
    intro run cs k
    cases k <;> rfl
  refine ⟨hr, fun part whole hpart hwhole => ?_, fun hc => ?_⟩
  · obtain ⟨head, first, _, hbefore, hhead, hfirst, hbehind, rfl⟩ := exists_of_ofPlan_append hpart
    obtain ⟨_, _, _, hbefore', -, -, hbehind', rfl⟩ := exists_of_ofPlan_append hwhole
    cases hbefore.symm.trans hbefore'
    obtain ⟨rest, hrest⟩ := foldlM_adds hbehind
    obtain ⟨rest', hrest'⟩ := foldlM_adds hbehind'
    exact ⟨_, first, rest, rest', hhead, hfirst, hfirst.adds hrest, hfirst.adds hrest'⟩
  have hk := Category.account_ne_income hc
  refine ⟨fun part hpart => ?_, fun whole hwhole => ?_⟩
  · obtain ⟨head, first, behind, hbefore, hhead, hfirst, hbehind, rfl⟩ :=
      exists_of_ofPlan_append hpart
    obtain ⟨rest, hrest, hapart⟩ := foldlM_apart hr hk hbehind
    refine ⟨_, first, rest, hhead, hfirst, hfirst.adds hrest, ?_⟩
    rw [ofPlan_append _ hbefore, List.foldlM_cons, next_withConcepts hr]
    refine Alike.map_right ?_
    cases hc : next .standard head c with
    | error f => exact .error f
    | ok mid =>
      obtain ⟨own, hown, hadds, hmid⟩ := next_own hc
      change Alike _ (postedTo _ ((mid.withConcepts before).context.total _) rest) _
      rw [htotal]
      refine (hapart mid hmid).mono fun h => ?_
      have hincome := totalIncome_eq_of_apart hk h.1
      exact ⟨own, hown, (hfirst.adds hadds).adds h.2.1, hincome⟩
  · obtain ⟨head, first, behind, hbefore, hhead, hfirst, hbehind, rfl⟩ :=
      exists_of_ofPlan_append hwhole
    rw [List.foldlM_cons] at hbehind
    obtain ⟨mid, hc, hbehind⟩ := bind_eq_ok.1 hbehind
    obtain ⟨own, hown, hadds, hmid⟩ := next_own hc
    obtain ⟨rest, hrest, hapart⟩ := foldlM_apart hr hk hbehind
    refine ⟨_, first, own, rest, hhead, hfirst, hown, (hfirst.adds hadds).adds hrest, ?_⟩
    rw [ofPlan_append _ hbefore, htotal]
    refine ((hapart head hmid.symm).mono fun h => ?_).map_right
    have hincome := totalIncome_eq_of_apart hk h.1
    exact ⟨hfirst.adds h.2.1, hincome⟩

/-- A hundred earned. -/
def earning : Concept := .plain "FIXED_INCOME" .income (some .hundred)

/-- A tenth of it withheld. -/
def tax : Concept := .plain "INCOME_TAX" .employeeContribution (some (.ofUInt32 10))

/-- A retention of the given amount. -/
def retention (amount : Option Decimal) : Concept := .plain "JUDICIAL_RETENTION" .deduction amount

/-- A retention in front of the tax leaves the tax as it is. -/
theorem ofPlan_insert_retention : (retention (some .hundred)).category ≠ .income ∧
    ∃ part whole, ofPlan bonusContext ([earning] ++ [tax]) = .ok part ∧
      ofPlan bonusContext ([earning] ++ retention (some .hundred) :: [tax]) = .ok whole ∧
      whole.lines.map (·.amount.toText) = ["100", "100", "10"] ∧
      (∃ first own rest, part.Shows (first ++ rest) ∧ whole.Shows (first ++ own ++ rest)) ∧
      whole.context.totalIncome = part.context.totalIncome := by
  have hpart : (ofPlan bonusContext ([earning] ++ [tax])).isOk := by decide +kernel
  have hwhole : (ofPlan bonusContext ([earning] ++ retention (some .hundred) :: [tax])).map
      (fun run => run.lines.map (·.amount.toText)) = .ok ["100", "100", "10"] := by
    decide +kernel
  have hinsert := ofPlan_insert bonusContext [earning] [tax] (retention (some .hundred))
  obtain ⟨whole, hwhole, hamounts⟩ := map_eq_ok.1 hwhole
  cases hpart' : ofPlan bonusContext ([earning] ++ [tax]) with
  | error f => rw [hpart'] at hpart; cases hpart
  | ok part =>
    obtain ⟨_, first, rest, -, -, hshows, halike⟩ := (hinsert.2.2 (by decide)).1 part hpart'
    rw [hwhole] at halike
    obtain ⟨_, -, own, -, hshows', hincome⟩ := halike.exists_left
    exact ⟨by decide, part, whole, rfl, hwhole, hamounts, ⟨first, own, rest, hshows, hshows'⟩,
      hincome⟩

/-- Half of a hundred octillions. -/
def fiftyOctillions : Option Decimal := Decimal.ofParts? 50000000000000000000000000000 0

/-- A retention that brings the deductions out of range leaves no line of any concept. -/
theorem insertion_overflows :
    ∃ advance : Concept, advance = .plain "ADVANCE" .deduction fiftyOctillions ∧
      (retention fiftyOctillions).category ≠ .income ∧
      (ofPlan bonusContext ([earning] ++ [advance])).map (fun run => run.lines.map (·.code)) =
        .ok ["FIXED_INCOME", "ADVANCE"] ∧
      ¬∃ whole, ofPlan bonusContext ([earning] ++ retention fiftyOctillions :: [advance]) =
        .ok whole := by
  refine ⟨_, rfl, by decide, by decide +kernel, fun ⟨whole, h⟩ => ?_⟩
  have hstops : (ofPlan bonusContext ([earning] ++ retention fiftyOctillions ::
      [.plain "ADVANCE" .deduction fiftyOctillions])).isOk = false := by
    decide +kernel
  rw [h] at hstops
  cases hstops

end ConceptRun

end FieldWages
