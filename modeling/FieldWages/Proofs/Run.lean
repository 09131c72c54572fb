import FieldWages.Fault
import Mathlib.Algebra.Group.Defs
import Mathlib.Algebra.BigOperators.Group.List.Basic

/-!
# Runs

A *run* takes the members of a list one after the other, each by a step from one
state to the next that can fail. A run that succeeds is a chain of steps that
succeed, so what one step does to the state adds up to what the run does:

* `foldlM_invariant`: what every step keeps, the run keeps;
* `foldlM_eq_add_sum`: if every step adds to a measure of the state, the run
  adds the sum;
* `foldlM_filter`: what only some of the members touch is what the run over them
  makes of it;
* `foldlM_eq_error`: a run that fails does so at one step, behind a run that
  succeeds.

What becomes of a member can depend on those before it: a list is then gone through in turn
(`inTurn`). Where a step does so only under a condition, the condition is asked for at the
states the run passes through (`Along`).
-/

namespace FieldWages

variable {ε α β σ : Type}

theorem bind_eq_ok {x : Except ε α} {f : α → Except ε β} {b : β} :
    x >>= f = .ok b ↔ ∃ a, x = .ok a ∧ f a = .ok b := by
  constructor
  · intro h
    cases x with
    | error e => cases h
    | ok a => exact ⟨a, rfl, h⟩
  · rintro ⟨a, rfl, h⟩
    exact h

theorem bind_eq_error {x : Except ε α} {f : α → Except ε β} {e : ε} :
    x >>= f = .error e ↔ x = .error e ∨ ∃ a, x = .ok a ∧ f a = .error e := by
  constructor
  · intro h
    cases x with
    | error e' => cases h; exact .inl rfl
    | ok a => exact .inr ⟨a, rfl, h⟩
  · rintro (rfl | ⟨a, rfl, h⟩)
    · rfl
    · exact h

theorem pure_eq_ok {a b : α} : (pure a : Except ε α) = .ok b ↔ a = b :=
  ⟨fun h => by cases h; rfl, fun h => by rw [h]; rfl⟩

theorem map_eq_ok {x : Except ε α} {f : α → β} {b : β} :
    x.map f = .ok b ↔ ∃ a, x = .ok a ∧ f a = b := by
  cases x with
  | error e => exact ⟨nofun, nofun⟩
  | ok a => exact ⟨fun h => by cases h; exact ⟨a, rfl, rfl⟩, by rintro ⟨_, ⟨⟩, rfl⟩; rfl⟩

theorem map_eq_error {x : Except ε α} {f : α → β} {e : ε} : x.map f = .error e ↔ x = .error e := by
  cases x with
  | error e' => exact ⟨fun h => by cases h; rfl, fun h => by cases h; rfl⟩
  | ok a => exact ⟨nofun, nofun⟩

/-- What has been mapped are the outcomes of the members. -/
theorem mem_of_mapM_eq_ok {f : α → Except ε β} {xs : List α} {ys : List β}
    (h : xs.mapM f = .ok ys) {y : β} : y ∈ ys ↔ ∃ x ∈ xs, f x = .ok y := by
  induction xs generalizing ys with
  | nil =>
    rw [List.mapM_nil, pure_eq_ok] at h
    simp [← h]
  | cons x xs ih =>
    rw [List.mapM_cons] at h
    obtain ⟨z, hz, h⟩ := bind_eq_ok.1 h
    obtain ⟨zs, hzs, h⟩ := bind_eq_ok.1 h
    rw [pure_eq_ok] at h
    rw [← h, List.mem_cons, List.exists_mem_cons_iff, hz, Except.ok.injEq, ih hzs, eq_comm]

theorem length_of_mapM_eq_ok {f : α → Except ε β} {xs : List α} {ys : List β}
    (h : xs.mapM f = .ok ys) : ys.length = xs.length := by
  induction xs generalizing ys with
  | nil =>
    rw [List.mapM_nil, pure_eq_ok] at h
    rw [← h]
    rfl
  | cons x xs ih =>
    rw [List.mapM_cons] at h
    obtain ⟨y, -, h⟩ := bind_eq_ok.1 h
    obtain ⟨zs, hzs, h⟩ := bind_eq_ok.1 h
    rw [pure_eq_ok] at h
    rw [← h, List.length_cons, List.length_cons, ih hzs]

theorem mapM_congr {f g : α → Except ε β} {xs : List α} (h : ∀ x ∈ xs, f x = g x) :
    xs.mapM f = xs.mapM g := by
  induction xs with
  | nil => rfl
  | cons x xs ih =>
    obtain ⟨hx, hxs⟩ := List.forall_mem_cons.1 h
    rw [List.mapM_cons, List.mapM_cons, hx, ih hxs]

theorem exists_mapM_eq_ok {f : α → Except ε β} {xs : List α} (h : ∀ x ∈ xs, ∃ y, f x = .ok y) :
    ∃ ys, xs.mapM f = .ok ys := by
  induction xs with
  | nil => exact ⟨[], rfl⟩
  | cons x xs ih =>
    obtain ⟨⟨y, hy⟩, hxs⟩ := List.forall_mem_cons.1 h
    obtain ⟨ys, hys⟩ := ih hxs
    rw [List.mapM_cons, hy, hys]
    exact ⟨y :: ys, rfl⟩

/-- What the outcomes show is what the members show, if each outcome shows it of its member. -/
theorem map_eq_of_mapM_eq_ok {γ : Type} {f : α → Except ε β} {g : β → γ} {k : α → γ} {xs : List α}
    {ys : List β} (h : xs.mapM f = .ok ys) (hf : ∀ x ∈ xs, ∀ y, f x = .ok y → g y = k x) :
    ys.map g = xs.map k := by
  induction xs generalizing ys with
  | nil =>
    rw [List.mapM_nil, pure_eq_ok] at h
    rw [← h]
    rfl
  | cons x xs ih =>
    rw [List.mapM_cons] at h
    obtain ⟨y, hy, h⟩ := bind_eq_ok.1 h
    obtain ⟨zs, hzs, h⟩ := bind_eq_ok.1 h
    rw [pure_eq_ok] at h
    obtain ⟨hx, hxs⟩ := List.forall_mem_cons.1 hf
    rw [← h, List.map_cons, List.map_cons, hx y hy, ih hzs hxs]

/-- Of a part of a list, the outcomes are that part of the outcomes. -/
theorem sublist_of_mapM_eq_ok {f : α → Except ε β} {xs xs' : List α} {ys ys' : List β}
    (hxs : xs.Sublist xs') (h : xs.mapM f = .ok ys) (h' : xs'.mapM f = .ok ys') :
    ys.Sublist ys' := by
  induction hxs generalizing ys ys' with
  | slnil =>
    rw [List.mapM_nil, pure_eq_ok] at h
    rw [← h]
    exact List.nil_sublist _
  | cons x _ ih =>
    rw [List.mapM_cons] at h'
    obtain ⟨y, -, h'⟩ := bind_eq_ok.1 h'
    obtain ⟨zs, hzs, h'⟩ := bind_eq_ok.1 h'
    rw [pure_eq_ok] at h'
    rw [← h']
    exact (ih h hzs).cons y
  | cons_cons x _ ih =>
    rw [List.mapM_cons] at h h'
    obtain ⟨y, hy, h⟩ := bind_eq_ok.1 h
    obtain ⟨zs, hzs, h⟩ := bind_eq_ok.1 h
    obtain ⟨y', hy', h'⟩ := bind_eq_ok.1 h'
    obtain ⟨zs', hzs', h'⟩ := bind_eq_ok.1 h'
    rw [pure_eq_ok] at h h'
    cases hy.symm.trans hy'
    rw [← h, ← h']
    exact (ih hzs hzs').cons_cons y

/-- Whether the outcome of a step, if there is one, has a property. -/
instance decidableForallOk (x : Except ε α) (P : α → Prop) [DecidablePred P] :
    Decidable (∀ a, x = .ok a → P a) :=
  match x with
  | .ok a => decidable_of_iff (P a) ⟨fun h _ hb => by cases hb; exact h, fun h => h a rfl⟩
  | .error _ => isTrue nofun

variable {step : σ → α → Except ε σ}

theorem foldlM_congr {step' : σ → α → Except ε σ} {xs : List α}
    (h : ∀ s, ∀ x ∈ xs, step s x = step' s x) (s : σ) : xs.foldlM step s = xs.foldlM step' s := by
  induction xs generalizing s with
  | nil => rfl
  | cons x xs ih =>
    rw [List.foldlM_cons, List.foldlM_cons, h s x List.mem_cons_self]
    exact bind_congr fun t => ih (fun s y hy => h s y (List.mem_cons_of_mem x hy)) t

/-- A run that fails takes some steps that succeed and then one that fails. -/
theorem foldlM_eq_error {xs : List α} {s : σ} {e : ε} (h : xs.foldlM step s = .error e) :
    ∃ before x after t, xs = before ++ x :: after ∧ before.foldlM step s = .ok t ∧
      step t x = .error e := by
  induction xs generalizing s with
  | nil => cases h
  | cons x xs ih =>
    rw [List.foldlM_cons, bind_eq_error] at h
    rcases h with h | ⟨u, hu, h⟩
    · exact ⟨[], x, xs, s, rfl, rfl, h⟩
    · -- The step at `x` succeeds, so the run behind it fails.
      obtain ⟨before, y, after, t, rfl, ht, hy⟩ := ih h
      refine ⟨x :: before, y, after, t, rfl, ?_, hy⟩
      rw [List.foldlM_cons, bind_eq_ok]
      exact ⟨u, hu, ht⟩

/-! ## Members in turn -/

/-- The members of a list, each with `before` and those of the list before it. -/
def inTurnAfter (before : List α) : List α → List (List α × α)
  | [] => []
  | x :: xs => (before, x) :: inTurnAfter (before ++ [x]) xs

/-- The members of a list, each with those before it. -/
def inTurn (xs : List α) : List (List α × α) := inTurnAfter [] xs

theorem inTurnAfter_concat (before xs : List α) (x : α) :
    inTurnAfter before (xs ++ [x]) = inTurnAfter before xs ++ [(before ++ xs, x)] := by
  induction xs generalizing before with
  | nil => simp [inTurnAfter]
  | cons y ys ih => simp [inTurnAfter, ih]

theorem inTurn_concat (xs : List α) (x : α) : inTurn (xs ++ [x]) = inTurn xs ++ [(xs, x)] :=
  inTurnAfter_concat [] xs x

example : inTurn [1, 2, 3] = [([], 1), ([1], 2), ([1, 2], 3)] := rfl

/-! ## Conditions along a run -/

/-- `P` holds of every member of a list and of the state a run meets it in. -/
def Along (step : σ → α → Except ε σ) (P : σ → α → Prop) : σ → List α → Prop
  | _, [] => True
  | s, x :: xs => P s x ∧ ∀ t, step s x = .ok t → Along step P t xs

theorem along_of_forall {P : σ → α → Prop} {s : σ} {xs : List α} (h : ∀ s x, P s x) :
    Along step P s xs := by
  induction xs generalizing s with
  | nil => trivial
  | cons x xs ih => exact ⟨h s x, fun _ _ => ih⟩

theorem Along.mono {P Q : σ → α → Prop} {s : σ} {xs : List α} (h : Along step P s xs)
    (hPQ : ∀ s x, P s x → Q s x) : Along step Q s xs := by
  induction xs generalizing s with
  | nil => trivial
  | cons x xs ih => exact ⟨hPQ s x h.1, fun t ht => ih (h.2 t ht)⟩

theorem Along.and {P Q : σ → α → Prop} {s : σ} {xs : List α} (hP : Along step P s xs)
    (hQ : Along step Q s xs) : Along step (fun s x => P s x ∧ Q s x) s xs := by
  induction xs generalizing s with
  | nil => trivial
  | cons x xs ih => exact ⟨⟨hP.1, hQ.1⟩, fun t ht => ih (hP.2 t ht) (hQ.2 t ht)⟩

/-- A run through the states decides a condition along it. -/
def Along.decide (step : σ → α → Except ε σ) (P : σ → α → Prop) [∀ s x, Decidable (P s x)] :
    ∀ s xs, Decidable (Along step P s xs)
  | _, [] => isTrue trivial
  | s, x :: xs =>
    have (t : σ) : Decidable (Along step P t xs) := Along.decide step P t xs
    inferInstanceAs (Decidable (P s x ∧ ∀ t, step s x = .ok t → Along step P t xs))

instance {P : σ → α → Prop} [∀ s x, Decidable (P s x)] (s : σ) (xs : List α) :
    Decidable (Along step P s xs) :=
  Along.decide step P s xs

/-- What holds before a run and is kept by the steps that satisfy `C`, all of its
    steps, holds after it. -/
theorem foldlM_invariant_along {C : σ → α → Prop} {P : σ → Prop} {xs : List α} {s t : σ}
    (h : xs.foldlM step s = .ok t) (hC : Along step C s xs) (hs : P s)
    (hstep : ∀ s x t, x ∈ xs → C s x → P s → step s x = .ok t → P t) : P t := by
  induction xs generalizing s with
  | nil =>
    rw [List.foldlM_nil, pure_eq_ok] at h
    exact h ▸ hs
  | cons x xs ih =>
    rw [List.foldlM_cons, bind_eq_ok] at h
    obtain ⟨u, hu, h⟩ := h
    -- The condition holds at `x`, and along the run behind it.
    obtain ⟨hx, hxs⟩ := hC
    exact ih h (hxs u hu) (hstep s x u List.mem_cons_self hx hs hu) fun s y t hy =>
      hstep s y t (List.mem_cons_of_mem x hy)

/-- What holds before a run and is kept by its steps holds after it. -/
theorem foldlM_invariant {P : σ → Prop} {xs : List α} {s t : σ} (h : xs.foldlM step s = .ok t)
    (hs : P s) (hstep : ∀ s x t, x ∈ xs → P s → step s x = .ok t → P t) : P t :=
  foldlM_invariant_along h (along_of_forall fun _ _ => trivial) hs
    fun s x t hx _ => hstep s x t hx

/-- A run shows what one over the members selected alone shows, if the other members do not
    touch what is shown. -/
theorem foldlM_filter {τ : Type} {R : σ → τ → Prop} {q : α → Bool} {part : τ → α → Except ε τ}
    {xs : List α} {s s' : σ} {t : τ} (h : xs.foldlM step s = .ok s') (hst : R s t)
    (hin : ∀ {s t x s'}, q x → R s t → step s x = .ok s' → ∃ t', part t x = .ok t' ∧ R s' t')
    (hout : ∀ {s t x s'}, ¬q x → R s t → step s x = .ok s' → R s' t) :
    ∃ t', (xs.filter q).foldlM part t = .ok t' ∧ R s' t' := by
  induction xs generalizing s t with
  | nil =>
    rw [List.foldlM_nil, pure_eq_ok] at h
    exact ⟨t, rfl, h ▸ hst⟩
  | cons x xs ih =>
    rw [List.foldlM_cons, bind_eq_ok] at h
    obtain ⟨u, hu, h⟩ := h
    by_cases hx : q x
    · obtain ⟨t₁, ht₁, hut⟩ := hin hx hst hu
      obtain ⟨t', ht', hst'⟩ := ih h hut
      rw [List.filter_cons_of_pos hx, List.foldlM_cons, ht₁]
      exact ⟨t', ht', hst'⟩
    · rw [List.filter_cons_of_neg hx]
      exact ih h (hout hx hst hu)

/-- If every step adds `f x` to the measure `μ`, a run adds the sum. -/
theorem foldlM_eq_add_sum {M : Type} [AddCommMonoid M] {C : σ → α → Prop} {μ : σ → M} {f : α → M}
    {xs : List α} {s t : σ} (h : xs.foldlM step s = .ok t) (hC : Along step C s xs)
    (hstep : ∀ s x t, C s x → step s x = .ok t → μ t = μ s + f x) :
    μ t = μ s + (xs.map f).sum := by
  induction xs generalizing s with
  | nil =>
    rw [List.foldlM_nil, pure_eq_ok] at h
    rw [h, List.map_nil, List.sum_nil, add_zero]
  | cons x xs ih =>
    rw [List.foldlM_cons, bind_eq_ok] at h
    obtain ⟨u, hu, h⟩ := h
    rw [ih h (hC.2 u hu), hstep s x u hC.1 hu, List.map_cons, List.sum_cons, add_assoc]

end FieldWages
