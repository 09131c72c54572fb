import FieldWages.Proofs.Alike

/-!
# Runs that can overflow

A calculation with more in it than another can leave the range of decimals where the other
one stays within. Short of that, it has a result (`UnlessOverflow`). Of two runs, one
over some of the members of the other in the same order, the longer one keeps to the
shorter one if it does so at common members and the other members do not disturb it.

* `UnlessOverflow.bind`, `UnlessOverflow.mapM`: calculations made of others;
* `UnlessOverflow.foldlM`, `UnlessOverflow.foldlM_same`: two runs.
-/

namespace FieldWages

variable {α β σ τ : Type}

/-- Whether a fault is that of a decimal that gets out of range. -/
def Fault.IsOverflow : Fault → Prop
  | .additionOverflow | .subtractionOverflow | .multiplicationOverflow | .divisionOverflow => True
  | _ => False

/-- Whether a calculation has a result with a property, unless a decimal gets out of range. -/
inductive UnlessOverflow (P : α → Prop) : Except Fault α → Prop
  | ok {a : α} (h : P a) : UnlessOverflow P (.ok a)
  | error {f : Fault} (h : f.IsOverflow) : UnlessOverflow P (.error f)

namespace UnlessOverflow

variable {P : α → Prop} {Q : β → Prop} {x : Except Fault α}

theorem intro (h : ∀ a, x = .ok a → P a) (herror : ∀ f, x = .error f → f.IsOverflow) :
    UnlessOverflow P x := by
  cases x with
  | ok a => exact .ok (h a rfl)
  | error f => exact .error (herror f rfl)

theorem of_eq_ok (h : UnlessOverflow P x) {a : α} (hx : x = .ok a) : P a := by
  subst hx
  cases h with
  | ok h => exact h

theorem of_eq_error (h : UnlessOverflow P x) {f : Fault} (hx : x = .error f) : f.IsOverflow := by
  subst hx
  cases h with
  | error h => exact h

theorem mono {P' : α → Prop} (h : UnlessOverflow P x) (hP : ∀ a, P a → P' a) :
    UnlessOverflow P' x := by
  cases h with
  | ok h => exact .ok (hP _ h)
  | error h => exact .error h

theorem bind {f : α → Except Fault β} (h : UnlessOverflow P x)
    (hf : ∀ a, P a → UnlessOverflow Q (f a)) : UnlessOverflow Q (x >>= f) := by
  cases h with
  | ok h => exact hf _ h
  | error h => exact .error h

/-- Behind a step that another calculation has taken, too. -/
theorem bind_ok {f : α → Except Fault β} {a : α} (hx : x = .ok a) (hf : UnlessOverflow Q (f a)) :
    UnlessOverflow Q (x >>= f) := by
  rw [hx]
  exact hf

/-- The longer of two runs keeps to the shorter one. -/
theorem foldlM {R : σ → τ → Prop} {E : α → β → Prop} {V : β → Prop} {f : σ → α → Except Fault σ}
    {g : τ → β → Except Fault τ} {xs : List α} {ys : List β} (hxs : List.SublistForall₂ E xs ys)
    (hys : ∀ y ∈ ys, V y)
    (hstep : ∀ {s t x y s'}, R s t → E x y → V y → f s x = .ok s' → UnlessOverflow (R s') (g t y))
    (hskip : ∀ {s t y}, R s t → V y → UnlessOverflow (R s) (g t y)) {s : σ} {t : τ} (hst : R s t)
    {s' : σ} (h : xs.foldlM f s = .ok s') : UnlessOverflow (R s') (ys.foldlM g t) := by
  induction hxs generalizing s t with
  | @nil ys =>
    rw [List.foldlM_nil, pure_eq_ok] at h
    subst h
    clear hstep
    induction ys generalizing t with
    | nil => exact .ok hst
    | cons y ys ih =>
      obtain ⟨hy, hys⟩ := List.forall_mem_cons.1 hys
      rw [List.foldlM_cons]
      exact (hskip hst hy).bind fun t₁ ht₁ => ih hys ht₁
  | cons hxy _ ih =>
    obtain ⟨hy, hys⟩ := List.forall_mem_cons.1 hys
    rw [List.foldlM_cons, bind_eq_ok] at h
    obtain ⟨s₁, hs₁, h⟩ := h
    rw [List.foldlM_cons]
    exact (hstep hst hxy hy hs₁).bind fun t₁ ht₁ => ih hys ht₁ h
  | cons_right _ ih =>
    obtain ⟨hy, hys⟩ := List.forall_mem_cons.1 hys
    rw [List.foldlM_cons]
    exact (hskip hst hy).bind fun t₁ ht₁ => ih hys ht₁ h

/-- A run keeps to another one over the same members if it does so at each of them. -/
theorem foldlM_same {R : σ → τ → Prop} {V : α → Prop} {f : σ → α → Except Fault σ}
    {g : τ → α → Except Fault τ} {xs : List α} (hxs : ∀ x ∈ xs, V x)
    (hstep : ∀ {s t x s'}, R s t → V x → f s x = .ok s' → UnlessOverflow (R s') (g t x))
    {s : σ} {t : τ} (hst : R s t) {s' : σ} (h : xs.foldlM f s = .ok s') :
    UnlessOverflow (R s') (xs.foldlM g t) := by
  induction xs generalizing s t with
  | nil =>
    rw [List.foldlM_nil, pure_eq_ok] at h
    exact .ok (h ▸ hst)
  | cons x xs ih =>
    obtain ⟨hx, hxs⟩ := List.forall_mem_cons.1 hxs
    rw [List.foldlM_cons, bind_eq_ok] at h
    obtain ⟨s₁, hs₁, h⟩ := h
    rw [List.foldlM_cons]
    exact (hstep hst hx hs₁).bind fun t₁ ht₁ => ih hxs ht₁ h

theorem mapM {f : β → Except Fault α} {ys : List β} (h : ∀ y ∈ ys, UnlessOverflow P (f y)) :
    UnlessOverflow (fun xs => ys.mapM f = .ok xs ∧ ∀ x ∈ xs, P x) (ys.mapM f) := by
  refine .intro (fun xs hxs => ⟨hxs, fun x hx => ?_⟩) fun e he => ?_
  · obtain ⟨y, hy, hyx⟩ := (mem_of_mapM_eq_ok hxs).1 hx
    exact (h y hy).of_eq_ok hyx
  · induction ys with
    | nil => cases he
    | cons y ys ih =>
      obtain ⟨hy, hys⟩ := List.forall_mem_cons.1 h
      rw [List.mapM_cons, bind_eq_error] at he
      rcases he with he | ⟨x, -, he⟩
      · exact hy.of_eq_error he
      rcases bind_eq_error.1 he with he | ⟨xs, -, he⟩
      · exact ih hys he
      · cases he

end UnlessOverflow

end FieldWages
