import FieldWages.Proofs.Run
import FieldWages.Refusal
import Mathlib.Data.List.Forall2

/-!
# Runs that are alike

Two calculations are *alike* if both fail in the same way, or both succeed with
results that are related. Calculations made of steps that are alike are alike
(`Alike.bind`), and so are runs that take lists of related members through
related states (`Alike.foldlM`).
-/

namespace FieldWages

variable {ε α β γ α' β' γ' σ τ : Type}

/-- Whether two outcomes are the same failure, or results related by `R`. -/
inductive Alike (R : α → β → Prop) : Except ε α → Except ε β → Prop
  | ok {a : α} {b : β} (h : R a b) : Alike R (.ok a) (.ok b)
  | error (e : ε) : Alike R (.error e) (.error e)

namespace Alike

variable {R : α → β → Prop} {S : α' → β' → Prop} {x : Except ε α} {y : Except ε β}

theorem of_eq {R : α → α → Prop} {x y : Except ε α} (h : x = y) (hR : ∀ a, R a a) :
    Alike R x y := by
  rw [h]
  cases y with
  | ok a => exact .ok (hR a)
  | error e => exact .error e

theorem symm {R : α → α → Prop} (hR : ∀ {a b}, R a b → R b a) {x y : Except ε α}
    (h : Alike R x y) : Alike R y x := by
  cases h with
  | ok h => exact .ok (hR h)
  | error e => exact .error e

theorem trans {R : α → α → Prop} (hR : ∀ {a b c}, R a b → R b c → R a c) {x y z : Except ε α}
    (hxy : Alike R x y) (hyz : Alike R y z) : Alike R x z := by
  cases hxy with
  | ok h => cases hyz with | ok h' => exact .ok (hR h h')
  | error e => cases hyz with | error => exact .error e

theorem mono {R' : α → β → Prop} (hR : ∀ {a b}, R a b → R' a b) (h : Alike R x y) :
    Alike R' x y := by
  cases h with
  | ok h => exact .ok (hR h)
  | error e => exact .error e

theorem exists_left {b : β} (h : Alike R x (.ok b)) : ∃ a, x = .ok a ∧ R a b := by
  cases h with
  | ok h => exact ⟨_, rfl, h⟩

theorem exists_right {a : α} (h : Alike R (.ok a) y) : ∃ b, y = .ok b ∧ R a b := by
  cases h with
  | ok h => exact ⟨_, rfl, h⟩

theorem map_right {g : β → β'} {S : α → β' → Prop} (h : Alike (fun a b => S a (g b)) x y) :
    Alike S x (y.map g) := by
  cases h with
  | ok h => exact .ok h
  | error e => exact .error e

/-- Outcomes are related by a function if one is mapped to the other by it. -/
theorem iff_eq_map {f : α → β} : Alike (fun a b => b = f a) x y ↔ y = x.map f := by
  constructor
  · intro h
    cases h with
    | ok h => rw [h, Except.map]
    | error e => rfl
  · rintro rfl
    cases x with
    | ok a => exact .ok rfl
    | error e => exact .error e

theorem bind {f : α → Except ε α'} {g : β → Except ε β'} (h : Alike R x y)
    (hfg : ∀ {a b}, R a b → Alike S (f a) (g b)) : Alike S (x >>= f) (y >>= g) := by
  cases h with
  | ok h => exact hfg h
  | error e => exact .error e

/-- Behind the same step, what goes on need only be alike for its result. -/
theorem bind_same {x : Except ε α} {f : α → Except ε α'} {g : α → Except ε β'}
    (h : ∀ a, x = .ok a → Alike S (f a) (g a)) : Alike S (x >>= f) (x >>= g) := by
  cases x with
  | ok a => exact h a rfl
  | error e => exact .error e

/-- Runs over related members, by steps that keep related states related, are alike. -/
theorem foldlM {R : σ → τ → Prop} {Q : α → β → Prop} {f : σ → α → Except ε σ}
    {g : τ → β → Except ε τ} {xs : List α} {ys : List β} (hxs : List.Forall₂ Q xs ys)
    (hfg : ∀ {s t x y}, R s t → Q x y → Alike R (f s x) (g t y)) {s : σ} {t : τ} (hst : R s t) :
    Alike R (xs.foldlM f s) (ys.foldlM g t) := by
  induction hxs generalizing s t with
  | nil => exact .ok hst
  | cons hx _ ih =>
    rw [List.foldlM_cons, List.foldlM_cons]
    exact (hfg hst hx).bind ih

/-- Runs over the same members, by steps that keep related states related, are alike. -/
theorem foldlM_same {R : σ → τ → Prop} {f : σ → α → Except ε σ} {g : τ → α → Except ε τ}
    (xs : List α) (hfg : ∀ {s t x}, R s t → Alike R (f s x) (g t x)) {s : σ} {t : τ} (hst : R s t) :
    Alike R (xs.foldlM f s) (xs.foldlM g t) := by
  refine foldlM (Q := Eq) (List.forall₂_same.2 fun _ _ => rfl) (fun h hx => ?_) hst
  cases hx
  exact hfg h

end Alike

theorem Failure.lift_alike {R : α → β → Prop} {x : Except Fault α} {y : Except Fault β}
    (h : Alike R x y) : Alike R (Failure.lift x) (Failure.lift y) := by
  cases h with
  | ok h => exact .ok h
  | error f => exact .error _

end FieldWages
