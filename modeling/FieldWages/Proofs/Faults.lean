import FieldWages.Count
import FieldWages.Proofs.Decimal.Monotone

/-!
# Which faults stop a calculation

A calculation made of steps is stopped by what stops its steps and by nothing else. So
where every step can only get a decimal out of range, so can the whole.

* `StopsBy.bind`, `StopsBy.foldlM`, `StopsBy.mapM`: calculations made of others;
* `StopsBy.foldlM_of_ok`: a run beside another one that has come to its end;
* `Decimal.add_stopsBy` and the like: the operations on decimals.
-/

namespace FieldWages

variable {ε α β σ : Type}

/-- Whether only errors of a kind stop a calculation. -/
def StopsBy (K : ε → Prop) (x : Except ε α) : Prop := ∀ e, x = .error e → K e

namespace StopsBy

variable {K K' : ε → Prop} {x : Except ε α}

theorem ok (a : α) : StopsBy K (.ok a) := nofun

theorem error {e : ε} (h : K e) : StopsBy K (.error e : Except ε α) := by
  intro e' he
  cases he
  exact h

theorem of_eq_ok {a : α} (h : x = .ok a) : StopsBy K x := h ▸ ok a

theorem mono (h : StopsBy K x) (hK : ∀ e, K e → K' e) : StopsBy K' x := fun e he => hK e (h e he)

theorem bind {f : α → Except ε β} (hx : StopsBy K x) (hf : ∀ a, x = .ok a → StopsBy K (f a)) :
    StopsBy K (x >>= f) := by
  intro e he
  rcases bind_eq_error.1 he with he | ⟨a, ha, he⟩
  · exact hx e he
  · exact hf a ha e he

/-- What stops a run stops it at one of its members, in a state the run leads to. -/
theorem foldlM {step : σ → α → Except ε σ} {xs : List α} {s : σ}
    (h : ∀ (before : List α), ∀ x ∈ xs, ∀ t, before.foldlM step s = .ok t → StopsBy K (step t x)) :
    StopsBy K (xs.foldlM step s) := by
  intro e he
  obtain ⟨before, x, after, t, rfl, ht, hx⟩ := foldlM_eq_error he
  exact h before x (List.mem_append_right _ List.mem_cons_self) t ht e hx

/-- What stops a run stops it at one of its steps, where another run over related members that
    has come to its end has taken its own. -/
theorem foldlM_of_ok {τ : Type} {R : σ → τ → Prop} {Q : α → β → Prop} {f : σ → α → Except ε σ}
    {g : τ → β → Except ε τ} {xs : List α} {ys : List β} (hxs : List.Forall₂ Q xs ys)
    (hstep : ∀ {s t x y s'}, R s t → Q x y → f s x = .ok s' →
      StopsBy K (g t y) ∧ ∀ t', g t y = .ok t' → R s' t')
    {s s' : σ} {t : τ} (hst : R s t) (h : xs.foldlM f s = .ok s') : StopsBy K (ys.foldlM g t) := by
  induction hxs generalizing s t with
  | nil => exact ok t
  | cons hxy _ ih =>
    rw [List.foldlM_cons, bind_eq_ok] at h
    obtain ⟨s₁, hs₁, h⟩ := h
    obtain ⟨hstops, hrel⟩ := hstep hst hxy hs₁
    rw [List.foldlM_cons]
    exact hstops.bind fun t₁ ht₁ => ih (hrel t₁ ht₁) h

theorem mapM {f : α → Except ε β} {xs : List α} (h : ∀ x ∈ xs, StopsBy K (f x)) :
    StopsBy K (xs.mapM f) := by
  induction xs with
  | nil => exact ok []
  | cons x xs ih =>
    obtain ⟨hx, hxs⟩ := List.forall_mem_cons.1 h
    rw [List.mapM_cons]
    exact hx.bind fun y _ => (ih hxs).bind fun ys _ => ok _

end StopsBy

theorem UnlessOverflow.stopsBy {P : α → Prop} {x : Except Fault α} (h : UnlessOverflow P x) :
    StopsBy Fault.IsOverflow x := fun _ => h.of_eq_error

namespace Decimal

theorem add_stopsBy (a b : Decimal) : StopsBy Fault.IsOverflow (a.add b) := (add_unless a b).stopsBy

theorem sub_stopsBy (a b : Decimal) : StopsBy Fault.IsOverflow (a.sub b) := (sub_unless a b).stopsBy

theorem mul_stopsBy (a b : Decimal) : StopsBy Fault.IsOverflow (a.mul b) := (mul_unless a b).stopsBy

/-- A quotient can only be out of range, unless the divisor is zero. -/
theorem div_stopsBy (a : Decimal) {b : Decimal} (hb : b.mantissa ≠ 0) :
    StopsBy Fault.IsOverflow (a.div b) := by
  rw [div, if_neg hb]
  split
  · exact .ok _
  split
  · exact .error trivial
  split
  · exact .ok _
  · exact .error trivial

theorem sum_stopsBy (ds : List Decimal) : StopsBy Fault.IsOverflow (sum ds) :=
  .foldlM fun _ d _ t _ => add_stopsBy t d

theorem mantissa_ne_zero_of_pos {d : Decimal} (h : zero < d) : d.mantissa ≠ 0 := by
  rw [lt_iff_toRat, toRat_zero, toRat_pos_iff] at h
  exact h.ne'

theorem mantissa_ofUInt32_ne_zero {n : UInt32} (h : n ≠ 0) : (ofUInt32 n).mantissa ≠ 0 :=
  fun hn => h (UInt32.toNat_inj.1 (Int.natCast_eq_zero.1 hn))

end Decimal

namespace Count

theorem word32_stopsBy (n : Nat) : StopsBy (· = Fault.countOverflow) (word32 n) := by
  rw [word32]
  split
  · exact .ok _
  · exact .error rfl

theorem word64_stopsBy (n : Nat) :
    StopsBy (fun f => f = Fault.countOverflow ∧ UInt64.size ≤ n) (word64 n) := by
  rw [word64]
  split
  · exact .ok _
  · next h => exact .error ⟨rfl, Nat.not_lt.1 h⟩

/-- There is room for less than what there is room for. -/
theorem exists_word64_of_le {m n : Nat} {w : UInt64} (h : m ≤ n) (hn : word64 n = .ok w) :
    ∃ v, word64 m = .ok v := by
  have hlt : m < UInt64.size := by
    rw [word64_eq_ok_iff] at hn
    exact h.trans_lt (hn ▸ w.toNat_lt)
  exact ⟨_, if_pos hlt⟩

end Count

end FieldWages
