import FieldWages.Fault

/-!
# Counts

Counts are added up as numbers and kept as words of 32 or 64 bits. A sum that
has no room in its word is a fault, so that no count that is kept is short.

* `Count.word32_eq_ok_iff`, `Count.word64_eq_ok_iff`: a word holds its number.
-/

namespace FieldWages.Count

/-- The sum of what the members of a list count for. -/
def total {α : Type} (f : α → Nat) (xs : List α) : Nat := xs.foldl (fun n x => n + f x) 0

@[simp]
theorem total_nil {α : Type} (f : α → Nat) : total f [] = 0 := rfl

theorem foldl_eq_add_total {α : Type} (f : α → Nat) (k : Nat) (xs : List α) :
    xs.foldl (fun n x => n + f x) k = k + total f xs := by
  induction xs generalizing k with
  | nil => rfl
  | cons x xs ih =>
    rw [total, List.foldl_cons, List.foldl_cons, ih, ih (0 + f x)]
    omega

@[simp]
theorem total_cons {α : Type} (f : α → Nat) (x : α) (xs : List α) :
    total f (x :: xs) = f x + total f xs := by
  rw [total, List.foldl_cons, foldl_eq_add_total, Nat.zero_add]

/-- Members that count for `k` at most come to `k` each at most. -/
theorem total_le {α : Type} {f : α → Nat} {k : Nat} {xs : List α} (h : ∀ x ∈ xs, f x ≤ k) :
    total f xs ≤ k * xs.length := by
  induction xs with
  | nil => exact Nat.zero_le _
  | cons x xs ih =>
    obtain ⟨hx, hxs⟩ := List.forall_mem_cons.1 h
    rw [total_cons, List.length_cons, Nat.mul_succ, Nat.add_comm]
    exact Nat.add_le_add (ih hxs) hx

/-- A number as a word of 32 bits. -/
def word32 (n : Nat) : Except Fault UInt32 :=
  if n < UInt32.size then .ok (.ofNat n) else .error .countOverflow

/-- A number as a word of 64 bits. -/
def word64 (n : Nat) : Except Fault UInt64 :=
  if n < UInt64.size then .ok (.ofNat n) else .error .countOverflow

theorem word32_eq_ok_iff {n : Nat} {w : UInt32} : word32 n = .ok w ↔ w.toNat = n := by
  rw [word32]
  constructor
  · intro h
    split at h
    · next hn =>
      cases h
      exact UInt32.toNat_ofNat_of_lt' hn
    · cases h
  · rintro rfl
    rw [if_pos w.toNat_lt, UInt32.ofNat_toNat]

theorem word64_eq_ok_iff {n : Nat} {w : UInt64} : word64 n = .ok w ↔ w.toNat = n := by
  rw [word64]
  constructor
  · intro h
    split at h
    · next hn =>
      cases h
      exact UInt64.toNat_ofNat_of_lt' hn
    · cases h
  · rintro rfl
    rw [if_pos w.toNat_lt, UInt64.ofNat_toNat]

end FieldWages.Count
