import Mathlib.Algebra.BigOperators.Group.List.Basic

/-!
# Sums over a part of a list

What a date or a labor adds up to is a sum over the members of a list that belong to
it, in no matter what order. Such sums are taken apart where the list is.
-/

namespace FieldWages

variable {α M : Type} [AddCommMonoid M] (q : α → Bool) (f : α → M)

theorem sum_filter_append (xs ys : List α) : (((xs ++ ys).filter q).map f).sum =
    ((xs.filter q).map f).sum + ((ys.filter q).map f).sum := by
  rw [List.filter_append, List.map_append, List.sum_append]

theorem sum_filter_singleton (x : α) : (([x].filter q).map f).sum = if q x then f x else 0 := by
  rw [List.filter_singleton]
  cases q x
  · exact List.sum_nil
  · exact List.sum_singleton

theorem sum_filter_concat (xs : List α) (x : α) : (((xs ++ [x]).filter q).map f).sum =
    ((xs.filter q).map f).sum + if q x then f x else 0 := by
  rw [sum_filter_append, sum_filter_singleton]

theorem sum_filter_eq_zero {xs : List α} (h : ∀ x ∈ xs, ¬q x) : ((xs.filter q).map f).sum = 0 := by
  rw [List.filter_eq_nil_iff.2 h]
  exact List.sum_nil

theorem sum_filter_perm {xs ys : List α} (h : xs.Perm ys) :
    ((xs.filter q).map f).sum = ((ys.filter q).map f).sum :=
  ((h.filter q).map f).sum_eq

end FieldWages
