import FieldWages.SortedMap
import Mathlib.Algebra.BigOperators.Group.List.Basic
import Mathlib.Algebra.Order.BigOperators.Group.List
import Mathlib.Algebra.Order.Ring.Nat
import Mathlib.Data.List.Forall2
import Mathlib.Data.List.Induction
import Mathlib.Data.List.Sort
import Mathlib.Tactic.Abel

/-!
# Sums over sorted maps

The values of a map are what its keys lead to, one for each, so a sum over the
values changes with an insertion by the new value less the one it replaces. And a
map is known by its look-ups: maps that answer them by related values have related
entries, one by one.

* `SortedMap.map_get?_keys`: the values, looked up key by key;
* `SortedMap.sum_values_insert`: the sum after an insertion;
* `SortedMap.forall₂_entries`, `SortedMap.ext_get?`: maps that answer alike;
* `SortedMap.sublistForall₂_entries`, `SortedMap.sum_values_le`: a map that answers what another
  one does;
* `SortedMap.get?_ofList`: what is found in the map of a list;
* `SortedMap.entries_eq_append_iff`: a map that is one map behind another.
-/

namespace FieldWages.SortedMap

variable {κ α : Type} [LT κ] [LE κ] [Std.LawfulOrderLT κ]

theorem nodup_keys (m : SortedMap κ α) : m.keys.Nodup :=
  List.Pairwise.map _ (fun _ _ h he => Std.lt_irrefl (he ▸ h)) m.sorted

variable [DecidableEq κ]

omit [LE κ] [Std.LawfulOrderLT κ] in
theorem isSome_get? {m : SortedMap κ α} {k : κ} : (m.get? k).isSome ↔ k ∈ m.keys := by
  simp [get?, keys]

theorem get?_of_mem {m : SortedMap κ α} {e : κ × α} (he : e ∈ m.entries) :
    m.get? e.1 = some e.2 := by
  obtain ⟨es, hes⟩ := m
  simp only [get?] at he ⊢
  induction es with
  | nil => cases he
  | cons x xs ih =>
    obtain ⟨hx, hxs⟩ := List.pairwise_cons.1 hes
    rcases List.mem_cons.1 he with rfl | he
    · simp
    · have hne : x.1 ≠ e.1 := fun h => Std.lt_irrefl (h ▸ hx e he)
      rw [List.find?_cons_of_neg (by simpa using hne)]
      exact ih hxs he

omit [LE κ] [Std.LawfulOrderLT κ] in
theorem mem_values_of_get? {m : SortedMap κ α} {k : κ} {v : α} (h : m.get? k = some v) :
    v ∈ m.values := by
  obtain ⟨e, he, rfl⟩ := Option.map_eq_some_iff.1 h
  exact List.mem_map_of_mem (List.mem_of_find?_eq_some he)

theorem map_get?_keys (m : SortedMap κ α) : m.keys.map m.get? = m.values.map some := by
  rw [keys, values, List.map_map, List.map_map]
  exact List.map_congr_left fun e he => get?_of_mem he

/-! ## Sums -/

variable [Std.IsLinearOrder κ] [DecidableLT κ] {M : Type} [AddCommMonoid M] (f : α → M)

theorem sum_place {k : κ} {v : α} {es : List (κ × α)} (hes : es.Pairwise fun a b => a.1 < b.1) :
    ((place k v es).map fun e => f e.2).sum +
        ((es.find? fun e => e.1 = k).map fun e => f e.2).getD 0 =
      (es.map fun e => f e.2).sum + f v := by
  induction es with
  | nil => simp [place]
  | cons x xs ih =>
    obtain ⟨hx, hxs⟩ := List.pairwise_cons.1 hes
    simp only [place]
    split
    · next hk =>
      -- The key is below all others, so there is nothing to replace.
      have hfind : (x :: xs).find? (fun e => e.1 = k) = none := by
        rw [List.find?_eq_none]
        intro e he
        have hlt : k < e.1 := by
          rcases List.mem_cons.1 he with rfl | he
          · exact hk
          · exact Std.lt_trans hk (hx e he)
        simpa using fun h : e.1 = k => Std.lt_irrefl (h ▸ hlt)
      rw [hfind, Option.map_none, Option.getD_none, add_zero, List.map_cons, List.sum_cons,
        add_comm]
    split
    · next hk =>
      have hne : x.1 ≠ k := fun h => Std.lt_irrefl (h ▸ hk)
      rw [List.find?_cons_of_neg (by simpa using hne), List.map_cons, List.sum_cons, List.map_cons,
        List.sum_cons, add_assoc, ih hxs, add_assoc]
    · have he : x.1 = k := Std.le_antisymm (Std.not_lt.1 ‹_›) (Std.not_lt.1 ‹_›)
      rw [List.find?_cons_of_pos (by simpa using he), Option.map_some, Option.getD_some]
      simp only [List.map_cons, List.sum_cons]
      abel

theorem sum_values_insert (m : SortedMap κ α) (k : κ) (v : α) :
    ((m.insert k v).values.map f).sum + ((m.get? k).map f).getD 0 = (m.values.map f).sum + f v := by
  have h := sum_place f (k := k) (v := v) m.sorted
  simpa [values, insert, get?, Function.comp_def] using h

/-! ## Maps that answer alike -/

omit [DecidableEq κ] [DecidableLT κ] in
/-- Maps of the same keys have them in the same order. -/
theorem keys_eq {β : Type} {m : SortedMap κ α} {m' : SortedMap κ β}
    (h : ∀ k, k ∈ m.keys ↔ k ∈ m'.keys) : m.keys = m'.keys := by
  have : Std.Irrefl fun a b : κ => a < b := ⟨fun _ => Std.lt_irrefl⟩
  have : Std.Antisymm fun a b : κ => a < b :=
    ⟨fun _ _ hab hba => absurd (Std.lt_trans hab hba) Std.lt_irrefl⟩
  exact List.Pairwise.eq_of_mem_iff (List.pairwise_map.2 m.sorted) (List.pairwise_map.2 m'.sorted) h

omit [DecidableLT κ] in
theorem keys_eq_of_rel {β : Type} {R : α → β → Prop} {m : SortedMap κ α} {m' : SortedMap κ β}
    (h : ∀ k, Option.Rel R (m.get? k) (m'.get? k)) : m.keys = m'.keys := by
  refine keys_eq fun k => ?_
  have hk := h k
  rw [← isSome_get?, ← isSome_get?]
  generalize m.get? k = x at hk ⊢
  generalize m'.get? k = y at hk ⊢
  cases hk <;> simp

omit [DecidableLT κ] in
/-- Maps that answer every look-up by related values have related entries. -/
theorem forall₂_entries {β : Type} {R : α → β → Prop} {m : SortedMap κ α} {m' : SortedMap κ β}
    (h : ∀ k, Option.Rel R (m.get? k) (m'.get? k)) :
    List.Forall₂ (fun e e' => e.1 = e'.1 ∧ R e.2 e'.2) m.entries m'.entries := by
  have hkeys := keys_eq_of_rel h
  have hlength : m.entries.length = m'.entries.length := by
    simpa [keys] using congrArg List.length hkeys
  refine List.forall₂_iff_get.2 ⟨hlength, fun i hi hi' => ?_⟩
  have hkey : (m.entries.get ⟨i, hi⟩).1 = (m'.entries.get ⟨i, hi'⟩).1 := by
    have hget : m.keys[i]? = m'.keys[i]? := by rw [hkeys]
    simpa [keys, hi, hi'] using hget
  refine ⟨hkey, ?_⟩
  have hrel := h (m.entries.get ⟨i, hi⟩).1
  rw [get?_of_mem (List.get_mem _ _), hkey, get?_of_mem (List.get_mem _ _)] at hrel
  cases hrel with
  | some hrel => exact hrel

omit [DecidableLT κ] in
/-- A map whose look-ups are all answered by another one has its entries there, in order. -/
theorem sublistForall₂_entries {β : Type} {R : α → β → Prop} {m : SortedMap κ α}
    {m' : SortedMap κ β} (h : ∀ e ∈ m.entries, ∃ v, m'.get? e.1 = some v ∧ R e.2 v) :
    List.SublistForall₂ (fun e e' => e.1 = e'.1 ∧ R e.2 e'.2) m.entries m'.entries := by
  have hentries : ∀ e ∈ m.entries, ∃ e' ∈ m'.entries, e.1 = e'.1 ∧ R e.2 e'.2 := by
    intro e he
    obtain ⟨v, hv, hR⟩ := h e he
    obtain ⟨e', he', rfl⟩ := Option.map_eq_some_iff.1 hv
    have hkey := List.find?_some he'
    rw [decide_eq_true_iff] at hkey
    exact ⟨e', List.mem_of_find?_eq_some he', hkey.symm, hR⟩
  obtain ⟨xs, hxs⟩ := m
  obtain ⟨ys, hys⟩ := m'
  dsimp only at hentries ⊢
  clear h
  induction ys generalizing xs with
  | nil =>
    cases xs with
    | nil => exact .nil
    | cons x xs =>
      obtain ⟨e', he', -⟩ := hentries x List.mem_cons_self
      cases he'
  | cons y ys ih =>
    cases xs with
    | nil => exact .nil
    | cons x xs =>
      obtain ⟨hx, hxs'⟩ := List.pairwise_cons.1 hxs
      obtain ⟨hy, hys'⟩ := List.pairwise_cons.1 hys
      obtain ⟨e', he', hkey, hR⟩ := hentries x List.mem_cons_self
      rcases List.mem_cons.1 he' with rfl | hbehind
      · -- The first entries belong together, and all others are behind them.
        refine .cons ⟨hkey, hR⟩ (ih xs hxs' hys' fun e he => ?_)
        obtain ⟨e'', he'', hkey', hR'⟩ := hentries e (List.mem_cons_of_mem x he)
        rcases List.mem_cons.1 he'' with rfl | he''
        · exact absurd (hx e he) (hkey' ▸ hkey ▸ Std.lt_irrefl)
        · exact ⟨e'', he'', hkey', hR'⟩
      · refine .cons_right (ih (x :: xs) hxs hys' fun e he => ?_)
        obtain ⟨e'', he'', hkey', hR'⟩ := hentries e he
        rcases List.mem_cons.1 he'' with rfl | he''
        · have hlt : e''.1 < x.1 := hkey ▸ hy e' hbehind
          rcases List.mem_cons.1 he with rfl | he
          · exact absurd hlt (hkey' ▸ Std.lt_irrefl)
          · exact absurd (Std.lt_trans hlt (hx e he)) (hkey' ▸ Std.lt_irrefl)
        · exact ⟨e'', he'', hkey', hR'⟩

omit [DecidableLT κ] in
/-- A sum over the values of a map is at most that over those of another one which answers its
    look-ups by as much or more. -/
theorem sum_values_le {β : Type} {m : SortedMap κ α} {m' : SortedMap κ β} {f : α → Nat}
    {g : β → Nat} (h : ∀ e ∈ m.entries, ∃ v, m'.get? e.1 = some v ∧ f e.2 ≤ g v) :
    (m.values.map f).sum ≤ (m'.values.map g).sum := by
  have hle : List.SublistForall₂ (· ≤ ·) (m.values.map f) (m'.values.map g) := by
    rw [values, values, List.map_map, List.map_map, List.sublistForall₂_map_left_iff,
      List.sublistForall₂_map_right_iff]
    have hentries := sublistForall₂_entries (R := fun v v' => f v ≤ g v') h
    obtain ⟨es, hes, hsub⟩ := List.sublistForall₂_iff.1 hentries
    exact List.sublistForall₂_iff.2 ⟨es, hes.imp fun _ _ he => he.2, hsub⟩
  exact hle.sum_le_sum fun _ _ => Nat.zero_le _

omit [DecidableLT κ] in
/-- A map is known by its look-ups. -/
theorem ext_get? {m m' : SortedMap κ α} (h : ∀ k, m.get? k = m'.get? k) : m = m' := by
  have hentries : List.Forall₂ (fun e e' : κ × α => e.1 = e'.1 ∧ e.2 = e'.2) m.entries m'.entries :=
    forall₂_entries fun k => by
      rw [h k]
      cases m'.get? k with
      | none => exact .none
      | some v => exact .some rfl
  have heq : m.entries = m'.entries :=
    List.forall₂_eq_eq_eq ▸ hentries.imp fun _ _ he => Prod.ext he.1 he.2
  cases m
  cases m'
  cases heq
  rfl

omit [DecidableLT κ] in
/-- A map consists of two others, one behind the other, if it answers what either does. -/
theorem entries_eq_append_iff {m m₁ m₂ : SortedMap κ α}
    (hlt : ∀ k₁ ∈ m₁.keys, ∀ k₂ ∈ m₂.keys, k₁ < k₂) :
    m.entries = m₁.entries ++ m₂.entries ↔ ∀ k, m.get? k = (m₁.get? k).or (m₂.get? k) := by
  have hsorted : (m₁.entries ++ m₂.entries).Pairwise fun a b => a.1 < b.1 :=
    List.pairwise_append.2 ⟨m₁.sorted, m₂.sorted, fun a ha b hb =>
      hlt _ (List.mem_map_of_mem ha) _ (List.mem_map_of_mem hb)⟩
  have hget : ∀ k, get? ⟨m₁.entries ++ m₂.entries, hsorted⟩ k = (m₁.get? k).or (m₂.get? k) :=
    fun k => by rw [get?, get?, get?, List.find?_append, Option.map_or]
  constructor
  · intro h k
    rw [← hget, get?, get?, h]
  · intro h
    rw [ext_get? fun k => (h k).trans (hget k).symm]

/-- Of several entries with one key the last is found. -/
theorem get?_ofList (es : List (κ × α)) (k : κ) :
    (ofList es).get? k = (es.reverse.find? fun e => e.1 = k).map (·.2) := by
  induction es using List.reverseRecOn with
  | nil => rfl
  | append_singleton es e ih =>
    rw [ofList, List.foldl_append, List.foldl_cons, List.foldl_nil, ← ofList, get?_insert, ih,
      List.reverse_append, List.reverse_singleton, List.singleton_append, List.find?_cons]
    by_cases hk : e.1 = k
    · rw [if_pos hk, decide_eq_true hk]
      rfl
    · rw [if_neg hk, decide_eq_false hk]

/-- A list of ascending keys is kept as it is. -/
theorem entries_ofList {es : List (κ × α)} (h : es.Pairwise fun a b => a.1 < b.1) :
    (ofList es).entries = es := by
  have heq : ofList es = ⟨es, h⟩ := ext_get? fun k => by
    rw [get?_ofList]
    cases hfind : es.reverse.find? fun e => e.1 = k with
    | none =>
      rw [List.find?_eq_none] at hfind
      rw [get?, List.find?_eq_none.2 fun e he => hfind e (List.mem_reverse.2 he)]
    | some e =>
      have hkey := List.find?_some hfind
      rw [decide_eq_true_iff] at hkey
      have hmem := List.mem_reverse.1 (List.mem_of_find?_eq_some hfind)
      rw [← hkey]
      exact (get?_of_mem (m := ⟨es, h⟩) hmem).symm
  rw [heq]

end FieldWages.SortedMap
