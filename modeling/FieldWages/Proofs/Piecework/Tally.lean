import FieldWages.Piecework
import FieldWages.Proofs.FilterSum
import FieldWages.Proofs.Run
import FieldWages.Proofs.SortedMap
import Mathlib.Algebra.BigOperators.Group.Finset.Basic
import Mathlib.Tactic

/-!
# Counted pieces

Of the entries of the attendance, piecework counts those of the period that have
a count and a labor with terms: the *pieces* (`AttendanceEntry.piece?`). The
tally keeps for each date the labors counted on it, and for each of those the
sum of its units and its terms; the other entries leave it as it is.

* `PieceworkTally.counts_foldl`: the tally of entries is that of their pieces;
* `PieceworkTally.lookup_tallyOf`: what the tally has of a date and a labor;
* `PieceworkTally.sum_values`: sums over the labors of a date;
* `PieceworkTally.sum_values_units`, `PieceworkTally.sum_values_minimum`: of units,
  and of minimums.
-/

namespace FieldWages

/-- Units of a labor counted on a date, with the terms they are paid by. -/
structure Piece where
  date : Date
  laborId : String
  units : UInt32
  terms : PieceworkTerms
deriving DecidableEq

/-- The terms that units of a labor are paid by, if they are. -/
def LaborCatalog.terms? (labors : LaborCatalog) (laborId : String) : Option PieceworkTerms :=
  (labors.find? laborId).bind (·.terms?)

/-- What an entry of attendance counts for in a period, if anything. -/
def AttendanceEntry.piece? (labors : LaborCatalog) (p : Period) (e : AttendanceEntry) :
    Option Piece :=
  match p.contains e.workDate, e.laborId, e.productivityCount with
  | true, some laborId, some units =>
    (labors.terms? laborId).map fun terms => ⟨e.workDate, laborId, units, terms⟩
  | _, _, _ => none

/-- The pieces of a list of attendance in a period. -/
def piecesOf (labors : LaborCatalog) (p : Period) (entries : List AttendanceEntry) : List Piece :=
  entries.filterMap (·.piece? labors p)

namespace Piece

/-- The units of a labor on a date. -/
def unitsOf (xs : List Piece) (d : Date) (id : String) : Nat :=
  ((xs.filter fun x => x.date = d ∧ x.laborId = id).map (·.units.toNat)).sum

/-- The terms of a labor on a date, if it is counted there. -/
def termsOf? (xs : List Piece) (d : Date) (id : String) : Option PieceworkTerms :=
  (xs.find? fun x => x.date = d ∧ x.laborId = id).map (·.terms)

/-- The labors counted on a date. -/
def laborsOn (xs : List Piece) (d : Date) : Finset String :=
  ((xs.filter fun x => x.date = d).map (·.laborId)).toFinset

theorem mem_laborsOn {xs : List Piece} {d : Date} {id : String} :
    id ∈ laborsOn xs d ↔ ∃ x ∈ xs, x.date = d ∧ x.laborId = id := by
  rw [laborsOn, List.mem_toFinset, List.mem_map]
  constructor
  · rintro ⟨x, hx, hid⟩
    obtain ⟨hx, hd⟩ := List.mem_filter.1 hx
    exact ⟨x, hx, of_decide_eq_true hd, hid⟩
  · rintro ⟨x, hx, hd, hid⟩
    exact ⟨x, List.mem_filter.2 ⟨hx, decide_eq_true hd⟩, hid⟩

theorem isSome_termsOf? {xs : List Piece} {d : Date} {id : String} :
    (termsOf? xs d id).isSome ↔ id ∈ laborsOn xs d := by
  rw [termsOf?, Option.isSome_map, List.find?_isSome, mem_laborsOn]
  simp only [decide_eq_true_eq]

theorem unitsOf_concat (xs : List Piece) (x : Piece) (d : Date) (id : String) :
    unitsOf (xs ++ [x]) d id =
      unitsOf xs d id + if x.date = d ∧ x.laborId = id then x.units.toNat else 0 := by
  rw [unitsOf, sum_filter_concat, ← unitsOf]
  simp only [decide_eq_true_eq]

theorem termsOf?_concat (xs : List Piece) (x : Piece) (d : Date) (id : String) :
    termsOf? (xs ++ [x]) d id =
      (termsOf? xs d id).or (if x.date = d ∧ x.laborId = id then some x.terms else none) := by
  rw [termsOf?, List.find?_append, Option.map_or, ← termsOf?]
  by_cases hx : x.date = d ∧ x.laborId = id
  · rw [if_pos hx, List.find?_cons_of_pos (by simpa using hx)]
    rfl
  · rw [if_neg hx, List.find?_cons_of_neg (by simpa using hx)]
    rfl

theorem unitsOf_eq_zero {xs : List Piece} {d : Date} {id : String}
    (h : termsOf? xs d id = none) : unitsOf xs d id = 0 := by
  rw [termsOf?, Option.map_eq_none_iff, List.find?_eq_none] at h
  rw [unitsOf, List.filter_eq_nil_iff.2 h]
  rfl

/-! ## The pieces of a catalogue -/

variable {labors : LaborCatalog} {p : Period} {entries : List AttendanceEntry} {d : Date}
  {id : String}

theorem piece?_eq_some_iff {e : AttendanceEntry} {x : Piece} :
    e.piece? labors p = some x ↔
      p.contains e.workDate ∧ x.date = e.workDate ∧ e.laborId = some x.laborId ∧
        e.productivityCount = some x.units ∧ labors.terms? x.laborId = some x.terms := by
  rw [AttendanceEntry.piece?]
  split
  · next laborId units hp hl hu =>
    rw [Option.map_eq_some_iff, hp, hl, hu]
    constructor
    · rintro ⟨terms, hterms, rfl⟩
      exact ⟨rfl, rfl, rfl, rfl, hterms⟩
    · rintro ⟨-, hd, hid, hx, hterms⟩
      cases hid
      cases hx
      exact ⟨x.terms, hterms, by rw [← hd]⟩
  · next hnot =>
    refine ⟨nofun, ?_⟩
    rintro ⟨hp, -, hl, hu, -⟩
    exact absurd hu (hnot _ _ hp hl)

theorem terms?_of_mem {x : Piece} (h : x ∈ piecesOf labors p entries) :
    labors.terms? x.laborId = some x.terms := by
  obtain ⟨e, -, he⟩ := List.mem_filterMap.1 h
  exact (piece?_eq_some_iff.1 he).2.2.2.2

/-- The terms of a labor that is counted are those of the catalogue. -/
theorem termsOf?_piecesOf (h : id ∈ laborsOn (piecesOf labors p entries) d) :
    termsOf? (piecesOf labors p entries) d id = labors.terms? id := by
  obtain ⟨terms, hterms⟩ := Option.isSome_iff_exists.1 (isSome_termsOf?.2 h)
  obtain ⟨x, hx, rfl⟩ := Option.map_eq_some_iff.1 hterms
  have hfound := List.find?_some hx
  rw [decide_eq_true_iff] at hfound
  obtain ⟨-, rfl⟩ := hfound
  rw [hterms, terms?_of_mem (List.mem_of_find?_eq_some hx)]

/-! ## Counts and minimums of a date -/

/-- The units counted on a date. -/
def countOn (xs : List Piece) (d : Date) : Nat :=
  ((xs.filter fun x => x.date = d).map (·.units.toNat)).sum

/-- The minimums of the labors counted on a date, each of them once. -/
def minimumOn (labors : LaborCatalog) (xs : List Piece) (d : Date) : Nat :=
  ∑ id ∈ laborsOn xs d, ((labors.terms? id).map (·.minimum.toNat)).getD 0

theorem countOn_concat (xs : List Piece) (x : Piece) (d : Date) :
    countOn (xs ++ [x]) d = countOn xs d + if x.date = d then x.units.toNat else 0 := by
  rw [countOn, sum_filter_concat, ← countOn]
  simp only [decide_eq_true_eq]

/-- The units of the labors of a date are all that are counted on it. -/
theorem sum_unitsOf {xs : List Piece} {ids : Finset String} (h : laborsOn xs d ⊆ ids) :
    ∑ id ∈ ids, unitsOf xs d id = countOn xs d := by
  induction xs using List.reverseRecOn with
  | nil => exact Finset.sum_eq_zero fun _ _ => rfl
  | append_singleton xs x ih =>
    have hxs : laborsOn xs d ⊆ ids := by
      intro id hid
      obtain ⟨y, hy, hyd⟩ := mem_laborsOn.1 hid
      exact h (mem_laborsOn.2 ⟨y, List.mem_append_left _ hy, hyd⟩)
    -- The units of the last piece are in the sum of its labor, and in no other.
    simp only [unitsOf_concat, Finset.sum_add_distrib, ih hxs, countOn_concat]
    by_cases hd : x.date = d
    · have hx : x.laborId ∈ ids :=
        h (mem_laborsOn.2 ⟨x, List.mem_append_right _ (List.mem_singleton_self x), hd, rfl⟩)
      simp only [hd, true_and, if_true, Finset.sum_ite_eq, if_pos hx]
    · simp only [hd, false_and, if_false, Finset.sum_const_zero]

end Piece

namespace PieceworkTally

open Piece

/-- The counts with one more piece. -/
def countPiece (counts : SortedMap Date LaborCounts) (x : Piece) : SortedMap Date LaborCounts :=
  (PieceworkTally.count ⟨counts, [], []⟩ x.date x.laborId x.units x.terms).counts

/-- The counts of a list of pieces. -/
def tallyOf (xs : List Piece) : SortedMap Date LaborCounts := xs.foldl countPiece .empty

theorem counts_report (t : PieceworkTally) (id : String) (d : Diagnostic) :
    (t.report id d).counts = t.counts := by
  rw [report]
  split <;> rfl

theorem counts_addEntry (labors : LaborCatalog) (p : Period) (t : PieceworkTally)
    (e : AttendanceEntry) :
    (t.addEntry labors p e).counts =
      ((e.piece? labors p).map (countPiece t.counts)).getD t.counts := by
  rw [addEntry, AttendanceEntry.piece?]
  cases p.contains e.workDate with
  | false => rfl
  | true =>
    cases e.laborId with
    | none => rfl
    | some id =>
      cases e.productivityCount with
      | none => rfl
      | some units =>
        simp only [LaborCatalog.terms?]
        cases labors.find? id with
        | none => exact t.counts_report _ _
        | some labor =>
          simp only [Option.bind_some]
          cases hpiece : labor.isPiecework with
          | false =>
            -- A labor that is no piecework has no terms, whatever its other fields.
            have hterms : labor.terms? = .none := by
              rw [Labor.terms?]
              rw [hpiece]
            rw [hterms]
            rfl
          | true =>
            cases labor.terms? with
            | none => exact t.counts_report _ _
            | some terms => rfl

theorem counts_foldl (labors : LaborCatalog) (p : Period) (entries : List AttendanceEntry)
    (t : PieceworkTally) :
    (entries.foldl (addEntry labors p) t).counts =
      (piecesOf labors p entries).foldl countPiece t.counts := by
  induction entries generalizing t with
  | nil => rfl
  | cons e es ih =>
    rw [List.foldl_cons, ih, counts_addEntry, piecesOf, piecesOf, List.filterMap_cons]
    cases e.piece? labors p with
    | none => rfl
    | some x => rfl

/-- What counts have of a date and a labor. -/
def lookup (counts : SortedMap Date LaborCounts) (d : Date) (id : String) :
    Option (Nat × PieceworkTerms) :=
  (counts.get? d).bind (·.get? id)

theorem get?_getD_empty (counts : SortedMap Date LaborCounts) (d : Date) (id : String) :
    ((counts.get? d).getD .empty).get? id = lookup counts d id := by
  rw [lookup]
  cases counts.get? d <;> rfl

theorem lookup_countPiece (counts : SortedMap Date LaborCounts) (x : Piece) (d : Date)
    (id : String) :
    lookup (countPiece counts x) d id =
      if x.date = d ∧ x.laborId = id then
        let (n, terms) := (lookup counts d id).getD (0, x.terms)
        some (n + x.units.toNat, terms)
      else lookup counts d id := by
  have hcount : countPiece counts x =
      let labors := (counts.get? x.date).getD .empty
      let (n, terms) := (labors.get? x.laborId).getD (0, x.terms)
      counts.insert x.date (labors.insert x.laborId (n + x.units.toNat, terms)) := rfl
  rw [hcount, ← get?_getD_empty, ← get?_getD_empty counts]
  simp only [SortedMap.get?_insert]
  by_cases hd : x.date = d
  · subst hd
    rw [if_pos rfl, Option.getD_some, SortedMap.get?_insert]
    by_cases hid : x.laborId = id
    · subst hid
      rw [if_pos rfl, if_pos ⟨rfl, rfl⟩]
    · rw [if_neg hid, if_neg fun h => hid h.2]
  · rw [if_neg hd, if_neg fun h => hd h.1]

/-- The tally has of a date and a labor the sum of the units and the terms. -/
theorem lookup_tallyOf (xs : List Piece) (d : Date) (id : String) :
    lookup (tallyOf xs) d id = (termsOf? xs d id).map fun terms => (unitsOf xs d id, terms) := by
  induction xs using List.reverseRecOn with
  | nil => rfl
  | append_singleton xs x ih =>
    rw [tallyOf, List.foldl_append, List.foldl_cons, List.foldl_nil, ← tallyOf,
      lookup_countPiece, ih, unitsOf_concat, termsOf?_concat]
    -- The last piece counts for its own date and labor only.
    by_cases hx : x.date = d ∧ x.laborId = id
    · rw [if_pos hx, if_pos hx, if_pos hx]
      cases hterms : termsOf? xs d id with
      | none => rw [unitsOf_eq_zero hterms]; rfl
      | some terms => rfl
    · rw [if_neg hx, if_neg hx, if_neg hx, Option.or_none, Nat.add_zero]

theorem mem_keys_tallyOf {xs : List Piece} {d : Date} :
    d ∈ (tallyOf xs).keys ↔ ∃ x ∈ xs, x.date = d := by
  induction xs using List.reverseRecOn with
  | nil => simp [tallyOf, SortedMap.keys, SortedMap.empty]
  | append_singleton xs x ih =>
    rw [tallyOf, List.foldl_append, List.foldl_cons, List.foldl_nil, ← tallyOf]
    refine SortedMap.mem_keys_insert.trans ?_
    rw [ih]
    constructor
    · rintro (rfl | ⟨y, hy, hd⟩)
      · exact ⟨x, List.mem_append_right _ (List.mem_singleton_self x), rfl⟩
      · exact ⟨y, List.mem_append_left _ hy, hd⟩
    · rintro ⟨y, hy, hd⟩
      rcases List.mem_append.1 hy with hy | hy
      · exact .inr ⟨y, hy, hd⟩
      · exact .inl (by rw [← hd, List.mem_singleton.1 hy])

/-! ## Sums over the labors of a date -/

variable {xs : List Piece} {d : Date} {labors : LaborCounts}

/-- A sum over the labors counted on a date is one over their units and terms. -/
theorem sum_values {M : Type} [AddCommMonoid M] (h : (tallyOf xs).get? d = some labors)
    (f : Nat × PieceworkTerms → M) :
    (labors.values.map f).sum = ∑ id ∈ laborsOn xs d,
      ((termsOf? xs d id).map fun terms => f (unitsOf xs d id, terms)).getD 0 := by
  have hlookup : ∀ id, labors.get? id =
      (termsOf? xs d id).map fun terms => (unitsOf xs d id, terms) := by
    intro id
    rw [← lookup_tallyOf, lookup, h, Option.bind_some]
  have hkeys : labors.keys.toFinset = laborsOn xs d := by
    ext id
    rw [List.mem_toFinset, ← SortedMap.isSome_get?, hlookup, Option.isSome_map, isSome_termsOf?]
  calc (labors.values.map f).sum
      = ((labors.values.map some).map fun v => (v.map f).getD 0).sum := by
        rw [List.map_map]
        rfl
    _ = (labors.keys.map fun id => ((labors.get? id).map f).getD 0).sum := by
        rw [← SortedMap.map_get?_keys, List.map_map]
        rfl
    _ = ∑ id ∈ labors.keys.toFinset, ((labors.get? id).map f).getD 0 :=
        (List.sum_toFinset _ labors.nodup_keys).symm
    _ = _ := by
        rw [hkeys]
        refine Finset.sum_congr rfl fun id _ => ?_
        rw [hlookup, Option.map_map]
        rfl

theorem sum_values_units (h : (tallyOf xs).get? d = some labors) :
    (labors.values.map (·.1)).sum = countOn xs d := by
  rw [sum_values h, ← sum_unitsOf (Finset.Subset.refl _)]
  refine Finset.sum_congr rfl fun id hid => ?_
  obtain ⟨terms, hterms⟩ := Option.isSome_iff_exists.1 (isSome_termsOf?.2 hid)
  rw [hterms]
  rfl

variable {catalog : LaborCatalog} {p : Period} {entries : List AttendanceEntry}

/-- A sum over the labors counted on a date, by the terms of the catalogue. -/
theorem sum_values_piecesOf {M : Type} [AddCommMonoid M]
    (h : (tallyOf (piecesOf catalog p entries)).get? d = some labors)
    (f : Nat × PieceworkTerms → M) :
    (labors.values.map f).sum = ∑ id ∈ laborsOn (piecesOf catalog p entries) d,
      ((catalog.terms? id).map fun terms =>
        f (unitsOf (piecesOf catalog p entries) d id, terms)).getD 0 := by
  rw [sum_values h]
  refine Finset.sum_congr rfl fun id hid => ?_
  rw [termsOf?_piecesOf hid]

theorem sum_values_minimum (h : (tallyOf (piecesOf catalog p entries)).get? d = some labors) :
    (labors.values.map (·.2.minimum.toNat)).sum =
      minimumOn catalog (piecesOf catalog p entries) d :=
  sum_values_piecesOf h _

end PieceworkTally

end FieldWages
