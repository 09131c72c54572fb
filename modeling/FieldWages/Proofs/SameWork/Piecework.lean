import FieldWages.Proofs.Alike
import FieldWages.Proofs.Piecework.Tally
import FieldWages.Proofs.SameWork.Basic

/-!
# Piecework of the same work

The tally of a period keeps for each date and labor the sum of the units, so it is
the same for lists that record the same work, and with it the piecework. Which labors
are remarked upon is the same as well, but a remark bears the date of the first
entry there is, and the remarks come in the order of these entries (`SameRemarks`).

* `SameWork.tallyOf_eq`: the same work is counted alike;
* `PieceworkTally.Remarked.addEntry`: what is remarked upon, entry by entry;
* `SameWork.piecework`: the same work has the same piecework, but for the remarks.
-/

namespace FieldWages

open Piece
open PieceworkTally (lookup tallyOf counts_foldl lookup_tallyOf mem_keys_tallyOf)

variable {labors : LaborCatalog} {p : Period} {as bs es : List AttendanceEntry} {d : Date}
  {id : String}

/-! ## Units -/

theorem piecesOf_cons (e : AttendanceEntry) (es : List AttendanceEntry) :
    piecesOf labors p (e :: es) = (e.piece? labors p).toList ++ piecesOf labors p es := by
  rw [piecesOf, List.filterMap_cons]
  cases e.piece? labors p <;> rfl

theorem Piece.unitsOf_append (xs ys : List Piece) (d : Date) (id : String) :
    unitsOf (xs ++ ys) d id = unitsOf xs d id + unitsOf ys d id :=
  sum_filter_append _ _ xs ys

/-- The labors counted on a date are those of its entries that have terms. -/
theorem mem_laborsOn_piecesOf : id ∈ laborsOn (piecesOf labors p es) d ↔
    p.contains d ∧ (labors.terms? id).isSome ∧ CountedOn es d id := by
  rw [mem_laborsOn]
  constructor
  · rintro ⟨x, hx, rfl, rfl⟩
    obtain ⟨e, he, hex⟩ := List.mem_filterMap.1 hx
    obtain ⟨hp, hd, hl, hu, ht⟩ := piece?_eq_some_iff.1 hex
    rw [hd]
    exact ⟨hp, by rw [ht]; rfl, e, he, rfl, hl, by rw [hu]; rfl⟩
  · rintro ⟨hp, ht, e, he, rfl, hl, hu⟩
    obtain ⟨terms, ht⟩ := Option.isSome_iff_exists.1 ht
    obtain ⟨units, hu⟩ := Option.isSome_iff_exists.1 hu
    have hx : e.piece? labors p = some ⟨e.workDate, id, units, terms⟩ :=
      piece?_eq_some_iff.2 ⟨hp, rfl, hl, hu, ht⟩
    exact ⟨_, List.mem_filterMap.2 ⟨e, he, hx⟩, rfl, rfl⟩

theorem unitsOf_singleton (x : Piece) (d : Date) (id : String) :
    unitsOf [x] d id = if x.date = d ∧ x.laborId = id then x.units.toNat else 0 := by
  rw [unitsOf, sum_filter_singleton]
  simp only [decide_eq_true_eq]

/-- The piece of an entry has the units the entry counts, if the labor has terms. -/
theorem unitsOf_piece? (hd : p.contains d) (ht : (labors.terms? id).isSome) (e : AttendanceEntry) :
    unitsOf (e.piece? labors p).toList d id = unitsOn [e] d id := by
  rw [unitsOn_singleton]
  cases hx : e.piece? labors p with
  | none =>
    -- An entry of the date and the labor that is no piece has no count.
    rw [AttendanceEntry.units]
    split
    · next he =>
      obtain ⟨rfl, hl⟩ := he
      cases hu : e.productivityCount with
      | none => rfl
      | some units =>
        obtain ⟨terms, ht⟩ := Option.isSome_iff_exists.1 ht
        have hpiece : e.piece? labors p = some ⟨e.workDate, id, units, terms⟩ :=
          piece?_eq_some_iff.2 ⟨hd, rfl, hl, hu, ht⟩
        cases hx.symm.trans hpiece
    · rfl
  | some x =>
    obtain ⟨-, hdate, hl, hu, -⟩ := piece?_eq_some_iff.1 hx
    rw [Option.toList_some, unitsOf_singleton, hdate, hl, AttendanceEntry.units, hu]
    simp only [Option.some.injEq]
    rfl

/-- The units counted of a labor that has terms are all that the entries count. -/
theorem unitsOf_piecesOf (hd : p.contains d) (ht : (labors.terms? id).isSome) :
    unitsOf (piecesOf labors p es) d id = unitsOn es d id := by
  induction es with
  | nil => rfl
  | cons e es ih =>
    rw [piecesOf_cons, unitsOf_append, ih, unitsOf_piece? hd ht, ← unitsOn_append,
      List.singleton_append]

/-! ## Counts -/

/-- Counts that agree on every date and labor are the same, if no date is without labors. -/
theorem PieceworkTally.tallyOf_eq_of_lookup {xs ys : List Piece}
    (h : ∀ d id, lookup (tallyOf xs) d id = lookup (tallyOf ys) d id) :
    tallyOf xs = tallyOf ys := by
  have hkeys : ∀ (zs : List Piece) d,
      ((tallyOf zs).get? d).isSome ↔ ∃ id, (lookup (tallyOf zs) d id).isSome := by
    intro zs d
    rw [SortedMap.isSome_get?, mem_keys_tallyOf]
    simp only [lookup_tallyOf, Option.isSome_map, isSome_termsOf?, mem_laborsOn]
    exact ⟨fun ⟨x, hx, hd⟩ => ⟨x.laborId, x, hx, hd, rfl⟩, fun ⟨_, x, hx, hd, _⟩ => ⟨x, hx, hd⟩⟩
  refine SortedMap.ext_get? fun d => ?_
  have hsome : ((tallyOf xs).get? d).isSome ↔ ((tallyOf ys).get? d).isSome := by
    rw [hkeys, hkeys]
    exact exists_congr fun id => by rw [h d id]
  have hd : ∀ id, lookup (tallyOf xs) d id = lookup (tallyOf ys) d id := h d
  simp only [lookup] at hd
  generalize (tallyOf xs).get? d = x at hsome hd ⊢
  generalize (tallyOf ys).get? d = y at hsome hd ⊢
  cases x with
  | none =>
    cases y with
    | none => rfl
    | some _ => exact absurd (hsome.2 rfl) Bool.false_ne_true
  | some _ =>
    cases y with
    | none => exact absurd (hsome.1 rfl) Bool.false_ne_true
    | some _ => exact congrArg some (SortedMap.ext_get? hd)

theorem lookup_tallyOf_piecesOf : lookup (tallyOf (piecesOf labors p es)) d id =
    if id ∈ laborsOn (piecesOf labors p es) d then
      (labors.terms? id).map fun terms => (unitsOn es d id, terms)
    else none := by
  rw [lookup_tallyOf]
  split
  · next hid =>
    obtain ⟨hd, ht, -⟩ := mem_laborsOn_piecesOf.1 hid
    rw [termsOf?_piecesOf hid, unitsOf_piecesOf hd ht]
  · next hid =>
    rw [← isSome_termsOf?, Option.not_isSome_iff_eq_none] at hid
    rw [hid, Option.map_none]

/-- The same work is counted alike. -/
theorem SameWork.tallyOf_eq (h : SameWork p as bs) :
    tallyOf (piecesOf labors p as) = tallyOf (piecesOf labors p bs) := by
  refine PieceworkTally.tallyOf_eq_of_lookup fun d id => ?_
  rw [lookup_tallyOf_piecesOf, lookup_tallyOf_piecesOf]
  have hlabors : id ∈ laborsOn (piecesOf labors p as) d ↔
      id ∈ laborsOn (piecesOf labors p bs) d := by
    rw [mem_laborsOn_piecesOf, mem_laborsOn_piecesOf]
    exact and_congr_right fun hd => and_congr_right fun _ => h.counted d hd id
  by_cases hid : id ∈ laborsOn (piecesOf labors p bs) d
  · rw [if_pos hid, if_pos (hlabors.2 hid), h.units d (mem_laborsOn_piecesOf.1 hid).1 id]
  · rw [if_neg hid, if_neg (mt hlabors.1 hid)]

/-! ## Remarks -/

/-- A diagnostic without its date. -/
def Diagnostic.undated (d : Diagnostic) : Diagnostic := { d with date := none }

/-- Whether a diagnostic is a remark on a labor. -/
def Diagnostic.OnLabor (d : Diagnostic) : Prop :=
  d.code = laborNotFound ∨ d.code = pieceworkTermsMissing

/-- Whether two lists of remarks on labors are the same but for order and dates. -/
structure SameRemarks (xs ys : List Diagnostic) : Prop where
  perm : (xs.map Diagnostic.undated).Perm (ys.map Diagnostic.undated)
  left : ∀ d ∈ xs, d.OnLabor
  right : ∀ d ∈ ys, d.OnLabor

/-- Whether units of a labor cannot be counted, for want of the labor or of its terms. -/
def LaborCatalog.Lacks (labors : LaborCatalog) (id : String) : Prop :=
  ∀ labor, labors.find? id = some labor → labor.isPiecework ∧ labor.terms? = none

/-- The remark on a labor whose units cannot be counted, without a date. -/
def LaborCatalog.remarkOn (labors : LaborCatalog) (id : String) : Diagnostic :=
  match labors.find? id with
  | none =>
    ⟨Diagnostic.laborNotFound, s!"labor '{id}' not found; productivity skipped", none⟩
  | some _ =>
    ⟨Diagnostic.pieceworkTermsMissing,
      s!"labor '{id}' lacks a positive minimum task requirement or base price; treated as non-piecework",
      none⟩

theorem LaborCatalog.onLabor_remarkOn (labors : LaborCatalog) (id : String) :
    (labors.remarkOn id).OnLabor := by
  rw [remarkOn]
  split
  · exact .inl rfl
  · exact .inr rfl

namespace PieceworkTally

/-- Whether a tally has remarked upon the labors of some entries that cannot be
    counted, each of them once. -/
structure Remarked (labors : LaborCatalog) (p : Period) (es : List AttendanceEntry)
    (t : PieceworkTally) : Prop where
  nodup : t.reported.Nodup
  mem_reported : ∀ id, id ∈ t.reported ↔
    labors.Lacks id ∧ ∃ d, p.contains d ∧ CountedOn es d id
  diagnostics_eq : t.diagnostics.map Diagnostic.undated = t.reported.reverse.map labors.remarkOn

theorem remarked_none : Remarked labors p [] .none where
  nodup := .nil
  mem_reported _ := ⟨fun h => absurd h List.not_mem_nil,
    fun ⟨_, _, _, _, he, _⟩ => absurd he List.not_mem_nil⟩
  diagnostics_eq := rfl

theorem countedOn_concat {e : AttendanceEntry} : CountedOn (es ++ [e]) d id ↔
    CountedOn es d id ∨ e.workDate = d ∧ e.laborId = some id ∧ e.productivityCount.isSome := by
  rw [countedOn_append, countedOn_singleton]

variable {t : PieceworkTally} {e : AttendanceEntry}

/-- An entry of no labor that lacks something adds nothing to remark upon. -/
theorem Remarked.of_not_lacks {t' : PieceworkTally} (h : Remarked labors p es t)
    (hreported : t'.reported = t.reported) (hdiagnostics : t'.diagnostics = t.diagnostics)
    (he : ∀ id, p.contains e.workDate → e.laborId = some id → e.productivityCount.isSome →
      ¬labors.Lacks id) : Remarked labors p (es ++ [e]) t' where
  nodup := hreported ▸ h.nodup
  mem_reported id := by
    rw [hreported, h.mem_reported]
    refine and_congr_right fun hlacks => exists_congr fun d => and_congr_right fun hd => ?_
    rw [countedOn_concat, or_iff_left]
    rintro ⟨rfl, hl, hu⟩
    exact he id hd hl hu hlacks
  diagnostics_eq := by rw [hreported, hdiagnostics, h.diagnostics_eq]

/-- An entry of a labor that lacks something is reported, unless the labor has been. -/
theorem Remarked.report {remark : Diagnostic} (h : Remarked labors p es t)
    (hp : p.contains e.workDate) (hl : e.laborId = some id) (hu : e.productivityCount.isSome)
    (hlacks : labors.Lacks id) (hremark : remark.undated = labors.remarkOn id) :
    Remarked labors p (es ++ [e]) (t.report id remark) := by
  have hmem : ∀ id', (labors.Lacks id' ∧ ∃ d, p.contains d ∧ CountedOn (es ++ [e]) d id') ↔
      id' = id ∨ id' ∈ t.reported := by
    intro id'
    rw [h.mem_reported]
    constructor
    · rintro ⟨hlacks', d, hd, hcounted⟩
      rcases countedOn_concat.1 hcounted with hcounted | ⟨-, hl', -⟩
      · exact .inr ⟨hlacks', d, hd, hcounted⟩
      · exact .inl (Option.some.inj (hl'.symm.trans hl))
    · rintro (rfl | ⟨hlacks', d, hd, hcounted⟩)
      · exact ⟨hlacks, e.workDate, hp, countedOn_concat.2 (.inr ⟨rfl, hl, hu⟩)⟩
      · exact ⟨hlacks', d, hd, countedOn_concat.2 (.inl hcounted)⟩
  rw [PieceworkTally.report]
  split
  · next hold =>
    refine ⟨h.nodup, fun id' => ?_, h.diagnostics_eq⟩
    rw [hmem, or_iff_right_of_imp]
    rintro rfl
    exact hold
  · next hnew =>
    refine ⟨List.nodup_cons.2 ⟨hnew, h.nodup⟩, fun id' => ?_, ?_⟩
    · rw [hmem, List.mem_cons]
    · rw [List.map_append, h.diagnostics_eq, List.reverse_cons, List.map_append, List.map_singleton,
        List.map_singleton, hremark]

/-- Entry by entry, the labors that cannot be counted are remarked upon. -/
theorem Remarked.addEntry (h : Remarked labors p es t) (e : AttendanceEntry) :
    Remarked labors p (es ++ [e]) (t.addEntry labors p e) := by
  rw [PieceworkTally.addEntry]
  split
  · next id units hp hl hu =>
    have hu' : e.productivityCount.isSome := by rw [hu]; rfl
    split
    · next hfind =>
      refine h.report hp hl hu' (fun labor hlabor => ?_) ?_
      · cases hfind.symm.trans hlabor
      · rw [LaborCatalog.remarkOn, hfind]
        rfl
    · next labor hfind =>
      -- A labor that is found lacks its terms, or nothing.
      have hlacks : labors.Lacks id ↔ labor.isPiecework ∧ labor.terms? = Option.none :=
        ⟨fun hlacks => hlacks labor hfind, fun hlacks _ hlabor => by
          cases hfind.symm.trans hlabor
          exact hlacks⟩
      have hother : ∀ id', e.laborId = some id' → id' = id := fun id' hl' =>
        Option.some.inj (hl'.symm.trans hl)
      split
      · next hpiecework =>
        refine h.of_not_lacks rfl rfl fun id' _ hl' _ => ?_
        rw [hother id' hl', hlacks]
        exact fun hlacks => by simp [hlacks.1] at hpiecework
      · next hpiecework =>
        split
        · next hterms =>
          refine h.report hp hl hu' (hlacks.2 ⟨by simpa using hpiecework, hterms⟩) ?_
          rw [LaborCatalog.remarkOn, hfind]
          rfl
        · next terms hterms =>
          refine h.of_not_lacks rfl rfl fun id' _ hl' _ => ?_
          rw [hother id' hl', hlacks, hterms]
          exact fun hlacks => Option.some_ne_none terms hlacks.2
  · next hnot =>
    refine h.of_not_lacks rfl rfl fun id hp hl hu => ?_
    obtain ⟨units, hu⟩ := Option.isSome_iff_exists.1 hu
    exact absurd hu (hnot id units hp hl)

theorem remarked_foldl (labors : LaborCatalog) (p : Period) (es : List AttendanceEntry) :
    Remarked labors p es (es.foldl (PieceworkTally.addEntry labors p) .none) := by
  induction es using List.reverseRecOn with
  | nil => exact remarked_none
  | append_singleton es e ih =>
    rw [List.foldl_append]
    exact ih.addEntry e

theorem Remarked.onLabor (h : Remarked labors p es t) : ∀ d ∈ t.diagnostics, d.OnLabor := by
  intro d hd
  have hmem : d.undated ∈ t.diagnostics.map Diagnostic.undated := List.mem_map_of_mem hd
  rw [h.diagnostics_eq] at hmem
  obtain ⟨id, -, hid⟩ := List.mem_map.1 hmem
  have honLabor := labors.onLabor_remarkOn id
  rwa [hid] at honLabor

end PieceworkTally

/-- The same work has the same remarks on labors, but for their order and dates. -/
theorem SameWork.remarks {t t' : PieceworkTally} (h : SameWork p as bs)
    (ht : t.Remarked labors p as) (ht' : t'.Remarked labors p bs) :
    SameRemarks t.diagnostics t'.diagnostics where
  perm := by
    rw [ht.diagnostics_eq, ht'.diagnostics_eq]
    have hperm : t.reported.Perm t'.reported :=
      (List.perm_ext_iff_of_nodup ht.nodup ht'.nodup).2 fun id => by
        rw [ht.mem_reported, ht'.mem_reported]
        exact and_congr_right fun _ => exists_congr fun d => and_congr_right fun hd =>
          h.counted d hd id
    exact (((List.reverse_perm _).trans hperm).trans (List.reverse_perm _).symm).map _
  left := ht.onLabor
  right := ht'.onLabor

/-! ## The piecework of a period -/

/-- Whether two summaries are the same but for their remarks. -/
def PieceworkSummary.SameButRemarks (s t : PieceworkSummary) : Prop :=
  { s with diagnostics := [] } = { t with diagnostics := [] } ∧
    SameRemarks s.diagnostics t.diagnostics

/-- The same work has the same piecework, but for the remarks. -/
theorem SameWork.piecework (h : SameWork p as bs) (labors : LaborCatalog) :
    Alike PieceworkSummary.SameButRemarks (PieceworkSummary.ofAttendance as labors p)
      (PieceworkSummary.ofAttendance bs labors p) := by
  have hcounts : (as.foldl (PieceworkTally.addEntry labors p) .none).counts =
      (bs.foldl (PieceworkTally.addEntry labors p) .none).counts := by
    rw [counts_foldl, counts_foldl]
    exact h.tallyOf_eq
  have hremarks := h.remarks (PieceworkTally.remarked_foldl labors p as)
    (PieceworkTally.remarked_foldl labors p bs)
  rw [PieceworkSummary.ofAttendance, PieceworkSummary.ofAttendance]
  simp only [hcounts]
  refine Alike.bind_same fun days _ => ?_
  refine Alike.bind_same fun total _ => ?_
  exact .ok ⟨rfl, hremarks⟩

end FieldWages
