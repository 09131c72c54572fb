import FieldWages.Calculator.Registry
import FieldWages.Proofs.Configuration
import FieldWages.Proofs.Run
import FieldWages.Proofs.SortedMap
import Mathlib.Data.List.Induction

/-!
# Histories of a registry

A registry is filled by calls one after the other (`Registry.after`): a calculator is registered
under a code, or an existing code becomes known by one more. A call that has an effect puts a
calculator under its code, and the list of what the calls of a history have put where
(`Registry.installed`) tells all that can be found behind them.

The keys of a registry are folded codes (`Registry.Folded`). Each call keeps them so, and only
then does the number of keys count the codes that are not equal but for case.

* `Registry.get?_after`: what is found behind a history is what was installed last;
* `Registry.size_of_names`: the size of a registry is the number of codes that it names;
* `Registry.folded_and_remembers`: look-ups, aliases and size behind any history.
-/

namespace FieldWages

/-! ## Folded codes -/

theorem toUpper_toUpper (x : Char) : x.toUpper.toUpper = x.toUpper := by
  rw [toUpper_eq_iff, SameLetter, lowerOf_iff, lowerOf_iff, ← Char.toNat_inj, toNat_toUpper]
  split <;> omega

theorem foldCode_foldCode (code : String) : foldCode (foldCode code) = foldCode code := by
  rw [foldCode, foldCode, String.toList_ofList, List.map_map]
  exact congrArg String.ofList (List.map_congr_left fun x _ => toUpper_toUpper x)

theorem sameCode_iff {a b : String} : sameCode a b ↔ EqualCodes a b := by
  rw [sameCode, beq_iff_eq, foldCode_eq_iff]

theorem SameLetter.eq_of_not_ascii {x y : Char} (h : SameLetter x y) (hx : 127 < x.toNat) :
    x = y := by
  rcases h with h | h | h
  · exact h
  · rw [lowerOf_iff] at h
    omega
  · rw [lowerOf_iff] at h
    omega

/-- Equal codes have the characters beyond ASCII in common, each at its place. -/
theorem EqualCodes.getElem?_of_not_ascii {a b : String} (h : EqualCodes a b) {i : Nat} {x : Char}
    (hx : a.toList[i]? = some x) (hascii : 127 < x.toNat) : b.toList[i]? = some x := by
  obtain ⟨hi, hget⟩ := List.getElem?_eq_some_iff.1 hx
  have hi' : i < b.toList.length := List.Forall₂.length_eq h ▸ hi
  have hletter : SameLetter x b.toList[i] := hget ▸ List.Forall₂.get h hi hi'
  rw [List.getElem?_eq_getElem hi', ← hletter.eq_of_not_ascii hascii]

namespace Registry

variable {r : Registry}

/-! ## Calls -/

/-- A call that fills a registry. -/
inductive Call
  | register (code : String) (calculator : Calculator)
  | knownAs (code existing : String)

/-- The code that a call is to put a calculator under. -/
def Call.code : Call → String
  | .register code _ => code
  | .knownAs code _ => code

/-- The calculator that a call puts under its code, if it has an effect. -/
def Call.installs? (r : Registry) : Call → Option Calculator
  | .register _ calculator => some calculator
  | .knownAs _ existing => r.get? existing

/-- The registry behind a call; an alias of an unknown code leaves it as it is. -/
def call (r : Registry) : Call → Registry
  | .register code calculator => r.register code calculator
  | .knownAs code existing => (r.alias? code existing).getD r

/-- The registry behind a list of calls. -/
def after (r : Registry) (calls : List Call) : Registry := calls.foldl call r

/-- What a list of calls puts under which codes, in order: each alias takes the calculator that
    its existing code has behind the calls before it. -/
def installed (r : Registry) (calls : List Call) : List (String × Calculator) :=
  (inTurn calls).filterMap fun x => (x.2.installs? (r.after x.1)).map (x.2.code, ·)

/-- A call registers what it installs, and does nothing else. -/
theorem call_eq (r : Registry) (c : Call) :
    r.call c = ((c.installs? r).map (r.register c.code)).getD r := by
  cases c <;> rfl

theorem after_concat (r : Registry) (calls : List Call) (c : Call) :
    r.after (calls ++ [c]) = (r.after calls).call c := by
  rw [after, List.foldl_append, List.foldl_cons, List.foldl_nil, after]

theorem installed_concat (r : Registry) (calls : List Call) (c : Call) :
    r.installed (calls ++ [c]) =
      r.installed calls ++ ((c.installs? (r.after calls)).map (c.code, ·)).toList := by
  rw [installed, inTurn_concat, List.filterMap_append, ← installed, List.filterMap_cons,
    List.filterMap_nil]
  cases c.installs? (r.after calls) <;> rfl

/-- The registry behind a list of calls is that of the registrations that they come to. -/
theorem after_eq_foldl (r : Registry) (calls : List Call) :
    r.after calls = (r.installed calls).foldl (fun r e => r.register e.1 e.2) r := by
  induction calls using List.reverseRecOn with
  | nil => rfl
  | append_singleton calls c ih =>
    rw [after_concat, installed_concat, List.foldl_append, ← ih, call_eq]
    cases c.installs? (r.after calls) <;> rfl

/-! ## Look-ups -/

/-- Behind any history a look-up finds what was installed last under the code. -/
theorem get?_after (r : Registry) (calls : List Call) (code : String) :
    (r.after calls).get? code =
      (((r.installed calls).filter fun e => sameCode e.1 code).getLast?.map (·.2)).or
        (r.get? code) := by
  -- On the entries installed: the last one decides, if it is under the code.
  rw [after_eq_foldl]
  generalize r.installed calls = es
  induction es using List.reverseRecOn with
  | nil => rfl
  | append_singleton es e ih =>
    rw [List.foldl_append, List.foldl_cons, List.foldl_nil, get?_register, ih, List.filter_append]
    by_cases he : foldCode e.1 = foldCode code
    · have hfilter : [e].filter (fun e => sameCode e.1 code) = [e] :=
        List.filter_cons_of_pos (beq_iff_eq.2 he)
      rw [if_pos he, hfilter, List.getLast?_concat]
      rfl
    · have hfilter : [e].filter (fun e => sameCode e.1 code) = [] :=
        List.filter_cons_of_neg fun h => he (beq_iff_eq.1 h)
      rw [if_neg he, hfilter, List.append_nil]

theorem contains_after (r : Registry) (calls : List Call) (code : String) :
    (r.after calls).contains code ↔
      (∃ e ∈ r.installed calls, sameCode e.1 code) ∨ r.contains code := by
  rw [contains, get?_after, Option.isSome_or, Option.isSome_map, Bool.or_eq_true,
    List.getLast?_isSome, ne_eq, List.filter_eq_nil_iff, contains]
  push Not
  rfl

theorem isSome_alias? (r : Registry) (code existing : String) :
    (r.alias? code existing).isSome = r.contains existing := by
  rw [alias?, Option.isSome_map, contains]

theorem call_knownAs_of_not_contains {code existing : String} (h : r.contains existing = false) :
    r.call (.knownAs code existing) = r := by
  rw [contains, Option.isSome_eq_false_iff, Option.isNone_iff_eq_none] at h
  rw [call_eq, Call.installs?, h]
  rfl

/-! ## Size -/

/-- Whether every key is a folded code. -/
def Folded (r : Registry) : Prop := ∀ k ∈ r.calculators.keys, foldCode k = k

theorem folded_empty : empty.Folded := fun _ h => absurd h List.not_mem_nil

theorem Folded.register (h : r.Folded) (code : String) (calculator : Calculator) :
    (r.register code calculator).Folded := by
  intro k hk
  rcases SortedMap.mem_keys_insert.1 hk with rfl | hk
  · exact foldCode_foldCode code
  · exact h k hk

theorem Folded.foldl (h : r.Folded) (es : List (String × Calculator)) :
    (es.foldl (fun r e => r.register e.1 e.2) r).Folded := by
  induction es generalizing r with
  | nil => exact h
  | cons e es ih => exact ih (h.register e.1 e.2)

theorem folded_standard : standard.Folded := folded_empty.foldl standardEntries

theorem Folded.after (h : r.Folded) (calls : List Call) : (r.after calls).Folded := by
  rw [after_eq_foldl]
  exact h.foldl (r.installed calls)

/-- Whether a list of codes names each code with a calculator, and none of them twice, up to the
    case of ASCII letters. -/
structure Names (r : Registry) (codes : List String) : Prop where
  once : codes.Pairwise fun a b => ¬EqualCodes a b
  all : ∀ code, r.contains code ↔ ∃ x ∈ codes, EqualCodes x code

theorem contains_iff {code : String} : r.contains code ↔ foldCode code ∈ r.calculators.keys :=
  SortedMap.isSome_get?

/-- Folded keys name the codes of a registry. -/
theorem Folded.names_keys (h : r.Folded) : r.Names r.calculators.keys where
  once := by
    refine (SortedMap.nodup_keys r.calculators).imp_of_mem fun {a b} ha hb hne heq => hne ?_
    rw [← h a ha, ← h b hb, foldCode_eq_iff]
    exact heq
  all code := by
    rw [contains_iff]
    constructor
    · intro hk
      exact ⟨_, hk, foldCode_eq_iff.1 (foldCode_foldCode code)⟩
    · rintro ⟨x, hx, heq⟩
      rw [← foldCode_eq_iff.2 heq, h x hx]
      exact hx

/-- The size of a registry is the number of codes with a calculator, up to case. -/
theorem size_of_names (h : r.Folded) {codes : List String} (hcodes : r.Names codes) :
    r.size = codes.length := by
  -- Folded, the codes are the keys in some order.
  have hnodup : (codes.map foldCode).Nodup :=
    List.pairwise_map.2 (hcodes.once.imp fun hne heq => hne (foldCode_eq_iff.1 heq))
  have hmem : ∀ k, k ∈ r.calculators.keys ↔ k ∈ codes.map foldCode := by
    intro k
    rw [List.mem_map]
    constructor
    · intro hk
      have hcontains : r.contains k := contains_iff.2 ((h k hk).symm ▸ hk)
      obtain ⟨x, hx, heq⟩ := (hcodes.all k).1 hcontains
      exact ⟨x, hx, (foldCode_eq_iff.2 heq).trans (h k hk)⟩
    · rintro ⟨x, hx, rfl⟩
      exact contains_iff.1 ((hcodes.all x).2 ⟨x, hx, foldCode_eq_iff.1 rfl⟩)
  have hperm := (List.perm_ext_iff_of_nodup (SortedMap.nodup_keys r.calculators) hnodup).2 hmem
  have hlength := hperm.length_eq
  rwa [SortedMap.keys, List.length_map, List.length_map] at hlength

/-! ## Histories -/

/-- An alias stays with the calculator that it took until something is put under its own code,
    whatever becomes of the code that it was taken from. -/
theorem get?_after_knownAs {r : Registry} {code existing : String} {calculator : Calculator}
    (h : r.get? existing = some calculator) {later : List Call}
    (hlater : ∀ e ∈ (r.register code calculator).installed later, ¬sameCode e.1 code) :
    (r.after (.knownAs code existing :: later)).get? code = some calculator := by
  have hcall : r.call (.knownAs code existing) = r.register code calculator := by
    rw [call_eq, Call.installs?, h]
    rfl
  rw [after, List.foldl_cons, hcall, ← after, get?_after, List.filter_eq_nil_iff.2 hlater,
    get?_register, if_pos rfl]
  rfl

/-- What a registry keeps of its history. -/
structure Remembers (r : Registry) (calls : List Call) : Prop where
  /-- A look-up finds what was installed last under the code, or what was there before. -/
  found : ∀ code, (r.after calls).get? code =
    (((r.installed calls).filter fun e => sameCode e.1 code).getLast?.map (·.2)).or (r.get? code)
  /-- There is a calculator for a code exactly if a look-up finds one. -/
  agrees : ∀ code, (r.after calls).contains code ↔ ∃ k, (r.after calls).get? code = some k
  /-- There is a calculator for a code exactly if one was installed or was there before. -/
  contained : ∀ code, (r.after calls).contains code ↔
    (∃ e ∈ r.installed calls, sameCode e.1 code) ∨ r.contains code
  /-- An alias succeeds exactly if there is a calculator for the existing code. -/
  known : ∀ code existing, ((r.after calls).alias? code existing).isSome ↔
    (r.after calls).contains existing
  /-- An alias of an unknown code does nothing. -/
  unknown : ∀ code existing, ¬(r.after calls).contains existing →
    r.after (calls ++ [.knownAs code existing]) = r.after calls
  /-- An alias does not follow its existing code. -/
  taken : ∀ code existing k later, (r.after calls).get? existing = some k →
    (∀ e ∈ ((r.after calls).register code k).installed later, ¬sameCode e.1 code) →
    (r.after (calls ++ .knownAs code existing :: later)).get? code = some k
  /-- The codes with a calculator can be named. -/
  named : ∃ codes, (r.after calls).Names codes
  /-- The size is the number of codes, however they are named. -/
  counted : ∀ codes, (r.after calls).Names codes → (r.after calls).size = codes.length

theorem Folded.remembers (hr : r.Folded) (calls : List Call) : r.Remembers calls where
  found := get?_after r calls
  agrees _ := Option.isSome_iff_exists
  contained := contains_after r calls
  known _ _ := by rw [isSome_alias?]
  unknown _ _ h := by rw [after_concat, call_knownAs_of_not_contains (Bool.eq_false_iff.2 h)]
  taken code existing k later hk hlater := by
    have hafter : r.after (calls ++ .knownAs code existing :: later) =
      (r.after calls).after (.knownAs code existing :: later) := List.foldl_append
    rw [hafter]
    exact get?_after_knownAs hk hlater
  named := ⟨_, (hr.after calls).names_keys⟩
  counted _ := size_of_names (hr.after calls)

/-- The registries that others are made from have folded keys. Behind any history a registry of
    folded keys is one still, and answers by what was installed last. Codes are one exactly if they
    are equal but for the case of ASCII letters; what is not ASCII they have in common. -/
theorem folded_and_remembers : (empty.Folded ∧ standard.Folded) ∧
    (∀ r : Registry, r.Folded → ∀ calls, (r.after calls).Folded ∧ r.Remembers calls) ∧
    (∀ a b, sameCode a b ↔ EqualCodes a b) ∧
    ∀ (a b : String) (i : Nat) (x : Char), sameCode a b → a.toList[i]? = some x →
      127 < x.toNat → b.toList[i]? = some x :=
  ⟨⟨folded_empty, folded_standard⟩, fun _ hr calls => ⟨hr.after calls, hr.remembers calls⟩,
    fun _ _ => sameCode_iff, fun _ _ _ _ h => (sameCode_iff.1 h).getElem?_of_not_ascii⟩

/-- A code known by a second one, and registered anew after that. -/
def renewal : List Call :=
  [.register "Bono" Calculator.fixedAmount, .knownAs "EXTRA" "bono", .knownAs "OTHER" "PRIMA",
    .register "BONO" Calculator.healthPlan]

theorem folded_and_remembers_renewal : (empty.after renewal).Folded ∧
    (empty.after renewal).get? "extra" = some Calculator.fixedAmount ∧
    (empty.after renewal).size = 2 ∧ ¬sameCode "año" "AÑO" := by
  obtain ⟨⟨hempty, -⟩, hhistories, -, hletters⟩ := folded_and_remembers
  obtain ⟨hfolded, hremembers⟩ := hhistories empty hempty renewal
  have hinstalled : empty.installed renewal = [("Bono", Calculator.fixedAmount),
    ("EXTRA", Calculator.fixedAmount), ("BONO", Calculator.healthPlan)] := rfl
  refine ⟨hfolded, ?_, ?_, fun h => ?_⟩
  · rw [hremembers.found, hinstalled]
    rfl
  · refine hremembers.counted ["Bono", "EXTRA"] ⟨?_, fun code => ?_⟩
    · rw [List.pairwise_pair, ← sameCode_iff]
      decide
    · have hnone : empty.contains code = false := rfl
      have hsame : EqualCodes "BONO" code ↔ EqualCodes "Bono" code := by
        rw [← foldCode_eq_iff, ← foldCode_eq_iff]
        rfl
      rw [hremembers.contained, hinstalled, hnone]
      simp only [List.exists_mem_cons_iff, List.not_mem_nil, false_and, exists_false, or_false,
        Bool.false_eq_true, sameCode_iff, hsame]
      tauto
  · have hsame := hletters "año" "AÑO" 1 'ñ' h rfl (by decide)
    exact absurd hsame (by decide)

end Registry

end FieldWages
