import FieldWages.Configuration
import Mathlib.Data.List.Forall2
import Mathlib.Data.List.Nodup

/-!
# Sound configurations

A configuration is sound if no problem is found with its parts. What that says of
the plan of concepts, in particular that no code is configured twice, is drawn from
the search for problems here.

* `foldCode_eq_iff`: which codes are one when folded;
* `repeatedCode?_eq_none_iff`, `repeatedCode?_eq_some_iff`: when no code repeats another,
  and which is the first that does;
* `Configuration.nodup_codes`: the codes of a configuration.
-/

namespace FieldWages

/-! ## Equal codes -/

/-- Whether `x` is an ASCII letter in lower case, and `y` the same in upper case. -/
def LowerOf (x y : Char) : Prop := 'a' ≤ x ∧ x ≤ 'z' ∧ x.toNat = y.toNat + 32

/-- Whether two characters are one, but for the case of an ASCII letter. -/
def SameLetter (x y : Char) : Prop := x = y ∨ LowerOf x y ∨ LowerOf y x

/-- Whether two codes are equal but for the case of ASCII letters. -/
def EqualCodes (a b : String) : Prop := List.Forall₂ SameLetter a.toList b.toList

theorem lowerOf_iff {x y : Char} :
    LowerOf x y ↔ 97 ≤ x.toNat ∧ x.toNat ≤ 122 ∧ x.toNat = y.toNat + 32 := Iff.rfl

theorem toNat_toUpper (x : Char) :
    x.toUpper.toNat = if 97 ≤ x.toNat ∧ x.toNat ≤ 122 then x.toNat - 32 else x.toNat := by
  by_cases h : 'a'.val ≤ x.val ∧ x.val ≤ 'z'.val
  · have hx : 97 ≤ x.val.toNat ∧ x.val.toNat ≤ 122 := h
    have hupper : x.toUpper = ⟨x.val + ('A'.val - 'a'.val), _⟩ := dif_pos h
    -- The distance of the cases is negative, so it is taken around the word.
    have hdistance : ('A'.val - 'a'.val).toNat = 4294967264 := by decide
    rw [hupper, Char.toNat, Char.toNat, if_pos hx, UInt32.toNat_add, hdistance]
    omega
  · rw [if_neg (show ¬(97 ≤ x.toNat ∧ x.toNat ≤ 122) from h)]
    exact congrArg Char.toNat (dif_neg h)

theorem toUpper_eq_iff {x y : Char} : x.toUpper = y.toUpper ↔ SameLetter x y := by
  rw [← Char.toNat_inj, toNat_toUpper, toNat_toUpper, SameLetter, lowerOf_iff, lowerOf_iff,
    ← Char.toNat_inj]
  split <;> split <;> omega

/-- Codes are one when folded exactly if they are equal but for case. -/
theorem foldCode_eq_iff {a b : String} : foldCode a = foldCode b ↔ EqualCodes a b := by
  have hletters : (fun x y => Char.toUpper x = Char.toUpper y) = SameLetter :=
    funext₂ fun _ _ => propext toUpper_eq_iff
  rw [foldCode, foldCode, String.ofList_inj, ← List.forall₂_eq_eq_eq, List.forall₂_map_left_iff,
    List.forall₂_map_right_iff, hletters, EqualCodes]

/-! ## Repeated codes -/

/-- No code is found to repeat another exactly if all folded codes differ, from each
    other and from those seen before. -/
theorem repeatedCode?_eq_none_iff {seen : List String} {cs : List Concept} :
    repeatedCode? seen cs = none ↔
      (cs.map (foldCode ·.code)).Nodup ∧ ∀ c ∈ cs, foldCode c.code ∉ seen := by
  induction cs generalizing seen with
  | nil => simp [repeatedCode?]
  | cons c cs ih =>
    rw [repeatedCode?]
    split
    · next hseen => exact ⟨nofun, fun h => absurd hseen (h.2 c List.mem_cons_self)⟩
    · next hseen =>
      rw [ih, List.map_cons, List.nodup_cons, List.forall_mem_cons, List.mem_map]
      -- A later code may neither be one seen before nor that of `c`.
      constructor
      · rintro ⟨hnodup, hcs⟩
        refine ⟨⟨?_, hnodup⟩, hseen, fun x hx => ?_⟩
        · rintro ⟨x, hx, heq⟩
          exact hcs x hx (heq ▸ List.mem_cons_self)
        · exact fun h => hcs x hx (List.mem_cons_of_mem _ h)
      · rintro ⟨⟨hc, hnodup⟩, -, hcs⟩
        refine ⟨hnodup, fun x hx h => ?_⟩
        rcases List.mem_cons.1 h with heq | h
        · exact hc ⟨x, hx, heq⟩
        · exact hcs x hx h

/-- Behind concepts none of which repeats a code, the search goes on with their codes seen. -/
theorem repeatedCode?_append {seen : List String} {before cs : List Concept}
    (h : repeatedCode? seen before = none) : repeatedCode? seen (before ++ cs) =
      repeatedCode? ((before.map (foldCode ·.code)).reverse ++ seen) cs := by
  induction before generalizing seen with
  | nil => rfl
  | cons b before ih =>
    rw [repeatedCode?] at h
    split at h
    · cases h
    · next hseen =>
      rw [List.cons_append, repeatedCode?, if_neg hseen, ih h, List.map_cons, List.reverse_cons,
        List.append_assoc, List.singleton_append]

/-- The first code found to repeat another is that of the first concept whose folded code is
    among those seen before or those of the concepts before it. -/
theorem repeatedCode?_eq_some_iff {seen : List String} {cs : List Concept} {code : String} :
    repeatedCode? seen cs = some code ↔
      ∃ before c after, cs = before ++ c :: after ∧ c.code = code ∧
        repeatedCode? seen before = none ∧
        (foldCode c.code ∈ seen ∨ ∃ b ∈ before, foldCode b.code = foldCode c.code) := by
  constructor
  · intro h
    induction cs generalizing seen with
    | nil => cases h
    | cons x cs ih =>
      rw [repeatedCode?] at h
      split at h
      · next hseen =>
        cases h
        exact ⟨[], x, cs, rfl, rfl, rfl, .inl hseen⟩
      · next hseen =>
        obtain ⟨before, c, after, rfl, hcode, hbefore, hc⟩ := ih h
        refine ⟨x :: before, c, after, rfl, hcode, by rw [repeatedCode?, if_neg hseen, hbefore], ?_⟩
        rcases hc with hc | ⟨b, hb, hc⟩
        · rcases List.mem_cons.1 hc with hc | hc
          · exact .inr ⟨x, List.mem_cons_self, hc.symm⟩
          · exact .inl hc
        · exact .inr ⟨b, List.mem_cons_of_mem _ hb, hc⟩
  · rintro ⟨before, c, after, rfl, rfl, hbefore, hc⟩
    rw [repeatedCode?_append hbefore, repeatedCode?, if_pos]
    rw [List.mem_append, List.mem_reverse, List.mem_map]
    exact hc.symm

/-- The codes of a configuration differ, and not only in the case of their letters. -/
theorem Configuration.nodup_codes (config : Configuration) :
    (config.concepts.map (foldCode ·.code)).Nodup := by
  have hsound := config.sound
  rw [configProblem?] at hsound
  split at hsound
  · cases hsound
  split at hsound
  · cases hsound
  · next h => exact (repeatedCode?_eq_none_iff.1 h).1

end FieldWages
