import FieldWages.Decimal.Text
import FieldWages.Proofs.Text.Digits

/-!
# Decimals read back

The digits of a decimal are read one by one, and none of them is rounded off: the
mantissa grows up to the one that was written, which fits, and so do its places.
Only the minus sign of a zero is lost (`Decimal.unsignZero`).

* `Decimal.scan?_digitChars`: mantissa and scale are read back;
* `Decimal.ofText?_toText`.
-/

namespace FieldWages

open Text

namespace Decimal

variable {m s : ℕ} {ds rest : List Char}

/-- The decimal without the minus sign of a zero. -/
def unsignZero (d : Decimal) : Decimal :=
  { d with negativeZero := false, mantissa_eq_zero := fun h => absurd h Bool.false_ne_true }

theorem ofDigitChars_cons_ten (c : Char) (ds : List Char) (m : ℕ) :
    Nat.ofDigitChars 10 (c :: ds) m = Nat.ofDigitChars 10 ds (m * 10 + digitValue c) := by
  rw [Nat.ofDigitChars_cons, Nat.mul_comm, digitValue]

theorem le_ofDigitChars (ds : List Char) (m : ℕ) : m ≤ Nat.ofDigitChars 10 ds m := by
  rw [Nat.ofDigitChars_eq_ofDigitChars_zero]
  exact (Nat.le_mul_of_pos_left m (Nat.pow_pos (by decide))).trans (Nat.le_add_right ..)

/-- Digits before the point are read one after the other. -/
theorem scan?_whole (hds : ∀ c ∈ ds, c.isDigit) (hfit : Nat.ofDigitChars 10 ds m ≤ maxMantissa)
    (digit : Bool) :
    scan? m 0 false digit (ds ++ rest) =
      scan? (Nat.ofDigitChars 10 ds m) 0 false (digit || !ds.isEmpty) rest := by
  induction ds generalizing m digit with
  | nil => simp
  | cons c ds ih =>
    obtain ⟨hc, hds⟩ := List.forall_mem_cons.1 hds
    rw [ofDigitChars_cons_ten] at hfit ⊢
    have hlt : ¬maxMantissa < m * 10 + digitValue c :=
      not_lt.2 ((le_ofDigitChars ds _).trans hfit)
    rw [List.cons_append, scan?, if_pos hc]
    simp only [Bool.false_eq_true, if_false, if_neg hlt]
    rw [ih hds hfit]
    simp

/-- Places are read to the last as long as there is room for them. -/
theorem scan?_places (hds : ∀ c ∈ ds, c.isDigit) (hfit : Nat.ofDigitChars 10 ds m ≤ maxMantissa)
    (hs : s + ds.length ≤ maxScale) :
    scan? m s true true ds = some (Nat.ofDigitChars 10 ds m, s + ds.length) := by
  induction ds generalizing m s with
  | nil => rfl
  | cons c ds ih =>
    obtain ⟨hc, hds⟩ := List.forall_mem_cons.1 hds
    rw [ofDigitChars_cons_ten] at hfit ⊢
    rw [List.length_cons] at hs
    have hroom : ¬(maxMantissa < m * 10 + digitValue c ∨ maxScale ≤ s) :=
      not_or.2 ⟨not_lt.2 ((le_ofDigitChars ds _).trans hfit), by omega⟩
    rw [scan?, if_pos hc]
    simp only [if_true, if_neg hroom]
    rw [ih hds hfit (by omega), List.length_cons, Nat.add_right_comm, Nat.add_assoc]

/-- The digits of a decimal without their sign. -/
def digitChars (d : Decimal) : List Char :=
  digits (d.mantissa.natAbs / tenPow d.scale) ++
    if d.scale = 0 then [] else '.' :: padded d.scale (d.mantissa.natAbs % tenPow d.scale)

theorem scan?_digitChars (d : Decimal) :
    scan? 0 0 false false d.digitChars = some (d.mantissa.natAbs, d.scale) := by
  have hle := d.mantissa_le
  have hwhole : Nat.ofDigitChars 10 (digits (d.mantissa.natAbs / tenPow d.scale)) 0 =
      d.mantissa.natAbs / tenPow d.scale := valueOf_digits _
  have hsome : (false || !(digits (d.mantissa.natAbs / tenPow d.scale)).isEmpty) = true := by
    rw [Bool.false_or, Bool.not_eq_true', List.isEmpty_eq_false_iff]
    exact digits_ne_nil _
  rw [digitChars, scan?_whole (fun _ => isDigit_of_mem_digits)
    (hwhole.trans_le ((Nat.div_le_self ..).trans hle)), hwhole, hsome]
  by_cases hs : d.scale = 0
  · rw [if_pos hs, hs, tenPow_zero, Nat.div_one]
    rfl
  · have hpos : 0 < d.scale := Nat.pos_of_ne_zero hs
    have hlt : d.mantissa.natAbs % tenPow d.scale < 10 ^ d.scale := Nat.mod_lt _ (tenPow_pos _)
    -- Whole part and places are quotient and remainder by one and the same power of ten.
    have hvalue : Nat.ofDigitChars 10 (padded d.scale (d.mantissa.natAbs % tenPow d.scale))
        (d.mantissa.natAbs / tenPow d.scale) = d.mantissa.natAbs := by
      rw [Nat.ofDigitChars_eq_ofDigitChars_zero, length_padded hpos hlt]
      exact (congrArg _ (valueOf_padded ..)).trans (Nat.div_add_mod ..)
    have hlength := length_padded hpos hlt
    have hplaces := scan?_places (s := 0) (fun _ => isDigit_of_mem_padded)
      (hvalue.trans_le hle) (by rw [hlength, Nat.zero_add]; exact d.scale_le)
    rw [hvalue, hlength, Nat.zero_add] at hplaces
    rw [if_neg hs, scan?, if_neg (by decide), if_pos ⟨rfl, by decide⟩, hplaces]

theorem exists_digitChars_eq_cons (d : Decimal) :
    ∃ c cs, d.digitChars = c :: cs ∧ c.isDigit := by
  obtain ⟨c, cs, hcs⟩ :=
    List.exists_cons_of_ne_nil (digits_ne_nil (d.mantissa.natAbs / tenPow d.scale))
  have hc : c.isDigit := isDigit_of_mem_digits (hcs ▸ List.mem_cons_self)
  exact ⟨c, _, by rw [digitChars, hcs, List.cons_append], hc⟩

theorem chars_eq (d : Decimal) :
    d.chars = (if d.mantissa < 0 ∨ d.negativeZero then ['-'] else []) ++ d.digitChars :=
  List.append_assoc ..

/-- Reading a decimal that was written gives it back with its scale, and the sign of a
    zero is all that may be lost. -/
theorem ofText?_toText (d : Decimal) : ofText? d.toText = some d.unsignZero := by
  have hplain : ofPlainText? d.chars = some d.unsignZero := by
    rw [chars_eq]
    split
    · next hneg =>
      have hm : -(d.mantissa.natAbs : ℤ) = d.mantissa := by
        rcases hneg with hneg | hneg
        · omega
        · rw [d.mantissa_eq_zero hneg]
          rfl
      change ofUnsignedText? true d.digitChars = _
      rw [ofUnsignedText?, scan?_digitChars]
      change ofParts? (-(d.mantissa.natAbs : ℤ)) d.scale = _
      rw [hm, ofParts?, dif_pos ⟨d.mantissa_le, d.scale_le⟩]
      rfl
    · next hpos =>
      have hm : (d.mantissa.natAbs : ℤ) = d.mantissa := by
        have := not_or.1 hpos
        omega
      obtain ⟨c, cs, hcs, hc⟩ := exists_digitChars_eq_cons d
      -- A digit is no sign, so the text is read without one.
      have hunsigned : ofPlainText? d.digitChars = ofUnsignedText? false d.digitChars := by
        rw [hcs, ofPlainText?]
        · rintro _ ⟨⟩
          cases hc
        · rintro _ ⟨⟩
          cases hc
      rw [List.nil_append, hunsigned, ofUnsignedText?, scan?_digitChars]
      change ofParts? (d.mantissa.natAbs : ℤ) d.scale = _
      rw [hm, ofParts?, dif_pos ⟨d.mantissa_le, d.scale_le⟩]
      rfl
  rw [ofText?, toText, String.toList_ofList, ofChars?, hplain, Option.some_or]

end Decimal

end FieldWages
