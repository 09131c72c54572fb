import FieldWages.Uuid
import Mathlib.Tactic

/-!
# Identifiers read back

Digits to the base sixteen are read one after the other (`Text.continue?`), so the
digits of a number have its value, also behind zeros. The hyphens between the groups
of an identifier stand where the reader looks for them.

* `Text.readNatIn?_leftpad`: the value of a number that was written;
* `Uuid.ofText?_toText`.
-/

namespace FieldWages

namespace Text

variable {c : Char} {n : ℕ}

/-- The number whose digits to a base are those of `n` and then the given ones. -/
def continue? (base n : ℕ) (cs : List Char) : Option ℕ :=
  (cs.mapM (digitValueIn? base)).map (·.foldl (fun n d => n * base + d) n)

theorem continue?_append (base n : ℕ) (cs ds : List Char) :
    continue? base n (cs ++ ds) = (continue? base n cs).bind (continue? base · ds) := by
  simp only [continue?, List.mapM_append]
  cases cs.mapM (digitValueIn? base) with
  | none => rfl
  | some vs =>
    cases ds.mapM (digitValueIn? base) with
    | none => rfl
    | some ws => exact congrArg some List.foldl_append

theorem continue?_singleton {base n v : ℕ} (h : digitValueIn? base c = some v) :
    continue? base n [c] = some (n * base + v) := by
  simp [continue?, h]

theorem continue?_replicate_zero (k : ℕ) : continue? 16 0 (List.replicate k '0') = some 0 := by
  induction k with
  | zero => rfl
  | succ k ih =>
    rw [List.replicate_succ, ← List.singleton_append, continue?_append,
      continue?_singleton (by decide : digitValueIn? 16 '0' = some 0)]
    exact ih

theorem digitValueIn?_digitChar (h : n < 16) : digitValueIn? 16 (Nat.digitChar n) = some n := by
  interval_cases n <;> decide

/-- The digits of a number to the base sixteen have its value. -/
theorem continue?_toDigits (n : ℕ) : continue? 16 0 (Nat.toDigits 16 n) = some n := by
  induction n using Nat.strongRecOn with
  | ind n ih =>
    rw [Nat.toDigits_eq_if (by decide)]
    split
    · next hlt =>
      rw [continue?_singleton (digitValueIn?_digitChar hlt), Nat.zero_mul, Nat.zero_add]
    · next hge =>
      rw [continue?_append, ih (n / 16) (by omega), Option.bind_some,
        continue?_singleton (digitValueIn?_digitChar (Nat.mod_lt n (by decide)))]
      exact congrArg some (by omega)

theorem exists_digitChar_of_mem_toDigits (h : c ∈ Nat.toDigits 16 n) :
    ∃ k < 16, c = Nat.digitChar k := by
  induction n using Nat.strongRecOn with
  | ind n ih =>
    rw [Nat.toDigits_eq_if (by decide)] at h
    split at h
    · next hlt => exact ⟨n, hlt, List.mem_singleton.1 h⟩
    · next hge =>
      rcases List.mem_append.1 h with h | h
      · exact ih (n / 16) (by omega) h
      · exact ⟨n % 16, Nat.mod_lt n (by decide), List.mem_singleton.1 h⟩

theorem readNatIn?_leftpad (width n : ℕ) :
    readNatIn? 16 ((Nat.toDigits 16 n).leftpad width '0') = some n := by
  rw [readNatIn?, if_neg]
  · rw [List.leftpad]
    refine (continue?_append 16 0 ..).trans ?_
    rw [continue?_replicate_zero, Option.bind_some, continue?_toDigits]
  · simp [List.leftpad, Nat.toDigits_ne_nil]

end Text

namespace Uuid

open Text

variable {hex : List Char} {n : ℕ}

/-- Thirty-two digits in groups with hyphens between them. -/
def groups (hex : List Char) : List Char :=
  hex.take 8 ++ '-' :: (hex.drop 8).take 4 ++ '-' :: (hex.drop 12).take 4
    ++ '-' :: (hex.drop 16).take 4 ++ '-' :: hex.drop 20

theorem length_groups (hlength : hex.length = 32) : (groups hex).length = 36 := by
  simp [groups, hlength]

theorem ofGroups?_groups (hlength : hex.length = 32) :
    ofGroups? (groups hex) = ofDigits? hex := by
  have hjoin : ∀ k, (hex.drop k).take 4 ++ hex.drop (k + 4) = hex.drop k := fun k => by
    rw [← List.drop_drop, List.take_append_drop]
  have hcut : (groups hex).take 8 ++ ((groups hex).drop 9).take 4 ++ ((groups hex).drop 14).take 4
      ++ ((groups hex).drop 19).take 4 ++ (groups hex).drop 24 =
      hex.take 8 ++ ((hex.drop 8).take 4 ++ ((hex.drop 12).take 4 ++
        ((hex.drop 16).take 4 ++ hex.drop 20))) := by
    simp [groups, hlength, List.drop_append, List.drop_take]
  rw [ofGroups?, if_pos ⟨length_groups hlength, by simp [groups, hlength]⟩, hcut, hjoin 16,
    hjoin 12, hjoin 8, List.take_append_drop]

/-- The first digit is neither a brace nor the letter that `urn` begins with. -/
theorem ofText?_groups (hlength : hex.length = 32)
    (hhex : ∀ c ∈ hex, ∃ k < 16, c = Nat.digitChar k) :
    ofText? (String.ofList (groups hex)) = ofDigits? hex := by
  obtain ⟨c, cs, rfl⟩ : ∃ c cs, hex = c :: cs :=
    List.exists_cons_of_length_pos (by rw [hlength]; decide)
  obtain ⟨rest, hrest⟩ : ∃ rest, groups (c :: cs) = c :: rest := ⟨_, rfl⟩
  obtain ⟨k, hk, hc⟩ := hhex c List.mem_cons_self
  have hbrace : c ≠ '\x7b' := by
    rw [hc]
    interval_cases k <;> decide
  have hletter : c.toLower ≠ 'u' := by
    rw [hc]
    interval_cases k <;> decide
  have hurn : isUrn (groups (c :: cs)) = false := by
    rw [hrest, isUrn, beq_eq_false_iff_ne, List.take_succ_cons, List.map_cons]
    exact fun h => hletter (List.cons_eq_cons.1 h).1
  have hlong : ofDigits? (groups (c :: cs)) = none := by
    rw [ofDigits?, if_neg (by rw [length_groups hlength]; decide)]
  rw [ofText?, String.toList_ofList]
  split
  · next h => exact absurd (List.cons_eq_cons.1 (hrest ▸ h)).1 hbrace
  · rw [hurn, if_neg Bool.false_ne_true, hlong, Option.none_or, ofGroups?_groups hlength]

/-- Reading an identifier that was written gives it back. -/
theorem ofText?_toText (u : Uuid) : ofText? u.toText = some u := by
  have hlength : ((Nat.toDigits 16 u.value.toNat).leftpad 32 '0').length = 32 := by
    have : (Nat.toDigits 16 u.value.toNat).length ≤ 32 :=
      (Nat.length_toDigits_le_iff (by decide) (by decide)).2 u.value.isLt
    rw [List.length_leftpad]
    omega
  refine (ofText?_groups hlength fun c hc => ?_).trans ?_
  · rcases List.mem_append.1 hc with hc | hc
    · exact ⟨0, by decide, List.eq_of_mem_replicate hc⟩
    · exact exists_digitChar_of_mem_toDigits hc
  · rw [ofDigits?, if_pos hlength, readNatIn?_leftpad, Option.map_some, BitVec.ofNat_toNat,
      BitVec.setWidth_eq]

end Uuid

end FieldWages
