import FieldWages.Json.Parser
import FieldWages.Proofs.Text.Digits
import FieldWages.Proofs.Uuid

/-!
# JSON read back

A value without numbers other than integers of sixty-four bits is read from its
written form as long as it is nested no deeper than the reader goes (`Json.Within`):
reading takes exactly the characters of the value and leaves what follows them, for
any fuel that suffices for its length (`Json.ReadsAt`). Behind an integer no more
digits may follow, no point and no exponent; a comma or a closing bracket may.

* `Json.textBody?_quoted`: texts are read from their escapes;
* `Json.Within.readsAt`: values, by induction on them;
* `Json.ofText?_toText`.
-/

namespace FieldWages

open Text

namespace Json

variable {c : Char} {cs rest : List Char} {n fuel depth : ℕ}

/-! ## Texts between quotes -/

/-- A letter behind a backslash is read as the character it stands for. -/
theorem textBody?_unescape {letter : Char} (h : unescape? letter = some c) :
    textBody? ('\\' :: letter :: cs) = (textBody? cs).map fun (s, rest) => (c :: s, rest) := by
  have hu : letter ≠ 'u' := by
    rintro rfl
    cases h
  rw [textBody?, h]
  · cases textBody? cs <;> rfl
  · exact fun a b c d cs h => absurd h hu

/-- A control character is read from its two digits. -/
theorem textBody?_control (h : c.toNat < 32) :
    textBody? ('\\' :: 'u' :: '0' :: '0' :: hexDigit (c.toNat / 16) :: hexDigit (c.toNat % 16)
      :: cs) = (textBody? cs).map fun (s, rest) => (c :: s, rest) := by
  have hhex : ∀ n < 32, hex4? '0' '0' (hexDigit (n / 16)) (hexDigit (n % 16)) = some n := by
    decide
  have hhigh : ∀ n < 32, isHighSurrogate n = false := by decide
  have hlow : ∀ n < 32, isLowSurrogate n = false := by decide
  rw [textBody?, hhex _ h]
  simp only [hhigh _ h, hlow _ h, Option.bind_eq_bind, Option.bind_some, Char.ofNat_toNat]
  cases textBody? cs <;> rfl

/-- Every character is read from what it is written as. -/
theorem textBody?_escapeChar (c : Char) (cs : List Char) :
    textBody? (escapeChar c ++ cs) = (textBody? cs).map fun (s, rest) => (c :: s, rest) := by
  have hletter : ∀ {letter n}, unescape? letter = some (Char.ofNat n) → c.toNat = n →
      unescape? letter = some c := fun h hn => by rw [h, ← hn, Char.ofNat_toNat]
  rw [escapeChar]
  split_ifs with hquote hslash hline hreturn htab hback hfeed hcontrol
  · exact textBody?_unescape (hletter rfl (congrArg Char.toNat hquote))
  · exact textBody?_unescape (hletter rfl (congrArg Char.toNat hslash))
  · exact textBody?_unescape (hletter rfl (congrArg Char.toNat hline))
  · exact textBody?_unescape (hletter rfl (congrArg Char.toNat hreturn))
  · exact textBody?_unescape (hletter rfl (congrArg Char.toNat htab))
  · exact textBody?_unescape (hletter rfl hback)
  · exact textBody?_unescape (hletter rfl hfeed)
  · exact textBody?_control hcontrol
  · rw [List.singleton_append, textBody?, if_neg (not_or.2 ⟨hcontrol, hslash⟩)]
    · cases textBody? cs <;> rfl
    · exact hquote
    · exact fun _ _ _ _ _ h => absurd h hslash
    · exact fun _ _ h => absurd h hslash

theorem textBody?_quoted (s : List Char) (rest : List Char) :
    textBody? (s.flatMap escapeChar ++ '"' :: rest) = some (s, rest) := by
  induction s with
  | nil => rw [List.flatMap_nil, List.nil_append, textBody?]
  | cons c s ih =>
    rw [List.flatMap_cons, List.append_assoc, textBody?_escapeChar, ih]
    rfl

/-! ## Numbers -/

/-- A text that goes on with nothing a number could go on with. -/
def EndsNumber (rest : List Char) : Prop :=
  ∀ c ∈ rest.head?, c.isDigit = false ∧ c ≠ '.' ∧ c ≠ 'e' ∧ c ≠ 'E'

theorem EndsNumber.endsDigits (h : EndsNumber rest) : EndsDigits rest := fun c hc => (h c hc).1

theorem endsNumber_nil : EndsNumber [] := by
  rintro _ ⟨⟩

theorem fraction?_of_endsNumber (h : EndsNumber rest) : fraction? rest = some (none, rest) := by
  cases rest with
  | nil => rfl
  | cons c cs =>
    rw [fraction?]
    rintro _ ⟨⟩
    exact (h '.' rfl).2.1 rfl

theorem exponent?_of_endsNumber (h : EndsNumber rest) : exponent? rest = some (none, rest) := by
  cases rest with
  | nil => rfl
  | cons c cs =>
    obtain ⟨-, -, he, hE⟩ := h c rfl
    exact if_neg (not_or.2 ⟨he, hE⟩)

/-- The digits of a number are read as an integer. -/
theorem number?_digits (negative : Bool) (n : ℕ) (h : EndsNumber rest) :
    number? negative (digits n ++ rest) = (integer? negative (digits n)).map (·, rest) := by
  have hdigits : ∀ c ∈ digits n, c.isDigit := fun _ => isDigit_of_mem_digits
  have hzero : ¬(digits n = [] ∨ ((digits n).head? = some '0' ∧ (digits n).length ≠ 1)) := by
    rintro (hnil | ⟨hhead, hlength⟩)
    · exact digits_ne_nil n hnil
    · rcases Nat.eq_zero_or_pos n with rfl | hn
      · exact hlength rfl
      · exact head?_digits_ne hn hhead
  simp only [number?, takeWhile_digits hdigits h.endsDigits, dropWhile_digits hdigits h.endsDigits,
    if_neg hzero, fraction?_of_endsNumber h, exponent?_of_endsNumber h, Option.bind_eq_bind,
    Option.bind_some]

/-! ## Values -/

/-- A value without numbers but integers of sixty-four bits, nested at most so deep. -/
inductive Within : ℕ → Json → Prop
  | null {d : ℕ} : Within d null
  | bool {d : ℕ} (b : Bool) : Within d (bool b)
  | int {d : ℕ} {n : ℤ} (h : -9223372036854775808 ≤ n ∧ n ≤ Shortest.maxWord) : Within d (int n)
  | str {d : ℕ} (s : String) : Within d (str s)
  | arr {d : ℕ} {items : List Json} (h : ∀ v ∈ items, Within d v) : Within (d + 1) (arr items)
  | obj {d : ℕ} {members : List (String × Json)} (h : ∀ m ∈ members, Within d m.2) :
      Within (d + 1) (obj members)

variable {d e : ℕ}

/-- What may be nested deeper need not be. -/
theorem Within.mono {v : Json} (h : v.Within d) (hle : d ≤ e) : v.Within e := by
  induction h generalizing e with
  | null => exact .null
  | bool b => exact .bool b
  | int h => exact .int h
  | str s => exact .str s
  | arr _ ih =>
    obtain ⟨e, rfl⟩ := Nat.exists_eq_succ_of_ne_zero (Nat.ne_zero_of_lt hle)
    exact .arr fun v hv => ih v hv (Nat.le_of_succ_le_succ hle)
  | obj _ ih =>
    obtain ⟨e, rfl⟩ := Nat.exists_eq_succ_of_ne_zero (Nat.ne_zero_of_lt hle)
    exact .obj fun m hm => ih m hm (Nat.le_of_succ_le_succ hle)

theorem skipSpace_cons (h : isSpace c = false) : skipSpace (c :: cs) = c :: cs :=
  List.dropWhile_cons_of_neg (by rw [h]; decide)

theorem isSpace_eq_false_of_isDigit (h : c.isDigit) : isSpace c = false := by
  have hne : ∀ x, x.isDigit = false → c ≠ x := fun x hx hc => by
    rw [← hc, h] at hx
    cases hx
  simp only [isSpace, Bool.or_eq_false_iff, beq_eq_false_iff_ne]
  exact ⟨⟨⟨hne _ rfl, hne _ rfl⟩, hne _ rfl⟩, hne _ rfl⟩

theorem value?_digit (h : c.isDigit) :
    value? (fuel + 1) depth (c :: cs) = number? false (c :: cs) := by
  rw [value?, skipSpace_cons (isSpace_eq_false_of_isDigit h)]
  split
  case h_8 => rfl
  all_goals
    next heq => exact absurd ((List.cons_eq_cons.1 heq).1 ▸ h) (by decide)

/-- The first character of a value is no blank, and closes no list. -/
theorem exists_chars_eq_cons {v : Json} (h : v.Within d) :
    ∃ c cs, v.chars = c :: cs ∧ isSpace c = false ∧ c ≠ ']' := by
  cases h with
  | null => exact ⟨_, _, by rw [chars], by decide, by decide⟩
  | bool b =>
    cases b with
    | true => exact ⟨_, _, by rw [chars], by decide, by decide⟩
    | false => exact ⟨_, _, by rw [chars], by decide, by decide⟩
  | @int _ n =>
    by_cases hn : n < 0
    · exact ⟨'-', digits n.natAbs, by rw [chars, intChars, if_pos hn]; rfl, by decide, by decide⟩
    · obtain ⟨c, cs, hcs⟩ := List.exists_cons_of_ne_nil (digits_ne_nil n.natAbs)
      have hc : c.isDigit := isDigit_of_mem_digits (hcs ▸ List.mem_cons_self)
      refine ⟨c, cs, by rw [chars, intChars, if_neg hn, hcs]; rfl,
        isSpace_eq_false_of_isDigit hc, ?_⟩
      rintro rfl
      cases hc
  | str s => exact ⟨_, _, by rw [chars, quoted, List.cons_append], by decide, by decide⟩
  | arr => exact ⟨_, _, by rw [chars, List.cons_append], by decide, by decide⟩
  | obj => exact ⟨_, _, by rw [chars, List.cons_append], by decide, by decide⟩

theorem value?_intChars {n : ℤ} (h : -9223372036854775808 ≤ n ∧ n ≤ Shortest.maxWord)
    (hrest : EndsNumber rest) :
    value? (fuel + 1) depth (intChars n ++ rest) = some (int n, rest) := by
  rw [intChars]
  split
  · next hn =>
    change number? true (digits n.natAbs ++ rest) = _
    rw [number?_digits true _ hrest, integer?, valueOf_digits, if_pos rfl, if_pos (by omega)]
    exact congrArg (fun n => some (int n, rest)) (by omega)
  · next hn =>
    obtain ⟨c, cs, hcs⟩ := List.exists_cons_of_ne_nil (digits_ne_nil n.natAbs)
    have hc : c.isDigit := isDigit_of_mem_digits (hcs ▸ List.mem_cons_self)
    rw [List.nil_append, hcs, List.cons_append, value?_digit hc, ← List.cons_append, ← hcs,
      number?_digits false _ hrest, integer?, valueOf_digits, if_neg Bool.false_ne_true,
      if_pos (by omega)]
    exact congrArg (fun n => some (int n, rest)) (by omega)

theorem value?_quoted (s : String) (rest : List Char) :
    value? (fuel + 1) depth (quoted s ++ rest) = some (str s, rest) := by
  have htext : quoted s ++ rest = '"' :: (s.toList.flatMap escapeChar ++ '"' :: rest) := by
    simp [quoted]
  rw [htext]
  change (textBody? _).map _ = _
  rw [textBody?_quoted, Option.map_some]
  exact congrArg (fun s => some (str s, rest)) String.ofList_toList

/-- A value is read from its written form with fuel for its length. -/
def ReadsAt (d : ℕ) (v : Json) : Prop :=
  ∀ {fuel : ℕ} {rest : List Char}, v.chars.length ≤ fuel → EndsNumber rest →
    value? fuel d (v.chars ++ rest) = some (v, rest)

theorem items?_itemsChars (rest : List Char) {items : List Json} (hne : items ≠ [])
    (hitems : ∀ v ∈ items, v.ReadsAt d) (hfuel : (itemsChars items).length < fuel) :
    items? fuel d (itemsChars items ++ ']' :: rest) = some (items, rest) := by
  have hclose : ∀ cs, EndsNumber (']' :: cs) := by
    rintro cs _ ⟨⟩
    decide
  have hcomma : ∀ cs, EndsNumber (',' :: cs) := by
    rintro cs _ ⟨⟩
    decide
  obtain ⟨fuel, rfl⟩ := Nat.exists_eq_succ_of_ne_zero (Nat.ne_zero_of_lt hfuel)
  induction items generalizing fuel with
  | nil => exact absurd rfl hne
  | cons v vs ih =>
    obtain ⟨hv, hvs⟩ := List.forall_mem_cons.1 hitems
    cases vs with
    | nil =>
      rw [itemsChars] at hfuel ⊢
      rw [items?, hv (Nat.le_of_lt_succ hfuel) (hclose _)]
      rfl
    | cons w vs =>
      rw [itemsChars] at hfuel ⊢
      rw [List.length_append, List.length_cons] at hfuel
      obtain ⟨fuel, rfl⟩ := Nat.exists_eq_succ_of_ne_zero (by omega : fuel ≠ 0)
      rw [items?, List.append_assoc, List.cons_append, hv (by omega) (hcomma _)]
      simp only [Option.bind_eq_bind, Option.bind_some,
        skipSpace_cons (by decide : isSpace ',' = false),
        ih (List.cons_ne_nil w vs) hvs fuel (by omega)]
      rfl

theorem members?_membersChars (rest : List Char) {members : List (String × Json)}
    (hne : members ≠ [])
    (hmembers : ∀ m ∈ members, m.2.ReadsAt d) (hfuel : (membersChars members).length < fuel) :
    members? fuel d (membersChars members ++ '\x7d' :: rest) = some (members, rest) := by
  have hclose : ∀ cs, EndsNumber ('\x7d' :: cs) := by
    rintro cs _ ⟨⟩
    decide
  have hcomma : ∀ cs, EndsNumber (',' :: cs) := by
    rintro cs _ ⟨⟩
    decide
  obtain ⟨fuel, rfl⟩ := Nat.exists_eq_succ_of_ne_zero (Nat.ne_zero_of_lt hfuel)
  induction members generalizing fuel with
  | nil => exact absurd rfl hne
  | cons m ms ih =>
    obtain ⟨name, v⟩ := m
    obtain ⟨hv, hms⟩ := List.forall_mem_cons.1 hmembers
    cases ms with
    | nil =>
      have htext : membersChars [(name, v)] ++ '\x7d' :: rest =
          '"' :: (name.toList.flatMap escapeChar ++ '"' :: ':' :: (v.chars ++ '\x7d' :: rest)) := by
        simp [membersChars, quoted]
      rw [membersChars, List.length_append, List.length_cons] at hfuel
      rw [members?, htext]
      simp only [skipSpace_cons (by decide : isSpace '"' = false), textBody?_quoted,
        Option.bind_eq_bind, Option.bind_some, skipSpace_cons (by decide : isSpace ':' = false),
        hv (by omega : v.chars.length ≤ fuel) (hclose _),
        skipSpace_cons (by decide : isSpace '\x7d' = false), String.ofList_toList]
      rfl
    | cons m' ms =>
      have htext : membersChars ((name, v) :: m' :: ms) ++ '\x7d' :: rest =
          '"' :: (name.toList.flatMap escapeChar ++ '"' :: ':' ::
            (v.chars ++ ',' :: (membersChars (m' :: ms) ++ '\x7d' :: rest))) := by
        simp [membersChars, quoted]
      rw [membersChars, List.length_append, List.length_append, List.length_cons,
        List.length_cons] at hfuel
      obtain ⟨fuel, rfl⟩ := Nat.exists_eq_succ_of_ne_zero (by omega : fuel ≠ 0)
      rw [members?, htext]
      simp only [skipSpace_cons (by decide : isSpace '"' = false), textBody?_quoted,
        Option.bind_eq_bind, Option.bind_some, skipSpace_cons (by decide : isSpace ':' = false),
        hv (by omega : v.chars.length ≤ fuel + 1) (hcomma _),
        skipSpace_cons (by decide : isSpace ',' = false), String.ofList_toList,
        ih (List.cons_ne_nil m' ms) hms fuel (by omega)]
      rfl

/-- The items of a list that is not empty begin with no blank, and do not close it. -/
theorem exists_itemsChars_eq_cons {v : Json} (h : v.Within d) (vs : List Json) :
    ∃ c cs, itemsChars (v :: vs) = c :: cs ∧ isSpace c = false ∧ c ≠ ']' := by
  obtain ⟨c, cs, hcs, hc⟩ := exists_chars_eq_cons h
  cases vs with
  | nil => exact ⟨c, cs, by rw [itemsChars, hcs], hc⟩
  | cons w vs => exact ⟨c, _, by rw [itemsChars, hcs, List.cons_append], hc⟩

/-- The members of an object that is not empty begin with a quote. -/
theorem exists_membersChars_eq_cons (m : String × Json) (ms : List (String × Json)) :
    ∃ cs, membersChars (m :: ms) = '"' :: cs := by
  cases ms with
  | nil => exact ⟨_, rfl⟩
  | cons m' ms => exact ⟨_, rfl⟩

theorem value?_arr {items : List Json} (h : ∀ v ∈ items, v.Within d)
    (hitems : ∀ v ∈ items, v.ReadsAt d) : (arr items).ReadsAt (d + 1) := by
  intro fuel rest hfuel hrest
  rw [chars, List.length_append, List.length_cons, List.length_singleton] at hfuel
  obtain ⟨fuel, rfl⟩ := Nat.exists_eq_succ_of_ne_zero (by omega : fuel ≠ 0)
  have htext : (arr items).chars ++ rest = '[' :: (itemsChars items ++ ']' :: rest) := by
    simp [chars]
  rw [htext, value?, skipSpace_cons (by decide)]
  cases items with
  | nil => rfl
  | cons v vs =>
    have hread := items?_itemsChars rest (List.cons_ne_nil v vs) hitems
      (by omega : (itemsChars (v :: vs)).length < fuel)
    obtain ⟨c, cs, hcs, hspace, hc⟩ := exists_itemsChars_eq_cons (h v List.mem_cons_self) vs
    rw [hcs, List.cons_append] at hread ⊢
    simp only [Nat.add_one_ne_zero, if_false, skipSpace_cons hspace]
    split
    · next heq => exact absurd (List.cons_eq_cons.1 heq).1 hc
    · rw [Nat.add_sub_cancel, hread]
      rfl

theorem value?_obj {members : List (String × Json)}
    (hmembers : ∀ m ∈ members, m.2.ReadsAt d) : (obj members).ReadsAt (d + 1) := by
  intro fuel rest hfuel hrest
  rw [chars, List.length_append, List.length_cons, List.length_singleton] at hfuel
  obtain ⟨fuel, rfl⟩ := Nat.exists_eq_succ_of_ne_zero (by omega : fuel ≠ 0)
  have htext : (obj members).chars ++ rest =
      '\x7b' :: (membersChars members ++ '\x7d' :: rest) := by
    simp [chars]
  rw [htext, value?, skipSpace_cons (by decide)]
  cases members with
  | nil => rfl
  | cons m ms =>
    have hread := members?_membersChars rest (List.cons_ne_nil m ms) hmembers
      (by omega : (membersChars (m :: ms)).length < fuel)
    obtain ⟨cs, hcs⟩ := exists_membersChars_eq_cons m ms
    rw [hcs, List.cons_append] at hread ⊢
    simp only [Nat.add_one_ne_zero, if_false, skipSpace_cons (by decide : isSpace '"' = false)]
    change Option.map _ (members? fuel d _) = _
    rw [hread]
    rfl

/-- Reading stops at the end of the value that was written. -/
theorem Within.readsAt {v : Json} (h : v.Within d) : v.ReadsAt d := by
  induction h with
  | arr h ih => exact value?_arr h ih
  | obj h ih => exact value?_obj ih
  | null =>
    intro fuel rest hfuel _
    obtain ⟨fuel, rfl⟩ := Nat.exists_eq_succ_of_ne_zero (Nat.ne_zero_of_lt hfuel)
    rfl
  | bool b =>
    intro fuel rest hfuel _
    cases b with
    | false =>
      obtain ⟨fuel, rfl⟩ := Nat.exists_eq_succ_of_ne_zero (Nat.ne_zero_of_lt hfuel)
      rfl
    | true =>
      obtain ⟨fuel, rfl⟩ := Nat.exists_eq_succ_of_ne_zero (Nat.ne_zero_of_lt hfuel)
      rfl
  | int h =>
    intro fuel rest hfuel hrest
    obtain ⟨c, cs, hcs, -⟩ := exists_chars_eq_cons (Within.int (d := 0) h)
    rw [hcs] at hfuel
    obtain ⟨fuel, rfl⟩ := Nat.exists_eq_succ_of_ne_zero (Nat.ne_zero_of_lt hfuel)
    rw [chars]
    exact value?_intChars h hrest
  | str s =>
    intro fuel rest hfuel _
    obtain ⟨fuel, rfl⟩ := Nat.exists_eq_succ_of_ne_zero (Nat.ne_zero_of_lt hfuel)
    rw [chars]
    exact value?_quoted s rest

/-- Reading a value that was written gives it back. -/
theorem ofText?_toText {v : Json} (h : v.Within 127) : ofText? v.toText = some v := by
  have hread := h.readsAt (Nat.le_succ _) endsNumber_nil
  rw [List.append_nil] at hread
  rw [ofText?, toText, String.toList_ofList, ofChars?, hread]
  rfl

end Json

end FieldWages
