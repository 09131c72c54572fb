import FieldWages.Proofs.Cut.Hours
import FieldWages.Proofs.OutOfRange

/-!
# Tiers of overtime

An ordinary day fills its normal hours before it has any overtime, and the first tier of
overtime before the second (`FillsTiers`). Only one split of its hours does that. It is not
enough to ask of each tier that the one right before it be full (`TiersInTurn`): a first tier
without room is always full, and lets the second one have hours while normal ones are left.

A Sunday or holiday is not split: its hours are kept together, and those above the normal
ones are counted once more. What the days come to is rounded part by part when all of them
have been added, and the total is that of the rounded parts, so it can differ from the
rounded total.

* `FillsTiers.eq_min`: a split that fills the tiers is found by minima;
* `HourNumbers.isSplit_ofDay`: the parts of a day;
* `HourBreakdown.ofDaily_sharesOut`: the breakdown of the days of a period;
* `HourBreakdown.ofDaily_not_sharesOut_inTurn`: without a first tier, taking turns leaves it open.
-/

namespace FieldWages

/-- A rule on how to split the hours of an ordinary day, given the limits of the normal hours
    and of the first tier: which hours can have which normal ones, first and second tier. -/
abbrev SplitRule := ℚ → ℚ → ℚ → ℚ → ℚ → ℚ → Prop

/-- Whether hours are split so that a tier has some only if the one before it is full. -/
structure TiersInTurn (normalLimit tier1Limit hours normal tier1 tier2 : ℚ) : Prop where
  sum : normal + tier1 + tier2 = hours
  normal_nonneg : 0 ≤ normal
  normal_le : normal ≤ normalLimit
  tier1_nonneg : 0 ≤ tier1
  tier1_le : tier1 ≤ tier1Limit
  tier2_nonneg : 0 ≤ tier2
  normal_full : 0 < tier1 → normal = normalLimit
  tier1_full : 0 < tier2 → tier1 = tier1Limit

/-- Whether hours are split so that a tier has some only if all before it are full. -/
structure FillsTiers (normalLimit tier1Limit hours normal tier1 tier2 : ℚ) : Prop
    extends TiersInTurn normalLimit tier1Limit hours normal tier1 tier2 where
  normal_full_of_tier2 : 0 < tier2 → normal = normalLimit

variable {normalLimit tier1Limit hours normal tier1 tier2 : ℚ}

/-- With room in the first tier, to have hours in turn is to fill the tiers. -/
theorem inTurn_iff_fillsTiers (hroom : 0 < tier1Limit) :
    TiersInTurn normalLimit tier1Limit hours normal tier1 tier2 ↔
      FillsTiers normalLimit tier1Limit hours normal tier1 tier2 :=
  ⟨fun h => ⟨h, fun htier2 => h.normal_full (hroom.trans_eq (h.tier1_full htier2).symm)⟩,
    fun h => h.toTiersInTurn⟩

/-- Without a first tier, hours of the second one can take the place of normal ones. -/
theorem TiersInTurn.of_no_tier1 (hsum : normal + tier2 = hours) (hnormal : 0 ≤ normal)
    (hle : normal ≤ normalLimit) (htier2 : 0 ≤ tier2) :
    TiersInTurn normalLimit 0 hours normal 0 tier2 where
  sum := by rw [add_zero, hsum]
  normal_nonneg := hnormal
  normal_le := hle
  tier1_nonneg := le_rfl
  tier1_le := le_rfl
  tier2_nonneg := htier2
  normal_full h := absurd h (lt_irrefl 0)
  tier1_full _ := rfl

namespace FillsTiers

/-- The minima fill the tiers. -/
theorem of_min (hn : 0 ≤ normalLimit) (ht : 0 ≤ tier1Limit) (hhours : 0 ≤ hours)
    (hnormal : normal = min hours normalLimit) (htier1 : tier1 = min (hours - normal) tier1Limit)
    (htier2 : tier2 = hours - normal - tier1) :
    FillsTiers normalLimit tier1Limit hours normal tier1 tier2 := by
  have hnormal_le : normal ≤ hours := hnormal ▸ min_le_left _ _
  have htier1_le : tier1 ≤ hours - normal := htier1 ▸ min_le_left _ _
  have htier1_nonneg : 0 ≤ tier1 := htier1 ▸ le_min (sub_nonneg.2 hnormal_le) ht
  -- Hours are left over only by a tier that is full.
  have hfull : normal < hours → normal = normalLimit := fun hlt =>
    hnormal.trans ((min_choice _ _).resolve_left fun h => hlt.ne (hnormal.trans h))
  have hfull' : tier1 < hours - normal → tier1 = tier1Limit := fun hlt =>
    htier1.trans ((min_choice _ _).resolve_left fun h => hlt.ne (htier1.trans h))
  exact
    { sum := by linarith
      normal_nonneg := hnormal ▸ le_min hhours hn
      normal_le := hnormal ▸ min_le_right _ _
      tier1_nonneg := htier1_nonneg
      tier1_le := htier1 ▸ min_le_right _ _
      tier2_nonneg := by linarith
      normal_full := fun h => hfull (by linarith)
      tier1_full := fun h => hfull' (by linarith)
      normal_full_of_tier2 := fun h => hfull (by linarith) }

/-- Only the minima fill the tiers. -/
theorem eq_min (h : FillsTiers normalLimit tier1Limit hours normal tier1 tier2) :
    normal = min hours normalLimit ∧ tier1 = min (hours - normal) tier1Limit ∧
      tier2 = hours - normal - tier1 := by
  have hsum := h.sum
  refine ⟨?_, ?_, by linarith⟩
  · rcases h.normal_le.eq_or_lt with hfull | hlt
    · rw [min_eq_right (by linarith [h.tier1_nonneg, h.tier2_nonneg]), hfull]
    · -- Neither tier has hours if there is room among the normal ones.
      have htier1 := h.tier1_nonneg.eq_of_not_lt fun hpos => hlt.ne (h.normal_full hpos)
      have htier2 := h.tier2_nonneg.eq_of_not_lt fun hpos => hlt.ne (h.normal_full_of_tier2 hpos)
      have hhours : hours = normal := by linarith
      rw [hhours, min_eq_left hlt.le]
  · rcases h.tier1_le.eq_or_lt with hfull | hlt
    · rw [min_eq_right (by linarith [h.tier2_nonneg]), hfull]
    · have htier2 := h.tier2_nonneg.eq_of_not_lt fun hpos => hlt.ne (h.tier1_full hpos)
      have hhours : hours - normal = tier1 := by linarith
      rw [hhours, min_eq_left hlt.le]

end FillsTiers

/-! ## The parts of a day -/

/-- Whether numbers are the parts of a day: a Sunday or holiday is kept together, an ordinary
    day is split by a rule, in the only way the rule allows. -/
structure HourNumbers.IsSplit (rule : SplitRule) (normalLimit tier1Limit : ℚ) (special : Bool)
    (hours night : ℚ) (x : HourNumbers) : Prop where
  ofSpecial : special = true → x = (0, 0, 0, hours, max 0 (hours - normalLimit), night)
  ofOrdinary : special = false → ∃ normal tier1 tier2,
    x = (normal, tier1, tier2, 0, 0, night) ∧
      rule normalLimit tier1Limit hours normal tier1 tier2 ∧
      ∀ n t₁ t₂, rule normalLimit tier1Limit hours n t₁ t₂ → n = normal ∧ t₁ = tier1 ∧ t₂ = tier2

/-- A day is split into its parts by a rule that comes to filling the tiers. -/
theorem HourNumbers.isSplit_ofDay {rule : SplitRule} (hn : 0 ≤ normalLimit) (ht : 0 ≤ tier1Limit)
    (hhours : 0 ≤ hours)
    (hrule : ∀ n t₁ t₂, rule normalLimit tier1Limit hours n t₁ t₂ ↔
      FillsTiers normalLimit tier1Limit hours n t₁ t₂) (special : Bool) (night : ℚ) :
    (ofDay normalLimit tier1Limit special hours night).IsSplit rule normalLimit tier1Limit special
      hours night where
  ofSpecial hspecial := by
    rw [ofDay, if_pos hspecial, max_comm]
  ofOrdinary hordinary := by
    have hfills := (hrule _ _ _).2 (.of_min hn ht hhours rfl rfl rfl)
    refine ⟨_, _, _, ?_, hfills, fun n t₁ t₂ hsplit => ?_⟩
    · rw [ofDay, hordinary, if_neg Bool.false_ne_true]
    · obtain ⟨hnormal, htier1, htier2⟩ := ((hrule n t₁ t₂).1 hsplit).eq_min
      subst hnormal htier1
      exact ⟨rfl, rfl, htier2⟩

/-! ## The breakdown of a period -/

namespace HourBreakdown

open Decimal

variable {daily : DailyHoursMap} {normalLimit tier1Limit : Decimal} {c : WorkCalendar}

/-- Whether a breakdown shares out the hours of days by a rule: each part is the sum of those
    of the days, rounded once, and the total is that of the four parts that share out the
    hours. -/
structure SharesOut (rule : SplitRule) (daily : DailyHoursMap) (normalLimit tier1Limit : Decimal)
    (c : WorkCalendar) (b : HourBreakdown) : Prop where
  numbers : ∃ parts : Date × DailyHours → HourNumbers,
    (∀ day ∈ daily.entries, (parts day).IsSplit rule normalLimit.toRat tier1Limit.toRat
      (c.isSundayOrHoliday day.1) day.2.total.toRat day.2.night.toRat) ∧
    b.numbers = (daily.entries.map parts).sum.nearestHundredths
  total : b.total.toRat =
    b.normal.toRat + b.overtimeTier1.toRat + b.overtimeTier2.toRat + b.holidaySunday.toRat

/-- Unless a decimal gets out of range, the hours of days are shared out: a Sunday or holiday
    is kept apart with all its hours, and those above the normal ones are extra; an ordinary
    day has no overtime while there is room for normal hours, and none of the second tier
    while there is room in the first, and there is one way only to split it so. With room in
    the first tier it is enough that the tiers have hours in turn. -/
theorem ofDaily_sharesOut (hn : zero < normalLimit) (ht : zero ≤ tier1Limit)
    (hdays : ∀ day ∈ daily.values, zero ≤ day.total)
    (hexact : SplitsExactly daily normalLimit tier1Limit c) :
    UnlessOverflow
      (fun b => SharesOut FillsTiers daily normalLimit tier1Limit c b ∧
        (zero < tier1Limit → SharesOut TiersInTurn daily normalLimit tier1Limit c b))
      (ofDaily daily normalLimit tier1Limit c) := by
  refine .intro (fun b h => ?_) (ofDaily_stopsBy daily normalLimit tier1Limit c)
  have hshares : ∀ rule : SplitRule,
      (∀ h n t₁ t₂, rule normalLimit.toRat tier1Limit.toRat h n t₁ t₂ ↔
        FillsTiers normalLimit.toRat tier1Limit.toRat h n t₁ t₂) →
      SharesOut rule daily normalLimit tier1Limit c b := by
    intro rule hrule
    obtain ⟨hnumbers, htotal⟩ := numbers_ofDaily h hexact
    refine ⟨⟨_, fun day hday => ?_, hnumbers⟩, htotal⟩
    have hhours := hdays day.2 (List.mem_map_of_mem hday)
    exact HourNumbers.isSplit_ofDay (zero_le_iff.1 (le_of_lt hn)) (zero_le_iff.1 ht)
      (zero_le_iff.1 hhours) (hrule _) _ _
  refine ⟨hshares FillsTiers fun _ _ _ _ => Iff.rfl, fun hroom => hshares TiersInTurn ?_⟩
  rw [lt_iff_toRat, toRat_zero] at hroom
  exact fun _ _ _ _ => inTurn_iff_fillsTiers hroom

/-- A long Monday and a long Tuesday, to the half of a hundredth, and a Sunday. -/
def longDays : DailyHoursMap :=
  .ofList [(.onDay 0, ⟨{ mantissa := 11255, scale := 3 }, .zero⟩),
    (.onDay 1, ⟨{ mantissa := 9335, scale := 3 }, .ofUInt32 1⟩),
    (.onDay 6, ⟨{ mantissa := 950, scale := 2 }, .zero⟩)]

/-- Sixteen normal hours, 3.335 and 1.255 of overtime, and a Sunday of nine and a half: both
    tiers are rounded up, so the total is a hundredth above the hours. -/
theorem ofDaily_sharesOut_longDays : ∃ b,
    ofDaily longDays (.ofUInt32 8) (.ofUInt32 2) ⟨.empty⟩ = .ok b ∧
      zero < ofUInt32 8 ∧ zero ≤ ofUInt32 2 ∧ (∀ day ∈ longDays.values, zero ≤ day.total) ∧
      SplitsExactly longDays (.ofUInt32 8) (.ofUInt32 2) ⟨.empty⟩ ∧
      SharesOut FillsTiers longDays (.ofUInt32 8) (.ofUInt32 2) ⟨.empty⟩ b ∧
      SharesOut TiersInTurn longDays (.ofUInt32 8) (.ofUInt32 2) ⟨.empty⟩ b ∧
      b.overtimeTier1 = { mantissa := 334, scale := 2 } ∧
      b.overtimeTier2 = { mantissa := 126, scale := 2 } ∧
      b.total = { mantissa := 3010, scale := 2 } := by
  have hparts : (ofDaily longDays (.ofUInt32 8) (.ofUInt32 2) ⟨.empty⟩).map
      (fun b => (b.overtimeTier1, b.overtimeTier2, b.total)) =
      .ok ({ mantissa := 334, scale := 2 }, { mantissa := 126, scale := 2 },
        { mantissa := 3010, scale := 2 }) := by
    decide +kernel
  obtain ⟨b, hb, hparts⟩ := map_eq_ok.1 hparts
  simp only [Prod.mk.injEq] at hparts
  have hn : zero < ofUInt32 8 := by decide
  have ht : zero ≤ ofUInt32 2 := by decide
  have hdays : ∀ day ∈ longDays.values, zero ≤ day.total := by decide +kernel
  have hexact : SplitsExactly longDays (.ofUInt32 8) (.ofUInt32 2) ⟨.empty⟩ :=
    ⟨by decide +kernel, by decide +kernel, by decide +kernel⟩
  obtain ⟨hfilled, hinTurn⟩ := (ofDaily_sharesOut hn ht hdays hexact).of_eq_ok hb
  exact ⟨b, hb, hn, ht, hdays, hexact, hfilled, hinTurn (by decide), hparts⟩

/-- Five hours of a Monday. -/
def shortDay : DailyHoursMap := .ofList [(.onDay 0, ⟨.ofUInt32 5, .zero⟩)]

/-- Where there is no first tier, five hours of eight are normal ones. But three normal hours
    and two of the second tier take turns as well, so that is not the only way to do so. -/
theorem ofDaily_not_sharesOut_inTurn :
    zero < ofUInt32 8 ∧ (∀ day ∈ shortDay.values, zero ≤ day.total) ∧
      SplitsExactly shortDay (.ofUInt32 8) zero ⟨.empty⟩ ∧
      TiersInTurn 8 0 5 5 0 0 ∧ TiersInTurn 8 0 5 3 0 2 ∧
      ∃ b, ofDaily shortDay (.ofUInt32 8) zero ⟨.empty⟩ = .ok b ∧
        b.normal = ofUInt32 5 ∧ b.overtimeTier2 = zero ∧
        ¬SharesOut TiersInTurn shortDay (.ofUInt32 8) zero ⟨.empty⟩ b := by
  have hparts : (ofDaily shortDay (.ofUInt32 8) zero ⟨.empty⟩).map
      (fun b => (b.normal, b.overtimeTier2)) = .ok (ofUInt32 5, zero) := by
    decide +kernel
  obtain ⟨b, hb, hparts⟩ := map_eq_ok.1 hparts
  rw [Prod.mk.injEq] at hparts
  have hexact : SplitsExactly shortDay (.ofUInt32 8) zero ⟨.empty⟩ :=
    ⟨by decide +kernel, by decide +kernel, by decide +kernel⟩
  have hfive : TiersInTurn 8 0 5 5 0 0 :=
    .of_no_tier1 (by norm_num) (by norm_num) (by norm_num) le_rfl
  have hthree : TiersInTurn 8 0 5 3 0 2 :=
    .of_no_tier1 (by norm_num) (by norm_num) (by norm_num) (by norm_num)
  refine ⟨by decide, by decide +kernel, hexact, hfive, hthree, b, hb, hparts.1, hparts.2,
    fun hshared => ?_⟩
  obtain ⟨parts, hsplit, -⟩ := hshared.numbers
  have hday := hsplit (.onDay 0, ⟨.ofUInt32 5, .zero⟩) (by decide +kernel)
  obtain ⟨n, t₁, t₂, -, -, honly⟩ := hday.ofOrdinary (by decide +kernel)
  simp only [toRat_ofUInt32, toRat_zero] at honly
  -- Both splits would have the normal hours of the one there is.
  have hn := (honly 5 0 0 hfive).1.trans (honly 3 0 2 hthree).1.symm
  norm_num at hn

end HourBreakdown

end FieldWages
