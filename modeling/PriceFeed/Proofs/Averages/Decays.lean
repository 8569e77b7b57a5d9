import PriceFeed.Proofs.Averages
import PriceFeed.Proofs.Decimal.Order

/-!
# Decays in order

What a weight keeps over a gap is one less the lost part, which is a product, a quotient and a
difference, each rounded. None of them turns an order around, so a longer gap never keeps more, and
a longer half-life never less, at whatever number of places the lost part comes out.

    gap ≤ gap', 0 < halfLife' ≤ halfLife → the decay of gap', halfLife' is not above that of
      gap, halfLife                                                          (decay?_le_decay?)
    a decay exists, lies between zero and one and is in the order of both      (decay?_ordered)
-/

namespace PriceFeed

open Decimal

/-- Without a half-life all is lost. -/
theorem decay?_halfLife_zero (gap : Nat) : decay? gap 0 = some .zero := rfl

/-- Nothing is lost without a gap. -/
theorem decay?_gap_zero {halfLife : Nat} (hpos : halfLife ≠ 0) : decay? 0 halfLife = some .one := by
  have hproduct : ln2.mul? (.ofInt (0 : Nat)) = some .zero := mul?_of_eq_zero (by simp)
  have hlost : Decimal.zero.div? (.ofInt halfLife) = some .zero :=
    div?_of_eq_zero toRat_zero (by simpa using hpos)
  rw [decay?, if_neg hpos, hproduct]
  simp only [bind, Option.bind_some, hlost]
  rfl

/-- A longer gap and a shorter half-life keep less, or as much. -/
theorem decay?_le_decay? {gap gap' halfLife halfLife' : Nat} {keep keep' : Decimal}
    (hgap : gap ≤ gap') (hhalf : halfLife' ≤ halfLife) (hpos : 0 < halfLife')
    (h : decay? gap halfLife = some keep) (h' : decay? gap' halfLife' = some keep') :
    keep'.toRat ≤ keep.toRat := by
  obtain ⟨product, lost, hproduct, hlost, hproduct0, -, -, hkeep⟩ :=
    exists_lost_of_decay? (by omega) h
  obtain ⟨product', lost', hproduct', hlost', -, -, -, hkeep'⟩ :=
    exists_lost_of_decay? (by omega) h'
  have hgap : (gap : ℚ) ≤ gap' := by exact_mod_cast hgap
  have hhalf : (halfLife' : ℚ) ≤ halfLife := by exact_mod_cast hhalf
  have hpos : (0 : ℚ) < halfLife' := by exact_mod_cast hpos
  have hscale : ln2.scale + (ofInt gap).scale = ln2.scale + (ofInt gap').scale := rfl
  have hproducts : product.toRat ≤ product'.toRat := by
    refine mul?_le_mul? hscale ?_ ?_ hproduct hproduct' <;>
      simp only [toRat_ofInt, Int.cast_natCast]
    · exact mul_nonneg ln2_nonneg (by positivity)
    · exact mul_le_mul_of_nonneg_left hgap ln2_nonneg
  have hlosts : lost.toRat ≤ lost'.toRat := by
    refine div?_le_div? ?_ ?_ hlost hlost' <;> simp only [toRat_ofInt, Int.cast_natCast]
    · exact div_nonneg hproduct0 (by positivity)
    · exact div_le_div₀ (le_trans hproduct0 hproducts) hproducts hpos hhalf
  rw [hkeep, hkeep']
  exact max_le_max_left 0 (by linarith)

/-! ## Top theorem -/

/-- **Decays are in order.** Every gap of 64 bits has a decay, a decimal between zero and one: zero
for a half-life of zero, and one for no gap at any other. It never grows with the gap, and it never
shrinks with a half-life that is not zero. -/
theorem decay?_ordered (gap halfLife : Nat) (hgap : (gap : Int) ∈ IntRange.unsigned64) :
    ∃ keep, decay? gap halfLife = some keep ∧
      (keep.Valid ∧ 0 ≤ keep.toRat ∧ keep.toRat ≤ 1) ∧
      (halfLife = 0 → keep = .zero) ∧
      (gap = 0 → halfLife ≠ 0 → keep = .one) ∧
      (∀ longer : Nat, gap ≤ longer → (longer : Int) ∈ IntRange.unsigned64 →
        ∃ keep', decay? longer halfLife = some keep' ∧ keep'.toRat ≤ keep.toRat) ∧
      (∀ slower : Nat, 0 < halfLife → halfLife ≤ slower →
        ∃ keep', decay? gap slower = some keep' ∧ keep.toRat ≤ keep'.toRat) := by
  have hexists {gap : Nat} (hgap : (gap : Int) ∈ IntRange.unsigned64) (halfLife : Nat) :
      ∃ keep, decay? gap halfLife = some keep := by
    have := (IntRange.mem_unsigned64.1 hgap).2
    exact Option.isSome_iff_exists.1 (isSome_decay? (by omega) halfLife)
  obtain ⟨keep, hkeep⟩ := hexists hgap halfLife
  refine ⟨keep, hkeep, decay?_bounds hkeep, ?_, ?_, ?_, ?_⟩
  · rintro rfl
    exact Option.some.inj (hkeep.symm.trans (decay?_halfLife_zero gap))
  · rintro rfl hpos
    exact Option.some.inj (hkeep.symm.trans (decay?_gap_zero hpos))
  · intro longer hle hlonger
    obtain ⟨keep', hkeep'⟩ := hexists hlonger halfLife
    refine ⟨keep', hkeep', ?_⟩
    rcases Nat.eq_zero_or_pos halfLife with rfl | hpos
    · rw [decay?_halfLife_zero, Option.some.injEq] at hkeep hkeep'
      rw [← hkeep, ← hkeep']
    · exact decay?_le_decay? hle (Nat.le_refl _) hpos hkeep hkeep'
  · intro slower hpos hle
    obtain ⟨keep', hkeep'⟩ := hexists hgap slower
    exact ⟨keep', hkeep', decay?_le_decay? (Nat.le_refl _) hle hpos hkeep' hkeep⟩

/-- From a gap of 11 to one of 12 the product has a digit more than fits, and loses a place. -/
theorem decay?_ordered_eleven :
    ln2.mul? (.ofInt 11) = some ⟨76246189861593984035895533365, 28⟩ ∧
      ln2.mul? (.ofInt 12) = some ⟨8317766166719343713006785458, 27⟩ ∧
      ∃ keep longer slower, decay? 11 30 = some keep ∧ decay? 12 30 = some longer ∧
        decay? 11 31 = some slower ∧ longer.toRat ≤ keep.toRat ∧ keep.toRat ≤ slower.toRat := by
  refine ⟨by decide +kernel, by decide +kernel, ?_⟩
  obtain ⟨keep, hkeep, -, -, -, hlonger, hslower⟩ := decay?_ordered 11 30 (by decide)
  obtain ⟨longer, hlong, hle⟩ := hlonger 12 (by decide) (by decide)
  obtain ⟨slower, hslow, hge⟩ := hslower 31 (by decide) (by decide)
  exact ⟨keep, longer, slower, hkeep, hlong, hslow, hle, hge⟩

end PriceFeed
