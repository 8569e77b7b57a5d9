import PriceFeed.Proofs.Averages

/-!
# Averages of 64-bit observations

An observation of 64 bits has a decay, a positive weight and a product with it. So long as the
numerator of an average is below 10^24 times its denominator the quotient is a decimal, and a fold
keeps it so: before the errors of many folds could add up to as much, the denominator is so large
that any numerator will do (`abs_numer_le_of_fold`).

    an average is sound when seeded, and stays so            (sound_seed, Sound.fold, sound_run)
    a.Sound w → a.numer.div? a.denom = some a.value                             (Sound.div?_eq)
    no fallback is ever taken                                               (value_represented)
-/

namespace PriceFeed

open Decimal

namespace Observation

/-- All numbers of the observation have 64 bits. -/
structure InRange (o : Observation) : Prop where
  value : o.value ∈ IntRange.signed64 ∨ o.value ∈ IntRange.unsigned64
  conf : (o.conf : Int) ∈ IntRange.unsigned64
  gap : (o.gap : Int) ∈ IntRange.unsigned64
  halfLife : (o.policy.halfLife : Int) ∈ IntRange.unsigned64
  maxGap : (o.policy.maxGap : Int) ∈ IntRange.unsigned64

namespace InRange

variable {o : Observation} (h : o.InRange)
include h

theorem abs_value_le : |(o.value : ℚ)| ≤ 2 ^ 64 := abs_le_of_mem h.value

theorem exists_part : ∃ part, (ofInt o.value).mul? o.weight = some part :=
  Observation.exists_part (le_trans h.abs_value_le (by norm_num))

theorem one_le_mul_weight : 1 ≤ 2 ^ 65 * o.weight.toRat := by
  have hconf : o.conf ≤ 2 ^ 64 := by
    have := (IntRange.mem_unsigned64.1 h.conf).2
    omega
  have hone := PriceFeed.one_le_mul_weight (by norm_num) hconf (by norm_num)
  refine le_trans hone (le_of_eq ?_)
  rw [weight]
  norm_num

theorem weight_pos : 0 < o.weight.toRat := weight_pos_of_mem h.conf

theorem isSome_decay? : o.decay?.isSome = true := by
  refine PriceFeed.isSome_decay? ?_ _
  have := (IntRange.mem_unsigned64.1 h.gap).2
  omega

end InRange

end Observation

namespace Average

/-- One fold keeps the numerator below 10^24 times the denominator. -/
theorem abs_numer_le_of_fold {x y v w : ℚ} {s s' : Nat} {numer denom part numer' denom' : Decimal}
    (hy : 0 ≤ y) (hx : |x| ≤ 10 ^ 24 * y) (hw : 1 ≤ 2 ^ 65 * w) (hv : |v| ≤ 2 ^ 64 * w)
    (hnumer : Rounds (slackAt s) x numer) (hdenom : Rounds (slackAt s') y denom)
    (hpart : Rounds 0 v part) (hnumer' : Rounds 0 (numer.toRat + part.toRat) numer')
    (hdenom' : Rounds 0 (denom.toRat + w) denom') :
    |numer'.toRat| ≤ 10 ^ 24 * denom'.toRat := by
  rcases le_total (10 ^ 5) denom'.toRat with hlarge | hsmall
  · -- no decimal is larger than this
    have hlimit := abs_toRat_lt hnumer'.valid
    norm_num [limit] at hlimit
    linarith
  · -- the errors are small against the weight of the observation
    have hdenomNear := hdenom.abs_sub_le (slackAt_nonneg _)
    have hdenomNear' := hdenom'.abs_sub_le (le_refl 0)
    rw [abs_of_nonneg hy] at hdenomNear
    rw [abs_of_nonneg (add_nonneg (hdenom.nonneg hy) (show 0 ≤ w by linarith))] at hdenomNear'
    have hdenomLow := neg_le_of_abs_le hdenomNear
    have hdenomLow' := neg_le_of_abs_le hdenomNear'
    have hnumerLe := hnumer.abs_le_mul (slackAt_nonneg _) hx
    have hpartLe := hpart.abs_le_mul (le_refl 0) hv
    have hnumerLe' := hnumer'.abs_le_mul (le_refl 0) (abs_add_le numer.toRat part.toRat)
    have hslack := slackAt_le s
    have hslack' := slackAt_le s'
    unfold eps at *
    linarith

/-- The numbers of an average that has the window `w`. -/
structure Sound (a : Average) (w : List Observation) : Prop where
  numer : a.numer.Valid
  denom : a.denom.Valid
  last : ∃ o, w.getLast? = some o ∧ 0 < o.weight.toRat ∧ o.weight.toRat ≤ a.denom.toRat
  bounded : |a.numer.toRat| ≤ 10 ^ 24 * a.denom.toRat
  nonneg : (∀ o ∈ w, 0 ≤ o.value) → 0 ≤ a.numer.toRat

theorem sound_seed {o : Observation} (ho : o.InRange) :
    (seed (.ofInt o.value) o.weight).Sound [o] := by
  obtain ⟨part, hpart⟩ := ho.exists_part
  have hrounds := Observation.rounds_part hpart
  rw [seed_eq hpart]
  refine ⟨hrounds.valid, valid_weight o.conf, ⟨o, rfl, ho.weight_pos, le_refl _⟩, ?_, fun hw => ?_⟩
  · have hle := hrounds.abs_le_mul (le_refl 0) (o.abs_product_le ho.abs_value_le ho.weight_pos)
    have := ho.weight_pos
    unfold eps at hle
    linarith
  · have hvalue : (0 : ℚ) ≤ o.value := by exact_mod_cast hw o List.mem_cons_self
    exact hrounds.nonneg (mul_nonneg hvalue ho.weight_pos.le)

namespace Sound

variable {a : Average} {w : List Observation} (ha : a.Sound w)
include ha

theorem denom_pos : 0 < a.denom.toRat := by
  obtain ⟨o, -, hpos, hle⟩ := ha.last
  exact lt_of_lt_of_le hpos hle

theorem fold {o : Observation} (ho : o.InRange) {a' : Average} (h : a.folded? o = some a') :
    a'.Sound (w ++ [o]) := by
  obtain ⟨_, _, numer, part, denom, hnumer, hpart, hnumer', hdenom, hdenom'⟩ := folded?_spec h
  have hkept : 0 ≤ a.denom.toRat * o.keep := mul_nonneg ha.denom_pos.le o.keep_nonneg
  have hpos := ho.weight_pos
  have hdenom0 := hdenom.nonneg hkept
  refine ⟨hnumer'.valid, hdenom'.valid, ⟨o, List.getLast?_concat .., hpos, ?_⟩, ?_, fun hw => ?_⟩
  · have hle : o.weight.toRat ≤ 2 := le_of_abs_le (abs_weight_le o.conf)
    exact hdenom'.le_of_le (by positivity) (le_add_of_nonneg_left hdenom0) (by linarith)
  · have hbounded : |a.numer.toRat * o.keep| ≤ 10 ^ 24 * (a.denom.toRat * o.keep) := by
      rw [abs_mul, abs_of_nonneg o.keep_nonneg, ← mul_assoc]
      exact mul_le_mul_of_nonneg_right ha.bounded o.keep_nonneg
    exact abs_numer_le_of_fold hkept hbounded ho.one_le_mul_weight
      (o.abs_product_le ho.abs_value_le hpos) hnumer hdenom hpart hnumer' hdenom'
  · have hvalue : (0 : ℚ) ≤ o.value := by
      exact_mod_cast hw o (List.mem_append_right _ List.mem_cons_self)
    have hbefore := ha.nonneg fun x hx => hw x (List.mem_append_left _ hx)
    exact hnumer'.nonneg (add_nonneg (hnumer.nonneg (mul_nonneg hbefore o.keep_nonneg))
      (hpart.nonneg (mul_nonneg hvalue hpos.le)))

theorem div?_eq : a.numer.div? a.denom = some a.value := by
  have hpos := ha.denom_pos
  have hquot : |a.numer.toRat / a.denom.toRat| ≤ 10 ^ 24 := by
    rw [abs_div, abs_of_pos hpos, div_le_iff₀ hpos]
    exact ha.bounded
  exact div?_eq_value hpos.ne' (le_trans hquot (by norm_num [limit]))

theorem value_nonneg (hw : ∀ o ∈ w, 0 ≤ o.value) : 0 ≤ a.value.toRat :=
  (rounds_div? ha.div?_eq).2.nonneg (div_nonneg (ha.nonneg hw) ha.denom_pos.le)

end Sound

theorem sound_run {l : List Observation} (hl : ∀ o ∈ l, o.InRange) (hne : l ≠ []) :
    (run {} l).Sound (window l) :=
  run_holds (fun o ho => sound_seed (hl o ho)) (fun _ _ o _ ho ha h => ha.fold (hl o ho) h) hne

/-- **An average of 64-bit observations is always a number.** The decays and products of all
observations fit, so nothing is seeded without its weight; the weights add up to at least the last
one, and the quotient fits, so zero never stands in for it; and where no value is negative the
average is not. -/
theorem value_represented (l : List Observation) (o : Observation)
    (hl : ∀ x ∈ l ++ [o], x.InRange) :
    let a := run {} (l ++ [o])
    (∀ x ∈ l ++ [o], (decay? x.gap x.policy.halfLife).isSome = true ∧
      ((ofInt x.value).mul? (weight x.conf)).isSome = true) ∧
    a.numer.Valid ∧ a.denom.Valid ∧ 0 < a.denom.toRat ∧ (weight o.conf).toRat ≤ a.denom.toRat ∧
    a.numer.div? a.denom = some a.value ∧
    ((∀ x ∈ window (l ++ [o]), 0 ≤ x.value) → 0 ≤ a.value.toRat) := by
  intro a
  have ha : a.Sound (window (l ++ [o])) := sound_run hl (List.concat_ne_nil o l)
  refine ⟨fun x hx => ⟨(hl x hx).isSome_decay?, ?_⟩, ha.numer, ha.denom, ha.denom_pos, ?_,
    ha.div?_eq, ha.value_nonneg⟩
  · obtain ⟨part, hpart⟩ := (hl x hx).exists_part
    exact Option.isSome_iff_exists.2 ⟨part, hpart⟩
  · obtain ⟨last, hlast, -, hle⟩ := ha.last
    obtain rfl : last = o := Option.some.inj (hlast.symm.trans (getLast?_window l o))
    exact hle

/-- A sequence of two narrow prices. -/
theorem value_represented_pair :
    let l : List Observation := [⟨150, 7, 0, {}⟩, ⟨100, 7, 1, {}⟩]
    (∀ x ∈ l, x.InRange) ∧ 0 ≤ (run {} l).value.toRat := by
  have hl : ∀ x ∈ [(⟨150, 7, 0, {}⟩ : Observation)] ++ [⟨100, 7, 1, {}⟩], x.InRange := by
    intro x hx
    rcases List.mem_pair.1 hx with rfl | rfl <;>
      exact ⟨.inl (by decide), by decide, by decide, by decide, by decide⟩
  obtain ⟨-, -, -, -, -, -, hnonneg⟩ := value_represented [⟨150, 7, 0, {}⟩] ⟨100, 7, 1, {}⟩ hl
  exact ⟨hl, hnonneg (by decide +kernel)⟩

end Average

end PriceFeed
