import PriceFeed.Proofs.Averages

/-!
# The mean of a window

The sums of an average run beside the exact sums of its window, with the same weights and decays.
Each fold puts a few units of the last place between them, relative to the sum of the weights
(`abs_fold_sub_le`); in a weight itself, `C` confidences wide, one unit counts as much as `C`. So
the error of the average grows with `C` and with the number of observations, and its price lies
between the observed values until the error shows in the integer.

    the mean lies between the least and the greatest value                    (mean_between)
    the value is within M * (C + n) / 10^26 of the mean                    (value_near_mean)
    a price is between the values, up to this error                          (price_between)
    a price that never moves can come out one too low                  (steady_price_drifts)
-/

namespace PriceFeed

open Decimal

namespace Observation

/-- The magnitude of the value and the confidence are bounded. -/
structure Within (M C : Nat) (o : Observation) : Prop where
  value : o.value.natAbs ≤ M
  conf : o.conf ≤ C

theorem Within.abs_value_le {M C : Nat} {o : Observation} (h : o.Within M C) :
    |(o.value : ℚ)| ≤ M := by
  rw [← Int.cast_abs, ← Nat.cast_natAbs]
  exact_mod_cast h.value

end Observation

namespace Average

/-! ## Exact sums -/

/-- The weighted sum of the observations of a window, and the sum of their weights. -/
def sums (w : List Observation) : ℚ × ℚ :=
  w.foldl (fun s o => (s.1 * o.keep + o.value * o.weight.toRat, s.2 * o.keep + o.weight.toRat))
    (0, 0)

/-- The weighted mean of the observations of a window. -/
def mean (w : List Observation) : ℚ := (sums w).1 / (sums w).2

theorem sums_concat (w : List Observation) (o : Observation) :
    sums (w ++ [o]) =
      ((sums w).1 * o.keep + o.value * o.weight.toRat, (sums w).2 * o.keep + o.weight.toRat) :=
  List.foldl_concat ..

theorem sums_singleton (o : Observation) :
    sums [o] = (o.value * o.weight.toRat, o.weight.toRat) := by
  simp [sums]

/-- A weighted sum lies between what the least and the greatest value would give. -/
theorem sums_between {w : List Observation} {lo hi : ℚ} (hweight : ∀ o ∈ w, 0 ≤ o.weight.toRat)
    (hlo : ∀ o ∈ w, lo ≤ o.value) (hhi : ∀ o ∈ w, o.value ≤ hi) :
    lo * (sums w).2 ≤ (sums w).1 ∧ (sums w).1 ≤ hi * (sums w).2 := by
  induction w using List.reverseRecOn with
  | nil => simp [sums]
  | append_singleton w o ih =>
    have hlast : o ∈ w ++ [o] := List.mem_append_right _ List.mem_cons_self
    obtain ⟨hlow, hhigh⟩ := ih (fun x hx => hweight x (List.mem_append_left _ hx))
      (fun x hx => hlo x (List.mem_append_left _ hx))
      (fun x hx => hhi x (List.mem_append_left _ hx))
    rw [sums_concat]
    constructor
    · calc lo * ((sums w).2 * o.keep + o.weight.toRat)
        _ = lo * (sums w).2 * o.keep + lo * o.weight.toRat := by ring
        _ ≤ (sums w).1 * o.keep + o.value * o.weight.toRat :=
          add_le_add (mul_le_mul_of_nonneg_right hlow o.keep_nonneg)
            (mul_le_mul_of_nonneg_right (hlo o hlast) (hweight o hlast))
    · calc (sums w).1 * o.keep + o.value * o.weight.toRat
        _ ≤ hi * (sums w).2 * o.keep + hi * o.weight.toRat :=
          add_le_add (mul_le_mul_of_nonneg_right hhigh o.keep_nonneg)
            (mul_le_mul_of_nonneg_right (hhi o hlast) (hweight o hlast))
        _ = hi * ((sums w).2 * o.keep + o.weight.toRat) := by ring

/-- The mean lies between the least and the greatest value. -/
theorem mean_between {w : List Observation} (hpos : 0 < (sums w).2)
    (hweight : ∀ o ∈ w, 0 ≤ o.weight.toRat) {lo hi : ℚ} (hlo : ∀ o ∈ w, lo ≤ o.value)
    (hhi : ∀ o ∈ w, o.value ≤ hi) : lo ≤ mean w ∧ mean w ≤ hi := by
  obtain ⟨hlow, hhigh⟩ := sums_between hweight hlo hhi
  exact ⟨(le_div_iff₀ hpos).2 hlow, (div_le_iff₀ hpos).2 hhigh⟩

theorem abs_sums_le {M C : Nat} (hC1 : 1 ≤ C) (hC : C ≤ 10 ^ 27) {w : List Observation}
    (hw : ∀ o ∈ w, o.Within M C) : |(sums w).1| ≤ M * (sums w).2 := by
  have hweight : ∀ o ∈ w, 0 ≤ o.weight.toRat := fun o ho => (weight_pos hC1 (hw o ho).conf hC).le
  obtain ⟨hlow, hhigh⟩ := sums_between hweight
    (fun o ho => neg_le_of_abs_le (hw o ho).abs_value_le)
    (fun o ho => le_of_abs_le (hw o ho).abs_value_le)
  exact abs_le.2 ⟨by rwa [← neg_mul], hhigh⟩

theorem abs_mean_le {w : List Observation} {m : ℚ} (hpos : 0 < (sums w).2)
    (h : |(sums w).1| ≤ m * (sums w).2) : |mean w| ≤ m := by
  rw [mean, abs_div, abs_of_pos hpos, div_le_iff₀ hpos]
  exact h

/-! ## Errors -/

/-- One fold of a sum, against the exact one. The error relative to the bound `m * weights` of the
sum grows by a few units of the last place, as long as the weight of the observation is not lost
among the places. -/
theorem abs_fold_sub_le {m c e exact weights keep part weight : ℚ} {s : Nat}
    {sum kept product sum' : Decimal} (hm : 1 ≤ m) (he : 6 * eps * c ≤ e) (he1 : e ≤ 1)
    (hkeep : 0 ≤ keep) (hweight : 1 ≤ 2 * c * weight)
    (hexact : |exact| ≤ m * weights) (hpart : |part| ≤ m * weight)
    (hsum : |sum.toRat - exact| ≤ e * (m * weights))
    (hkept : Rounds (slackAt s) (sum.toRat * keep) kept) (hproduct : Rounds 0 part product)
    (hsum' : Rounds 0 (kept.toRat + product.toRat) sum') :
    |sum'.toRat - (exact * keep + part)| ≤ (e + 6 * eps) * (m * (weights * keep + weight)) := by
  obtain ⟨old, hold⟩ : ∃ old, old = m * (weights * keep) := ⟨_, rfl⟩
  obtain ⟨new, hnew⟩ : ∃ new, new = m * weight := ⟨_, rfl⟩
  have hdrift : |sum.toRat * keep - exact * keep| ≤ e * old := by
    rw [← sub_mul, abs_mul, abs_of_nonneg hkeep, hold, ← mul_assoc m, ← mul_assoc e]
    exact mul_le_mul_of_nonneg_right hsum hkeep
  have hexactKept : |exact * keep| ≤ old := by
    rw [abs_mul, abs_of_nonneg hkeep, hold, ← mul_assoc m]
    exact mul_le_mul_of_nonneg_right hexact hkeep
  have hold0 : 0 ≤ old := le_trans (abs_nonneg _) hexactKept
  have hsumKept : |sum.toRat * keep| ≤ 2 * old := by
    have htriangle := abs_sub_abs_le_abs_sub (sum.toRat * keep) (exact * keep)
    have := mul_le_of_le_one_left hold0 he1
    linarith
  -- one unit of the last place, against the weight of the observation
  have hunit : 1 ≤ 2 * (c * new) := by
    have hweight0 : 0 < c * weight := by linarith
    have := le_mul_of_one_le_left hweight0.le hm
    rw [hnew, mul_left_comm]
    linarith
  have hspare : 6 * eps * (c * new) ≤ e * new := by
    rw [← mul_assoc]
    exact mul_le_mul_of_nonneg_right he (le_trans (abs_nonneg _) (hnew ▸ hpart))
  have hkeptNear := hkept.abs_sub_le (slackAt_nonneg _)
  have hkeptLe := hkept.abs_le_mul (slackAt_nonneg _) hsumKept
  have hproductNear := hproduct.abs_sub_le (le_refl 0)
  have hproductLe := hproduct.abs_le_mul (le_refl 0) hpart
  have hsumNear := hsum'.abs_sub_le (le_refl 0)
  have hsumLe := abs_add_le kept.toRat product.toRat
  have hslack := slackAt_le s
  have hgoal : (e + 6 * eps) * (m * (weights * keep + weight)) =
      e * old + e * new + 6 * eps * old + 6 * eps * new := by
    rw [hold, hnew]
    ring
  rw [hgoal]
  rw [← hnew] at hpart hproductLe
  rw [abs_le] at hdrift hkeptNear hproductNear hsumNear ⊢
  unfold eps at *
  constructor <;> linarith

/-- How far the sums are off after `n` observations of confidence `C` at most. -/
def drift (C n : Nat) : ℚ := 6 * eps * (C + n)

theorem drift_succ (C n : Nat) : drift C (n + 1) = drift C n + 6 * eps := by
  unfold drift
  push_cast
  ring

theorem drift_le {C n : Nat} (h : C + n ≤ 10 ^ 26) : drift C n ≤ 1 / 10 := by
  have h : (C : ℚ) + n ≤ 10 ^ 26 := by exact_mod_cast h
  unfold drift eps
  linarith

theorem le_drift (C n : Nat) : 6 * eps * C ≤ drift C n := by
  unfold drift eps
  have : (0 : ℚ) ≤ n := by positivity
  linarith

theorem drift_nonneg (C n : Nat) : 0 ≤ drift C n := by
  unfold drift eps
  positivity

/-- Sums that are close have quotients that are close. -/
theorem abs_div_sub_div_le {m e n d n' d' : ℚ} (hm : 0 ≤ m) (he : 0 ≤ e) (he1 : e ≤ 1 / 10)
    (hd : 0 < d) (hn : |n| ≤ m * d) (hn' : |n' - n| ≤ e * (m * d)) (hd' : |d' - d| ≤ e * d) :
    0 < d' ∧ |n' / d' - n / d| ≤ 3 * e * m := by
  have hlow : 9 / 10 * d ≤ d' := by
    have := neg_le_of_abs_le hd'
    have := mul_le_mul_of_nonneg_right he1 hd.le
    linarith
  have hd'0 : 0 < d' := lt_of_lt_of_le (by positivity) hlow
  refine ⟨hd'0, ?_⟩
  rw [div_sub_div _ _ hd'0.ne' hd.ne', abs_div, abs_of_pos (mul_pos hd'0 hd),
    div_le_iff₀ (mul_pos hd'0 hd)]
  calc |n' * d - d' * n|
    _ = |(n' - n) * d + -(n * (d' - d))| := by ring_nf
    _ ≤ |(n' - n) * d| + |n * (d' - d)| := (abs_add_le _ _).trans_eq (by rw [abs_neg])
    _ = |n' - n| * d + |n| * |d' - d| := by rw [abs_mul, abs_mul, abs_of_pos hd]
    _ ≤ e * (m * d) * d + m * d * (e * d) := by gcongr
    _ = 20 / 9 * (e * m) * ((9 / 10 * d) * d) := by ring
    _ ≤ 3 * (e * m) * (d' * d) := by gcongr; norm_num
    _ = 3 * e * m * (d' * d) := by ring

/-- The sums of an average are close to the exact sums of its window. -/
structure Near (M C : Nat) (a : Average) (w : List Observation) : Prop where
  weights : 0 < (sums w).2
  numer_near : |a.numer.toRat - (sums w).1| ≤ drift C w.length * (M * (sums w).2)
  denom_near : |a.denom.toRat - (sums w).2| ≤ drift C w.length * (1 * (sums w).2)

section

variable {M C : Nat} (hC1 : 1 ≤ C) {o : Observation} (ho : o.Within M C)
include hC1 ho

theorem near_seed (hM : M ≤ 10 ^ 28) (hC : C + 1 ≤ 10 ^ 26) :
    (seed (.ofInt o.value) o.weight).Near M C [o] := by
  obtain ⟨part, hpart⟩ := o.exists_part (le_trans ho.abs_value_le (by exact_mod_cast hM))
  have hrounds := Observation.rounds_part hpart
  have hpos : 0 < o.weight.toRat := weight_pos hC1 ho.conf (by omega)
  have hproduct := o.abs_product_le ho.abs_value_le hpos
  have hdrift : eps ≤ drift C 1 := by
    have hC1 : (1 : ℚ) ≤ C := by exact_mod_cast hC1
    unfold drift eps
    linarith
  rw [seed_eq hpart]
  refine ⟨?_, ?_, ?_⟩ <;> rw [sums_singleton]
  · exact hpos
  · calc |part.toRat - o.value * o.weight.toRat|
      _ ≤ eps * |(o.value : ℚ) * o.weight.toRat| + 0 := hrounds.abs_sub_le (le_refl 0)
      _ = eps * |(o.value : ℚ) * o.weight.toRat| := add_zero _
      _ ≤ drift C 1 * (M * o.weight.toRat) :=
        mul_le_mul hdrift hproduct (abs_nonneg _) (drift_nonneg C 1)
  · rw [sub_self, abs_zero, one_mul]
    exact mul_nonneg (drift_nonneg C 1) hpos.le

theorem Near.fold (hM1 : 1 ≤ M) {a a' : Average} {w : List Observation} (ha : a.Near M C w)
    (hw : ∀ x ∈ w, x.Within M C) (hlength : C + w.length ≤ 10 ^ 26)
    (h : a.folded? o = some a') : a'.Near M C (w ++ [o]) := by
  obtain ⟨_, _, numer, part, denom, hnumer, hpart, hnumer', hdenom, hdenom'⟩ := folded?_spec h
  have hpos : 0 < o.weight.toRat := weight_pos hC1 ho.conf (by omega)
  have hweight : 1 ≤ 2 * C * o.weight.toRat := one_le_mul_weight hC1 ho.conf (by omega)
  have hproduct := o.abs_product_le ho.abs_value_le hpos
  have hdrift1 : drift C w.length ≤ 1 := le_trans (drift_le hlength) (by norm_num)
  refine ⟨?_, ?_, ?_⟩ <;> rw [sums_concat]
  · exact add_pos_of_nonneg_of_pos (mul_nonneg ha.weights.le o.keep_nonneg) hpos
  · rw [List.length_append, List.length_singleton, drift_succ]
    exact abs_fold_sub_le (by exact_mod_cast hM1) (le_drift C _) hdrift1 o.keep_nonneg hweight
      (abs_sums_le hC1 (by omega) hw) hproduct ha.numer_near hnumer hpart hnumer'
  · rw [List.length_append, List.length_singleton, drift_succ]
    refine abs_fold_sub_le (le_refl 1) (le_drift C _) hdrift1 o.keep_nonneg hweight ?_ ?_
      ha.denom_near hdenom (.self (valid_weight o.conf) (le_refl 0)) hdenom'
    · rw [abs_of_pos ha.weights, one_mul]
    · rw [one_mul]
      exact (abs_of_pos hpos).le

end

section

variable {M C : Nat} {a : Average} {w : List Observation} (hC1 : 1 ≤ C)
  (hw : ∀ o ∈ w, o.Within M C) (hlength : C + w.length ≤ 10 ^ 26) (ha : a.Near M C w)
include hC1 hw hlength ha

/-- The exact quotient of the sums is close to the mean. -/
theorem Near.quotient_near : 0 < a.denom.toRat ∧
    |a.numer.toRat / a.denom.toRat - mean w| ≤ 3 * drift C w.length * M := by
  have hdenom := ha.denom_near
  rw [one_mul] at hdenom
  exact abs_div_sub_div_le (by positivity) (drift_nonneg C w.length) (drift_le hlength) ha.weights
    (abs_sums_le hC1 (by omega) hw) ha.numer_near hdenom

/-- The value of an average is close to the mean of its window. -/
theorem Near.abs_value_sub_mean_le (hM1 : 1 ≤ M) (hM : M ≤ 10 ^ 28) :
    |a.value.toRat - mean w| ≤ M * (C + w.length) / 10 ^ 26 := by
  obtain ⟨hpos, hclose⟩ := ha.quotient_near hC1 hw hlength
  have hmean := abs_mean_le ha.weights (abs_sums_le hC1 (by omega) hw)
  have hM1 : (1 : ℚ) ≤ M := by exact_mod_cast hM1
  have hM : (M : ℚ) ≤ 10 ^ 28 := by exact_mod_cast hM
  have hC1 : (1 : ℚ) ≤ C := by exact_mod_cast hC1
  have hquot : |a.numer.toRat / a.denom.toRat| ≤ 2 * M := by
    have htriangle := abs_sub_abs_le_abs_sub (a.numer.toRat / a.denom.toRat) (mean w)
    have hdrift : 3 * drift C w.length * M ≤ 3 * (1 / 10) * M := by
      gcongr
      exact drift_le hlength
    linarith
  have hvalue := div?_eq_value hpos.ne' (le_trans hquot (by norm_num [limit]; linarith))
  have hnear := (rounds_div? hvalue).2.abs_sub_le (by norm_num [eps])
  have hlast : eps * |a.numer.toRat / a.denom.toRat| ≤ eps * (2 * M) := by
    gcongr
    norm_num [eps]
  have hcount : (M : ℚ) * 1 ≤ M * (C + w.length) := by
    gcongr
    have : (0 : ℚ) ≤ w.length := by positivity
    linarith
  calc |a.value.toRat - mean w|
    _ ≤ |a.value.toRat - a.numer.toRat / a.denom.toRat| +
        |a.numer.toRat / a.denom.toRat - mean w| := abs_sub_le ..
    _ ≤ eps * (2 * M) + eps / 2 + 3 * drift C w.length * M := by linarith
    _ = eps * (2 * M) + eps / 2 + 18 * eps * (M * (C + w.length)) := by
      unfold drift
      ring
    _ ≤ M * (C + w.length) / 10 ^ 26 := by
      unfold eps
      linarith

end

section

variable {M C : Nat} (hM1 : 1 ≤ M) (hM : M ≤ 10 ^ 28) (hC1 : 1 ≤ C)
include hM1 hM hC1

theorem near_run_of_seed {a : Average} {first : Observation} {l : List Observation}
    (hfirst : a.folded? first = none) (hw : ∀ o ∈ a.windowFrom [] (first :: l), o.Within M C)
    (hlength : C + (a.windowFrom [] (first :: l)).length ≤ 10 ^ 26) :
    (a.run (first :: l)).Near M C (a.windowFrom [] (first :: l)) := by
  -- the bounds are asked of each window as it is, since an earlier one may be longer
  refine run_holds_of_seed (P := fun a w => (∀ o ∈ w, o.Within M C) → C + w.length ≤ 10 ^ 26 →
    a.Near M C w) ?_ ?_ hfirst [] hw hlength
  · intro o _ hw hlength
    exact near_seed hC1 (hw o List.mem_cons_self) hM hlength
  · intro a w o a' _ ha h hw hlength
    rw [List.length_append, List.length_singleton] at hlength
    have hw' := fun x hx => hw x (List.mem_append_left [o] hx)
    exact Near.fold hC1 (hw o (List.mem_append_right w List.mem_cons_self)) hM1
      (ha hw' (by omega)) hw' (by omega) h

theorem near_run {l : List Observation} (hl : l ≠ []) (hw : ∀ o ∈ window l, o.Within M C)
    (hlength : C + (window l).length ≤ 10 ^ 26) : (run {} l).Near M C (window l) := by
  obtain ⟨first, rest, rfl⟩ := List.exists_cons_of_ne_nil hl
  exact near_run_of_seed hM1 hM hC1 (folded?_of_new rfl first) hw hlength

end

/-! ## Top theorems -/

/-- **The value of an average is close to the exact mean** of the observations since it was last
seeded, here by `first`: with values up to `M`, confidences up to `C` and `n` observations it is off
by `M * (C + n) / 10 ^ 26` at most. -/
theorem value_near_mean (a : Average) (first : Observation) (l : List Observation)
    (hfirst : a.folded? first = none) (w : List Observation)
    (hwindow : a.windowFrom [] (first :: l) = w) (hn : w.length < 2 ^ 64) (M C : Nat) (hM1 : 1 ≤ M)
    (hM : M ≤ 2 ^ 64) (hC1 : 1 ≤ C) (hC : C < 2 ^ 64) (hw : ∀ o ∈ w, o.Within M C) :
    0 < (sums w).2 ∧
      |(a.run (first :: l)).value.toRat - mean w| ≤ M * (C + w.length) / 10 ^ 26 := by
  subst hwindow
  have hM28 : M ≤ 10 ^ 28 := le_trans hM (by norm_num)
  have hlength : C + (a.windowFrom [] (first :: l)).length ≤ 10 ^ 26 := by omega
  have hnear := near_run_of_seed hM1 hM28 hC1 hfirst hw hlength
  exact ⟨hnear.weights, hnear.abs_value_sub_mean_le hC1 hw hlength hM1 hM28⟩

/-- **The price of an average lies between the values it is made of,** but for what the last places
cannot hold: with values up to `M`, confidences up to `C` and `n` observations that is the nearest
integer to `M * (C + n) / 10 ^ 26`, and nothing at all while this is below one half. -/
theorem price_between (l : List Observation) (hl : l ≠ []) (M C : Nat) (hM1 : 1 ≤ M)
    (hM : M ≤ 2 ^ 63) (hC1 : 1 ≤ C) (hvalue : ∀ o ∈ window l, o.value ∈ IntRange.signed64)
    (hw : ∀ o ∈ window l, o.Within M C) (hlength : C + (window l).length ≤ 10 ^ 26) (lo hi : Int)
    (hlo : ∀ o ∈ window l, lo ≤ o.value) (hhi : ∀ o ∈ window l, o.value ≤ hi) :
    let price := (run {} l).value.toPrice
    let error := M * (C + (window l).length)
    (lo - roundHalfUp error (10 ^ 26) ≤ price ∧ price ≤ hi + roundHalfUp error (10 ^ 26)) ∧
      (2 * error < 10 ^ 26 → lo ≤ price ∧ price ≤ hi) := by
  intro price error
  have hM28 : M ≤ 10 ^ 28 := le_trans hM (by norm_num)
  have ha := near_run hM1 hM28 hC1 hl hw hlength
  have hnear := ha.abs_value_sub_mean_le hC1 hw hlength hM1 hM28
  obtain ⟨hlow, hhigh⟩ := mean_between ha.weights
    (fun o ho => (weight_pos hC1 (hw o ho).conf (by omega)).le)
    (fun o ho => show (lo : ℚ) ≤ o.value by exact_mod_cast hlo o ho)
    (fun o ho => show (o.value : ℚ) ≤ hi by exact_mod_cast hhi o ho)
  have herror : (error : ℚ) / (10 ^ 26 : Nat) = M * (C + (window l).length) / 10 ^ 26 := by
    simp only [error]
    push_cast
    rfl
  obtain ⟨hbelow, habove⟩ := round_between (by norm_num) (herror ▸ hnear) hlow hhigh
  -- the range of prices contains some value, so clamping brings the price no further
  obtain ⟨o, ho⟩ := List.exists_mem_of_ne_nil _ (window_ne_nil hl)
  have hrange := IntRange.mem_signed64.1 (hvalue o ho)
  have := hlo o ho
  have := hhi o ho
  have hprice : price = max IntRange.signed64.low
      (min (run {} l).value.round IntRange.signed64.high) := rfl
  simp only [IntRange.signed64] at hprice
  refine ⟨by omega, fun hsmall => ?_⟩
  have hzero : roundHalfUp error (10 ^ 26) = 0 := Nat.div_eq_of_lt (by omega)
  rw [hzero] at hbelow habove
  omega

/-- Two observations of the same price, one right after the other. -/
def steadyRun (price : Int) (conf : Nat) : List Observation :=
  [⟨price, conf, 0, {}⟩, ⟨price, conf, 1, {}⟩]

/-- A long gap makes an average forget what it saw. Of the two equal observations after it the price
comes out one too low, which the bound allows. -/
theorem value_near_mean_steady :
    let a := see {} ⟨7, 3, 0, {}⟩
    let l : List Observation := [⟨1000000000000000, 50000000000000, 5000, {}⟩,
      ⟨1000000000000000, 50000000000000, 1, {}⟩]
    a.windowFrom [] l = l ∧ (a.run l).value.toPrice = 999999999999999 ∧
      |(a.run l).value.toRat - mean l| ≤ 1000000000000000 * (50000000000000 + 2) / 10 ^ 26 := by
  intro a l
  have hwindow : a.windowFrom [] l = l := by decide +kernel
  have hw : ∀ o ∈ l, o.Within 1000000000000000 50000000000000 := by
    intro o ho
    rcases List.mem_pair.1 ho with rfl | rfl <;> exact ⟨by decide, by decide⟩
  obtain ⟨-, hnear⟩ := value_near_mean a ⟨1000000000000000, 50000000000000, 5000, {}⟩
    [⟨1000000000000000, 50000000000000, 1, {}⟩] (by decide +kernel) l hwindow (by decide)
    1000000000000000 50000000000000 (by decide) (by decide) (by decide) (by decide) hw
  exact ⟨hwindow, by decide +kernel, by exact_mod_cast hnear⟩

theorem price_between_steady :
    window (steadyRun 1000 10) = steadyRun 1000 10 ∧
      (run {} (steadyRun 1000 10)).value.toPrice = 1000 := by
  have hwindow : window (steadyRun 1000 10) = steadyRun 1000 10 := by decide +kernel
  have hvalues : ∀ o ∈ window (steadyRun 1000 10), o.value = 1000 ∧ o.conf = 10 := by
    rw [hwindow]
    decide
  obtain ⟨-, hexact⟩ := price_between (steadyRun 1000 10) (by decide) 1000 10 (by decide)
    (by decide) (by decide) (fun o ho => by rw [(hvalues o ho).1]; decide)
    (fun o ho => ⟨by rw [(hvalues o ho).1]; decide, (hvalues o ho).2.le⟩)
    (by rw [hwindow]; decide) 1000 1000 (fun o ho => (hvalues o ho).1.ge)
    (fun o ho => (hvalues o ho).1.le)
  obtain ⟨hlow, hhigh⟩ := hexact (by rw [hwindow]; decide)
  exact ⟨hwindow, Int.le_antisymm hhigh hlow⟩

/-- A price that never moves comes out one too low, if its confidence is wide. -/
theorem steady_price_drifts :
    let l := steadyRun 1000000000000000 50000000000000
    window l = l ∧ (∀ o ∈ l, o.value = 1000000000000000) ∧
      (run {} l).value.toPrice = 999999999999999 := by
  decide +kernel

end Average

end PriceFeed
