import Mathlib.Data.List.Induction
import PriceFeed.Average
import PriceFeed.Proofs.Decimal

/-!
# Runs of a time-weighted average

An average takes in observations one after another. Those since it was last seeded are its window:
an observation that is folded in joins the window, any other starts a new one. What holds of every
seeded average, and is kept by every fold, holds of every run (`run_holds`), and from a seed on
whatever the average was before (`run_holds_of_seed`).

The weight of an observation is a positive decimal, and what earlier weights keep is one between
zero and one.

    the weight of a confidence is its inverse, rounded at the last place           (weight_spec)
    decay? gap halfLife = some keep → 0 ≤ keep ≤ 1                              (decay?_bounds)
-/

namespace PriceFeed

open Decimal

/-! ## Weights -/

/-- The inverse of a confidence, which is one if the confidence is zero. -/
def inverseConf (conf : Nat) : ℚ := 1 / (max 1 conf : Nat)

theorem inverseConf_le_one (conf : Nat) : inverseConf conf ≤ 1 := by
  have hone : (1 : ℚ) ≤ (max 1 conf : Nat) := by exact_mod_cast Nat.le_max_left 1 conf
  exact div_le_one_of_le₀ hone (by positivity)

/-- The weight of a confidence is its inverse, rounded at the last place. -/
theorem weight_spec (conf : Nat) :
    (weight conf).Valid ∧ |(weight conf).toRat - inverseConf conf| ≤ eps / 2 := by
  unfold weight
  split
  · next hzero =>
    subst hzero
    refine ⟨⟨by decide, by decide⟩, ?_⟩
    norm_num [eps, inverseConf]
  · next hpos =>
    have hone : 1 ≤ conf := Nat.one_le_iff_ne_zero.2 hpos
    have hquot : Decimal.one.toRat / (Decimal.ofInt conf).toRat = inverseConf conf := by
      rw [toRat_one, toRat_ofInt, Int.cast_natCast, inverseConf, Nat.max_eq_right hone]
    have hle : |inverseConf conf| ≤ 1 := by
      rw [abs_of_nonneg (by unfold inverseConf; positivity)]
      exact inverseConf_le_one conf
    have hsome : (Decimal.one.div? (.ofInt conf)).isSome = true := by
      refine isSome_div? ?_ ?_
      · rw [toRat_ofInt, Int.cast_natCast]
        positivity
      · rw [hquot]
        refine le_trans hle ?_
        norm_num [limit]
    obtain ⟨w, hw⟩ := Option.isSome_iff_exists.1 hsome
    obtain ⟨-, hrounds⟩ := rounds_div? hw
    rw [hquot] at hrounds
    rw [hw]
    refine ⟨hrounds.valid, ?_⟩
    rcases hrounds.near with hnear | ⟨hlarge, -⟩
    · exact hnear
    · linarith

theorem valid_weight (conf : Nat) : (weight conf).Valid := (weight_spec conf).1

theorem abs_weight_le (conf : Nat) : |(weight conf).toRat| ≤ 2 := by
  obtain ⟨hlow, hhigh⟩ := abs_le.1 (weight_spec conf).2
  have hle := inverseConf_le_one conf
  have hnonneg : 0 ≤ inverseConf conf := by unfold inverseConf; positivity
  rw [eps] at hlow hhigh
  rw [abs_le]
  constructor <;> linarith

/-- A confidence of at most `C` weighs half of `1 / C` at least. -/
theorem one_le_mul_weight {conf C : Nat} (h1 : 1 ≤ C) (hconf : conf ≤ C) (hC : C ≤ 10 ^ 27) :
    1 ≤ 2 * C * (weight conf).toRat := by
  have hnear := (abs_le.1 (weight_spec conf).2).1
  have hpos : (0 : ℚ) < C := by exact_mod_cast h1
  have hinv : (1 : ℚ) / C ≤ inverseConf conf := by
    refine one_div_le_one_div_of_le ?_ ?_
    · exact_mod_cast Nat.lt_of_lt_of_le Nat.one_pos (Nat.le_max_left 1 conf)
    · exact_mod_cast Nat.max_le.2 ⟨h1, hconf⟩
  have hsmall : (C : ℚ) * eps ≤ 1 := by
    have hC : (C : ℚ) ≤ 10 ^ 27 := by exact_mod_cast hC
    rw [eps]
    linarith
  have hweight : 1 / C - eps / 2 ≤ (weight conf).toRat := by linarith
  calc (1 : ℚ) ≤ 2 - C * eps := by linarith
    _ = 2 * C * (1 / C - eps / 2) := by field_simp
    _ ≤ 2 * C * (weight conf).toRat := by gcongr

theorem weight_pos {conf C : Nat} (h1 : 1 ≤ C) (hconf : conf ≤ C) (hC : C ≤ 10 ^ 27) :
    0 < (weight conf).toRat := by
  have hone := lt_of_lt_of_le one_pos (one_le_mul_weight h1 hconf hC)
  exact pos_of_mul_pos_right hone (by positivity)

theorem weight_pos_of_mem {conf : Nat} (h : (conf : Int) ∈ IntRange.unsigned64) :
    0 < (weight conf).toRat := by
  have hconf : conf ≤ 2 ^ 64 := by
    have := (IntRange.mem_unsigned64.1 h).2
    omega
  exact weight_pos (by norm_num) hconf (by norm_num)

/-! ## Decays -/

theorem ln2_nonneg : 0 ≤ ln2.toRat := by norm_num [ln2, toRat]

theorem ln2_le_one : ln2.toRat ≤ 1 := by norm_num [ln2, toRat]

/-- What is left of one after a loss that is not negative is rounded only below zero. -/
theorem max_zero_one_sub {lost kept : Decimal} (hlost : lost.Valid) (hlost0 : 0 ≤ lost.toRat)
    (h : Decimal.one.sub? lost = some kept) : max 0 kept.toRat = max 0 (1 - lost.toRat) := by
  have hrounds := rounds_sub? valid_one hlost h
  rw [toRat_one] at hrounds
  rcases hrounds.near with hexact | ⟨hlarge, hsmall⟩
  · rw [sub_eq_zero.1 (abs_nonpos_iff.1 hexact)]
  · have hneg : 1 - lost.toRat ≤ -7 := by
      rcases abs_cases (1 - lost.toRat) with ⟨he, -⟩ | ⟨he, -⟩ <;> linarith
    rw [abs_of_nonpos (show 1 - lost.toRat ≤ 0 by linarith), eps] at hsmall
    have hnear := (abs_le.1 hsmall).2
    rw [max_eq_left (by linarith), max_eq_left (by linarith)]

/-- A decay is what the lost part leaves of one, and nothing if more than one is lost. -/
theorem exists_lost_of_decay? {gap halfLife : Nat} {keep : Decimal} (hpos : halfLife ≠ 0)
    (h : decay? gap halfLife = some keep) :
    ∃ product lost, ln2.mul? (.ofInt gap) = some product ∧
      product.div? (.ofInt halfLife) = some lost ∧ 0 ≤ product.toRat ∧ 0 ≤ lost.toRat ∧
      keep.Valid ∧ keep.toRat = max 0 (1 - lost.toRat) := by
  rw [decay?, if_neg hpos] at h
  obtain ⟨product, hproduct, h⟩ := Option.bind_eq_some_iff.1 h
  obtain ⟨lost, hlost, h⟩ := Option.bind_eq_some_iff.1 h
  obtain ⟨kept, hkept, h⟩ := Option.bind_eq_some_iff.1 h
  cases h
  obtain ⟨-, hrounds⟩ := rounds_div? hlost
  have hproduct0 : 0 ≤ product.toRat := by
    refine (rounds_mul? hproduct).nonneg ?_
    rw [toRat_ofInt]
    exact mul_nonneg ln2_nonneg (by positivity)
  have hlost0 : 0 ≤ lost.toRat := by
    refine hrounds.nonneg (div_nonneg hproduct0 ?_)
    rw [toRat_ofInt]
    positivity
  refine ⟨product, lost, hproduct, hlost, hproduct0, hlost0, ?_, ?_⟩
  · exact valid_max0 (rounds_sub? valid_one hrounds.valid hkept).valid
  · rw [toRat_max0]
    exact max_zero_one_sub hrounds.valid hlost0 hkept

theorem decay?_bounds {gap halfLife : Nat} {keep : Decimal}
    (h : decay? gap halfLife = some keep) : keep.Valid ∧ 0 ≤ keep.toRat ∧ keep.toRat ≤ 1 := by
  by_cases hpos : halfLife = 0
  · rw [decay?, if_pos hpos] at h
    cases h
    exact ⟨valid_zero, by rw [toRat_zero], by rw [toRat_zero]; norm_num⟩
  · obtain ⟨_, lost, -, -, -, hlost0, hvalid, hkeep⟩ := exists_lost_of_decay? hpos h
    rw [hkeep]
    exact ⟨hvalid, le_max_left .., max_le (by norm_num) (by linarith)⟩

/-- A gap of 64 bits has a decay. -/
theorem isSome_decay? {gap : Nat} (hgap : gap ≤ 2 ^ 64) (halfLife : Nat) :
    (decay? gap halfLife).isSome = true := by
  unfold decay?
  split
  · rfl
  · next hhalf =>
    have hlimit : (limit : ℚ) = 79228162514264337593543950336 := by norm_num [limit]
    have hgap : (gap : ℚ) ≤ 2 ^ 64 := by exact_mod_cast hgap
    have hhalf : (1 : ℚ) ≤ halfLife := by exact_mod_cast Nat.one_le_iff_ne_zero.2 hhalf
    have hexact : |ln2.toRat * (ofInt gap).toRat| ≤ 2 ^ 64 := by
      rw [toRat_ofInt, Int.cast_natCast, abs_of_nonneg (mul_nonneg ln2_nonneg (by positivity))]
      exact le_trans (mul_le_of_le_one_left (by positivity) ln2_le_one) hgap
    obtain ⟨product, hproduct⟩ := Option.isSome_iff_exists.1
      (isSome_mul? (le_trans hexact (by rw [hlimit]; norm_num)))
    have hquot : |product.toRat / (ofInt halfLife).toRat| ≤ 2 ^ 66 := by
      have hle := (rounds_mul? hproduct).abs_le_mul (slackAt_nonneg _) hexact
      have hslack := slackAt_le (ln2.scale + (ofInt gap).scale)
      rw [toRat_ofInt, Int.cast_natCast, abs_div,
        abs_of_nonneg (show (0 : ℚ) ≤ halfLife by positivity)]
      refine le_trans (div_le_self (abs_nonneg _) hhalf) ?_
      unfold eps at hle hslack
      linarith
    obtain ⟨lost, hlost⟩ := Option.isSome_iff_exists.1 (isSome_div?
      (by rw [toRat_ofInt, Int.cast_natCast]; positivity)
      (le_trans hquot (by rw [hlimit]; norm_num)))
    have hdiff : |Decimal.one.toRat - lost.toRat| ≤ 2 ^ 68 := by
      have hle := (rounds_div? hlost).2.abs_le_mul (by norm_num [eps]) hquot
      unfold eps at hle
      rw [toRat_one]
      refine le_trans (abs_sub (1 : ℚ) lost.toRat) ?_
      rw [abs_one]
      linarith
    obtain ⟨kept, hkept⟩ := Option.isSome_iff_exists.1
      (isSome_sub? (le_trans hdiff (by rw [hlimit]; norm_num)))
    simp [hproduct, hlost, hkept]

/-! ## Windows -/

/-- A value with its confidence, `gap` submissions after the one before. -/
structure Observation where
  value : Int
  conf : Nat
  gap : Nat
  policy : DecayPolicy := {}
  deriving DecidableEq, Repr

namespace Observation

/-- The weight of the observation. -/
def weight (o : Observation) : Decimal := PriceFeed.weight o.conf

/-- What the weights before the observation keep. -/
def decay? (o : Observation) : Option Decimal := PriceFeed.decay? o.gap o.policy.halfLife

/-- What the weights before the observation keep, as a number. -/
def keep (o : Observation) : ℚ := (o.decay?.getD .zero).toRat

theorem abs_le_of_mem {v : Int} (h : v ∈ IntRange.signed64 ∨ v ∈ IntRange.unsigned64) :
    |(v : ℚ)| ≤ 2 ^ 64 := by
  have hbounds : -2 ^ 64 ≤ v ∧ v ≤ 2 ^ 64 := by
    rcases h with h | h
    · rw [IntRange.mem_signed64] at h
      omega
    · rw [IntRange.mem_unsigned64] at h
      omega
  exact abs_le.2 ⟨by exact_mod_cast hbounds.1, by exact_mod_cast hbounds.2⟩

theorem keep_eq {o : Observation} {keep : Decimal} (h : o.decay? = some keep) :
    o.keep = keep.toRat := by
  rw [Observation.keep, h]
  rfl

theorem keep_nonneg (o : Observation) : 0 ≤ o.keep := by
  unfold keep
  cases h : o.decay? with
  | none => simp
  | some keep => exact (decay?_bounds h).2.1

theorem abs_product_le {o : Observation} {m : ℚ} (h : |(o.value : ℚ)| ≤ m)
    (hpos : 0 < o.weight.toRat) : |o.value * o.weight.toRat| ≤ m * o.weight.toRat := by
  rw [abs_mul, abs_of_pos hpos]
  exact mul_le_mul_of_nonneg_right h hpos.le

theorem rounds_part {o : Observation} {part : Decimal}
    (h : (ofInt o.value).mul? o.weight = some part) :
    Rounds 0 (o.value * o.weight.toRat) part := by
  have hslack : slackAt ((ofInt o.value).scale + o.weight.scale) = 0 := by
    refine if_pos ?_
    rw [ofInt, Nat.zero_add]
    exact (valid_weight o.conf).2
  have hrounds := rounds_mul? h
  rwa [hslack, toRat_ofInt] at hrounds

/-- A value of 28 digits times its weight fits. -/
theorem exists_part {o : Observation} (h : |(o.value : ℚ)| ≤ 10 ^ 28) :
    ∃ part, (ofInt o.value).mul? o.weight = some part := by
  have hproduct : |(ofInt o.value).toRat * o.weight.toRat| ≤ 10 ^ 28 * 2 := by
    rw [toRat_ofInt, abs_mul]
    exact mul_le_mul h (abs_weight_le o.conf) (abs_nonneg _) (by norm_num)
  exact Option.isSome_iff_exists.1 (isSome_mul? (le_trans hproduct (by norm_num [limit])))

end Observation

namespace Average

/-- A quotient that fits is the value. -/
theorem div?_eq_value {a : Average} (hdenom : a.denom.toRat ≠ 0)
    (hquot : |a.numer.toRat / a.denom.toRat| ≤ limit - 1) :
    a.numer.div? a.denom = some a.value := by
  obtain ⟨value, hvalue⟩ := Option.isSome_iff_exists.1 (isSome_div? hdenom hquot)
  have hzero : a.denom.isZero = false :=
    Bool.eq_false_iff.2 fun hz => hdenom (isZero_iff.1 hz)
  rw [Average.value, hzero, hvalue]
  rfl

theorem seed_eq {value weight part : Decimal} (h : value.mul? weight = some part) :
    seed value weight = ⟨part, weight, true⟩ := by
  unfold seed
  rw [h]

/-- The average with an observation folded in, unless the observation starts it afresh. -/
def folded? (a : Average) (o : Observation) : Option Average :=
  if a.seeded && o.gap ≤ o.policy.maxGap then
    o.decay?.bind (a.fold? (.ofInt o.value) o.weight)
  else none

def see (a : Average) (o : Observation) : Average :=
  a.observe o.policy (.ofInt o.value) o.conf o.gap

theorem see_eq (a : Average) (o : Observation) :
    a.see o = (a.folded? o).getD (seed (.ofInt o.value) o.weight) := rfl

def run (a : Average) (l : List Observation) : Average := l.foldl see a

/-- The observations that make up the average after some more, where `w` made it up before. -/
def windowFrom (a : Average) (w : List Observation) : List Observation → List Observation
  | [] => w
  | o :: rest => (a.see o).windowFrom (if (a.folded? o).isSome then w ++ [o] else [o]) rest

/-- The observations since a new average was last seeded. -/
def window (l : List Observation) : List Observation := windowFrom {} [] l

theorem run_concat (a : Average) (l : List Observation) (o : Observation) :
    a.run (l ++ [o]) = (a.run l).see o := List.foldl_concat ..

theorem windowFrom_concat (a : Average) (w l : List Observation) (o : Observation) :
    a.windowFrom w (l ++ [o]) =
      if ((a.run l).folded? o).isSome then a.windowFrom w l ++ [o] else [o] := by
  induction l generalizing a w with
  | nil => rfl
  | cons o' rest ih => exact ih ..

theorem getLast?_window (l : List Observation) (o : Observation) :
    (window (l ++ [o])).getLast? = some o := by
  rw [window, windowFrom_concat]
  split
  · exact List.getLast?_concat ..
  · rfl

theorem window_ne_nil {l : List Observation} (hl : l ≠ []) : window l ≠ [] := by
  obtain ⟨l, o, rfl⟩ := (List.eq_nil_or_concat l).resolve_left hl
  intro hnil
  have hlast := getLast?_window l o
  rw [← List.concat_eq_append, hnil] at hlast
  cases hlast

theorem folded?_of_new {a : Average} (h : a.seeded = false) (o : Observation) :
    a.folded? o = none := by
  rw [folded?, h]
  rfl

/-- What holds of every seeded average and its window, and is kept by every fold, holds of every
run from a seed on, whatever the average was before. -/
theorem run_holds_of_seed {P : Average → List Observation → Prop} {a : Average} {first : Observation}
    {l : List Observation} (hseed : ∀ o ∈ first :: l, P (seed (.ofInt o.value) o.weight) [o])
    (hfold : ∀ a w o a', o ∈ first :: l → P a w → a.folded? o = some a' → P a' (w ++ [o]))
    (hfirst : a.folded? first = none) (w : List Observation) :
    P (a.run (first :: l)) (a.windowFrom w (first :: l)) := by
  induction l using List.reverseRecOn with
  | nil =>
    have hstart : a.run [first] = seed (.ofInt first.value) first.weight :=
      (see_eq a first).trans (by rw [hfirst, Option.getD_none])
    rw [hstart, windowFrom, windowFrom, hfirst]
    exact hseed first List.mem_cons_self
  | append_singleton l o ih =>
    have hlast : o ∈ first :: (l ++ [o]) :=
      List.mem_cons_of_mem _ (List.mem_append_right _ List.mem_cons_self)
    have hmem {x} (hx : x ∈ first :: l) : x ∈ first :: (l ++ [o]) :=
      List.mem_append_left [o] hx
    rw [← List.cons_append, run_concat, windowFrom_concat, see_eq]
    cases hfolded : (a.run (first :: l)).folded? o with
    | none => exact hseed o hlast
    | some a' =>
      refine hfold _ _ _ _ hlast (ih ?_ ?_) hfolded
      · exact fun x hx => hseed x (hmem hx)
      · exact fun a w x a' hx => hfold a w x a' (hmem hx)

theorem run_holds {P : Average → List Observation → Prop} {l : List Observation}
    (hseed : ∀ o ∈ l, P (seed (.ofInt o.value) o.weight) [o])
    (hfold : ∀ a w o a', o ∈ l → P a w → a.folded? o = some a' → P a' (w ++ [o]))
    (hl : l ≠ []) : P (run {} l) (window l) := by
  obtain ⟨first, rest, rfl⟩ := List.exists_cons_of_ne_nil hl
  exact run_holds_of_seed hseed hfold (folded?_of_new rfl first) []

/-- A fold rounds twice in either sum, and once more where the value is weighed. -/
theorem folded?_spec {a a' : Average} {o : Observation} (h : a.folded? o = some a') :
    ∃ s s' numer part denom,
      Rounds (slackAt s) (a.numer.toRat * o.keep) numer ∧
      Rounds 0 (o.value * o.weight.toRat) part ∧
      Rounds 0 (numer.toRat + part.toRat) a'.numer ∧
      Rounds (slackAt s') (a.denom.toRat * o.keep) denom ∧
      Rounds 0 (denom.toRat + o.weight.toRat) a'.denom := by
  unfold folded? at h
  split at h
  · obtain ⟨keep, hkeep, h⟩ := Option.bind_eq_some_iff.1 h
    unfold fold? at h
    obtain ⟨numer, hnumer, h⟩ := Option.bind_eq_some_iff.1 h
    obtain ⟨part, hpart, h⟩ := Option.bind_eq_some_iff.1 h
    obtain ⟨numer', hnumer', h⟩ := Option.bind_eq_some_iff.1 h
    obtain ⟨denom, hdenom, h⟩ := Option.bind_eq_some_iff.1 h
    obtain ⟨denom', hdenom', h⟩ := Option.bind_eq_some_iff.1 h
    have hkept := Observation.keep_eq hkeep
    have hnumer := hkept ▸ rounds_mul? hnumer
    have hdenom := hkept ▸ rounds_mul? hdenom
    have hpart := Observation.rounds_part hpart
    split at h
    · cases h
    · cases h
      exact ⟨_, _, numer, part, denom, hnumer, hpart, rounds_add? hnumer.valid hpart.valid hnumer',
        hdenom, rounds_add? hdenom.valid (valid_weight o.conf) hdenom'⟩
  · cases h

end Average

end PriceFeed
