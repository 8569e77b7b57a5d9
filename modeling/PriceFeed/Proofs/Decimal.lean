import Mathlib.Algebra.Order.Field.Basic
import Mathlib.Data.Int.Order.Units
import Mathlib.Tactic.FieldSimp
import Mathlib.Tactic.GCongr
import Mathlib.Tactic.Linarith
import Mathlib.Tactic.Positivity
import Mathlib.Tactic.Ring
import PriceFeed.Decimal

/-!
# The values of decimals

Every operation of the decimals rounds its exact result once (`Rounds`). An operand with few places
leaves a result with few places, which is exact unless it has too many digits; then the value is
large and the error small against it. A quotient, or a product with many places, is off by half a
unit of the last place besides.

    a.mul? b = some d → d.Rounds (slackAt (a.scale + b.scale)) (a.toRat * b.toRat)  (rounds_mul?)
    a.add? b = some d → d.Rounds 0 (a.toRat + b.toRat)                              (rounds_add?)
    a.div? b = some d → d.Rounds (eps / 2) (a.toRat / b.toRat)                      (rounds_div?)
    an exact result below `limit - 1` in magnitude fits    (isSome_mul?, isSome_add?, isSome_div?)
-/

namespace PriceFeed

namespace Decimal

/-- One unit of the last of 28 places. -/
def eps : ℚ := 1 / 10 ^ 28

def toRat (d : Decimal) : ℚ := d.coefficient / 10 ^ d.scale

@[simp] theorem toRat_zero : zero.toRat = 0 := by simp [toRat, zero]

@[simp] theorem toRat_one : one.toRat = 1 := by simp [toRat, one]

@[simp] theorem toRat_ofInt (n : Int) : (ofInt n).toRat = n := by simp [toRat, ofInt]

@[simp] theorem toRat_neg (d : Decimal) : (-d).toRat = -d.toRat := by
  show ((-d.coefficient : Int) : ℚ) / 10 ^ d.scale = -(d.coefficient / 10 ^ d.scale)
  rw [Int.cast_neg, neg_div]

theorem toRat_nonneg {d : Decimal} (h : 0 ≤ d.coefficient) : 0 ≤ d.toRat := by
  have : (0 : ℚ) ≤ d.coefficient := by exact_mod_cast h
  exact div_nonneg this (by positivity)

theorem isZero_iff {d : Decimal} : d.isZero = true ↔ d.toRat = 0 := by
  have hpow : (10 : ℚ) ^ d.scale ≠ 0 := by positivity
  simp [isZero, toRat, hpow]

/-! ## Nearest decimals -/

theorem abs_roundHalfEven_sub_le {d : Nat} (hd : 0 < d) (n : Nat) :
    |(roundHalfEven n d : ℚ) - n / d| ≤ 1 / 2 := by
  have hpos : (0 : ℚ) < d := by exact_mod_cast hd
  have hupper : (2 * (roundHalfEven n d * d) : ℚ) ≤ 2 * n + d := by
    exact_mod_cast two_mul_roundHalfEven_mul_le n d
  have hlower : (2 * n : ℚ) ≤ 2 * (roundHalfEven n d * d) + d := by
    exact_mod_cast two_mul_le_two_mul_roundHalfEven_mul hd n
  rw [abs_le]
  constructor
  · rw [neg_le_sub_iff_le_add, div_le_iff₀ hpos]
    linarith
  · rw [sub_le_iff_le_add', ← sub_le_iff_le_add, le_div_iff₀ hpos]
    linarith

theorem greatestScale_eq_some {p : Nat → Bool} {n t : Nat} (h : greatestScale p n = some t) :
    t ≤ n ∧ p t = true ∧ (t < n → p (t + 1) = false) := by
  induction n with
  | zero =>
    simp only [greatestScale, Option.ite_none_right_eq_some, Option.some.injEq] at h
    obtain ⟨hp, rfl⟩ := h
    exact ⟨Nat.le_refl 0, hp, nofun⟩
  | succ n ih =>
    simp only [greatestScale] at h
    split at h
    · next hp =>
      cases h
      exact ⟨Nat.le_refl _, hp, fun hlt => absurd hlt (Nat.lt_irrefl _)⟩
    · next hp =>
      obtain ⟨hle, ht, hnext⟩ := ih h
      refine ⟨Nat.le_succ_of_le hle, ht, fun _ => ?_⟩
      rcases Nat.lt_or_ge t n with hlt | hge
      · exact hnext hlt
      · rw [Nat.le_antisymm hle hge]
        exact Bool.eq_false_iff.2 hp

theorem isSome_greatestScale {p : Nat → Bool} (h : p 0 = true) (n : Nat) :
    (greatestScale p n).isSome = true := by
  induction n with
  | zero => rw [greatestScale, if_pos h]; rfl
  | succ n ih =>
    rw [greatestScale]
    split
    · rfl
    · exact ih

/-- The decimal is the value up to `slack`, or the value is large and the error small against it. -/
structure Rounds (slack x : ℚ) (d : Decimal) : Prop where
  valid : d.Valid
  near : |d.toRat - x| ≤ slack ∨ 7 ≤ |x| ∧ |d.toRat - x| ≤ eps * |x|
  nonneg : 0 ≤ x → 0 ≤ d.toRat

/-- A magnitude with as many places as fit is off by `slack` at most if all places fit, and is large
otherwise. -/
theorem near_of_greatestScale {m : Nat → Nat} {y slack : ℚ} {n t : Nat} (hn : n ≤ maxScale)
    (hm : ∀ t ≤ n, |m t - y * 10 ^ t| ≤ 1 / 2) (hlast : |m n - y * 10 ^ n| ≤ slack * 10 ^ n)
    (h : greatestScale (fun t => m t < limit) n = some t) :
    |m t / 10 ^ t - y| ≤ slack ∨ 7 ≤ y ∧ |m t / 10 ^ t - y| ≤ eps * y := by
  have hscaled (t : Nat) : |m t / 10 ^ t - y| = |m t - y * 10 ^ t| / 10 ^ t := by
    have hpow : (0 : ℚ) < 10 ^ t := by positivity
    rw [← abs_of_pos hpow, ← abs_div, abs_of_pos hpow, sub_div, mul_div_cancel_right₀ _ hpow.ne']
  obtain ⟨hle, -, hnext⟩ := greatestScale_eq_some h
  rcases Nat.lt_or_ge t n with hlt | hge
  · -- one place more does not fit, so the magnitude has 28 digits at least
    right
    have hlarge : (limit : ℚ) ≤ m (t + 1) := by
      exact_mod_cast Nat.le_of_not_lt (of_decide_eq_false (hnext hlt))
    have hy : (limit : ℚ) - 1 / 2 ≤ y * 10 ^ (t + 1) := by
      have := (abs_le.1 (hm (t + 1) hlt)).2
      linarith
    have hpow : (10 : ℚ) ^ (t + 1) ≤ 10 ^ 28 := by
      gcongr
      · norm_num
      · exact Nat.le_trans hlt hn
    have hpos : (0 : ℚ) < 10 ^ (t + 1) := by positivity
    have hlimit : (limit : ℚ) = 79228162514264337593543950336 := by norm_num [limit]
    constructor
    · refine le_of_mul_le_mul_right ?_ hpos
      linarith
    · rw [hscaled, div_le_iff₀ (by positivity), eps]
      have := hm t hle
      rw [pow_succ] at hy
      linarith
  · left
    obtain rfl : t = n := Nat.le_antisymm hle hge
    rw [hscaled, div_le_iff₀ (by positivity)]
    exact hlast

/-- A magnitude and a sign that fit make a decimal, which rounds their product. -/
theorem rounds_of_greatestScale {m : Nat → Nat} {y slack : ℚ} {n t : Nat} {σ : Int}
    (hσ : σ.natAbs = 1 ∨ y = 0) (hle : σ.natAbs ≤ 1) (hy : 0 ≤ y) (hn : n ≤ maxScale)
    (hm : ∀ t ≤ n, |m t - y * 10 ^ t| ≤ 1 / 2) (hlast : |m n - y * 10 ^ n| ≤ slack * 10 ^ n)
    (h : greatestScale (fun t => m t < limit) n = some t) :
    Rounds slack (σ * y) ⟨σ * m t, t⟩ := by
  obtain ⟨ht, hfits, -⟩ := greatestScale_eq_some h
  have hvalue : toRat ⟨σ * m t, t⟩ = σ * (m t / 10 ^ t) := by
    simp only [toRat, Int.cast_mul, Int.cast_natCast, mul_div_assoc]
  have hzero : y = 0 → (m t : ℚ) / 10 ^ t = 0 := by
    rintro rfl
    have hhalf := hm t ht
    rw [zero_mul, sub_zero, Nat.abs_cast] at hhalf
    have hlt : (m t : ℚ) < 1 := lt_of_le_of_lt hhalf (by norm_num)
    have hnone : m t = 0 := Nat.lt_one_iff.1 (by exact_mod_cast hlt)
    rw [hnone, Nat.cast_zero, zero_div]
  refine ⟨⟨?_, Nat.le_trans ht hn⟩, ?_, fun hx => ?_⟩
  · rw [Int.natAbs_mul, Int.natAbs_natCast]
    calc σ.natAbs * m t
      _ ≤ 1 * m t := Nat.mul_le_mul_right _ hle
      _ = m t := Nat.one_mul _
      _ < limit := of_decide_eq_true hfits
  · have hcast : |(σ : ℚ)| = σ.natAbs := by rw [Nat.cast_natAbs, Int.cast_abs]
    have hsign : |(σ : ℚ)| ≤ 1 := by rw [hcast]; exact_mod_cast hle
    rw [hvalue, ← mul_sub, abs_mul, abs_mul, abs_of_nonneg hy]
    rcases near_of_greatestScale hn hm hlast h with hsmall | ⟨hlarge, hsmall⟩
    · exact .inl (le_trans (mul_le_of_le_one_left (abs_nonneg _) hsign) hsmall)
    · obtain hone | rfl := hσ
      · rw [hcast, hone, Nat.cast_one, one_mul, one_mul]
        exact .inr ⟨hlarge, hsmall⟩
      · linarith
  · rw [hvalue]
    rcases hy.eq_or_lt with hzero' | hpos
    · rw [hzero hzero'.symm, mul_zero]
    · exact mul_nonneg (nonneg_of_mul_nonneg_left hx hpos) (by positivity)

/-! ## Arithmetic -/

/-- Few places are kept as they are. -/
def slackAt (s : Nat) : ℚ := if s ≤ maxScale then 0 else eps / 2

theorem abs_magnitudeAt_sub_le (c : Int) {s t : Nat} (h : t ≤ s) :
    |magnitudeAt c s t - (c.natAbs : ℚ) / 10 ^ s * 10 ^ t| ≤ 1 / 2 := by
  have hquot : (c.natAbs : ℚ) / 10 ^ s * 10 ^ t = c.natAbs / (10 ^ (s - t) : Nat) := by
    rw [div_mul, div_eq_mul_inv (10 ^ s), ← pow_sub₀ (10 : ℚ) (by norm_num) h, Nat.cast_pow,
      Nat.cast_ofNat]
  rw [hquot]
  exact abs_roundHalfEven_sub_le (Nat.pow_pos (by decide)) c.natAbs

theorem sign_mul_natAbs_div (c : Int) (s : Nat) :
    (c.sign : ℚ) * (c.natAbs / 10 ^ s) = c / 10 ^ s := by
  have h : ((c.sign * c.natAbs : Int) : ℚ) = c := by rw [Int.sign_mul_natAbs]
  rw [Int.cast_mul, Int.cast_natCast] at h
  rw [← mul_div_assoc, h]

theorem rounds_fit? {c : Int} {s : Nat} {d : Decimal} (h : fit? c s = some d) :
    Rounds (slackAt s) (c / 10 ^ s) d := by
  obtain ⟨t, ht, rfl⟩ := Option.map_eq_some_iff.1 h
  rw [← sign_mul_natAbs_div]
  refine rounds_of_greatestScale ?_ ?_ (by positivity) (Nat.min_le_right s maxScale)
    (fun t ht => abs_magnitudeAt_sub_le c (Nat.le_trans ht (Nat.min_le_left ..))) ?_ ht
  · rcases eq_or_ne c 0 with rfl | hc
    · exact .inr (by simp)
    · exact .inl (Int.natAbs_sign_of_ne_zero hc)
  · rw [Int.natAbs_sign]
    split <;> decide
  · unfold slackAt
    split
    · next hs =>
      have hexact : magnitudeAt c s s = c.natAbs := by
        have hone := roundHalfEven_mul_self Nat.one_pos c.natAbs
        rw [Nat.mul_one] at hone
        rw [magnitudeAt, Nat.sub_self]
        exact hone
      rw [Nat.min_eq_left hs, hexact, div_mul_cancel₀ _ (by positivity), sub_self, abs_zero,
        zero_mul]
    · next hs =>
      have hmin : min s maxScale = 28 := Nat.min_eq_right (Nat.le_of_not_le hs)
      refine le_trans (abs_magnitudeAt_sub_le c (Nat.min_le_left ..)) ?_
      rw [hmin, eps]
      norm_num

theorem isSome_fit? {c : Int} {s : Nat} (h : |(c : ℚ) / 10 ^ s| ≤ limit - 1) :
    (fit? c s).isSome = true := by
  unfold fit?
  rw [Option.isSome_map]
  refine isSome_greatestScale (decide_eq_true ?_) _
  have hnear := (abs_le.1 (abs_magnitudeAt_sub_le c (Nat.zero_le s))).2
  rw [abs_div, abs_of_pos (show (0 : ℚ) < 10 ^ s by positivity), ← Int.cast_abs,
    ← Nat.cast_natAbs] at h
  rw [pow_zero, mul_one] at hnear
  have hlt : (magnitudeAt c s 0 : ℚ) < limit := by linarith
  exact_mod_cast hlt

namespace Rounds

variable {slack x : ℚ} {d : Decimal}

/-- A decimal rounds its own value. -/
theorem self (hd : d.Valid) (hslack : 0 ≤ slack) : Rounds slack d.toRat d :=
  ⟨hd, .inl (by rwa [sub_self, abs_zero]), id⟩

theorem of_eq (h : Rounds slack x d) {y : ℚ} (hxy : x = y) : Rounds slack y d := hxy ▸ h

/-- The error, whatever the magnitude. -/
theorem abs_sub_le (h : Rounds slack x d) (hslack : 0 ≤ slack) :
    |d.toRat - x| ≤ eps * |x| + slack := by
  have heps : 0 ≤ eps * |x| := mul_nonneg (by norm_num [eps]) (abs_nonneg x)
  rcases h.near with hsmall | ⟨-, hsmall⟩ <;> linarith

/-- The magnitude, with the errors that are small against it. -/
theorem abs_le_mul (h : Rounds slack x d) (hslack : 0 ≤ slack) {y : ℚ} (hx : |x| ≤ y) :
    |d.toRat| ≤ (1 + eps) * y + slack := by
  have hnear := h.abs_sub_le hslack
  have htriangle := abs_sub_abs_le_abs_sub d.toRat x
  have heps : eps * |x| ≤ eps * y := mul_le_mul_of_nonneg_left hx (by norm_num [eps])
  linarith

/-- Without slack, a small lower bound of the value is one of the decimal. -/
theorem le_of_le (h : Rounds 0 x d) {b : ℚ} (hx : 0 ≤ x) (hle : b ≤ x) (hb : b ≤ 6) :
    b ≤ d.toRat := by
  rcases h.near with hexact | ⟨hlarge, hnear⟩
  · rwa [sub_eq_zero.1 (abs_nonpos_iff.1 hexact)]
  · rw [abs_of_nonneg hx] at hlarge hnear
    have hlow := neg_le_of_abs_le hnear
    unfold eps at hlow
    linarith

end Rounds

theorem slackAt_nonneg (s : Nat) : 0 ≤ slackAt s := by
  unfold slackAt eps
  split <;> norm_num

theorem slackAt_le (s : Nat) : slackAt s ≤ eps / 2 := by
  unfold slackAt eps
  split <;> norm_num

theorem valid_zero : zero.Valid := ⟨by decide, by decide⟩

theorem valid_one : one.Valid := ⟨by decide, by decide⟩

theorem valid_neg {d : Decimal} (hd : d.Valid) : (-d).Valid :=
  ⟨(Int.natAbs_neg d.coefficient).symm ▸ hd.1, hd.2⟩

theorem toRat_mul_toRat (a b : Decimal) :
    a.toRat * b.toRat = ((a.coefficient * b.coefficient : Int) : ℚ) / 10 ^ (a.scale + b.scale) := by
  rw [toRat, toRat, div_mul_div_comm, ← pow_add, Int.cast_mul]

theorem rounds_mul? {a b d : Decimal} (h : a.mul? b = some d) :
    Rounds (slackAt (a.scale + b.scale)) (a.toRat * b.toRat) d := by
  unfold mul? at h
  split at h
  · next hzero =>
    cases h
    have hprod : a.toRat * b.toRat = 0 := by
      rcases Bool.or_eq_true_iff.1 hzero with ha | hb
      · rw [isZero_iff.1 ha, zero_mul]
      · rw [isZero_iff.1 hb, mul_zero]
    rw [hprod, ← toRat_zero]
    exact .self valid_zero (slackAt_nonneg _)
  · exact (rounds_fit? h).of_eq (toRat_mul_toRat a b).symm

theorem isSome_mul? {a b : Decimal} (h : |a.toRat * b.toRat| ≤ limit - 1) :
    (a.mul? b).isSome = true := by
  unfold mul?
  split
  · rfl
  · exact isSome_fit? (toRat_mul_toRat a b ▸ h)

theorem coefficientAt_div {d : Decimal} {s : Nat} (h : d.scale ≤ s) :
    (d.coefficientAt s : ℚ) / 10 ^ s = d.toRat := by
  have hpow : (10 : ℚ) ^ s = 10 ^ d.scale * 10 ^ (s - d.scale) := by
    rw [← pow_add, Nat.add_sub_cancel' h]
  have hcast : (d.coefficientAt s : ℚ) = d.coefficient * 10 ^ (s - d.scale) := by
    simp [coefficientAt]
  rw [hcast, hpow, mul_div_mul_right _ _ (by positivity), toRat]

theorem toRat_add_toRat (a b : Decimal) :
    a.toRat + b.toRat =
      ((a.coefficientAt (max a.scale b.scale) + b.coefficientAt (max a.scale b.scale) : Int) : ℚ) /
        10 ^ max a.scale b.scale := by
  rw [Int.cast_add, add_div, coefficientAt_div (Nat.le_max_left ..),
    coefficientAt_div (Nat.le_max_right ..)]

theorem rounds_add? {a b d : Decimal} (ha : a.Valid) (hb : b.Valid) (h : a.add? b = some d) :
    Rounds 0 (a.toRat + b.toRat) d := by
  unfold add? at h
  split at h
  · next hzero =>
    cases h
    rw [isZero_iff.1 hzero, zero_add]
    exact .self hb (le_refl 0)
  · split at h
    · next hzero =>
      cases h
      rw [isZero_iff.1 hzero, add_zero]
      exact .self ha (le_refl 0)
    · have hslack : slackAt (max a.scale b.scale) = 0 := if_pos (Nat.max_le.2 ⟨ha.2, hb.2⟩)
      exact hslack ▸ (rounds_fit? h).of_eq (toRat_add_toRat a b).symm

theorem isSome_add? {a b : Decimal} (h : |a.toRat + b.toRat| ≤ limit - 1) :
    (a.add? b).isSome = true := by
  unfold add?
  split
  · rfl
  · split
    · rfl
    · exact isSome_fit? (toRat_add_toRat a b ▸ h)

theorem rounds_sub? {a b d : Decimal} (ha : a.Valid) (hb : b.Valid) (h : a.sub? b = some d) :
    Rounds 0 (a.toRat - b.toRat) d :=
  (rounds_add? ha (valid_neg hb) h).of_eq (by rw [toRat_neg, sub_eq_add_neg])

theorem isSome_sub? {a b : Decimal} (h : |a.toRat - b.toRat| ≤ limit - 1) :
    (a.sub? b).isSome = true :=
  isSome_add? (by rwa [toRat_neg, ← sub_eq_add_neg])

theorem toRat_trim (c : Int) (s : Nat) : (trim c s).toRat = c / 10 ^ s := by
  induction s generalizing c with
  | zero => rfl
  | succ s ih =>
    unfold trim
    split
    · next hzero =>
      have hc : (c : ℚ) = (c.tdiv 10 : Int) * 10 := by
        exact_mod_cast (Int.tdiv_mul_cancel (Int.dvd_of_tmod_eq_zero hzero)).symm
      rw [ih, hc, pow_succ, mul_div_mul_right _ _ (by norm_num)]
    · rfl

theorem valid_trim {c : Int} {s : Nat} (hc : c.natAbs < limit) (hs : s ≤ maxScale) :
    (trim c s).Valid := by
  induction s generalizing c with
  | zero => exact ⟨hc, hs⟩
  | succ s ih =>
    unfold trim
    split
    · exact ih (Nat.lt_of_le_of_lt (Int.natAbs_tdiv_le_natAbs c 10) hc) (Nat.le_of_succ_le hs)
    · exact ⟨hc, hs⟩

theorem Rounds.normalize {slack x : ℚ} {d : Decimal} (h : Rounds slack x d) :
    Rounds slack x d.normalize := by
  have hsame : d.normalize.toRat = d.toRat := toRat_trim d.coefficient d.scale
  exact ⟨valid_trim h.valid.1 h.valid.2, hsame ▸ h.near, hsame ▸ h.nonneg⟩

theorem coefficient_ne_zero {d : Decimal} (h : d.toRat ≠ 0) : d.coefficient ≠ 0 := by
  intro hzero
  exact h (by rw [toRat, hzero, Int.cast_zero, zero_div])

theorem abs_toRat (d : Decimal) : |d.toRat| = d.coefficient.natAbs / 10 ^ d.scale := by
  rw [toRat, abs_div, Nat.cast_natAbs, Int.cast_abs,
    abs_of_pos (show (0 : ℚ) < 10 ^ d.scale by positivity)]

theorem abs_toRat_lt {d : Decimal} (hd : d.Valid) : |d.toRat| < limit := by
  rw [abs_toRat]
  refine lt_of_le_of_lt (div_le_self (by positivity) (one_le_pow₀ (by norm_num))) ?_
  exact_mod_cast hd.1

theorem abs_div_mul_pow (a b : Decimal) (t : Nat) :
    |a.toRat / b.toRat| * 10 ^ t = ((a.coefficient.natAbs * Nat.pow 10 (b.scale + t) : Nat) : ℚ) /
      (b.coefficient.natAbs * Nat.pow 10 a.scale : Nat) := by
  have hpow (n : Nat) : ((Nat.pow 10 n : Nat) : ℚ) = 10 ^ n := by
    exact_mod_cast rfl
  rw [abs_div, abs_toRat, abs_toRat, div_div_div_eq, Nat.cast_mul, Nat.cast_mul, hpow, hpow,
    pow_add]
  ring

theorem abs_quotientAt_sub_le {b : Decimal} (hb : b.toRat ≠ 0) (a : Decimal) (t : Nat) :
    |quotientAt a b t - |a.toRat / b.toRat| * 10 ^ t| ≤ 1 / 2 := by
  have hpos : 0 < b.coefficient.natAbs := Int.natAbs_pos.2 (coefficient_ne_zero hb)
  rw [abs_div_mul_pow]
  exact abs_roundHalfEven_sub_le (Nat.mul_pos hpos (Nat.pow_pos (by decide))) _

theorem sign_mul_abs_toRat (d : Decimal) : (d.coefficient.sign : ℚ) * |d.toRat| = d.toRat := by
  rw [abs_toRat, sign_mul_natAbs_div]
  rfl

theorem sign_mul_sign_mul_abs {b : Decimal} (hb : b.toRat ≠ 0) (a : Decimal) :
    ((a.coefficient.sign * b.coefficient.sign : Int) : ℚ) * |a.toRat / b.toRat| =
      a.toRat / b.toRat := by
  have hself : (b.coefficient.sign : ℚ) * b.coefficient.sign = 1 := by
    rcases Int.lt_or_gt_of_ne (coefficient_ne_zero hb) with hneg | hpos
    · rw [Int.sign_eq_neg_one_of_neg hneg]
      norm_num
    · rw [Int.sign_eq_one_of_pos hpos]
      norm_num
  rw [eq_div_iff hb]
  calc _ = a.coefficient.sign * b.coefficient.sign * (|a.toRat| / |b.toRat|) *
        (b.coefficient.sign * |b.toRat|) := by
        rw [Int.cast_mul, abs_div, sign_mul_abs_toRat]
    _ = a.coefficient.sign * |a.toRat| * (b.coefficient.sign * b.coefficient.sign) := by
        field_simp
    _ = a.toRat := by rw [hself, mul_one, sign_mul_abs_toRat]

theorem rounds_div? {a b d : Decimal} (h : a.div? b = some d) :
    b.toRat ≠ 0 ∧ Rounds (eps / 2) (a.toRat / b.toRat) d := by
  unfold div? at h
  split at h
  · cases h
  · next hb =>
    have hb0 : b.toRat ≠ 0 := fun hzero => hb (isZero_iff.2 hzero)
    refine ⟨hb0, ?_⟩
    split at h
    · next ha =>
      cases h
      rw [isZero_iff.1 ha, zero_div, ← toRat_zero]
      exact .self valid_zero (by norm_num [eps])
    · next ha =>
      obtain ⟨t, ht, rfl⟩ := Option.map_eq_some_iff.1 h
      have ha0 : a.toRat ≠ 0 := fun hzero => ha (isZero_iff.2 hzero)
      have hsign : (a.coefficient.sign * b.coefficient.sign).natAbs = 1 := by
        rw [Int.natAbs_mul, Int.natAbs_sign_of_ne_zero (coefficient_ne_zero ha0),
          Int.natAbs_sign_of_ne_zero (coefficient_ne_zero hb0)]
      rw [← sign_mul_sign_mul_abs hb0]
      refine Rounds.normalize (rounds_of_greatestScale (.inl hsign) hsign.le (abs_nonneg _)
        (Nat.le_refl _) (fun t _ => abs_quotientAt_sub_le hb0 a t) ?_ ht)
      refine le_trans (abs_quotientAt_sub_le hb0 a maxScale) ?_
      norm_num [eps, maxScale]

theorem isSome_div? {a b : Decimal} (hb : b.toRat ≠ 0) (h : |a.toRat / b.toRat| ≤ limit - 1) :
    (a.div? b).isSome = true := by
  unfold div?
  rw [if_neg (fun hzero => hb (isZero_iff.1 hzero))]
  split
  · rfl
  · rw [Option.isSome_map]
    refine isSome_greatestScale (decide_eq_true ?_) _
    have hnear := (abs_le.1 (abs_quotientAt_sub_le hb a 0)).2
    rw [pow_zero, mul_one] at hnear
    have hlt : (quotientAt a b 0 : ℚ) < limit := by linarith
    exact_mod_cast hlt

theorem toRat_max0 (d : Decimal) : d.max0.toRat = max 0 d.toRat := by
  unfold max0
  split
  · next hneg =>
    have hneg : (d.coefficient : ℚ) ≤ 0 := by exact_mod_cast hneg.le
    have hvalue : d.toRat ≤ 0 := div_nonpos_of_nonpos_of_nonneg hneg (by positivity)
    rw [toRat_zero, max_eq_left hvalue]
  · next hnonneg => rw [max_eq_right (toRat_nonneg (Int.not_lt.1 hnonneg))]

theorem valid_max0 {d : Decimal} (hd : d.Valid) : d.max0.Valid := by
  unfold max0
  split
  · exact valid_zero
  · exact hd

/-! ## Rounding to integers -/

theorem abs_roundHalfUp_sub_le {d : Nat} (hd : 0 < d) (n : Nat) :
    |(roundHalfUp n d : ℚ) - n / d| ≤ 1 / 2 := by
  have hpos : (0 : ℚ) < d := by exact_mod_cast hd
  have hdiv := Nat.div_add_mod (2 * n + d) (2 * d)
  have hmod := Nat.mod_lt (2 * n + d) (show 0 < 2 * d by omega)
  have hlow : (2 * d * roundHalfUp n d : ℚ) ≤ 2 * n + d := by
    exact_mod_cast (show 2 * d * ((2 * n + d) / (2 * d)) ≤ 2 * n + d by omega)
  have hhigh : (2 * n + d : ℚ) ≤ 2 * d * roundHalfUp n d + 2 * d := by
    exact_mod_cast (show 2 * n + d ≤ 2 * d * ((2 * n + d) / (2 * d)) + 2 * d by omega)
  rw [abs_le]
  constructor
  · rw [neg_le_sub_iff_le_add, div_le_iff₀ hpos]
    linarith
  · rw [sub_le_iff_le_add', ← sub_le_iff_le_add, le_div_iff₀ hpos]
    linarith

theorem abs_round_sub_le (d : Decimal) : |(d.round : ℚ) - d.toRat| ≤ 1 / 2 := by
  have hsign : |(d.coefficient.sign : ℚ)| ≤ 1 := by
    rw [← Int.cast_abs, ← Nat.cast_natAbs, Int.natAbs_sign]
    split <;> norm_num
  have hround : (d.round : ℚ) =
      d.coefficient.sign * roundHalfUp d.coefficient.natAbs (Nat.pow 10 d.scale) := by
    rw [round, Int.cast_mul, Int.cast_natCast]
  have hpow : ((Nat.pow 10 d.scale : Nat) : ℚ) = 10 ^ d.scale := by exact_mod_cast rfl
  have hnear := abs_roundHalfUp_sub_le (Nat.pow_pos (n := d.scale) (show 0 < 10 by decide))
    d.coefficient.natAbs
  rw [hround, toRat, ← sign_mul_natAbs_div, ← mul_sub, abs_mul, ← hpow]
  exact le_trans (mul_le_of_le_one_left (abs_nonneg _) hsign) hnear

theorem le_roundHalfUp {t : Int} {n d : Nat} (hd : 0 < d) (h : (t : ℚ) ≤ n / d + 1 / 2) :
    t ≤ roundHalfUp n d := by
  have hpos : (0 : ℚ) < d := by exact_mod_cast hd
  have hscaled : (t : ℚ) * (2 * d) ≤ 2 * n + d := by
    have := mul_le_mul_of_nonneg_right h hpos.le
    rw [add_mul, div_mul_cancel₀ _ hpos.ne'] at this
    linarith
  unfold roundHalfUp
  rw [Int.natCast_ediv]
  exact Int.le_ediv_of_mul_le (by omega) (by exact_mod_cast hscaled)

/-- A decimal close to a value rounds to an integer close to its bounds. -/
theorem round_between {d : Decimal} {x : ℚ} {error unit : Nat} (hunit : 0 < unit)
    (hx : |d.toRat - x| ≤ error / unit) {lo hi : Int} (hlo : lo ≤ x) (hhi : x ≤ hi) :
    lo - roundHalfUp error unit ≤ d.round ∧ d.round ≤ hi + roundHalfUp error unit := by
  have hround := d.abs_round_sub_le
  rw [abs_le] at hx hround
  have hbelow : lo - d.round ≤ roundHalfUp error unit := by
    refine le_roundHalfUp hunit ?_
    push_cast
    linarith
  have habove : d.round - hi ≤ roundHalfUp error unit := by
    refine le_roundHalfUp hunit ?_
    push_cast
    linarith
  omega

theorem toPrice_of_round {d : Decimal} {v : Int} (h : d.round = v) (hv : v ∈ IntRange.signed64) :
    d.toPrice = v := by
  rw [toPrice, h, IntRange.clamp_eq_self hv]

theorem toConf_of_round {d : Decimal} {v : Int} (h : d.round = v) (hv : v ∈ IntRange.unsigned64) :
    (d.toConf : Int) = v := by
  rw [toConf, h, IntRange.clamp_eq_self hv, Int.toNat_of_nonneg hv.1]

end Decimal

end PriceFeed
