import PriceFeed.Proofs.Decimal

/-!
# Rounding keeps the order

A larger result is never rounded to a smaller decimal, not even where it has a digit more before
the point and so loses a place. At the last magnitude that fits and the first one that does not,
this hangs on the limit of the coefficients: its last digit is a six, so that what loses a place
just beyond it is rounded up.

    n / d ≤ n' / d' → roundHalfEven n d ≤ roundHalfEven n' d'      (roundHalfEven_le_roundHalfEven)
    a.mul? b = some d, a'.mul? b' = some d', a * b ≤ a' * b' → d ≤ d'            (mul?_le_mul?)
    a.div? b = some d, a'.div? b' = some d', a / b ≤ a' / b' → d ≤ d'            (div?_le_div?)
-/

namespace PriceFeed

/-! ## Nearest integers -/

theorem div_le_roundHalfEven (n d : Nat) : n / d ≤ roundHalfEven n d := by
  unfold roundHalfEven
  simp only
  split
  · exact Nat.le_refl _
  · split <;> omega

theorem roundHalfEven_le_div_add_one (n d : Nat) : roundHalfEven n d ≤ n / d + 1 := by
  unfold roundHalfEven
  simp only
  split
  · omega
  · split <;> omega

theorem roundHalfEven_mono {n n' : Nat} (h : n ≤ n') (d : Nat) :
    roundHalfEven n d ≤ roundHalfEven n' d := by
  rcases (Nat.div_le_div_right h : n / d ≤ n' / d).lt_or_eq with hlt | heq
  · calc roundHalfEven n d
      _ ≤ n / d + 1 := roundHalfEven_le_div_add_one n d
      _ ≤ n' / d := hlt
      _ ≤ roundHalfEven n' d := div_le_roundHalfEven n' d
  · have hmod : n % d ≤ n' % d := by
      have hn := Nat.div_add_mod n d
      have hn' := Nat.div_add_mod n' d
      rw [heq] at hn
      omega
    unfold roundHalfEven
    simp only [heq]
    split_ifs <;> omega

/-- Only the quotient counts. -/
theorem roundHalfEven_mul_mul_right {k : Nat} (hk : 0 < k) (n d : Nat) :
    roundHalfEven (n * k) (d * k) = roundHalfEven n d := by
  have hlt {x y : Nat} : 2 * (x * k) < y * k ↔ 2 * x < y := by
    rw [← Nat.mul_assoc, Nat.mul_lt_mul_right hk]
  have hgt {x y : Nat} : y * k < 2 * (x * k) ↔ y < 2 * x := by
    rw [← Nat.mul_assoc, Nat.mul_lt_mul_right hk]
  unfold roundHalfEven
  simp only [Nat.mul_div_mul_right n d hk, Nat.mul_mod_mul_right, hlt, hgt]

theorem roundHalfEven_le_roundHalfEven {n d n' d' : Nat} (hd : 0 < d) (hd' : 0 < d')
    (h : (n : ℚ) / d ≤ n' / d') : roundHalfEven n d ≤ roundHalfEven n' d' := by
  have hcross : n * d' ≤ n' * d := by
    rw [div_le_div_iff₀ (by exact_mod_cast hd) (by exact_mod_cast hd')] at h
    exact_mod_cast h
  calc roundHalfEven n d
    _ = roundHalfEven (n * d') (d * d') := (roundHalfEven_mul_mul_right hd' n d).symm
    _ ≤ roundHalfEven (n' * d) (d * d') := roundHalfEven_mono hcross _
    _ = roundHalfEven (n' * d) (d' * d) := by rw [Nat.mul_comm d d']
    _ = roundHalfEven n' d' := roundHalfEven_mul_mul_right hd n' d'

namespace Decimal

/-! ## Nearest decimals -/

theorem le_of_greatestScale {p : Nat → Bool} {n t k : Nat} (h : greatestScale p n = some t)
    (hk : k ≤ n) (hp : p k = true) : k ≤ t := by
  induction n with
  | zero => exact Nat.le_trans hk (Nat.zero_le t)
  | succ n ih =>
    simp only [greatestScale] at h
    split at h
    · cases h
      exact hk
    · next hnot =>
      have hne : k ≠ n + 1 := by
        rintro rfl
        exact hnot hp
      exact ih h (by omega)

/-- Magnitudes that grow at each scale grow when each has as many places as fit. -/
theorem div_pow_le_of_greatestScale {m m' : Nat → Nat} {y : ℚ} {n t t' : Nat}
    (hle : ∀ t ≤ n, m t ≤ m' t) (hm' : ∀ t ≤ n, |m' t - y * 10 ^ t| ≤ 1 / 2)
    (h : greatestScale (fun t => m t < limit) n = some t)
    (h' : greatestScale (fun t => m' t < limit) n = some t') :
    (m t : ℚ) / 10 ^ t ≤ m' t' / 10 ^ t' := by
  obtain ⟨htn, hfits, -⟩ := greatestScale_eq_some h
  obtain ⟨htn', hfits', hnext'⟩ := greatestScale_eq_some h'
  have hfits : m t < limit := of_decide_eq_true hfits
  have hfits' : m' t' < limit := of_decide_eq_true hfits'
  have htt : t' ≤ t :=
    le_of_greatestScale h htn' (decide_eq_true (Nat.lt_of_le_of_lt (hle t' htn') hfits'))
  rcases htt.eq_or_lt with rfl | hlt
  · have : (m t' : ℚ) ≤ m' t' := by exact_mod_cast hle t' htn'
    gcongr
  · -- with a place more the larger magnitude is past the limit, and one place less rounds it up
    have hnext : limit ≤ m' (t' + 1) :=
      Nat.le_of_not_lt (of_decide_eq_false (hnext' (by omega)))
    have hlimit : limit = 79228162514264337593543950336 := rfl
    have htimes : limit ≤ 10 * m' t' := by
      have hwide : (limit : ℚ) ≤ m' (t' + 1) := by exact_mod_cast hnext
      have habove := (abs_le.1 (hm' (t' + 1) (by omega))).2
      have hbelow := (abs_le.1 (hm' t' htn')).1
      rw [pow_succ, ← mul_assoc] at habove
      have hten : (limit : ℚ) - 11 / 2 ≤ 10 * m' t' := by linarith
      have hten : 2 * limit ≤ 20 * m' t' + 11 := by
        have : (2 * limit : ℚ) ≤ 20 * m' t' + 11 := by linarith
        exact_mod_cast this
      omega
    have hscale : (10 : ℚ) ^ (t' + 1) ≤ 10 ^ t := pow_le_pow_right₀ (by norm_num) hlt
    calc (m t : ℚ) / 10 ^ t
      _ ≤ limit / 10 ^ t := by gcongr
      _ ≤ limit / 10 ^ (t' + 1) := by gcongr
      _ ≤ (10 * m' t' : Nat) / 10 ^ (t' + 1) := by gcongr
      _ = m' t' / 10 ^ t' := by
        rw [pow_succ, Nat.cast_mul, Nat.cast_ofNat, mul_comm (10 : ℚ), mul_div_mul_right]
        norm_num

/-! ## Arithmetic -/

theorem exists_scale_of_fit? {c : Int} {s : Nat} {d : Decimal} (hc : 0 < c)
    (h : fit? c s = some d) :
    ∃ t, greatestScale (fun t => magnitudeAt c s t < limit) (min s maxScale) = some t ∧
      d.toRat = magnitudeAt c s t / 10 ^ t := by
  obtain ⟨t, ht, rfl⟩ := Option.map_eq_some_iff.1 h
  refine ⟨t, ht, ?_⟩
  rw [toRat, Int.sign_eq_one_of_pos hc, one_mul, Int.cast_natCast]

theorem fit?_le_fit? {c c' : Int} {s : Nat} {d d' : Decimal} (hc : 0 ≤ c) (hle : c ≤ c')
    (h : fit? c s = some d) (h' : fit? c' s = some d') : d.toRat ≤ d'.toRat := by
  rcases hc.eq_or_lt with rfl | hpos
  · have hzero : d.toRat = 0 := by
      obtain ⟨t, -, rfl⟩ := Option.map_eq_some_iff.1 h
      simp [toRat]
    have hc' : (0 : ℚ) ≤ c' := by exact_mod_cast hle
    rw [hzero]
    exact (rounds_fit? h').nonneg (by positivity)
  · obtain ⟨t, ht, hd⟩ := exists_scale_of_fit? hpos h
    obtain ⟨t', ht', hd'⟩ := exists_scale_of_fit? (by omega) h'
    have hnear : ∀ t ≤ min s maxScale, _ := fun t ht =>
      abs_magnitudeAt_sub_le c' (Nat.le_trans ht (Nat.min_le_left ..))
    rw [hd, hd']
    exact div_pow_le_of_greatestScale (fun t _ => roundHalfEven_mono (by omega) _) hnear ht ht'

theorem mul?_of_eq_zero {a b : Decimal} (h : a.toRat * b.toRat = 0) : a.mul? b = some zero := by
  have hzero : (a.isZero || b.isZero) = true := by
    rw [Bool.or_eq_true_iff, isZero_iff, isZero_iff]
    exact mul_eq_zero.1 h
  rw [mul?, if_pos hzero]

theorem mul?_of_ne_zero {a b : Decimal} (h : a.toRat * b.toRat ≠ 0) :
    a.mul? b = fit? (a.coefficient * b.coefficient) (a.scale + b.scale) := by
  have hzero : ¬ (a.isZero || b.isZero) = true := by
    rw [Bool.or_eq_true_iff, isZero_iff, isZero_iff]
    exact mt mul_eq_zero.2 h
  rw [mul?, if_neg hzero]

/-- Products with as many places are rounded in their order. -/
theorem mul?_le_mul? {a b a' b' d d' : Decimal} (hscale : a.scale + b.scale = a'.scale + b'.scale)
    (hx : 0 ≤ a.toRat * b.toRat) (hle : a.toRat * b.toRat ≤ a'.toRat * b'.toRat)
    (h : a.mul? b = some d) (h' : a'.mul? b' = some d') : d.toRat ≤ d'.toRat := by
  rcases hx.eq_or_lt with hzero | hpos
  · rw [mul?_of_eq_zero hzero.symm] at h
    cases h
    rw [toRat_zero]
    exact (rounds_mul? h').nonneg (le_trans hx hle)
  · have hcoefficient : a.coefficient * b.coefficient ≤ a'.coefficient * b'.coefficient := by
      rw [toRat_mul_toRat, toRat_mul_toRat, ← hscale,
        div_le_div_iff_of_pos_right (by positivity)] at hle
      exact_mod_cast hle
    have hcoefficient0 : 0 ≤ a.coefficient * b.coefficient := by
      rw [toRat_mul_toRat, le_div_iff₀ (by positivity), zero_mul] at hx
      exact_mod_cast hx
    rw [mul?_of_ne_zero hpos.ne'] at h
    rw [mul?_of_ne_zero (lt_of_lt_of_le hpos hle).ne', ← hscale] at h'
    exact fit?_le_fit? hcoefficient0 hcoefficient h h'

theorem div?_of_eq_zero {a b : Decimal} (ha : a.toRat = 0) (hb : b.toRat ≠ 0) :
    a.div? b = some zero := by
  rw [div?, if_neg (mt isZero_iff.1 hb), if_pos (isZero_iff.2 ha)]

theorem exists_scale_of_div? {a b d : Decimal} (hx : 0 < a.toRat / b.toRat)
    (h : a.div? b = some d) :
    ∃ t, greatestScale (fun t => quotientAt a b t < limit) maxScale = some t ∧
      d.toRat = quotientAt a b t / 10 ^ t := by
  have hb0 : b.toRat ≠ 0 := (rounds_div? h).1
  have hsign : ((a.coefficient.sign * b.coefficient.sign : Int) : ℚ) = 1 := by
    have hself := sign_mul_sign_mul_abs hb0 a
    rwa [abs_of_pos hx, mul_eq_right₀ hx.ne'] at hself
  have ha : ¬ a.isZero = true := by
    rw [isZero_iff]
    rintro ha0
    rw [ha0, zero_div] at hx
    exact hx.false
  unfold div? at h
  rw [if_neg (mt isZero_iff.1 hb0), if_neg ha] at h
  obtain ⟨t, ht, rfl⟩ := Option.map_eq_some_iff.1 h
  refine ⟨t, ht, ?_⟩
  rw [normalize, toRat_trim, Int.cast_mul, hsign, one_mul, Int.cast_natCast]

theorem quotientAt_le_quotientAt {a b a' b' : Decimal} (hb : b.toRat ≠ 0) (hb' : b'.toRat ≠ 0)
    (hle : |a.toRat / b.toRat| ≤ |a'.toRat / b'.toRat|) (t : Nat) :
    quotientAt a b t ≤ quotientAt a' b' t := by
  have hpos {b : Decimal} (hb : b.toRat ≠ 0) (s : Nat) : 0 < b.coefficient.natAbs * Nat.pow 10 s :=
    Nat.mul_pos (Int.natAbs_pos.2 (coefficient_ne_zero hb)) (Nat.pow_pos (by decide))
  refine roundHalfEven_le_roundHalfEven (hpos hb _) (hpos hb' _) ?_
  rw [← abs_div_mul_pow, ← abs_div_mul_pow]
  gcongr

/-- Quotients are rounded in their order. -/
theorem div?_le_div? {a b a' b' d d' : Decimal} (hx : 0 ≤ a.toRat / b.toRat)
    (hle : a.toRat / b.toRat ≤ a'.toRat / b'.toRat) (h : a.div? b = some d)
    (h' : a'.div? b' = some d') : d.toRat ≤ d'.toRat := by
  obtain ⟨hb, hrounds⟩ := rounds_div? h
  obtain ⟨hb', hrounds'⟩ := rounds_div? h'
  rcases hx.eq_or_lt with hzero | hpos
  · rw [div?_of_eq_zero ((div_eq_zero_iff.1 hzero.symm).resolve_right hb) hb] at h
    cases h
    rw [toRat_zero]
    exact hrounds'.nonneg (le_trans hx hle)
  · have hpos' := lt_of_lt_of_le hpos hle
    obtain ⟨t, ht, hd⟩ := exists_scale_of_div? hpos h
    obtain ⟨t', ht', hd'⟩ := exists_scale_of_div? hpos' h'
    have habs : |a.toRat / b.toRat| ≤ |a'.toRat / b'.toRat| := by
      rwa [abs_of_pos hpos, abs_of_pos hpos']
    rw [hd, hd']
    exact div_pow_le_of_greatestScale (fun t _ => quotientAt_le_quotientAt hb hb' habs t)
      (fun t _ => abs_quotientAt_sub_le hb' a' t) ht ht'

end Decimal

end PriceFeed
