import PriceFeed.Consensus

/-!
# Order statistics of the samples

Every fitting band gives three samples, so the samples outside an interval are at most three times
as many as the bands that leave it. An element of the sorted samples whose index is past all the
samples below the interval, and before all those above it, lies in the interval; the median does as
soon as most bands lie in it, and the quartiles as soon as more than three quarters do.

    bands.length < 2 * inside → lo ≤ median ≤ hi                     (median_mem_of_majority)
    3 * bands.length < 4 * inside → lo ≤ both quartiles ≤ hi         (lowerQuartile_mem_of_majority,
                                                                      upperQuartile_mem_of_majority)
-/

namespace PriceFeed

/-- The band lies between `lo` and `hi`. -/
def Band.Within (b : Band) (lo hi : Int) : Prop := lo ≤ b.price - b.conf ∧ b.price + b.conf ≤ hi

instance (b : Band) (lo hi : Int) : Decidable (b.Within lo hi) :=
  inferInstanceAs (Decidable (_ ∧ _))

/-! ## Elements of an ascending list -/

theorem getElem_le_getElem {s : List Int} (hs : s.Pairwise (· ≤ ·)) {i j : Nat} (hij : i ≤ j)
    (hj : j < s.length) : s[i] ≤ s[j] := by
  rcases Nat.lt_or_eq_of_le hij with h | rfl
  · exact List.pairwise_iff_getElem.1 hs i j (by omega) hj h
  · exact Int.le_refl _

theorem le_getD_of_countP_le {s : List Int} (hs : s.Pairwise (· ≤ ·)) {lo : Int} {i : Nat}
    (hi : i < s.length) (hc : s.countP (· < lo) ≤ i) : lo ≤ s.getD i 0 := by
  rw [List.getD_eq_getElem?_getD, List.getElem?_eq_getElem hi, Option.getD_some]
  apply Classical.byContradiction
  intro hlt
  -- all elements up to the `i`-th would be below `lo`, and those are more than `i`
  have hall : (s.take (i + 1)).countP (· < lo) = i + 1 := by
    rw [List.countP_eq_length.2 ?_, List.length_take]
    · omega
    · intro x hx
      obtain ⟨j, hj, rfl⟩ := List.mem_iff_getElem.1 hx
      rw [List.length_take] at hj
      rw [List.getElem_take]
      have : s[j] ≤ s[i] := getElem_le_getElem hs (by omega) hi
      simp only [decide_eq_true_eq]
      omega
  have := (List.take_sublist (i + 1) s).countP_le (p := (· < lo))
  omega

theorem getD_le_of_countP_lt {s : List Int} (hs : s.Pairwise (· ≤ ·)) {hi : Int} {i : Nat}
    (hc : i + s.countP (hi < ·) < s.length) : s.getD i 0 ≤ hi := by
  have hlen : i < s.length := by omega
  rw [List.getD_eq_getElem?_getD, List.getElem?_eq_getElem hlen, Option.getD_some]
  apply Classical.byContradiction
  intro hlt
  have hall : (s.drop i).countP (hi < ·) = s.length - i := by
    rw [List.countP_eq_length.2 ?_, List.length_drop]
    intro x hx
    obtain ⟨j, hj, rfl⟩ := List.mem_iff_getElem.1 hx
    rw [List.length_drop] at hj
    rw [List.getElem_drop]
    have : s[i] ≤ s[i + j] := getElem_le_getElem hs (by omega) (by omega)
    simp only [decide_eq_true_eq]
    omega
  have := (List.drop_sublist i s).countP_le (p := (hi < ·))
  omega

/-! ## Samples -/

theorem samples?_of_fits {b : Band} (h : b.Fits) :
    b.samples? = some [b.price - b.conf, b.price, b.price + b.conf] := if_pos h

theorem samples?_of_not_fits {b : Band} (h : ¬ b.Fits) : b.samples? = none := if_neg h

theorem sortedSamples_pairwise (bands : List Band) : (sortedSamples bands).Pairwise (· ≤ ·) :=
  (List.pairwise_mergeSort (by simp only [decide_eq_true_eq]; omega)
    (by simp only [Bool.or_eq_true, decide_eq_true_eq]; omega) _).imp (by simp)

theorem length_sortedSamples {bands : List Band} (hfit : ∀ b ∈ bands, b.Fits) :
    (sortedSamples bands).length = 3 * bands.length := by
  rw [(sortedSamples_perm bands).length_eq]
  induction bands with
  | nil => rfl
  | cons b rest ih =>
    have := ih fun b' hb' => hfit b' (List.mem_cons_of_mem _ hb')
    rw [List.filterMap_cons_some (samples?_of_fits (hfit b List.mem_cons_self)), List.flatten_cons,
      List.length_append, this]
    simp only [List.length_cons, List.length_nil]
    omega

/-- Samples that a band within the interval never gives come from the other bands, three from
each at most. -/
theorem countP_sortedSamples_le (bands : List Band) (lo hi : Int) (p : Int → Bool)
    (hp : ∀ x, lo ≤ x → x ≤ hi → p x = false) :
    (sortedSamples bands).countP p ≤ 3 * bands.countP (fun b => ¬ b.Within lo hi) := by
  rw [(sortedSamples_perm bands).countP_eq]
  induction bands with
  | nil => simp
  | cons b rest ih =>
    rw [List.countP_cons]
    by_cases hb : b.Fits
    · rw [List.filterMap_cons_some (samples?_of_fits hb), List.flatten_cons, List.countP_append]
      by_cases hw : b.Within lo hi
      · obtain ⟨hl, hh⟩ := hw
        have h0 : [b.price - b.conf, b.price, b.price + b.conf].countP p = 0 := by
          rw [List.countP_eq_zero]
          intro x hx
          simp only [List.mem_cons, List.not_mem_nil, or_false] at hx
          rw [hp x (by omega) (by omega)]
          exact Bool.false_ne_true
        omega
      · have h3 : [b.price - b.conf, b.price, b.price + b.conf].countP p ≤ 3 :=
          List.countP_le_length
        simp only [hw, not_false_eq_true, decide_true, if_true]
        omega
    · rw [List.filterMap_cons_none (samples?_of_not_fits hb)]
      omega

/-! ## Bands that agree -/

section Majority

variable {bands : List Band} {lo hi : Int} (hfit : ∀ b ∈ bands, b.Fits)
include hfit

/-- Past three samples for each band outside, and before as many from the end, all samples lie
in the interval. -/
theorem getD_sortedSamples_mem {i : Nat}
    (hlow : 3 * bands.length ≤ i + 3 * bands.countP (·.Within lo hi))
    (hhigh : i < 3 * bands.countP (·.Within lo hi)) :
    lo ≤ (sortedSamples bands).getD i 0 ∧ (sortedSamples bands).getD i 0 ≤ hi := by
  have hsplit := List.length_eq_countP_add_countP (fun b : Band => decide (b.Within lo hi))
    (l := bands)
  simp only [Bool.not_eq_true, decide_eq_false_iff_not] at hsplit
  have hlen := length_sortedSamples hfit
  have hs := sortedSamples_pairwise bands
  have hbelow := countP_sortedSamples_le bands lo hi (· < lo) (by simp; omega)
  have habove := countP_sortedSamples_le bands lo hi (hi < ·) (by simp)
  exact ⟨le_getD_of_countP_le hs (by omega) (by omega), getD_le_of_countP_lt hs (by omega)⟩

theorem median_mem_of_majority (h : bands.length < 2 * bands.countP (·.Within lo hi)) :
    lo ≤ median (sortedSamples bands) ∧ median (sortedSamples bands) ≤ hi := by
  have hmid : ∀ i, i = 3 * bands.length / 2 ∨
      3 * bands.length % 2 = 0 ∧ i = 3 * bands.length / 2 - 1 →
      lo ≤ (sortedSamples bands).getD i 0 ∧ (sortedSamples bands).getD i 0 ≤ hi := by
    intro i hi
    exact getD_sortedSamples_mem hfit (by omega) (by omega)
  unfold median
  simp only [length_sortedSamples hfit]
  split
  · next heven =>
    have h1 := hmid _ (.inr ⟨heven, rfl⟩)
    have h2 := hmid _ (.inl rfl)
    omega
  · exact hmid _ (.inl rfl)

theorem lowerQuartile_mem_of_majority (h : 3 * bands.length < 4 * bands.countP (·.Within lo hi)) :
    lo ≤ lowerQuartile (sortedSamples bands) ∧ lowerQuartile (sortedSamples bands) ≤ hi := by
  unfold lowerQuartile
  rw [length_sortedSamples hfit]
  exact getD_sortedSamples_mem hfit (by omega) (by omega)

theorem upperQuartile_mem_of_majority (h : 3 * bands.length < 4 * bands.countP (·.Within lo hi)) :
    lo ≤ upperQuartile (sortedSamples bands) ∧ upperQuartile (sortedSamples bands) ≤ hi := by
  unfold upperQuartile
  rw [length_sortedSamples hfit]
  exact getD_sortedSamples_mem hfit (by omega) (by omega)

end Majority

theorem consensus_eq_some {bands : List Band} (hne : bands ≠ []) (hfit : ∀ b ∈ bands, b.Fits) :
    consensus bands = some ⟨median (sortedSamples bands),
      max (median (sortedSamples bands) - lowerQuartile (sortedSamples bands)).natAbs
        (upperQuartile (sortedSamples bands) - median (sortedSamples bands)).natAbs⟩ := by
  have hlen := length_sortedSamples hfit
  have hpos := List.length_pos_iff.2 hne
  have hs : (sortedSamples bands).isEmpty = false := by
    rw [List.isEmpty_eq_false_iff, ← List.length_pos_iff]
    omega
  simp [consensus, hs]

theorem countP_within_signed64 {bands : List Band} (hfit : ∀ b ∈ bands, b.Fits) :
    bands.countP (·.Within IntRange.signed64.low IntRange.signed64.high) = bands.length :=
  List.countP_eq_length.2 fun b hb => decide_eq_true ⟨(hfit b hb).1.1, (hfit b hb).2.2⟩

theorem price_mem_of_consensus {bands : List Band} {c : Band} (hne : bands ≠ [])
    (hfit : ∀ b ∈ bands, b.Fits) (h : consensus bands = some c) : c.price ∈ IntRange.signed64 := by
  have hall := countP_within_signed64 hfit
  have hpos := List.length_pos_iff.2 hne
  have hm := median_mem_of_majority hfit (show bands.length < 2 * _ by rw [hall]; omega)
  rw [consensus_eq_some hne hfit] at h
  cases h
  exact hm

/-- A confidence reaches from one end of the prices to the other at most. -/
theorem conf_mem_of_consensus {bands : List Band} {c : Band} (hne : bands ≠ [])
    (hfit : ∀ b ∈ bands, b.Fits) (h : consensus bands = some c) :
    (c.conf : Int) ∈ IntRange.unsigned64 := by
  have hall := countP_within_signed64 hfit
  have hpos := List.length_pos_iff.2 hne
  have hm := median_mem_of_majority hfit (show bands.length < 2 * _ by rw [hall]; omega)
  have hl := lowerQuartile_mem_of_majority hfit (show 3 * bands.length < 4 * _ by rw [hall]; omega)
  have hu := upperQuartile_mem_of_majority hfit (show 3 * bands.length < 4 * _ by rw [hall]; omega)
  rw [consensus_eq_some hne hfit] at h
  cases h
  simp only [IntRange.signed64] at hm hl hu
  rw [IntRange.mem_unsigned64]
  simp only
  omega

end PriceFeed
