import Mathlib.Data.List.GetD
import Mathlib.Tactic.SplitIfs
import PriceFeed.Proofs.Consensus

/-!
# How a consensus is read off the samples

The samples are those of the bands that fit, three of each, and only their ascending list counts,
not the order of the bands. Price and confidence are read off it at four ranks at most, and each of
them is the rank of a sample.

    l.Perm l' → consensus l = consensus l'                                    (consensus_perm)
    b.Fits → consensus (replicate (k + 1) b) = some b                    (consensus_replicate)
    consensus l = some c → c.ReadFrom (sortedSamples l)                     (readFrom_consensus)
-/

namespace PriceFeed

/-- A band is read off ascending samples: its price is the middle one, or the mean of the two
middles, and its confidence reaches the farther quartile. No rank is beyond the samples. -/
structure Band.ReadFrom (c : Band) (s : List Int) : Prop where
  odd : s.length % 2 = 1 → s[s.length / 2]? = some c.price
  even : s.length % 2 = 0 → ∃ x y, s[s.length / 2 - 1]? = some x ∧ s[s.length / 2]? = some y ∧
    c.price = (x + y) / 2
  conf : ∃ low high, s[s.length / 4]? = some low ∧
    s[s.length - 1 - s.length / 4]? = some high ∧ low ≤ c.price ∧ c.price ≤ high ∧
    (c.conf : Int) = max (c.price - low) (high - c.price)

/-! ## Ranks -/

section Ranks

variable {s : List Int}

theorem getElem?_eq_getD {i : Nat} (h : i < s.length) : s[i]? = some (s.getD i 0) := by
  rw [List.getElem?_eq_getElem h, List.getD_eq_getElem s 0 h]

theorem getD_le_getD (hs : s.Pairwise (· ≤ ·)) {i j : Nat} (hij : i ≤ j) (hj : j < s.length) :
    s.getD i 0 ≤ s.getD j 0 := by
  rw [List.getD_eq_getElem s 0 (Nat.lt_of_le_of_lt hij hj), List.getD_eq_getElem s 0 hj]
  exact getElem_le_getElem hs hij hj

theorem lowerQuartile_le_median (hs : s.Pairwise (· ≤ ·)) (hne : s ≠ []) :
    lowerQuartile s ≤ median s := by
  have hpos := List.length_pos_iff.2 hne
  have hmid : lowerQuartile s ≤ s.getD (s.length / 2) 0 := getD_le_getD hs (by omega) (by omega)
  unfold median
  simp only
  split
  · have hbefore : lowerQuartile s ≤ s.getD (s.length / 2 - 1) 0 :=
      getD_le_getD hs (by omega) (by omega)
    omega
  · exact hmid

theorem median_le_upperQuartile (hs : s.Pairwise (· ≤ ·)) (hne : s ≠ []) :
    median s ≤ upperQuartile s := by
  have hpos := List.length_pos_iff.2 hne
  have hmid : s.getD (s.length / 2) 0 ≤ upperQuartile s := getD_le_getD hs (by omega) (by omega)
  unfold median
  simp only
  split
  · have hbefore : s.getD (s.length / 2 - 1) 0 ≤ upperQuartile s :=
      getD_le_getD hs (by omega) (by omega)
    omega
  · exact hmid

end Ranks

/-! ## Samples -/

theorem filterMap_samples?_eq (l : List Band) : (l.filterMap Band.samples?).flatten =
    (l.filter (·.Fits)).flatMap fun b : Band => [b.price - b.conf, b.price, b.price + b.conf] := by
  induction l with
  | nil => rfl
  | cons b rest ih =>
    by_cases hb : b.Fits
    · rw [List.filterMap_cons_some (samples?_of_fits hb), List.flatten_cons, ih,
        List.filter_cons_of_pos (by simpa using hb), List.flatMap_cons]
    · rw [List.filterMap_cons_none (samples?_of_not_fits hb), ih,
        List.filter_cons_of_neg (by simpa using hb)]

theorem sortedSamples_filter (l : List Band) :
    sortedSamples (l.filter (·.Fits)) = sortedSamples l := by
  unfold sortedSamples
  rw [filterMap_samples?_eq, filterMap_samples?_eq, List.filter_filter]
  simp only [Bool.and_self]

/-- There is only one way for the samples to ascend. -/
theorem sortedSamples_eq {l : List Band} {s : List Int} (hs : s.Pairwise (· ≤ ·))
    (hperm : (sortedSamples l).Perm s) : sortedSamples l = s :=
  hperm.eq_of_pairwise (fun _ _ _ _ => Int.le_antisymm) (sortedSamples_pairwise l) hs

/-- The samples do not tell in which order the bands came. -/
theorem sortedSamples_congr {l l' : List Band} (h : l.Perm l') :
    sortedSamples l = sortedSamples l' := by
  have hperm := (h.filterMap Band.samples?).flatten
  exact sortedSamples_eq (sortedSamples_pairwise l')
    ((sortedSamples_perm l).trans (hperm.trans (sortedSamples_perm l').symm))

theorem fits_of_mem_fitting {l : List Band} : ∀ b ∈ l.filter (·.Fits), b.Fits := by
  intro b hb
  simpa using (List.mem_filter.1 hb).2

/-- The samples of copies of a band are all its low ends, then all its prices and all its high
ends. -/
theorem sortedSamples_replicate {b : Band} (h : b.Fits) (k : Nat) :
    sortedSamples (List.replicate k b) = List.replicate k (b.price - b.conf) ++
      (List.replicate k b.price ++ List.replicate k (b.price + b.conf)) := by
  refine sortedSamples_eq ?_ (List.perm_iff_count.2 fun v => ?_)
  · simp only [List.pairwise_append, List.pairwise_replicate, List.mem_append, List.mem_replicate]
    refine ⟨.inr (Int.le_refl _), ⟨.inr (Int.le_refl _), .inr (Int.le_refl _), ?_⟩, ?_⟩
    · rintro x ⟨-, rfl⟩ y ⟨-, rfl⟩
      omega
    · rintro x ⟨-, rfl⟩ y (⟨-, rfl⟩ | ⟨-, rfl⟩) <;> omega
  · rw [(sortedSamples_perm _).count_eq, List.filterMap_replicate_of_some (samples?_of_fits h),
      List.count_flatten, List.map_replicate, List.sum_replicate_nat]
    simp only [List.count_append, List.count_replicate, List.count_cons, List.count_nil]
    split_ifs <;> simp <;> omega

theorem getD_runs {x y z : Int} {n i : Nat} (hi : i < 3 * n) :
    (List.replicate n x ++ (List.replicate n y ++ List.replicate n z)).getD i 0 =
      if i < n then x else if i < 2 * n then y else z := by
  rw [List.getD_eq_getElem?_getD, List.getElem?_append, List.getElem?_append, List.length_replicate,
    List.length_replicate]
  simp only [List.getElem?_replicate]
  split_ifs <;> first | rfl | omega

/-! ## Consensus -/

theorem consensus_perm {l l' : List Band} (h : l.Perm l') : consensus l = consensus l' := by
  unfold consensus
  rw [sortedSamples_congr h]

/-- Copies of a band agree on it. -/
theorem consensus_replicate {b : Band} (h : b.Fits) (k : Nat) :
    consensus (List.replicate (k + 1) b) = some b := by
  have hfit : ∀ b' ∈ List.replicate (k + 1) b, b'.Fits := by
    intro b' hb'
    exact List.eq_of_mem_replicate hb' ▸ h
  have hlen := length_sortedSamples hfit
  have hruns {i : Nat} (hi : i < 3 * (k + 1)) := sortedSamples_replicate h (k + 1) ▸ getD_runs hi
  rw [List.length_replicate] at hlen
  have hmedian : median (sortedSamples (List.replicate (k + 1) b)) = b.price := by
    unfold median
    simp only [hlen]
    split
    · rw [hruns (by omega), hruns (by omega), if_neg (by omega), if_pos (by omega),
        if_neg (by omega), if_pos (by omega)]
      omega
    · rw [hruns (by omega), if_neg (by omega), if_pos (by omega)]
  have hlower : lowerQuartile (sortedSamples (List.replicate (k + 1) b)) = b.price - b.conf := by
    unfold lowerQuartile
    rw [hlen, hruns (by omega), if_pos (by omega)]
  have hupper : upperQuartile (sortedSamples (List.replicate (k + 1) b)) = b.price + b.conf := by
    unfold upperQuartile
    rw [hlen, hruns (by omega), if_neg (by omega), if_neg (by omega)]
  have hwidth : max (b.price - (b.price - b.conf)).natAbs (b.price + b.conf - b.price).natAbs =
      b.conf := by omega
  rw [consensus_eq_some (by simp) hfit, hmedian, hlower, hupper, hwidth]

theorem consensus_singleton {b : Band} (h : b.Fits) : consensus [b] = some b :=
  consensus_replicate h 0

/-- A consensus is read off the samples of the bands that fit. -/
theorem readFrom_consensus {l : List Band} {c : Band} (h : consensus l = some c) :
    c.ReadFrom (sortedSamples l) := by
  have hs := sortedSamples_pairwise l
  have hne : sortedSamples l ≠ [] := by
    intro hnil
    simp [consensus, hnil] at h
  have hpos := List.length_pos_iff.2 hne
  have hlow := lowerQuartile_le_median hs hne
  have hhigh := median_le_upperQuartile hs hne
  obtain rfl : _ = c := by
    simpa [consensus, List.isEmpty_eq_false_iff.2 hne] using h
  refine ⟨fun hodd => ?_, fun heven => ⟨_, _, getElem?_eq_getD (by omega),
    getElem?_eq_getD (by omega), ?_⟩, _, _, getElem?_eq_getD (by omega),
    getElem?_eq_getD (by omega), hlow, hhigh, ?_⟩
  · rw [getElem?_eq_getD (by omega), median]
    simp only [hodd]
    rfl
  · simp only [median, heven]
    rfl
  · unfold lowerQuartile at hlow ⊢
    unfold upperQuartile at hhigh ⊢
    simp only
    omega

end PriceFeed
