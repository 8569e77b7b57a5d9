import PriceFeed.Quote

/-!
# Consensus of several quotes

Each quote whose band fits the price range gives three samples: the two ends of its band and its
price. The consensus price is the median of all samples; its confidence is the larger of the
distances from there to the quartile samples.

    consensus bands = none ↔ no band fits                        (consensus_eq_none_iff)
-/

namespace PriceFeed

/-- The two ends of the band and its middle, if the ends are prices. -/
def Band.samples? (b : Band) : Option (List Int) :=
  if b.Fits then some [b.price - b.conf, b.price, b.price + b.conf] else none

/-- The samples of all fitting bands, ascending. -/
def sortedSamples (bands : List Band) : List Int :=
  (bands.filterMap Band.samples?).flatten.mergeSort (· ≤ ·)

/-- The middle of an ascending list, or the mean of the two middles, rounded down. -/
def median (s : List Int) : Int :=
  let mid := s.length / 2
  if s.length % 2 = 0 then (s.getD (mid - 1) 0 + s.getD mid 0) / 2 else s.getD mid 0

/-- The element a quarter of the way up an ascending list. -/
def lowerQuartile (s : List Int) : Int := s.getD (s.length / 4) 0

/-- The element a quarter of the way down an ascending list. -/
def upperQuartile (s : List Int) : Int := s.getD (s.length - 1 - s.length / 4) 0

/-- The band around the median that reaches the farther quartile. -/
def consensus (bands : List Band) : Option Band :=
  let s := sortedSamples bands
  if s.isEmpty then none
  else
    let m := median s
    some ⟨m, max (m - lowerQuartile s).natAbs (upperQuartile s - m).natAbs⟩

/-! ## Lemmas -/

theorem sortedSamples_perm (bands : List Band) :
    (sortedSamples bands).Perm (bands.filterMap Band.samples?).flatten :=
  List.mergeSort_perm _ _

theorem consensus_eq_none_iff {bands : List Band} :
    consensus bands = none ↔ ∀ b ∈ bands, ¬ b.Fits := by
  have hs : sortedSamples bands = [] ↔ ∀ b ∈ bands, ¬ b.Fits := by
    rw [← List.length_eq_zero_iff, (sortedSamples_perm bands).length_eq, List.length_eq_zero_iff,
      List.flatten_eq_nil_iff]
    simp only [List.mem_filterMap, Band.samples?]
    constructor
    · intro h b hb hfit
      have := h [b.price - b.conf, b.price, b.price + b.conf] ⟨b, hb, by simp [hfit]⟩
      simp at this
    · rintro h l ⟨b, hb, hl⟩
      simp [h b hb] at hl
  rw [← hs]
  unfold consensus
  cases sortedSamples bands <;> simp

end PriceFeed
