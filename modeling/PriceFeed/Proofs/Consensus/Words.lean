import Mathlib
import PriceFeed.Proofs.Consensus.Ranks

/-!
# Consensus in 64-bit words

Prices fit signed and confidences unsigned 64-bit words, whose sums and differences wrap around. The
consensus can be made of such words all the same: a band that wraps around is left out, the mean of
the two middles is made of their halves, and distances are differences of unsigned words. No step
loses anything, so this is the consensus of the integers that the words stand for.

    the samples of a band of words are those of the band                        (map_samples?)
    (floorMean x y).toInt = (x.toInt + y.toInt) / 2                          (toInt_floorMean)
    (distance x y).toNat = (y.toInt - x.toInt).natAbs                         (toNat_distance)
    (consensus? l).map band = consensus (l.map band)                          (map_consensus?)
    what a consensus is, in integers and in words                            (consensus_exact)
-/

namespace PriceFeed

/-- A band in 64-bit words. -/
structure WordBand where
  price : Int64
  conf : UInt64
  deriving DecidableEq, Repr

namespace WordBand

/-! ## Algorithm -/

/-- The band that the words stand for. -/
def band (b : WordBand) : Band := ⟨b.price.toInt, b.conf.toNat⟩

/-- The two ends of the band and its middle, if neither end wraps around. -/
def samples? (b : WordBand) : Option (List Int64) :=
  let low := b.price - b.conf.toInt64
  let high := b.price + b.conf.toInt64
  if low ≤ b.price ∧ b.price ≤ high then some [low, b.price, high] else none

/-- The mean of two words, rounded down. Their sum may not fit, but the sum of their halves does. -/
def floorMean (x y : Int64) : Int64 := (x >>> 1) + (y >>> 1) + (x &&& y &&& 1)

/-- How far apart two words are. -/
def distance (x y : Int64) : UInt64 :=
  if y < x then x.toUInt64 - y.toUInt64 else y.toUInt64 - x.toUInt64

/-- The samples of all bands that do not wrap around, ascending. -/
def sorted (l : List WordBand) : List Int64 :=
  (l.filterMap samples?).flatten.mergeSort (· ≤ ·)

/-- The middle of ascending words, or the mean of the two middles. -/
def middle (s : List Int64) : Int64 :=
  let mid := s.length / 2
  if s.length % 2 = 0 then floorMean (s.getD (mid - 1) 0) (s.getD mid 0) else s.getD mid 0

def consensus? (l : List WordBand) : Option WordBand :=
  let s := sorted l
  if s.isEmpty then none
  else
    let quarter := s.length / 4
    let m := middle s
    some ⟨m, max (distance (s.getD quarter 0) m) (distance m (s.getD (s.length - 1 - quarter) 0))⟩

/-! ## Words -/

theorem toInt_shiftRight_one (x : Int64) : (x >>> 1).toInt = x.toInt / 2 := by
  have hone : (Int64.toBitVec 1).smod 64 = 1 := by decide
  show (x >>> 1).toBitVec.toInt = x.toBitVec.toInt / 2
  rw [Int64.toBitVec_shiftRight, hone]
  show (x.toBitVec.sshiftRight 1).toInt = _
  rw [BitVec.toInt_sshiftRight]
  exact Int.shiftRight_eq_div_pow ..

/-- The lowest bit is set in both words if both are odd. -/
theorem toInt_and_and_one (x y : Int64) :
    (x &&& y &&& 1).toInt = if x.toInt % 2 = 1 ∧ y.toInt % 2 = 1 then 1 else 0 := by
  have hodd (v : BitVec 64) : v.toInt % 2 = 1 ↔ v.toNat % 2 = 1 := by
    rw [BitVec.toInt_eq_toNat_cond]
    split <;> omega
  have hbit : (x &&& y &&& 1).toBitVec.toNat = (x.toBitVec.toNat &&& y.toBitVec.toNat) % 2 := by
    rw [Int64.toBitVec_and, Int64.toBitVec_and, BitVec.toNat_and, BitVec.toNat_and]
    exact Nat.and_one_is_mod _
  have hboth := Nat.and_mod_two_eq_one (a := x.toBitVec.toNat) (b := y.toBitVec.toNat)
  show (x &&& y &&& 1).toBitVec.toInt =
    if x.toBitVec.toInt % 2 = 1 ∧ y.toBitVec.toInt % 2 = 1 then 1 else 0
  simp only [hodd, ← hboth]
  rw [BitVec.toInt_eq_toNat_cond, hbit]
  split <;> split <;> omega

theorem toInt_floorMean (x y : Int64) : (floorMean x y).toInt = (x.toInt + y.toInt) / 2 := by
  have hx := x.le_toInt
  have hx' := x.toInt_lt
  have hy := y.le_toInt
  have hy' := y.toInt_lt
  have hhalves : ((x >>> 1) + (y >>> 1)).toInt = x.toInt / 2 + y.toInt / 2 := by
    rw [Int64.toInt_add, toInt_shiftRight_one, toInt_shiftRight_one,
      Int.bmod_eq_of_le (by omega) (by omega)]
  rw [floorMean, Int64.toInt_add, hhalves, toInt_and_and_one]
  -- the two halves together lose a one just when both words are odd
  split
  · rw [Int.bmod_eq_of_le (by omega) (by omega)]
    omega
  · rw [Int.bmod_eq_of_le (by omega) (by omega)]
    omega

theorem toNat_distance (x y : Int64) : (distance x y).toNat = (y.toInt - x.toInt).natAbs := by
  have hword (v : Int64) : v.toInt = if 2 * v.toUInt64.toNat < 2 ^ 64 then (v.toUInt64.toNat : Int)
      else v.toUInt64.toNat - (2 ^ 64 : Nat) := v.toBitVec.toInt_eq_toNat_cond
  have hx := hword x
  have hy := hword y
  have hx' := x.toUInt64.toNat_lt
  have hy' := y.toUInt64.toNat_lt
  unfold distance
  split
  · next h =>
    rw [Int64.lt_iff_toInt_lt] at h
    rw [UInt64.toNat_sub]
    split at hx <;> split at hy <;> omega
  · next h =>
    rw [Int64.not_lt, Int64.le_iff_toInt_le] at h
    rw [UInt64.toNat_sub]
    split at hx <;> split at hy <;> omega

/-- A confidence as a signed word is taken modulo the number of words. -/
theorem toInt_toInt64 (c : UInt64) : c.toInt64.toInt = (c.toNat : Int).bmod (2 ^ 64) :=
  c.toBitVec.toInt_eq_toNat_bmod

theorem toInt_sub_toInt64 (x : Int64) (c : UInt64) :
    (x - c.toInt64).toInt = (x.toInt - c.toNat).bmod (2 ^ 64) := by
  rw [Int64.toInt_sub, toInt_toInt64, Int.sub_bmod_bmod]

theorem toInt_add_toInt64 (x : Int64) (c : UInt64) :
    (x + c.toInt64).toInt = (x.toInt + c.toNat).bmod (2 ^ 64) := by
  rw [Int64.toInt_add, toInt_toInt64, Int.add_bmod_bmod]

/-! ## Samples -/

/-- An end that wraps around lands beyond the middle. -/
theorem fits_iff (b : WordBand) :
    b.band.Fits ↔ b.price - b.conf.toInt64 ≤ b.price ∧ b.price ≤ b.price + b.conf.toInt64 := by
  have hp := b.price.le_toInt
  have hp' := b.price.toInt_lt
  have hc := b.conf.toNat_lt
  rw [Int64.le_iff_toInt_le, Int64.le_iff_toInt_le, toInt_sub_toInt64, toInt_add_toInt64]
  unfold Band.Fits band
  simp only [IntRange.mem_signed64, Int.bmod_def]
  split <;> split <;> omega

theorem map_samples? (b : WordBand) :
    b.samples?.map (·.map Int64.toInt) = b.band.samples? := by
  unfold samples? Band.samples?
  by_cases h : b.band.Fits
  · have hp := b.price.le_toInt
    have hp' := b.price.toInt_lt
    rw [if_pos h, if_pos ((fits_iff b).1 h), Option.map_some]
    obtain ⟨⟨hlow, -⟩, -, hhigh⟩ := h
    simp only [band, IntRange.signed64] at hlow hhigh
    simp only [List.map_cons, List.map_nil, toInt_sub_toInt64, toInt_add_toInt64, band]
    rw [Int.bmod_eq_of_le (by omega) (by omega), Int.bmod_eq_of_le (by omega) (by omega)]
  · rw [if_neg h, if_neg fun hw => h ((fits_iff b).2 hw), Option.map_none]

theorem map_sorted (l : List WordBand) :
    (sorted l).map Int64.toInt = sortedSamples (l.map band) := by
  unfold sorted sortedSamples
  have hle (x y : Int64) : decide (x ≤ y) = decide (x.toInt ≤ y.toInt) :=
    decide_eq_decide.2 Int64.le_iff_toInt_le
  rw [List.map_mergeSort (s := fun x y => decide (x ≤ y)) fun x _ y _ => hle x y]
  congr 1
  rw [List.map_flatten, List.map_filterMap, List.filterMap_map]
  congr 2
  funext b
  exact map_samples? b

theorem getD_sortedSamples (l : List WordBand) (i : Nat) :
    (sortedSamples (l.map band)).getD i 0 = ((sorted l).getD i 0).toInt := by
  rw [← map_sorted]
  exact List.getD_map (sorted l) 0 Int64.toInt

theorem length_sorted (l : List WordBand) :
    (sorted l).length = (sortedSamples (l.map band)).length := by
  rw [← map_sorted, List.length_map]

/-! ## Consensus -/

theorem toInt_middle (l : List WordBand) :
    (middle (sorted l)).toInt = median (sortedSamples (l.map band)) := by
  unfold middle median
  simp only [getD_sortedSamples, length_sorted]
  split
  · exact toInt_floorMean ..
  · rfl

/-- The consensus of words is the consensus of the integers that they stand for. -/
theorem map_consensus? (l : List WordBand) :
    (consensus? l).map band = consensus (l.map band) := by
  have hempty : (sorted l).isEmpty = (sortedSamples (l.map band)).isEmpty := by
    rw [← map_sorted, List.isEmpty_map]
  unfold consensus? consensus
  simp only [hempty]
  split
  · rfl
  · simp only [Option.map_some, band, UInt64.toNat_max, toNat_distance, toInt_middle,
      ← getD_sortedSamples, length_sorted]
    rfl

/-! ## Top theorem -/

/-- **A consensus is exact.** For any quotes in 64-bit words there is none just when no band fits.
Otherwise it is read off the ascending samples of the bands that fit, always at ranks of a sample,
and words give what the integers give, though they could wrap around. It does not depend on the
order of the quotes, and copies of one quote agree on it. -/
theorem consensus_exact (quotes : List WordBand) :
    let bands := quotes.map band
    let fitting := bands.filter (·.Fits)
    let s := sortedSamples bands
    (consensus bands = none ↔ ∀ b ∈ bands, ¬ b.Fits) ∧
      s.Pairwise (· ≤ ·) ∧
      s.Perm (fitting.flatMap fun b : Band => [b.price - b.conf, b.price, b.price + b.conf]) ∧
      s.length = 3 * fitting.length ∧
      (∀ c, consensus bands = some c → c.ReadFrom s) ∧
      (consensus? quotes).map band = consensus bands ∧
      (∀ bands', bands'.Perm bands → consensus bands' = consensus bands) ∧
      ∀ b : Band, b.Fits → ∀ k, consensus (List.replicate (k + 1) b) = some b := by
  intro bands fitting s
  have hperm := filterMap_samples?_eq bands ▸ sortedSamples_perm bands
  have hlength : s.length = 3 * fitting.length := by
    rw [← length_sortedSamples (fits_of_mem_fitting (l := bands)), sortedSamples_filter]
  exact ⟨consensus_eq_none_iff, sortedSamples_pairwise bands, hperm, hlength,
    fun _ => readFrom_consensus, map_consensus? quotes, fun _ => consensus_perm,
    fun _ => consensus_replicate⟩

/-- The least and the greatest price, and a band that does not fit. The mean is rounded down, and
the distance to the quartiles is beyond the signed words. -/
theorem consensus_exact_extremes :
    let quotes : List WordBand := [⟨Int64.maxValue, 1⟩, ⟨Int64.maxValue, 0⟩, ⟨Int64.minValue, 0⟩]
    ∃ c, consensus? quotes = some c ∧ c.band = ⟨-1, 9223372036854775808⟩ := by
  intro quotes
  obtain ⟨hnone, -, hperm, -, hread, hwords, -, -⟩ := consensus_exact quotes
  have hs : sortedSamples (quotes.map band) =
      List.replicate 3 (-9223372036854775808) ++ List.replicate 3 9223372036854775807 :=
    sortedSamples_eq (by decide) (hperm.trans (by decide))
  have hsome : consensus (quotes.map band) ≠ none := by
    intro h
    exact absurd (hnone.1 h ⟨Int64.maxValue.toInt, 0⟩ (by decide)) (by decide)
  obtain ⟨⟨price, conf⟩, hc⟩ := Option.ne_none_iff_exists'.1 hsome
  obtain ⟨-, heven, hconf⟩ := hread _ hc
  rw [hs] at heven hconf
  obtain ⟨x, y, hx, hy, hprice⟩ := heven rfl
  obtain ⟨low, high, hlow, hhigh, -, -, hwidth⟩ := hconf
  cases hx
  cases hy
  cases hlow
  cases hhigh
  obtain rfl : price = -1 := hprice
  obtain rfl : conf = 9223372036854775808 := Int.ofNat.inj hwidth
  obtain ⟨c, hfound, hband⟩ := Option.map_eq_some_iff.1 (hwords.trans hc)
  exact ⟨c, hfound, hband⟩

end WordBand

end PriceFeed
