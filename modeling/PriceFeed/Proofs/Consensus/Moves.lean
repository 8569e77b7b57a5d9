import Mathlib.Algebra.Order.Group.Abs
import Mathlib.Algebra.Order.Group.Int
import Mathlib.Data.List.Forall2
import PriceFeed.Proofs.Consensus.Ranks

/-!
# How a consensus moves with its bands

When every price rises by at least `t`, so does every sample, and then so does the sample of every
rank, though it may come from another band: there are no more samples below a threshold than there
were below the threshold less `t`. Hence the consensus rises by at least `t` as well. The same for
falling prices bounds the consensus from above, and its width from both sides.

    Raised t l l' → s.getD i 0 + t ≤ s'.getD i 0              (getD_sortedSamples_add_le)
    all prices move by `a` to `b` → so does the consensus                       (consensus_moved)
-/

namespace PriceFeed

/-! ## Ranks -/

/-- No more elements than its rank are below an element. -/
theorem countP_lt_getD_le {s : List Int} (hs : s.Pairwise (· ≤ ·)) {i : Nat} (hi : i < s.length) :
    s.countP (· < s.getD i 0) ≤ i := by
  have hdrop : (s.drop i).countP (· < s.getD i 0) = 0 := by
    rw [List.countP_eq_zero]
    intro x hx
    obtain ⟨j, hj, rfl⟩ := List.mem_iff_getElem.1 hx
    rw [List.length_drop] at hj
    have hle : s.getD i 0 ≤ s.getD (i + j) 0 := getD_le_getD hs (by omega) (by omega)
    rw [List.getD_eq_getElem s 0 (by omega : i + j < s.length)] at hle
    rw [List.getElem_drop, decide_eq_true_eq]
    omega
  have htake : (s.take i).countP (· < s.getD i 0) ≤ i :=
    Nat.le_trans List.countP_le_length (List.length_take_le i s)
  have hsplit : (s.take i).countP (· < s.getD i 0) + (s.drop i).countP (· < s.getD i 0) =
      s.countP (· < s.getD i 0) := by
    rw [← List.countP_append, List.take_append_drop]
  omega

theorem countP_lt_add_le {l l' : List Int} {t : Int} (h : List.Forall₂ (fun x y => x + t ≤ y) l l')
    (v : Int) : l'.countP (· < v + t) ≤ l.countP (· < v) := by
  induction h with
  | nil => simp
  | @cons x y l l' hxy _ ih =>
    rw [List.countP_cons, List.countP_cons]
    simp only [decide_eq_true_eq]
    split <;> split <;> omega

/-! ## Raised bands -/

/-- The bands of `l'` are those of `l` with prices higher by at least `t`. -/
def Raised (t : Int) (l l' : List Band) : Prop :=
  List.Forall₂ (fun b b' => b'.conf = b.conf ∧ b.price + t ≤ b'.price) l l'

theorem Raised.of_forall₂ {t : Int} {l l' : List Band} {R : Band → Band → Prop}
    (h : List.Forall₂ R l l') (hconf : l'.map (·.conf) = l.map (·.conf))
    (hprice : ∀ b b', R b b' → b.price + t ≤ b'.price) : Raised t l l' := by
  induction h with
  | nil => exact .nil
  | cons hb _ ih =>
    rw [List.map_cons, List.map_cons, List.cons.injEq] at hconf
    exact .cons ⟨hconf.1, hprice _ _ hb⟩ (ih hconf.2)

section Raised

variable {t : Int} {l l' : List Band} (h : Raised t l l') (hfit : ∀ b ∈ l, b.Fits)
  (hfit' : ∀ b ∈ l', b.Fits)
include h hfit hfit'

theorem samples_raised : List.Forall₂ (fun x y => x + t ≤ y)
    (l.filterMap Band.samples?).flatten (l'.filterMap Band.samples?).flatten := by
  induction h with
  | nil => exact .nil
  | @cons b b' rest rest' hb _ ih =>
    obtain ⟨hconf, hprice⟩ := hb
    have hsamples := samples?_of_fits (hfit b List.mem_cons_self)
    have hsamples' := samples?_of_fits (hfit' b' List.mem_cons_self)
    have hrest := ih (fun c hc => hfit c (List.mem_cons_of_mem _ hc))
      fun c hc => hfit' c (List.mem_cons_of_mem _ hc)
    rw [List.filterMap_cons_some hsamples, List.filterMap_cons_some hsamples', List.flatten_cons,
      List.flatten_cons]
    exact .cons (by omega) (.cons hprice (.cons (by omega) hrest))

/-- The sample of every rank rises with the bands. -/
theorem getD_sortedSamples_add_le {i : Nat} (hi : i < 3 * l.length) :
    (sortedSamples l).getD i 0 + t ≤ (sortedSamples l').getD i 0 := by
  have hlen := length_sortedSamples hfit
  have hlen' := length_sortedSamples hfit'
  have hsame : l.length = l'.length := List.Forall₂.length_eq h
  have hrank := countP_lt_getD_le (sortedSamples_pairwise l) (hlen ▸ hi)
  have hcount := countP_lt_add_le (samples_raised h hfit hfit') ((sortedSamples l).getD i 0)
  rw [← (sortedSamples_perm l).countP_eq, ← (sortedSamples_perm l').countP_eq] at hcount
  exact le_getD_of_countP_le (sortedSamples_pairwise l') (by omega) (by omega)

theorem median_add_le (hne : l ≠ []) :
    median (sortedSamples l) + t ≤ median (sortedSamples l') := by
  have hpos := List.length_pos_iff.2 hne
  have hlen := length_sortedSamples hfit
  have hlen' := length_sortedSamples hfit'
  have hsame : l.length = l'.length := List.Forall₂.length_eq h
  have hrank {i : Nat} := getD_sortedSamples_add_le h hfit hfit' (i := i)
  have hmid := hrank (by omega : 3 * l.length / 2 < 3 * l.length)
  unfold median
  simp only [hlen, hlen', ← hsame]
  split
  · have hbefore := hrank (by omega : 3 * l.length / 2 - 1 < 3 * l.length)
    omega
  · exact hmid

theorem lowerQuartile_add_le (hne : l ≠ []) :
    lowerQuartile (sortedSamples l) + t ≤ lowerQuartile (sortedSamples l') := by
  have hpos := List.length_pos_iff.2 hne
  have hsame : l.length = l'.length := List.Forall₂.length_eq h
  unfold lowerQuartile
  rw [length_sortedSamples hfit, length_sortedSamples hfit', ← hsame]
  exact getD_sortedSamples_add_le h hfit hfit' (by omega)

theorem upperQuartile_add_le (hne : l ≠ []) :
    upperQuartile (sortedSamples l) + t ≤ upperQuartile (sortedSamples l') := by
  have hpos := List.length_pos_iff.2 hne
  have hsame : l.length = l'.length := List.Forall₂.length_eq h
  unfold upperQuartile
  rw [length_sortedSamples hfit, length_sortedSamples hfit', ← hsame]
  exact getD_sortedSamples_add_le h hfit hfit' (by omega)

end Raised

theorem quartiles_around_median {l : List Band} (hfit : ∀ b ∈ l, b.Fits) (hne : l ≠ []) :
    lowerQuartile (sortedSamples l) ≤ median (sortedSamples l) ∧
      median (sortedSamples l) ≤ upperQuartile (sortedSamples l) := by
  have hs : sortedSamples l ≠ [] := by
    have hpos := List.length_pos_iff.2 hne
    rw [← List.length_pos_iff, length_sortedSamples hfit]
    omega
  exact ⟨lowerQuartile_le_median (sortedSamples_pairwise l) hs,
    median_le_upperQuartile (sortedSamples_pairwise l) hs⟩

theorem consensus_nil : consensus [] = none := consensus_eq_none_iff.2 (by simp)

theorem ne_nil_of_consensus {l : List Band} {c : Band} (h : consensus l = some c) : l ≠ [] := by
  rintro rfl
  rw [consensus_nil] at h
  cases h

/-- Prices that move by `a` to `b` move the consensus by `a` to `b`, and change its width by what is
between the two at most. -/
theorem consensus_raised {a b : Int} {l l' : List Band} (hlow : Raised a l l')
    (hhigh : Raised (-b) l' l) (hfit : ∀ q ∈ l, q.Fits) (hfit' : ∀ q ∈ l', q.Fits) {c c' : Band}
    (hc : consensus l = some c) (hc' : consensus l' = some c') :
    (a ≤ c'.price - c.price ∧ c'.price - c.price ≤ b) ∧ |(c'.conf : Int) - c.conf| ≤ b - a := by
  have hne := ne_nil_of_consensus hc
  have hne' := ne_nil_of_consensus hc'
  rw [consensus_eq_some hne hfit, Option.some.injEq] at hc
  rw [consensus_eq_some hne' hfit', Option.some.injEq] at hc'
  subst hc hc'
  have hmedian := median_add_le hlow hfit hfit' hne
  have hmedian' := median_add_le hhigh hfit' hfit hne'
  have hlower := lowerQuartile_add_le hlow hfit hfit' hne
  have hlower' := lowerQuartile_add_le hhigh hfit' hfit hne'
  have hupper := upperQuartile_add_le hlow hfit hfit' hne
  have hupper' := upperQuartile_add_le hhigh hfit' hfit hne'
  have hinside := quartiles_around_median hfit hne
  have hinside' := quartiles_around_median hfit' hne'
  simp only
  exact ⟨⟨by omega, by omega⟩, abs_le.2 ⟨by omega, by omega⟩⟩

/-! ## Top theorem -/

/-- **A consensus moves no further than its bands.** Take two lists of fitting bands with the same
confidences. If every price moves by `a` to `b`, then the price of the consensus does, and its
confidence changes by `b - a` at most. So it never falls when no price does, and moves along when
they all move by the same. -/
theorem consensus_moved (l l' : List Band) (hconf : l'.map (·.conf) = l.map (·.conf))
    (hfit : ∀ q ∈ l, q.Fits) (hfit' : ∀ q ∈ l', q.Fits) :
    (l = [] → consensus l = none ∧ consensus l' = none) ∧
      (l ≠ [] → ∃ c c', consensus l = some c ∧ consensus l' = some c' ∧
        (∀ a b, List.Forall₂ (fun q q' => a ≤ q'.price - q.price ∧ q'.price - q.price ≤ b) l l' →
          (a ≤ c'.price - c.price ∧ c'.price - c.price ≤ b) ∧
            |(c'.conf : Int) - c.conf| ≤ b - a) ∧
        (List.Forall₂ (fun q q' => q.price ≤ q'.price) l l' → c.price ≤ c'.price) ∧
        ∀ t, List.Forall₂ (fun q q' => q'.price = q.price + t) l l' →
          c' = ⟨c.price + t, c.conf⟩) := by
  refine ⟨?_, fun hne => ?_⟩
  · rintro rfl
    obtain rfl : l' = [] := List.map_eq_nil_iff.1 hconf
    exact ⟨consensus_nil, consensus_nil⟩
  have hne' : l' ≠ [] := by
    rintro rfl
    exact hne (List.map_eq_nil_iff.1 hconf.symm)
  have hc := consensus_eq_some hne hfit
  have hc' := consensus_eq_some hne' hfit'
  have hmoved (a b : Int) {R : Band → Band → Prop} (hR : List.Forall₂ R l l')
      (ha : ∀ q q', R q q' → q.price + a ≤ q'.price)
      (hb : ∀ q q', R q q' → q'.price + -b ≤ q.price) :=
    consensus_raised (.of_forall₂ hR hconf ha) (.of_forall₂ hR.flip hconf.symm fun q q' => hb q' q)
      hfit hfit' hc hc'
  refine ⟨_, _, hc, hc', fun a b h => ?_, fun h => ?_, fun t h => ?_⟩
  · exact hmoved a b h (fun q q' hq => by omega) fun q q' hq => by omega
  · have hraised : Raised 0 l l' := .of_forall₂ h hconf fun q q' hq => by omega
    have hmedian := median_add_le hraised hfit hfit' hne
    simp only
    omega
  · obtain ⟨hprice, hwidth⟩ := hmoved t t h (fun q q' hq => by omega) fun q q' hq => by omega
    rw [sub_self, abs_nonpos_iff] at hwidth
    exact congrArg₂ Band.mk (by simp only at hprice ⊢; omega) (by simp only at hwidth ⊢; omega)

/-- Three prices of which two change places. -/
theorem consensus_moved_reordered :
    let l : List Band := [⟨100, 1⟩, ⟨103, 2⟩, ⟨98, 5⟩]
    let l' : List Band := [⟨105, 1⟩, ⟨101, 2⟩, ⟨99, 5⟩]
    l'.map (·.conf) = l.map (·.conf) ∧ (∀ q ∈ l, q.Fits) ∧ (∀ q ∈ l', q.Fits) ∧
      ∃ c c', consensus l = some c ∧ consensus l' = some c' ∧
        -2 ≤ c'.price - c.price ∧ c'.price - c.price ≤ 5 ∧ |(c'.conf : Int) - c.conf| ≤ 7 := by
  intro l l'
  have hconf : l'.map (·.conf) = l.map (·.conf) := rfl
  have hfit : ∀ q ∈ l, q.Fits := by decide
  have hfit' : ∀ q ∈ l', q.Fits := by decide
  obtain ⟨c, c', hc, hc', hmoved, -⟩ := (consensus_moved l l' hconf hfit hfit').2 (by decide)
  obtain ⟨⟨hlow, hhigh⟩, hwidth⟩ := hmoved (-2) 5 (by decide)
  exact ⟨hconf, hfit, hfit', c, c', hc, hc', hlow, hhigh, hwidth⟩

end PriceFeed
