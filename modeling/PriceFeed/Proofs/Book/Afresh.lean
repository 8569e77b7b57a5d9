import PriceFeed.Proofs.Book.Gaps
import PriceFeed.Proofs.Decimal.Order

/-!
# Averages that start afresh

An average starts afresh when it is new, after a gap that is too long, or when the gap leaves no
weight to what came before; in the last case it folds, but onto sums of zero. Then its numerator is
the value times a weight and its denominator that weight. Both roundings are small against the
value, which is why the quotient is nearer to the value than to any other integer.

    a.Forgets o.policy o.gap → a.see o = seed o.value o.weight                 (Forgets.see_eq_seed)
    (seed o.value o.weight).value.round = o.value                                 (round_value_seed)
    no trading aggregate so far → the averages have never moved              (unmoved_of_no_trade)
    what starts afresh is shown as it is                                      (shown_exactly_afresh)
-/

namespace PriceFeed

open Decimal

namespace Average

/-- Across `gap` submissions nothing is kept of what the average saw before. -/
def Forgets (a : Average) (policy : DecayPolicy) (gap : Nat) : Prop :=
  a.seeded = false ∨ policy.maxGap < gap ∨
    ∃ keep, decay? gap policy.halfLife = some keep ∧ keep.toRat = 0

/-- Sums of which nothing is kept leave the observation alone. -/
theorem fold?_of_keep_eq_zero (a : Average) {v w keep part : Decimal} (hkeep : keep.toRat = 0)
    (hpart : v.mul? w = some part) (hw : w.toRat ≠ 0) :
    a.fold? v w keep = some { a with numer := part, denom := w } := by
  have hnothing (d : Decimal) : d.mul? keep = some zero :=
    mul?_of_eq_zero (by rw [hkeep, mul_zero])
  have hsum (d : Decimal) : zero.add? d = some d := rfl
  have hdenom : w.isZero = false := Bool.eq_false_iff.2 (mt isZero_iff.1 hw)
  simp [fold?, hnothing, hpart, hsum, hdenom]

section

variable {o : Observation} (hvalue : |(o.value : ℚ)| ≤ 2 ^ 64) (hpos : 0 < o.weight.toRat)
include hvalue hpos

/-- What an average that forgets sees is its seed, whether it goes on or not. -/
theorem Forgets.see_eq_seed {a : Average} (h : a.Forgets o.policy o.gap) :
    a.see o = seed (ofInt o.value) o.weight := by
  rw [see_eq]
  by_cases hgoes : (a.seeded && decide (o.gap ≤ o.policy.maxGap)) = true
  · rcases h with hnew | hlong | ⟨keep, hkeep, hzero⟩
    · rw [hnew] at hgoes
      cases hgoes
    · simp only [Bool.and_eq_true, decide_eq_true_eq] at hgoes
      omega
    · obtain ⟨part, hpart⟩ := o.exists_part (le_trans hvalue (by norm_num))
      have hseeded : a.seeded = true := (Bool.and_eq_true_iff.1 hgoes).1
      rw [folded?, if_pos hgoes, Observation.decay?, hkeep, Option.bind_some,
        fold?_of_keep_eq_zero a hzero hpart hpos.ne', Option.getD_some, seed_eq hpart, hseeded]
  · rw [folded?, if_neg hgoes, Option.getD_none]

/-- The weight cancels up to less than a half. -/
theorem round_value_seed : (seed (ofInt o.value) o.weight).value.round = o.value := by
  obtain ⟨part, hpart⟩ := o.exists_part (le_trans hvalue (by norm_num))
  have hnumer := (Observation.rounds_part hpart).abs_sub_le (le_refl 0)
  rw [seed_eq hpart]
  -- the numerator is off by a part of itself, and so the quotient by that part of the value
  have hquot : |part.toRat / o.weight.toRat - o.value| ≤ eps * |(o.value : ℚ)| := by
    have hdiff : part.toRat / o.weight.toRat - o.value =
        (part.toRat - o.value * o.weight.toRat) / o.weight.toRat := by
      rw [sub_div, mul_div_cancel_right₀ _ hpos.ne']
    rw [add_zero, abs_mul, abs_of_pos hpos] at hnumer
    rw [hdiff, abs_div, abs_of_pos hpos, div_le_iff₀ hpos, mul_assoc]
    exact hnumer
  have hsize : |part.toRat / o.weight.toRat| ≤ 2 ^ 65 := by
    have htriangle := abs_sub_abs_le_abs_sub (part.toRat / o.weight.toRat) o.value
    unfold eps at hquot
    linarith
  have hdiv := div?_eq_value (a := ⟨part, o.weight, true⟩) hpos.ne'
    (le_trans hsize (by norm_num [limit]))
  have hround := (rounds_div? hdiv).2.abs_sub_le (by norm_num [eps])
  have hnear : |(value ⟨part, o.weight, true⟩).toRat - o.value| ≤ (1 : Nat) / (4 : Nat) := by
    have htriangle := abs_sub_le (value ⟨part, o.weight, true⟩).toRat
      (part.toRat / o.weight.toRat) o.value
    unfold eps at *
    push_cast
    linarith
  have hzero : roundHalfUp 1 4 = 0 := rfl
  obtain ⟨hlow, hhigh⟩ := round_between (by decide) hnear (le_refl _) (le_refl _)
  omega

/-- An average that forgets shows the value it sees. -/
theorem Forgets.round_value {a : Average} (h : a.Forgets o.policy o.gap) :
    (a.see o).value.round = o.value := by
  rw [h.see_eq_seed hvalue hpos]
  exact round_value_seed hvalue hpos

end

section

variable {a : Average} {o : Observation} (h : a.Forgets o.policy o.gap)
  (hconf : (o.conf : Int) ∈ IntRange.unsigned64)
include h hconf

theorem Forgets.toPrice (hvalue : o.value ∈ IntRange.signed64) :
    (a.see o).value.toPrice = o.value := by
  have hsize := Observation.abs_le_of_mem (.inl hvalue)
  exact toPrice_of_round (h.round_value hsize (weight_pos_of_mem hconf)) hvalue

theorem Forgets.toConf (hvalue : o.value ∈ IntRange.unsigned64) :
    ((a.see o).value.toConf : Int) = o.value := by
  have hsize := Observation.abs_le_of_mem (.inr hvalue)
  exact toConf_of_round (h.round_value hsize (weight_pos_of_mem hconf)) hvalue

end

end Average

namespace Book

/-! ## Aggregates -/

/-- Averages that forget show the aggregate they see. -/
theorem shown_of_forgets {b : Book} {policy : Policy} {e : Entry} (h : b.Moves policy e)
    (htwap : b.twap.Forgets policy.decay b.nextGap)
    (htwac : b.twac.Forgets policy.decay b.nextGap) :
    let a := (b.enter policy e).aggregate
    a.twap = a.price ∧ a.twac = a.conf := by
  obtain ⟨-, c, hc, h⟩ := (moves_cases b policy e).resolve_left fun hstays => hstays.1 h
  obtain ⟨hprice, hconf⟩ := mem_of_consensus? hc
  rw [h]
  constructor
  · exact Average.Forgets.toPrice (o := ⟨c.price, c.conf, b.nextGap, policy.decay⟩) htwap hconf
      hprice
  · exact Int.ofNat.inj (Average.Forgets.toConf (o := ⟨c.conf, c.conf, b.nextGap, policy.decay⟩)
      htwac hconf hconf)

end Book

namespace Board

/-- The averages of an instrument do not move before it trades. -/
theorem unmoved_of_no_trade {r : Registry} {i : Instrument} (hi : i ∈ r.instruments)
    (policy : Policy) {l : List Submission}
    (h : ∀ a ∈ (ofRegistry r policy).history i.account l, a.status ≠ .trading) :
    let b := Book.ofEntries i policy (i.entries l)
    b.lastTrading = none ∧ b.aggregate.status ≠ .trading := by
  induction l using List.reverseRecOn with
  | nil => exact ⟨rfl, nofun⟩
  | append_singleton l s ih =>
    have hbook := book?_run_ofRegistry hi policy (l ++ [s])
    rw [run_snoc] at hbook
    rw [history_snoc hbook] at h
    obtain ⟨hbefore, -⟩ := ih fun a ha => h a (List.mem_append_left _ ha)
    have hlast := h _ (List.mem_append_right _ List.mem_cons_self)
    refine ⟨?_, hlast⟩
    rw [i.entries_concat] at hlast ⊢
    cases he : i.entry? s with
    | none => rwa [Option.toList_none, List.append_nil]
    | some e =>
      rw [he, Option.toList_some, Book.ofEntries_concat] at hlast
      rw [Option.toList_some, Book.ofEntries_concat]
      rcases Book.enter_cases (Book.ofEntries i policy (i.entries l)) policy e with
        ⟨-, -, -, hstays⟩ | ⟨hmoves, -⟩
      · rw [hstays, hbefore]
      · exact absurd hmoves.1 hlast

/-! ## Top theorem -/

/-- **What starts an average afresh is shown as it is.** Whatever the state of the average, the
observation of an integer rounds back to it, as a price or as a confidence, whenever nothing before
it counts. So an aggregate of which both averages are made anew publishes its own price and
confidence as the averages: the first trading one of an instrument, and any that the averages see
across a gap above the longest one. -/
theorem shown_exactly_afresh :
    (∀ (a : Average) (policy : DecayPolicy) (v : Int) (conf gap : Nat),
      (conf : Int) ∈ IntRange.unsigned64 → a.Forgets policy gap →
      let shown := (a.observe policy (.ofInt v) conf gap).value
      (v ∈ IntRange.signed64 → shown.toPrice = v) ∧
        (v ∈ IntRange.unsigned64 → (shown.toConf : Int) = v)) ∧
    ∀ (r : Registry) (policy : Policy) (l : List Submission) (s : Submission) (done : Submitted)
      (later : Board),
      ((ofRegistry r policy).run l).submit s.account s.publisher s.quote = .ok (done, later) →
      done.aggregate.status = .trading →
      ∃ i ∈ r.instruments, ∃ e before, i.entry? s = some e ∧
        ((ofRegistry r policy).run l).book? i.account = some before ∧
        ((∀ a ∈ (ofRegistry r policy).history i.account l, a.status ≠ .trading) ∨
            ¬ before.Holds policy e ∧ policy.decay.maxGap < before.nextGap →
          done.aggregate.twap = done.aggregate.price ∧
            done.aggregate.twac = done.aggregate.conf) := by
  constructor
  · intro a policy v conf gap hconf h shown
    exact ⟨Average.Forgets.toPrice (o := ⟨v, conf, gap, policy⟩) h hconf,
      Average.Forgets.toConf (o := ⟨v, conf, gap, policy⟩) h hconf⟩
  · intro r policy l s done later hok htrading
    obtain ⟨i, hi, e, he, -, haggregate⟩ := exists_entry_of_submit hok
    have htimed := Book.timed_ofEntries i policy (i.entries l)
    refine ⟨i, hi, e, _, he, book?_run_ofRegistry hi policy l, fun hafresh => ?_⟩
    rw [← haggregate] at htrading ⊢
    rcases hafresh with hfirst | ⟨hnot, hlong⟩
    · obtain ⟨hunmoved, hidle⟩ := unmoved_of_no_trade hi policy hfirst
      have hnew : Option.isSome (Book.ofEntries i policy (i.entries l)).lastTrading = false := by
        rw [hunmoved]
        rfl
      have hnot : ¬ (Book.ofEntries i policy (i.entries l)).Holds policy e := fun h => hidle h.2.1
      exact Book.shown_of_forgets ⟨htrading, hnot⟩ (.inl (htimed.twap_seeded.trans hnew))
        (.inl (htimed.twac_seeded.trans hnew))
    · exact Book.shown_of_forgets ⟨htrading, hnot⟩ (.inr (.inl hlong)) (.inr (.inl hlong))

/-- The widest confidence seen across a long gap, and a quote in a book that a repeated one has
kept trading without a move: both averages show what they see last. -/
theorem shown_exactly_afresh_late :
    let a := Average.see {} ⟨7, 3, 0, {}⟩
    let widest : Nat := 18446744073709551615
    let l := [quoteOfAnn steadyQuote, quoteOfAnn steadyQuote]
    a.Forgets {} 5000 ∧ ((a.observe {} (.ofInt widest) widest 5000).value.toConf : Int) = widest ∧
      ∃ done later,
        ((ofRegistry soloRegistry impatient).run l).submit "px" (some "ann") changedQuote =
          .ok (done, later) ∧
        done.aggregate.status = .trading ∧ impatient.decay.maxGap < heldBook.nextGap ∧
        done.aggregate.twap = done.aggregate.price ∧ done.aggregate.twac = done.aggregate.conf := by
  intro a widest l
  obtain ⟨hvalues, hruns⟩ := shown_exactly_afresh
  have hforgets : a.Forgets {} 5000 := .inr (.inl (by decide))
  refine ⟨hforgets, ?_, ?_⟩
  · exact (hvalues a {} widest widest 5000 (by decide) hforgets).2 (by decide)
  · obtain ⟨done, later, hok, hdone, -⟩ := submit_changed (l := l) ofEntries_held
      (by decide +kernel) (by decide +kernel)
    have htrading : done.aggregate.status = .trading := hdone ▸ rfl
    obtain ⟨i, hi, e, before, he, hbefore, hshown⟩ :=
      hruns soloRegistry impatient _ (quoteOfAnn changedQuote) done later hok htrading
    obtain rfl := List.mem_singleton.1 hi
    obtain rfl : before = heldBook := by
      rw [← ofEntries_held]
      exact Option.some.inj (hbefore.symm.trans (book?_solo _))
    obtain rfl : e = ⟨"ann", changedQuote⟩ := Option.some.inj (he.symm.trans (by decide))
    have hlong : impatient.decay.maxGap < heldBook.nextGap := by decide +kernel
    exact ⟨done, later, hok, htrading, hlong, hshown (.inr ⟨by decide +kernel, hlong⟩)⟩

end Board

end PriceFeed
