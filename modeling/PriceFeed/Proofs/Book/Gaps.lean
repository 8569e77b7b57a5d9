import PriceFeed.Proofs.Averages
import PriceFeed.Proofs.Book.Numbers
import PriceFeed.Proofs.Consensus.Ranks

/-!
# Gaps between moves of the averages

Both averages of a book move with each entry that makes a trading aggregate, unless it repeats a
quote while the contributors stay. The gap that decides whether an average goes on or starts afresh
is counted from the last move. A repeated quote keeps the book trading without moving anything, so
an average can start afresh right after a trading aggregate (`repeated_quote_restarts`).

    an entry moves both averages, or leaves them as they are                       (enter_cases)
    the gap is at most `n` exactly if one of the last `n` entries moved them   (lately_moves_iff)
    a move starts an average afresh exactly after a longer gap, or on overflow
                                                                             (restarts_after_gap)
-/

namespace PriceFeed

open Decimal

namespace Average

/-! ## Starting afresh -/

/-- The observation starts the average afresh. -/
def Restarts (a : Average) (o : Observation) : Prop := a.folded? o = none

/-- The sums with one more observation, if they have decimals. -/
def foldedSums? (a : Average) (o : Observation) : Option (Decimal × Decimal) := do
  let keep ← o.decay?
  let numer ← (← a.numer.mul? keep).add? (← (ofInt o.value).mul? o.weight)
  let denom ← (← a.denom.mul? keep).add? o.weight
  return (numer, denom)

/-- The sums with one more observation are too large for decimals. -/
def Overflows (a : Average) (o : Observation) : Prop := a.foldedSums? o = none

instance (a : Average) (o : Observation) : Decidable (a.Restarts o) :=
  inferInstanceAs (Decidable (_ = _))

instance (a : Average) (o : Observation) : Decidable (a.Overflows o) :=
  inferInstanceAs (Decidable (_ = _))

theorem bind_fold?_eq (a : Average) (o : Observation) :
    o.decay?.bind (a.fold? (ofInt o.value) o.weight) =
      (a.foldedSums? o).bind fun s =>
        if s.2.isZero then none else some { a with numer := s.1, denom := s.2 } := by
  simp only [foldedSums?, fold?, bind, Option.bind_assoc, pure, Option.bind_some]
  rfl

/-- The weights add up to a decimal that is not negative. -/
structure Weighed (a : Average) : Prop where
  valid : a.denom.Valid
  nonneg : 0 ≤ a.denom.toRat

theorem weighed_new : Weighed {} := ⟨valid_zero, toRat_zero.ge⟩

section

variable {a : Average} {o : Observation} (ha : a.Weighed) (ho : 0 < o.weight.toRat)
include ha ho

theorem Weighed.see : (a.see o).Weighed := by
  rw [see_eq]
  cases h : a.folded? o with
  | none =>
    rw [Option.getD_none, seed]
    split
    · exact ⟨valid_weight o.conf, ho.le⟩
    · exact ⟨valid_one, by rw [toRat_one]; norm_num⟩
  | some a' =>
    obtain ⟨_, _, _, _, denom, -, -, -, hdenom, hdenom'⟩ := folded?_spec h
    exact ⟨hdenom'.valid, hdenom'.nonneg
      (add_nonneg (hdenom.nonneg (mul_nonneg ha.nonneg o.keep_nonneg)) ho.le)⟩

/-- With a positive weight there is something to divide by. -/
theorem Weighed.denom_pos {s : Decimal × Decimal} (h : a.foldedSums? o = some s) :
    0 < s.2.toRat := by
  unfold foldedSums? at h
  obtain ⟨keep, hkeep, h⟩ := Option.bind_eq_some_iff.1 h
  obtain ⟨numer, -, h⟩ := Option.bind_eq_some_iff.1 h
  obtain ⟨part, -, h⟩ := Option.bind_eq_some_iff.1 h
  obtain ⟨numer', -, h⟩ := Option.bind_eq_some_iff.1 h
  obtain ⟨denom, hdenom, h⟩ := Option.bind_eq_some_iff.1 h
  obtain ⟨denom', hdenom', h⟩ := Option.bind_eq_some_iff.1 h
  cases h
  have hkept := (rounds_mul? hdenom).nonneg (mul_nonneg ha.nonneg (decay?_bounds hkeep).2.1)
  have hsum := rounds_add? (rounds_mul? hdenom).valid (valid_weight o.conf) hdenom'
  have hle : o.weight.toRat ≤ 2 := le_of_abs_le (abs_weight_le o.conf)
  exact lt_of_lt_of_le ho
    (hsum.le_of_le (add_nonneg hkept ho.le) (le_add_of_nonneg_left hkept) (by linarith))

/-- An average starts afresh if it is new, after a gap that is too long, or on overflow. -/
theorem Weighed.restarts_iff :
    a.Restarts o ↔ ¬ (a.seeded = true ∧ o.gap ≤ o.policy.maxGap) ∨ a.Overflows o := by
  unfold Restarts Overflows folded?
  by_cases hgap : a.seeded = true ∧ o.gap ≤ o.policy.maxGap
  · rw [if_pos (by simpa using hgap), bind_fold?_eq]
    simp only [hgap, and_self, not_true_eq_false, false_or]
    cases h : a.foldedSums? o with
    | none => simp
    | some s =>
      have hzero : s.2.isZero = false :=
        Bool.eq_false_iff.2 fun hz => (ha.denom_pos ho h).ne' (isZero_iff.1 hz)
      simp [hzero]
  · rw [if_neg (by simpa using hgap)]
    simp [hgap]

end

theorem seeded_see (a : Average) (o : Observation) : (a.see o).seeded = true := by
  rw [see_eq]
  cases h : a.folded? o with
  | none =>
    rw [Option.getD_none, seed]
    split <;> rfl
  | some a' =>
    unfold folded? at h
    split at h
    · next hc =>
      rw [bind_fold?_eq] at h
      obtain ⟨s, -, h⟩ := Option.bind_eq_some_iff.1 h
      split at h
      · cases h
      · cases h
        exact (Bool.and_eq_true_iff.1 hc).1
    · cases h

end Average

namespace Book

/-! ## Moves -/

/-- The entry makes a trading aggregate. -/
def Trades (b : Book) (policy : Policy) (e : Entry) : Prop :=
  (b.enter policy e).aggregate.status = .trading

/-- The entry repeats a quote of a trading book, whose contributors stay. -/
def Holds (b : Book) (policy : Policy) (e : Entry) : Prop :=
  b.repeats e.publisher e.quote = true ∧ b.aggregate.status = .trading ∧
    (b.record e.publisher e.quote).valid policy = b.contributors

/-- The entry moves the averages. -/
def Moves (b : Book) (policy : Policy) (e : Entry) : Prop := b.Trades policy e ∧ ¬ b.Holds policy e

/-- The entries since the averages last moved, the next one included; zero before any move. -/
def nextGap (b : Book) : Nat := (b.lastTrading.map (b.seq + 1 - ·)).getD 0

/-- What the average price sees of an aggregate. -/
def priceSeen (b : Book) (policy : Policy) (a : Aggregate) : Observation :=
  ⟨a.price, a.conf, b.nextGap, policy.decay⟩

/-- What the average confidence sees of an aggregate. -/
def confSeen (b : Book) (policy : Policy) (a : Aggregate) : Observation :=
  ⟨a.conf, a.conf, b.nextGap, policy.decay⟩

instance (b : Book) (policy : Policy) (e : Entry) : Decidable (b.Holds policy e) :=
  inferInstanceAs (Decidable (_ ∧ _ ∧ _))

/-- An entry that moves the averages folds a consensus into them; any other changes the aggregate
alone. -/
theorem moves_cases (b : Book) (policy : Policy) (e : Entry) :
    ¬ b.Moves policy e ∧
        (∃ a, b.enter policy e = { b.record e.publisher e.quote with aggregate := a }) ∨
      b.Moves policy e ∧ ∃ c, (b.record e.publisher e.quote).consensus? policy = some c ∧
        b.enter policy e = (b.record e.publisher e.quote).fold policy c := by
  unfold Moves Trades enter submit
  rcases refresh_cases (b.record e.publisher e.quote) policy (b.repeats e.publisher e.quote) with
    ⟨-, h⟩ | ⟨c, hc, ⟨hheld, h⟩ | ⟨hnot, h⟩⟩ <;> rw [h]
  · exact .inl ⟨fun hmoves => idleStatus_ne_trading _ _ hmoves.1, _, rfl⟩
  · exact .inl ⟨fun hmoves => hmoves.2 hheld, _, rfl⟩
  · exact .inr ⟨⟨rfl, hnot⟩, c, hc, rfl⟩

/-- All that an entry does to the averages. -/
theorem enter_cases (b : Book) (policy : Policy) (e : Entry) :
    let after := b.enter policy e
    ¬ b.Moves policy e ∧
        (after.twap = b.twap ∧ after.twac = b.twac ∧ after.lastTrading = b.lastTrading) ∨
      b.Moves policy e ∧
        (after.twap = b.twap.see (b.priceSeen policy after.aggregate) ∧
          after.twac = b.twac.see (b.confSeen policy after.aggregate) ∧
          after.lastTrading = some (b.seq + 1) ∧
          (after.aggregate.conf : Int) ∈ IntRange.unsigned64) := by
  intro after
  rcases moves_cases b policy e with ⟨hstays, a, h⟩ | ⟨hmoves, c, hc, h⟩ <;> change after = _ at h
  · exact .inl ⟨hstays, by rw [h]; exact ⟨rfl, rfl, rfl⟩⟩
  · have hband : after.aggregate.conf = c.conf := by rw [h]; rfl
    have hconf := (mem_of_consensus? hc).2
    refine .inr ⟨hmoves, ?_, ?_, ?_, hband ▸ hconf⟩ <;> rw [h] <;> rfl

section

variable {b : Book} {policy : Policy} {e : Entry} {c : Band}
  (hvalid : (b.record e.publisher e.quote).valid policy = [c]) (hquorum : b.quorum = 1)
include hvalid hquorum

/-- A single valid quote is the consensus. -/
theorem consensus?_record_of_single : (b.record e.publisher e.quote).consensus? policy = some c := by
  have hfits : c.Fits := fits_of_mem_valid (hvalid.symm ▸ List.mem_cons_self)
  have hle : (b.record e.publisher e.quote).quorum ≤ [c].length := hquorum.le
  rw [consensus?, hvalid, if_pos hle, consensus_singleton hfits]

theorem enter_eq_fold (hnot : ¬ b.Holds policy e) :
    b.enter policy e = (b.record e.publisher e.quote).fold policy c := by
  rw [enter, submit, refresh, consensus?_record_of_single hvalid hquorum]
  exact if_neg hnot

theorem enter_eq_held (hholds : b.Holds policy e) :
    b.enter policy e = { b.record e.publisher e.quote with
      aggregate := { b.aggregate with price := c.price, conf := c.conf } } := by
  rw [enter, submit, refresh, consensus?_record_of_single hvalid hquorum]
  exact if_pos hholds

end

/-- Averages are seeded by the first move, and keep a denominator to divide by. -/
structure Timed (b : Book) : Prop where
  twap_seeded : b.twap.seeded = b.lastTrading.isSome
  twac_seeded : b.twac.seeded = b.lastTrading.isSome
  twap : b.twap.Weighed
  twac : b.twac.Weighed

theorem timed_empty (i : Instrument) : Timed { instrument := i } :=
  ⟨rfl, rfl, Average.weighed_new, Average.weighed_new⟩

theorem Timed.enter {b : Book} (h : b.Timed) (policy : Policy) (e : Entry) :
    (b.enter policy e).Timed := by
  rcases enter_cases b policy e with ⟨-, htwap, htwac, hlast⟩ | ⟨-, htwap, htwac, hlast, hconf⟩
  · constructor
    · rw [htwap, hlast, h.twap_seeded]
    · rw [htwac, hlast, h.twac_seeded]
    · exact htwap ▸ h.twap
    · exact htwac ▸ h.twac
  · have hpos := weight_pos_of_mem hconf
    constructor
    · rw [htwap, hlast, Average.seeded_see, Option.isSome_some]
    · rw [htwac, hlast, Average.seeded_see, Option.isSome_some]
    · exact htwap ▸ h.twap.see hpos
    · exact htwac ▸ h.twac.see hpos

theorem timed_ofEntries (i : Instrument) (policy : Policy) (l : List Entry) :
    (ofEntries i policy l).Timed := by
  induction l using List.reverseRecOn with
  | nil => exact timed_empty i
  | append_singleton l e ih => exact ofEntries_concat i policy l e ▸ ih.enter policy e

/-! ## The last moves -/

/-- One of the last `n` entries did `p` to the book of those before it. -/
def Lately (i : Instrument) (policy : Policy) (p : Book → Entry → Prop) (n : Nat)
    (l : List Entry) : Prop :=
  ∃ pre e post, l = pre ++ e :: post ∧ post.length < n ∧ p (ofEntries i policy pre) e

theorem lately_concat {i : Instrument} {policy : Policy} {p : Book → Entry → Prop} {n : Nat}
    {l : List Entry} {e : Entry} :
    Lately i policy p n (l ++ [e]) ↔
      0 < n ∧ p (ofEntries i policy l) e ∨ Lately i policy p (n - 1) l := by
  constructor
  · rintro ⟨pre, e', post, hl, hn, hp⟩
    rcases List.eq_nil_or_concat post with rfl | ⟨post, last, rfl⟩
    · obtain ⟨rfl, he⟩ := List.append_inj' hl rfl
      cases he
      exact .inl ⟨hn, hp⟩
    · rw [List.concat_eq_append, ← List.cons_append, ← List.append_assoc] at hl
      obtain ⟨rfl, -⟩ := List.append_inj' hl rfl
      rw [List.concat_eq_append, List.length_append, List.length_singleton] at hn
      exact .inr ⟨pre, e', post, rfl, by omega, hp⟩
  · rintro (⟨hn, hp⟩ | ⟨pre, e', post, rfl, hn, hp⟩)
    · exact ⟨l, e, [], rfl, hn, hp⟩
    · refine ⟨pre, e', post ++ [e], by simp, ?_, hp⟩
      rw [List.length_append, List.length_singleton]
      omega

/-- One of the last `n` entries moved the averages exactly if the gap is at most `n`. -/
theorem lately_moves_iff {i : Instrument} {policy : Policy} (n : Nat) {l : List Entry} :
    Lately i policy (·.Moves policy) n l ↔
      (ofEntries i policy l).lastTrading.isSome = true ∧ (ofEntries i policy l).nextGap ≤ n := by
  induction l using List.reverseRecOn generalizing n with
  | nil =>
    constructor
    · rintro ⟨pre, e, post, hl, -⟩
      simp at hl
    · rintro ⟨h, -⟩
      cases h
  | append_singleton l e ih =>
    rw [lately_concat, or_congr_right (ih (n - 1)), ofEntries_concat]
    unfold nextGap
    rw [seq_enter, seq_ofEntries]
    have hle (k : Nat) (hk : (ofEntries i policy l).lastTrading = some k) : k ≤ l.length :=
      le_of_lastTrading hk
    rcases enter_cases (ofEntries i policy l) policy e with ⟨hm, -, -, hlast⟩ | ⟨hm, -, -, hlast, -⟩
    · rw [hlast]
      cases hk : (ofEntries i policy l).lastTrading with
      | none => simp [hm]
      | some k =>
        have := hle k hk
        simp only [hm, and_false, false_or, Option.isSome_some, true_and, Option.map_some,
          Option.getD_some]
        omega
    · rw [hlast, seq_ofEntries]
      simp only [hm, and_true, Option.isSome_some, true_and, Option.map_some, Option.getD_some]
      cases hk : (ofEntries i policy l).lastTrading with
      | none =>
        simp only [Option.isSome_none, Bool.false_eq_true, false_and, or_false]
        omega
      | some k =>
        have := hle k hk
        simp only [Option.isSome_some, true_and, Option.map_some, Option.getD_some]
        omega

/-- What an observation across the next gap does to an average of the book. -/
theorem restarts_iff_lately {i : Instrument} {policy : Policy} {l : List Entry} {a : Average}
    {o : Observation} (ha : a.Weighed) (ho : (o.conf : Int) ∈ IntRange.unsigned64)
    (hseeded : a.seeded = (ofEntries i policy l).lastTrading.isSome)
    (hgap : o.gap = (ofEntries i policy l).nextGap) :
    a.Restarts o ↔
      ¬ Lately i policy (·.Moves policy) o.policy.maxGap l ∨ a.Overflows o := by
  rw [ha.restarts_iff (weight_pos_of_mem ho), hseeded, hgap, lately_moves_iff]

end Book

namespace Board

/-! ## Top theorem -/

/-- **Averages start afresh after a gap without moves.** An accepted submission that makes a
trading aggregate either repeats a quote and leaves both averages as they were, or lets both see
the aggregate. Then an average goes on if one of the last `maxGap` entries has moved it, unless its
sums overflow, and starts afresh if none has. -/
theorem restarts_after_gap (r : Registry) (policy : Policy) (l : List Submission) (s : Submission)
    (done : Submitted) (later : Board)
    (hok : ((ofRegistry r policy).run l).submit s.account s.publisher s.quote = .ok (done, later))
    (htrading : done.aggregate.status = .trading) :
    ∃ i ∈ r.instruments, ∃ e before after, i.entry? s = some e ∧
      ((ofRegistry r policy).run l).book? i.account = some before ∧
      later.book? i.account = some after ∧ after.aggregate = done.aggregate ∧
      (before.Holds policy e → after.twap = before.twap ∧ after.twac = before.twac) ∧
      (¬ before.Holds policy e →
        let price := before.priceSeen policy done.aggregate
        let conf := before.confSeen policy done.aggregate
        let recent :=
          Book.Lately i policy (·.Moves policy) policy.decay.maxGap (i.entries l)
        after.twap = before.twap.see price ∧ after.twac = before.twac.see conf ∧
          (before.twap.Restarts price ↔ ¬ recent ∨ before.twap.Overflows price) ∧
          (before.twac.Restarts conf ↔ ¬ recent ∨ before.twac.Overflows conf)) := by
  obtain ⟨i, hi, e, he, hlater, haggregate⟩ := exists_entry_of_submit hok
  have htimed := Book.timed_ofEntries i policy (i.entries l)
  refine ⟨i, hi, e, _, _, he, book?_run_ofRegistry hi policy l, hlater, haggregate, ?_⟩
  rw [← haggregate] at htrading ⊢
  rcases Book.enter_cases (Book.ofEntries i policy (i.entries l)) policy e with
    ⟨hstays, htwap, htwac, -⟩ | ⟨hmoves, htwap, htwac, -, hconf⟩
  · exact ⟨fun _ => ⟨htwap, htwac⟩, fun hnot => absurd ⟨htrading, hnot⟩ hstays⟩
  · exact ⟨fun hholds => absurd hholds hmoves.2, fun _ => ⟨htwap, htwac,
      Book.restarts_iff_lately htimed.twap hconf htimed.twap_seeded rfl,
      Book.restarts_iff_lately htimed.twac hconf htimed.twac_seeded rfl⟩⟩

/-! ## Repeated quotes -/

/-- An instrument with one publisher. -/
def solo : Instrument := ⟨"px", "LTC", "prod", -2, .price, ["ann"], 1⟩

def soloRegistry : Registry where
  instruments := [solo]
  products := [⟨"prod", [], ["px"]⟩]
  nodup_accounts := by decide

/-- Averages go on from one entry to the next only. -/
def impatient : Policy := { decay := { maxGap := 1 } }

def steadyQuote : Quote := ⟨100, 1, .trading⟩

def changedQuote : Quote := ⟨200, 4, .trading⟩

def quoteOfAnn (q : Quote) : Submission := ⟨"px", some "ann", q⟩

/-- The book after the first quote. -/
def openedBook : Book :=
  (({ instrument := solo } : Book).record "ann" steadyQuote).fold impatient steadyQuote.band

/-- The book after the same quote once more. -/
def heldBook : Book :=
  { openedBook.record "ann" steadyQuote with
    aggregate := { openedBook.aggregate with price := 100, conf := 1 } }

theorem ofEntries_opened :
    Book.ofEntries solo impatient [⟨"ann", steadyQuote⟩] = openedBook := by
  show ({ instrument := solo } : Book).enter impatient ⟨"ann", steadyQuote⟩ = _
  unfold openedBook
  refine Book.enter_eq_fold ?_ ?_ ?_ <;> decide +kernel

theorem ofEntries_held :
    Book.ofEntries solo impatient [⟨"ann", steadyQuote⟩, ⟨"ann", steadyQuote⟩] = heldBook := by
  show (Book.ofEntries solo impatient [⟨"ann", steadyQuote⟩]).enter impatient _ = _
  rw [ofEntries_opened]
  unfold heldBook
  refine Book.enter_eq_held (c := ⟨100, 1⟩) ?_ ?_ ?_ <;> decide +kernel

theorem book?_solo (l : List Submission) :
    ((ofRegistry soloRegistry impatient).run l).book? "px" =
      some (Book.ofEntries solo impatient (solo.entries l)) :=
  book?_run_ofRegistry (r := soloRegistry) (i := solo) List.mem_cons_self impatient l

/-- The changed quote is folded in as it is, whatever stands in the book. -/
theorem submit_changed {l : List Submission} {book : Book}
    (hbook : Book.ofEntries solo impatient (solo.entries l) = book)
    (hvalid : (book.record "ann" changedQuote).valid impatient = [changedQuote.band])
    (hnot : ¬ book.Holds impatient ⟨"ann", changedQuote⟩) :
    let after := (book.record "ann" changedQuote).fold impatient changedQuote.band
    ∃ done later,
      ((ofRegistry soloRegistry impatient).run l).submit "px" (some "ann") changedQuote =
        .ok (done, later) ∧
      done.aggregate = after.aggregate ∧ later.book? "px" = some after := by
  intro after
  have hinst : book.instrument = solo := hbook ▸ Book.instrument_ofEntries ..
  have hsolo := hbook ▸ book?_solo l
  have hafter : book.enter impatient ⟨"ann", changedQuote⟩ = after :=
    Book.enter_eq_fold hvalid (by rw [Book.quorum, hinst]; rfl) hnot
  have hsubmit := submit_of_book? (s := quoteOfAnn changedQuote) hsolo
  have hentry : solo.entry? (quoteOfAnn changedQuote) = some ⟨"ann", changedQuote⟩ := by decide
  rw [hinst, hentry, policy_run] at hsubmit
  refine ⟨_, _, hsubmit, congrArg Book.aggregate hafter, ?_⟩
  exact (book?_setBook_enter hsolo impatient _).trans (congrArg some hafter)

/-- One entry later is soon enough for the average to go on. -/
theorem restarts_after_gap_soon :
    ∃ done later,
      ((ofRegistry soloRegistry impatient).run [quoteOfAnn steadyQuote]).submit "px" (some "ann")
        changedQuote = .ok (done, later) ∧
      done.aggregate.status = .trading ∧
      ¬ openedBook.twap.Restarts (openedBook.priceSeen impatient done.aggregate) := by
  obtain ⟨done, later, hok, hdone, -⟩ := submit_changed (l := [quoteOfAnn steadyQuote])
    ofEntries_opened (by decide +kernel) (by decide +kernel)
  have htrading : done.aggregate.status = .trading := hdone ▸ rfl
  obtain ⟨i, hi, e, before, after, he, hbefore, -, -, -, hmoved⟩ :=
    restarts_after_gap soloRegistry impatient _ (quoteOfAnn changedQuote) done later hok htrading
  obtain rfl := List.mem_singleton.1 hi
  obtain rfl : before = openedBook := by
    rw [← ofEntries_opened]
    exact Option.some.inj (hbefore.symm.trans (book?_solo _))
  obtain rfl : e = ⟨"ann", changedQuote⟩ := Option.some.inj (he.symm.trans (by decide))
  obtain ⟨-, -, hrestarts, -⟩ := hmoved (by decide +kernel)
  refine ⟨done, later, hok, htrading, fun h => ?_⟩
  rcases hrestarts.1 h with hlong | hover
  · refine hlong ⟨[], ⟨"ann", steadyQuote⟩, [], rfl, by decide, ?_, by decide +kernel⟩
    show (Book.ofEntries solo impatient [⟨"ann", steadyQuote⟩]).aggregate.status = _
    rw [ofEntries_opened]
    rfl
  · rw [hdone] at hover
    exact absurd hover (by decide +kernel)

/-- A repeated quote keeps the book trading but lets the gap grow: the next quote starts both
averages afresh, right after a trading aggregate and without an overflow. Across a gap of one both
would have gone on. -/
theorem repeated_quote_restarts :
    let l := [quoteOfAnn steadyQuote, quoteOfAnn steadyQuote]
    ∃ done later after,
      ((ofRegistry soloRegistry impatient).run l).submit "px" (some "ann") changedQuote =
        .ok (done, later) ∧
      done.aggregate = ⟨200, 4, .trading, 200, 4⟩ ∧
      Book.Lately solo impatient (·.Trades impatient) impatient.decay.maxGap (solo.entries l) ∧
      ((ofRegistry soloRegistry impatient).run l).book? "px" = some heldBook ∧
      later.book? "px" = some after ∧
      after.twap = Average.seed (.ofInt 200) (weight 4) ∧
      after.twac = Average.seed (.ofInt 4) (weight 4) ∧
      heldBook.twap.Restarts (heldBook.priceSeen impatient done.aggregate) ∧
      heldBook.twac.Restarts (heldBook.confSeen impatient done.aggregate) ∧
      ¬ heldBook.twap.Overflows (heldBook.priceSeen impatient done.aggregate) ∧
      ¬ heldBook.twac.Overflows (heldBook.confSeen impatient done.aggregate) ∧
      (heldBook.twap.see ⟨200, 4, 1, impatient.decay⟩).value.toPrice = 120 ∧
      (heldBook.twac.see ⟨4, 4, 1, impatient.decay⟩).value.toConf = 2 := by
  intro l
  obtain ⟨done, later, hok, hdone, hlater⟩ := submit_changed (l := l) ofEntries_held
    (by decide +kernel) (by decide +kernel)
  refine ⟨done, later, _, hok, ?_, ?_, ?_, hlater, ?_⟩
  · rw [hdone]
    decide +kernel
  · refine ⟨[⟨"ann", steadyQuote⟩], ⟨"ann", steadyQuote⟩, [], rfl, by decide, ?_⟩
    show (Book.ofEntries solo impatient [⟨"ann", steadyQuote⟩, _]).aggregate.status = _
    rw [ofEntries_held]
    rfl
  · exact (book?_solo l).trans (congrArg some ofEntries_held)
  · rw [hdone]
    decide +kernel

end Board

end PriceFeed
