import PriceFeed.Book
import PriceFeed.Proofs.Consensus

/-!
# What the aggregate of a book says

A submission is recorded and the aggregate is made anew, on one of three ways: without a consensus,
for a repeated quote among unchanged contributors, or by a fold into the averages
(`refresh_cases`). Whichever it is, the aggregate afterwards is settled: it is trading exactly with
a quorum of valid quotes and is then their consensus, and otherwise it is the last trading
aggregate under an idle status.

    b.valid policy = the bands of the standing quotes that are fresh and count         (valid_eq)
    b.Settled policy last →
      (b.submit policy p q).Settled policy (newer last (b.submit policy p q).aggregate)
                                                                               (Settled.submit)
-/

namespace PriceFeed

/-- The last trading aggregate once `a` has come after `last`. -/
def Aggregate.newer (last a : Aggregate) : Aggregate := if a.status = .trading then a else last

namespace Book

/-! ## What a submission leaves -/

/-- The three ways in which an aggregate is made anew. -/
theorem refresh_cases (b : Book) (policy : Policy) (repeated : Bool) :
    b.consensus? policy = none ∧ b.refresh policy repeated =
        { b with aggregate := { b.aggregate with status := b.idleStatus policy } } ∨
    ∃ c, b.consensus? policy = some c ∧
      ((repeated = true ∧ b.aggregate.status = .trading ∧ b.valid policy = b.contributors) ∧
          b.refresh policy repeated =
            { b with aggregate := { b.aggregate with price := c.price, conf := c.conf } } ∨
        ¬ (repeated = true ∧ b.aggregate.status = .trading ∧ b.valid policy = b.contributors) ∧
          b.refresh policy repeated = b.fold policy c) := by
  unfold refresh
  cases hc : b.consensus? policy with
  | none => exact .inl ⟨rfl, rfl⟩
  | some c =>
    refine .inr ⟨c, rfl, ?_⟩
    by_cases hr : repeated = true ∧ b.aggregate.status = .trading ∧ b.valid policy = b.contributors
    · exact .inl ⟨hr, if_pos hr⟩
    · exact .inr ⟨hr, if_neg hr⟩

/-- A refresh touches neither instrument nor quotes nor their numbers. -/
theorem refresh_frame (b : Book) (policy : Policy) (repeated : Bool) :
    (b.refresh policy repeated).instrument = b.instrument ∧
      (b.refresh policy repeated).quotes = b.quotes ∧
      (b.refresh policy repeated).seq = b.seq := by
  rcases refresh_cases b policy repeated with ⟨-, h⟩ | ⟨c, -, ⟨-, h⟩ | ⟨-, h⟩⟩ <;> rw [h]
  · exact ⟨rfl, rfl, rfl⟩
  · exact ⟨rfl, rfl, rfl⟩
  · exact ⟨rfl, rfl, rfl⟩

@[simp] theorem instrument_submit (b : Book) (policy : Policy) (p : String) (q : Quote) :
    (b.submit policy p q).instrument = b.instrument :=
  (refresh_frame ..).1

@[simp] theorem account_submit (b : Book) (policy : Policy) (p : String) (q : Quote) :
    (b.submit policy p q).account = b.account :=
  congrArg Instrument.account (instrument_submit ..)

@[simp] theorem seq_submit (b : Book) (policy : Policy) (p : String) (q : Quote) :
    (b.submit policy p q).seq = b.seq + 1 :=
  (refresh_frame ..).2.2

@[simp] theorem quotes_submit (b : Book) (policy : Policy) (p : String) (q : Quote) :
    (b.submit policy p q).quotes = b.quotes.put p { q with seq := b.seq + 1 } :=
  (refresh_frame ..).2.1

theorem fresh_congr {b b' : Book} (hq : b.quotes = b'.quotes) (hs : b.seq = b'.seq)
    (policy : Policy) : b.fresh policy = b'.fresh policy := by
  unfold fresh
  rw [hq, hs]

theorem fresh_refresh (b : Book) (policy : Policy) (repeated : Bool) :
    (b.refresh policy repeated).fresh policy = b.fresh policy :=
  fresh_congr (refresh_frame ..).2.1 (refresh_frame ..).2.2 policy

theorem valid_refresh (b : Book) (policy : Policy) (repeated : Bool) :
    (b.refresh policy repeated).valid policy = b.valid policy := by
  unfold valid
  rw [fresh_refresh]

theorem quorum_refresh (b : Book) (policy : Policy) (repeated : Bool) :
    (b.refresh policy repeated).quorum = b.quorum := by
  unfold quorum
  rw [(refresh_frame ..).1]

theorem idleStatus_refresh (b : Book) (policy : Policy) (repeated : Bool) :
    (b.refresh policy repeated).idleStatus policy = b.idleStatus policy := by
  unfold idleStatus
  rw [fresh_refresh]

/-- The quote just submitted is fresh, under any policy. -/
theorem fresh_submit_ne_nil (b : Book) (policy : Policy) (p : String) (q : Quote) :
    (b.submit policy p q).fresh policy ≠ [] := by
  apply List.ne_nil_of_mem (a := q)
  refine List.mem_map.2 ⟨(p, { q with seq := b.seq + 1 }), ?_, rfl⟩
  rw [List.mem_filter, quotes_submit, seq_submit]
  exact ⟨Keyed.mem_put_self .., by simp⟩

/-! ## Quotes that count -/

/-- A quote is fresh if it stands and at most `maxQuoteLag` submissions have come after it. -/
theorem mem_fresh_iff {b : Book} {policy : Policy} {q : Quote} :
    q ∈ b.fresh policy ↔
      ∃ e ∈ b.quotes, b.seq - e.2.seq ≤ policy.maxQuoteLag ∧ e.2.toQuote = q := by
  simp only [fresh, List.mem_map, List.mem_filter, decide_eq_true_eq, and_assoc]

/-- A quote counts if it is meant to trade, is narrow enough for its price, and has a band that
fits. -/
theorem counts_iff {policy : Policy} {q : Quote} :
    Counts policy q ↔ q.status = .trading ∧ q.Narrow policy.confDivisor ∧ q.band.Fits := by
  rw [Counts, Quote.effectiveStatus_eq_trading_iff, and_assoc]

/-- The valid bands are those of the standing quotes that are fresh and count, by publisher. -/
theorem valid_eq (b : Book) (policy : Policy) :
    b.valid policy = (b.quotes.filter fun e => b.seq - e.2.seq ≤ policy.maxQuoteLag ∧
      e.2.status = .trading ∧ e.2.Narrow policy.confDivisor ∧ e.2.band.Fits).map (·.2.band) := by
  rw [valid, fresh, List.filter_map, List.map_map, List.filter_filter]
  congr 1
  refine List.filter_congr fun e _ => ?_
  simp only [Function.comp_apply, counts_iff, ← Bool.decide_and, and_comm]

/-! ## Quorum and consensus -/

theorem fits_of_mem_valid {b : Book} {policy : Policy} {band : Band}
    (h : band ∈ b.valid policy) : band.Fits := by
  rw [valid_eq] at h
  obtain ⟨e, he, rfl⟩ := List.mem_map.1 h
  exact (of_decide_eq_true (List.mem_filter.1 he).2).2.2.2

theorem valid_ne_nil {b : Book} {policy : Policy} (h : b.quorum ≤ (b.valid policy).length) :
    b.valid policy ≠ [] := by
  intro hnil
  rw [hnil, quorum, List.length_nil] at h
  omega

/-- A quorum of valid quotes always has a consensus. -/
theorem consensus?_eq_none_iff {b : Book} {policy : Policy} :
    b.consensus? policy = none ↔ ¬ b.quorum ≤ (b.valid policy).length := by
  unfold consensus?
  split
  · next h =>
    rw [consensus_eq_some (valid_ne_nil h) fun _ => fits_of_mem_valid]
    simp [h]
  · next h => simp [h]

theorem consensus_of_consensus? {b : Book} {policy : Policy} {c : Band}
    (h : b.consensus? policy = some c) : consensus (b.valid policy) = some c := by
  unfold consensus? at h
  split at h
  · exact h
  · cases h

/-- A consensus has the range of prices and of confidences. -/
theorem mem_of_consensus? {b : Book} {policy : Policy} {c : Band}
    (h : b.consensus? policy = some c) :
    c.price ∈ IntRange.signed64 ∧ (c.conf : Int) ∈ IntRange.unsigned64 := by
  have hquorum := mt consensus?_eq_none_iff.2 (h ▸ Option.some_ne_none c)
  have hne := valid_ne_nil (Classical.not_not.1 hquorum)
  have hfit : ∀ band ∈ b.valid policy, band.Fits := fun _ => fits_of_mem_valid
  have hcons := consensus_of_consensus? h
  exact ⟨price_mem_of_consensus hne hfit hcons, conf_mem_of_consensus hne hfit hcons⟩

/-! ## Settled books -/

/-- What the aggregate of a book says, where `last` is the last trading one, itself included. -/
structure Settled (b : Book) (policy : Policy) (last : Aggregate) : Prop where
  trading_iff : b.aggregate.status = .trading ↔ b.quorum ≤ (b.valid policy).length
  agreed : b.aggregate.status = .trading →
    consensus (b.valid policy) = some ⟨b.aggregate.price, b.aggregate.conf⟩
  idle : b.aggregate.status ≠ .trading → b.aggregate.status = b.idleStatus policy
  kept : b.aggregate = { last with status := b.aggregate.status }
  current : b.aggregate.status = .trading → b.aggregate = last

theorem idleStatus_ne_trading (b : Book) (policy : Policy) : b.idleStatus policy ≠ .trading := by
  unfold idleStatus
  simp only
  split <;> decide

/-- With fresh quotes around, an idle book is halted exactly if all of them are halts. -/
theorem idleStatus_eq {b : Book} {policy : Policy} (h : b.fresh policy ≠ []) :
    b.idleStatus policy =
      if ∀ q ∈ b.fresh policy, q.status = .halted then .halted else .unknown := by
  have hne : (b.fresh policy).isEmpty = false := List.isEmpty_eq_false_iff.2 h
  simp [idleStatus, hne]

theorem settled_empty (i : Instrument) (policy : Policy) :
    Settled { instrument := i } policy {} where
  trading_iff := by simp [quorum, valid, fresh]
  agreed := nofun
  idle := fun _ => rfl
  kept := rfl
  current := nofun

theorem Settled.refresh {b : Book} {policy : Policy} {last : Aggregate}
    (h : b.aggregate = { last with status := b.aggregate.status }) (repeated : Bool) :
    (b.refresh policy repeated).Settled policy
      (last.newer (b.refresh policy repeated).aggregate) := by
  have hv := valid_refresh b policy repeated
  have hq := quorum_refresh b policy repeated
  have hi := idleStatus_refresh b policy repeated
  rcases refresh_cases b policy repeated with ⟨hn, hr⟩ | ⟨c, hc, hr⟩
  · -- no consensus: only the status is new
    have hidle : (b.refresh policy repeated).aggregate.status = b.idleStatus policy := by rw [hr]
    have hne := idleStatus_ne_trading b policy
    have hno := consensus?_eq_none_iff.1 hn
    refine ⟨?_, fun ht => absurd (hidle ▸ ht) hne, fun _ => by rw [hi, hidle], ?_,
      fun ht => absurd (hidle ▸ ht) hne⟩
    · rw [hv, hq, hidle]
      exact ⟨fun ht => absurd ht hne, fun hle => absurd hle hno⟩
    · rw [Aggregate.newer, if_neg (hidle ▸ hne), hr, h]
  · have hsome : b.quorum ≤ (b.valid policy).length := by
      apply Classical.byContradiction
      intro hno
      rw [consensus?_eq_none_iff.2 hno] at hc
      cases hc
    have hcons := consensus_of_consensus? hc
    have hagg : (b.refresh policy repeated).aggregate.status = .trading ∧
        (b.refresh policy repeated).aggregate.price = c.price ∧
        (b.refresh policy repeated).aggregate.conf = c.conf := by
      rcases hr with ⟨⟨-, ht, -⟩, hr⟩ | ⟨-, hr⟩ <;> rw [hr]
      · exact ⟨ht, rfl, rfl⟩
      · exact ⟨rfl, rfl, rfl⟩
    obtain ⟨ht, hp, hcf⟩ := hagg
    have hnew : last.newer (b.refresh policy repeated).aggregate =
        (b.refresh policy repeated).aggregate := if_pos ht
    refine ⟨?_, fun _ => by rw [hv, hp, hcf, hcons], fun hne => absurd ht hne, by rw [hnew],
      fun _ => hnew.symm⟩
    rw [hv, hq]
    exact ⟨fun _ => hsome, fun _ => ht⟩

/-- An aggregate that is looked at again is the last trading one, or none. -/
theorem Settled.newer_eq {b : Book} {policy : Policy} {last : Aggregate}
    (h : b.Settled policy last) : last.newer b.aggregate = last := by
  unfold Aggregate.newer
  split
  · next ht => exact h.current ht
  · rfl

theorem Settled.submit {b : Book} {policy : Policy} {last : Aggregate} (h : b.Settled policy last)
    (p : String) (q : Quote) :
    (b.submit policy p q).Settled policy (last.newer (b.submit policy p q).aggregate) :=
  Settled.refresh (b := b.record p q) h.kept _

end Book

end PriceFeed
