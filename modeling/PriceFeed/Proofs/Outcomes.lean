import PriceFeed.Proofs.Locality

/-!
# What a submission does

A submission is refused for the first of three reasons that applies; then nothing has changed, and
nobody hears of it. If it is accepted, only the book of its account changes, and of the quotes there
only the one of its publisher. The listener hears of the new aggregate just when it is not the one
before, so what it heard last is what there is to read.

    b.submit … = .error e ↔ Refused r s e                                 (Covers.refused_iff)
    what is heard is what the aggregate changed to                    (Covers.heardOf_outcome)
    what was heard last is what there is to read                          (read_eq_last_heard)
    all effects of a submission, after any run                            (submission_effects)
-/

namespace PriceFeed

namespace Board

/-! ## Refusals -/

/-- The error with which a submission for the instruments of a registry is refused. -/
inductive Refused (r : Registry) (s : Submission) : SubmitError → Prop
  | outOfRange : maxConf < s.quote.conf →
      Refused r s (.invalidParams s!"confidence {s.quote.conf} out of range")
  | unknown : s.quote.conf ≤ maxConf → (∀ i ∈ r.instruments, i.account ≠ s.account) →
      Refused r s (.unknownInstrument s.account)
  | unauthorized {i : Instrument} : s.quote.conf ≤ maxConf → i ∈ r.instruments →
      i.account = s.account → (∀ p ∈ i.publishers, s.publisher ≠ some p) →
      Refused r s (.unauthorized s.account s.publisher)

theorem not_authorized_iff {i : Instrument} {publisher : Option String} :
    (¬ ∃ p, publisher = some p ∧ i.isPublisher p = true) ↔
      ∀ p ∈ i.publishers, publisher ≠ some p := by
  unfold Instrument.isPublisher
  simp only [List.contains_iff_mem]
  constructor
  · exact fun h p hp he => h ⟨p, he, hp⟩
  · rintro h ⟨p, he, hp⟩
    exact h p hp he

theorem Covers.book?_eq_none {b : Board} {r : Registry} (h : b.Covers r) {account : String}
    (hunknown : ∀ i ∈ r.instruments, i.account ≠ account) : b.book? account = none := by
  refine List.find?_eq_none.2 fun book hbook hacc => ?_
  exact hunknown book.instrument (h ▸ List.mem_map_of_mem hbook) (of_decide_eq_true hacc)

/-- The first reason that applies is the one given. -/
theorem Covers.refused_iff {b : Board} {r : Registry} (h : b.Covers r) {s : Submission}
    {e : SubmitError} :
    b.submit s.account s.publisher s.quote = .error e ↔ Refused r s e := by
  by_cases hconf : maxConf < s.quote.conf
  · have hsubmit : b.submit s.account s.publisher s.quote =
        .error (.invalidParams s!"confidence {s.quote.conf} out of range") := by
      rw [Board.submit, accept, if_pos hconf]
      rfl
    rw [hsubmit, Except.error.injEq]
    constructor
    · rintro rfl
      exact .outOfRange hconf
    · rintro (- | ⟨hle, -⟩ | ⟨hle, -, -, -⟩)
      · rfl
      · omega
      · omega
  have hle : s.quote.conf ≤ maxConf := by omega
  by_cases hknown : ∃ i ∈ r.instruments, i.account = s.account
  · obtain ⟨i, hi, hacc⟩ := hknown
    rw [← hacc, h.submit_eq_error_iff hi hle, not_authorized_iff, hacc]
    constructor
    · rintro ⟨rfl, hnobody⟩
      exact .unauthorized hle hi hacc hnobody
    · rintro (hgt | ⟨-, hunknown⟩ | ⟨-, hj, hacc', hnobody⟩)
      · omega
      · exact absurd hacc (hunknown i hi)
      · rw [List.inj_on_of_nodup_map r.nodup_accounts hj hi (hacc'.trans hacc.symm)] at hnobody
        exact ⟨rfl, hnobody⟩
  · have hunknown : ∀ i ∈ r.instruments, i.account ≠ s.account := fun i hi hacc =>
      hknown ⟨i, hi, hacc⟩
    rw [submit_of_book?_none (h.book?_eq_none hunknown), if_neg hconf, Except.error.injEq]
    constructor
    · rintro rfl
      exact .unknown hle hunknown
    · rintro (hgt | - | ⟨-, hi, hacc, -⟩)
      · omega
      · rfl
      · exact absurd hacc (hunknown _ hi)

/-! ## Outcomes -/

variable {b : Board} {s : Submission}

theorem outcome_of_error {e : SubmitError}
    (h : b.submit s.account s.publisher s.quote = .error e) : b.outcome s = ⟨.error e, none⟩ := by
  rw [outcome, h]

theorem outcome_of_ok {done : Submitted} {later : Board}
    (h : b.submit s.account s.publisher s.quote = .ok (done, later)) :
    b.outcome s = ⟨.ok done, if done.changed = true then
      (later.book? s.account).map fun book => (book.instrument, done.aggregate) else none⟩ := by
  rw [outcome, h]

/-- Two aggregates differ in one of the published fields. -/
theorem aggregate_ne_iff {a a' : Aggregate} : a ≠ a' ↔ a.price ≠ a'.price ∨ a.conf ≠ a'.conf ∨
    a.status ≠ a'.status ∨ a.twap ≠ a'.twap ∨ a.twac ≠ a'.twac := by
  obtain ⟨price, conf, status, twap, twac⟩ := a
  obtain ⟨price', conf', status', twap', twac'⟩ := a'
  simp only [ne_eq, Aggregate.mk.injEq, not_and_or]

/-- An accepted submission changes the book of its account. -/
theorem books_of_ok {done : Submitted} {later : Board}
    (h : b.submit s.account s.publisher s.quote = .ok (done, later)) :
    ∃ old p, b.book? s.account = some old ∧ s.publisher = some p ∧
      old.instrument.isPublisher p = true ∧
      later.book? s.account = some (old.submit b.policy p s.quote) ∧
      (∀ account, account ≠ s.account → later.book? account = b.book? account) ∧
      done = ⟨(old.submit b.policy p s.quote).aggregate ≠ old.aggregate,
        (old.submit b.policy p s.quote).aggregate⟩ := by
  obtain ⟨old, p, hold, hp, hpublisher, -, rfl, rfl⟩ := submit_eq_ok h
  have hacc := (Book.account_submit old b.policy p s.quote).trans (account_of_book? hold)
  refine ⟨old, p, hold, hp, hpublisher, ?_, fun account hne => ?_, rfl⟩
  · rw [book?_replace hold hacc, if_pos rfl]
  · rw [book?_replace hold hacc, if_neg hne]

/-! ## What is heard -/

/-- The aggregate that is heard of an instrument. -/
def Outcome.heardOf (o : Outcome) (i : Instrument) : Option Aggregate :=
  (o.notice.filter (·.1 = i)).map (·.2)

/-- The aggregates that are heard of an instrument in the course of a run. -/
def heard (b : Board) (i : Instrument) (l : List Submission) : List Aggregate :=
  (b.outcomes l).filterMap (·.2.heardOf i)

theorem heard_concat (b : Board) (i : Instrument) (l : List Submission) (s : Submission) :
    b.heard i (l ++ [s]) = b.heard i l ++ (((b.run l).outcome s).heardOf i).toList := by
  unfold heard
  rw [outcomes_concat, List.filterMap_append]
  cases h : ((b.run l).outcome s).heardOf i <;> simp [h]

/-- What is heard of an instrument is the aggregate it changed to. -/
theorem Covers.heardOf_outcome {r : Registry} (h : b.Covers r) {i : Instrument}
    (hi : i ∈ r.instruments) :
    (b.outcome s).heardOf i = b.changedTo? (b.apply s) i.account := by
  cases hsubmit : b.submit s.account s.publisher s.quote with
  | error e =>
    rw [outcome_of_error hsubmit, apply_of_error hsubmit, changedTo?_self]
    rfl
  | ok result =>
    obtain ⟨done, later⟩ := result
    obtain ⟨old, p, hold, -, -, hlater, -⟩ := books_of_ok hsubmit
    have hinst : old.instrument = i ↔ i.account = s.account := by
      have hmem := h.mem_of_book? hold
      have hacc : old.instrument.account = s.account := account_of_book? hold
      constructor
      · rintro rfl
        exact hacc
      · exact fun hi' => List.inj_on_of_nodup_map r.nodup_accounts hmem hi (hacc.trans hi'.symm)
    rw [outcome_of_ok hsubmit, apply_of_ok hsubmit, changedTo?_submit hsubmit, hlater,
      Option.map_some, Book.instrument_submit, Outcome.heardOf]
    by_cases hchanged : done.changed = true
    · by_cases hacc : i.account = s.account
      · simp [hchanged, hinst, hacc]
      · simp [hchanged, hinst, hacc]
    · simp [hchanged]

/-- What was heard last of an instrument is what there is to read. -/
theorem read_eq_last_heard (r : Registry) (policy : Policy) {i : Instrument}
    (hi : i ∈ r.instruments) (l : List Submission) :
    ((ofRegistry r policy).run l).read i.account =
      .ok ((((ofRegistry r policy).heard i l).getLast?).getD {}) := by
  rw [← aggregate?_eq_some_iff]
  induction l using List.reverseRecOn with
  | nil => rw [aggregate?_eq, book?_run_ofRegistry hi]; rfl
  | append_singleton l s ih =>
    have hcovers := (covers_ofRegistry r policy).run l
    have hcovers' := (covers_ofRegistry r policy).run (l ++ [s])
    rw [run_snoc] at hcovers' ⊢
    obtain ⟨a, ha⟩ := hcovers'.exists_aggregate hi
    rw [heard_concat, hcovers.heardOf_outcome hi,
      aggregate?_of_changedTo? _ _ _ (Option.isSome_of_eq_some ha), ih]
    cases changedTo? _ _ i.account with
    | none => simp
    | some a' => simp

/-! ## Top theorem -/

/-- **What a submission does,** after any run. It is refused for the first reason that applies;
then no book changes and nobody hears of it. Otherwise the book of its account takes it as its next
one: the quote of its publisher becomes the submitted one with this number, and no other quote of
the book and no other book changes. The new aggregate is the one to read. It is reported as changed
and heard of, once, just when one of its fields is not what it was. So what was heard last of an
instrument is what there is to read, and zero if nothing was heard. -/
theorem submission_effects (r : Registry) (policy : Policy) (l : List Submission)
    (s : Submission) :
    let b := (ofRegistry r policy).run l
    (∀ e, b.submit s.account s.publisher s.quote = .error e ↔ Refused r s e) ∧
    (∀ e, b.submit s.account s.publisher s.quote = .error e →
      b.apply s = b ∧ (b.outcome s).notice = none) ∧
    (∀ done later, b.submit s.account s.publisher s.quote = .ok (done, later) →
      ∃ i ∈ r.instruments, ∃ p ∈ i.publishers, ∃ old new,
        i.account = s.account ∧ s.publisher = some p ∧ b.apply s = later ∧
        b.book? s.account = some old ∧ later.book? s.account = some new ∧
        (∀ account, account ≠ s.account → later.book? account = b.book? account) ∧
        old.instrument = i ∧ new.instrument = i ∧ new.seq = old.seq + 1 ∧
        new.quotes.get? p = some { s.quote with seq := old.seq + 1 } ∧
        (∀ p', p' ≠ p → new.quotes.get? p' = old.quotes.get? p') ∧
        ∃ before, b.read s.account = .ok before ∧ later.read s.account = .ok done.aggregate ∧
          (done.changed = true ↔
            done.aggregate.price ≠ before.price ∨ done.aggregate.conf ≠ before.conf ∨
              done.aggregate.status ≠ before.status ∨ done.aggregate.twap ≠ before.twap ∨
              done.aggregate.twac ≠ before.twac) ∧
          (b.outcome s).notice =
            if done.changed = true then some (i, done.aggregate) else none) ∧
    ∀ i ∈ r.instruments,
      b.read i.account = .ok ((((ofRegistry r policy).heard i l).getLast?).getD {}) := by
  intro b
  have hcovers : b.Covers r := (covers_ofRegistry r policy).run l
  refine ⟨fun e => hcovers.refused_iff, fun e h => ⟨apply_of_error h, ?_⟩,
    fun done later h => ?_, fun i hi => read_eq_last_heard r policy hi l⟩
  · rw [outcome_of_error h]
  · obtain ⟨old, p, hold, hp, hpublisher, hnew, hothers, rfl⟩ := books_of_ok h
    refine ⟨_, hcovers.mem_of_book? hold, p, List.contains_iff_mem.1 hpublisher, old, _,
      account_of_book? hold, hp, apply_of_ok h, hold, hnew, hothers, rfl,
      Book.instrument_submit .., Book.seq_submit .., ?_, fun p' hne => ?_, _,
      read_of_book? hold, read_of_book? hnew, ?_, ?_⟩
    · rw [Book.quotes_submit, Keyed.get?_put_self]
    · rw [Book.quotes_submit, Keyed.get?_put_of_ne hne]
    · exact decide_eq_true_iff.trans aggregate_ne_iff
    · rw [outcome_of_ok h, hnew, Option.map_some, Book.instrument_submit]

/-- The publisher of one instrument is refused for another one, whose own publisher is not; and that
leaves the first instrument alone. -/
theorem submission_effects_mixed :
    let b := (ofRegistry twoRegistry {}).run (mixedRun.take 1)
    b.submit "py" (some "ann") ⟨60, 1, .trading⟩ = .error (.unauthorized "py" (some "ann")) ∧
      ∃ done later new, b.submit "py" (some "bob") ⟨50, 1, .trading⟩ = .ok (done, later) ∧
        later.read "py" = .ok done.aggregate ∧ later.book? "px" = b.book? "px" ∧
        later.book? "py" = some new ∧
        new.quotes.get? "bob" = some { (⟨50, 1, .trading⟩ : Quote) with seq := new.seq } := by
  intro b
  obtain ⟨hrefused, -⟩ :=
    submission_effects twoRegistry {} (mixedRun.take 1) ⟨"py", some "ann", ⟨60, 1, .trading⟩⟩
  obtain ⟨hrefused', -, haccepted, -⟩ :=
    submission_effects twoRegistry {} (mixedRun.take 1) ⟨"py", some "bob", ⟨50, 1, .trading⟩⟩
  refine ⟨(hrefused _).2 (.unauthorized (by decide)
    (List.mem_cons_of_mem _ List.mem_cons_self) rfl (by decide)), ?_⟩
  cases hok : b.submit "py" (some "bob") ⟨50, 1, .trading⟩ with
  | error e =>
    -- none of the three reasons applies
    cases (hrefused' e).1 hok with
    | outOfRange h => exact absurd h (by decide)
    | unknown _ h => exact absurd h (by decide)
    | unauthorized _ hi hacc h =>
      rcases List.mem_pair.1 hi with rfl | rfl
      · exact absurd hacc (by decide)
      · exact absurd h (by decide)
  | ok result =>
    obtain ⟨done, later⟩ := result
    obtain ⟨i, hi, p, -, old, new, -, hp, -, -, hnew, hothers, -, -, hseq, hquote, -, before, -,
      hread, -⟩ := haccepted done later hok
    obtain rfl : "bob" = p := Option.some.inj hp
    exact ⟨done, later, new, rfl, hread, hothers "px" (by decide), hnew, hseq ▸ hquote⟩

end Board

end PriceFeed
