import PriceFeed.Proofs.Board

/-!
# Books by themselves

The books of a board do not know of each other. An instrument takes the quotes that are submitted
for its account by one of its publishers, with a confidence in range: its entries. After any run of
submissions each book is made of the entries of its instrument alone, in their order
(`run_ofRegistry`), so it does not matter what was submitted for other accounts in between, nor
when.

    b.book? s.account = some book → b.submit … is book.enter … if s is an entry, and an error if not
                                                                               (submit_of_book?)
    b.apply s = { b with books := b.books.map (·.receive b.policy s) }             (Covers.apply_eq)
    submissions for different accounts can change places                         (submissions_local)
-/

namespace PriceFeed

/-- A quote by a publisher. -/
structure Entry where
  publisher : String
  quote : Quote
  deriving DecidableEq, Repr

namespace Instrument

/-- The entry that a submission makes for the instrument, if it is accepted. -/
def entry? (i : Instrument) (s : Submission) : Option Entry :=
  if s.account = i.account ∧ s.quote.conf ≤ Board.maxConf then
    (s.publisher.filter i.isPublisher).map fun p => ⟨p, s.quote⟩
  else none

/-- The entries of the instrument in a run of submissions. -/
def entries (i : Instrument) (l : List Submission) : List Entry := l.filterMap i.entry?

theorem entry?_eq_some_iff {i : Instrument} {s : Submission} {e : Entry} :
    i.entry? s = some e ↔ s.account = i.account ∧ s.quote.conf ≤ Board.maxConf ∧
      s.publisher = some e.publisher ∧ i.isPublisher e.publisher = true ∧ s.quote = e.quote := by
  obtain ⟨p, q⟩ := e
  unfold entry?
  split
  · next h => simp [h, Option.filter_eq_some_iff, and_assoc]
  · next h => simp only [reduceCtorEq, false_iff]; tauto

theorem entry?_of_ne {i : Instrument} {s : Submission} (h : s.account ≠ i.account) :
    i.entry? s = none :=
  if_neg fun hc => h hc.1

theorem entries_concat (i : Instrument) (l : List Submission) (s : Submission) :
    i.entries (l ++ [s]) = i.entries l ++ (i.entry? s).toList := by
  rw [entries, List.filterMap_append]
  cases h : i.entry? s <;> simp [entries, h]

/-- Submissions for other accounts are no entries. -/
theorem entries_filter (i : Instrument) (l : List Submission) :
    i.entries (l.filter (·.account = i.account)) = i.entries l := by
  rw [entries, List.filterMap_filter]
  refine List.filterMap_congr fun s _ => ?_
  by_cases h : s.account = i.account
  · simp [h]
  · simp [h, entry?_of_ne]

end Instrument

namespace Book

/-! ## Books of entries -/

/-- The book with one more entry. -/
def enter (b : Book) (policy : Policy) (e : Entry) : Book := b.submit policy e.publisher e.quote

/-- The book after a submission for any account. -/
def receive (b : Book) (policy : Policy) (s : Submission) : Book :=
  (b.instrument.entry? s).elim b (b.enter policy)

/-- The book of an instrument after its entries. -/
def ofEntries (i : Instrument) (policy : Policy) (l : List Entry) : Book :=
  l.foldl (·.enter policy ·) { instrument := i }

@[simp] theorem instrument_enter (b : Book) (policy : Policy) (e : Entry) :
    (b.enter policy e).instrument = b.instrument :=
  instrument_submit ..

@[simp] theorem seq_enter (b : Book) (policy : Policy) (e : Entry) :
    (b.enter policy e).seq = b.seq + 1 :=
  seq_submit ..

theorem ofEntries_concat (i : Instrument) (policy : Policy) (l : List Entry) (e : Entry) :
    ofEntries i policy (l ++ [e]) = (ofEntries i policy l).enter policy e :=
  List.foldl_concat ..

@[simp] theorem instrument_ofEntries (i : Instrument) (policy : Policy) (l : List Entry) :
    (ofEntries i policy l).instrument = i := by
  induction l using List.reverseRecOn with
  | nil => rfl
  | append_singleton l e ih => rw [ofEntries_concat, instrument_enter, ih]

@[simp] theorem seq_ofEntries (i : Instrument) (policy : Policy) (l : List Entry) :
    (ofEntries i policy l).seq = l.length := by
  induction l using List.reverseRecOn with
  | nil => rfl
  | append_singleton l e ih =>
    rw [ofEntries_concat, seq_enter, ih, List.length_append, List.length_singleton]

theorem receive_of_ne {b : Book} {s : Submission} (h : s.account ≠ b.account) (policy : Policy) :
    b.receive policy s = b := by
  rw [receive, Instrument.entry?_of_ne h]
  rfl

theorem receive_ofEntries (i : Instrument) (policy : Policy) (l : List Submission)
    (s : Submission) : (ofEntries i policy (i.entries l)).receive policy s =
      ofEntries i policy (i.entries (l ++ [s])) := by
  rw [receive, instrument_ofEntries, i.entries_concat]
  cases i.entry? s with
  | none => rw [Option.toList_none, List.append_nil]; rfl
  | some e => exact (ofEntries_concat ..).symm

end Book

namespace Board

/-! ## One book at a time -/

/-- A book with an entry more is found in its old place. -/
theorem book?_setBook_enter {b : Board} {account : String} {book : Book}
    (hbook : b.book? account = some book) (policy : Policy) (e : Entry) :
    (b.setBook (book.enter policy e)).book? account = some (book.enter policy e) := by
  have hnew := (Book.account_submit book policy e.publisher e.quote).trans (account_of_book? hbook)
  exact (book?_replace hbook hnew account).trans (if_pos rfl)

/-- All that a submission for an account with a book does. -/
theorem submit_of_book? {b : Board} {s : Submission} {book : Book}
    (hbook : b.book? s.account = some book) :
    b.submit s.account s.publisher s.quote =
      match book.instrument.entry? s with
      | some e =>
        .ok (⟨(book.enter b.policy e).aggregate ≠ book.aggregate,
          (book.enter b.policy e).aggregate⟩, b.setBook (book.enter b.policy e))
      | none =>
        .error (if maxConf < s.quote.conf then
            .invalidParams s!"confidence {s.quote.conf} out of range"
          else .unauthorized s.account s.publisher) := by
  have hacc : s.account = book.instrument.account := (account_of_book? hbook).symm
  unfold submit accept Instrument.entry?
  by_cases hconf : maxConf < s.quote.conf
  · have hnot : ¬ (s.account = book.instrument.account ∧ s.quote.conf ≤ maxConf) := by omega
    rw [if_pos hconf, if_neg hnot, if_pos hconf]
    rfl
  · rw [if_neg hconf, if_pos ⟨hacc, by omega⟩, if_neg hconf, hbook]
    cases hp : s.publisher.filter book.instrument.isPublisher with
    | none => simp only [hp]; rfl
    | some p => simp only [hp]; rfl

theorem submit_of_book?_none {b : Board} {s : Submission} (hbook : b.book? s.account = none) :
    b.submit s.account s.publisher s.quote =
      .error (if maxConf < s.quote.conf then
          .invalidParams s!"confidence {s.quote.conf} out of range"
        else .unknownInstrument s.account) := by
  unfold submit accept
  split
  · rfl
  · rw [hbook]; rfl

theorem apply_of_book? {b : Board} {s : Submission} {book : Book}
    (hbook : b.book? s.account = some book) :
    b.apply s = (book.instrument.entry? s).elim b fun e => b.setBook (book.enter b.policy e) := by
  rw [apply, submit_of_book? hbook]
  cases book.instrument.entry? s <;> rfl

theorem apply_of_book?_none {b : Board} {s : Submission} (hbook : b.book? s.account = none) :
    b.apply s = b := by
  rw [apply, submit_of_book?_none hbook]

/-- A submission is received by the books one by one. -/
theorem Covers.apply_eq {b : Board} {r : Registry} (h : b.Covers r) (s : Submission) :
    b.apply s = { b with books := b.books.map (·.receive b.policy s) } := by
  have hself (hsame : ∀ old ∈ b.books, old.receive b.policy s = old) :
      b = { b with books := b.books.map (·.receive b.policy s) } := by
    rw [List.map_congr_left hsame, List.map_id']
  cases hbook : b.book? s.account with
  | none =>
    rw [apply_of_book?_none hbook]
    refine hself fun old hold => Book.receive_of_ne (fun hacc => ?_) _
    cases hbook.symm.trans (h.book?_eq_some_iff.2 ⟨hold, hacc.symm⟩)
  | some book =>
    -- the only book that the submission is for
    have hone (old : Book) (hold : old ∈ b.books) (hacc : s.account = old.account) : old = book :=
      Option.some.inj ((h.book?_eq_some_iff.2 ⟨hold, hacc.symm⟩).symm.trans hbook)
    rw [apply_of_book? hbook]
    cases he : book.instrument.entry? s with
    | none =>
      refine hself fun old hold => ?_
      by_cases hacc : s.account = old.account
      · rw [hone old hold hacc, Book.receive, he]
        rfl
      · exact Book.receive_of_ne hacc _
    | some e =>
      have hnew : (book.enter b.policy e).account = s.account :=
        (Book.account_submit ..).trans (account_of_book? hbook)
      show ({ b with books := _ } : Board) = _
      congr 1
      refine List.map_congr_left fun old hold => ?_
      rw [hnew]
      by_cases hacc : s.account = old.account
      · rw [if_pos hacc.symm, hone old hold hacc, Book.receive, he]
        rfl
      · rw [if_neg (Ne.symm hacc), Book.receive_of_ne hacc]

/-- The board after any run of submissions, book by book. -/
theorem run_ofRegistry (r : Registry) (policy : Policy) (l : List Submission) :
    (ofRegistry r policy).run l =
      ⟨policy, r.instruments.map fun i => Book.ofEntries i policy (i.entries l)⟩ := by
  induction l using List.reverseRecOn with
  | nil => rfl
  | append_singleton l s ih =>
    have hcovers := (covers_ofRegistry r policy).run l
    rw [run_snoc, hcovers.apply_eq, ih, List.map_map]
    congr 1
    exact List.map_congr_left fun i _ => Book.receive_ofEntries i policy l s

/-- The book of an instrument after any run of submissions. -/
theorem book?_run_ofRegistry {r : Registry} {i : Instrument} (hi : i ∈ r.instruments)
    (policy : Policy) (l : List Submission) :
    ((ofRegistry r policy).run l).book? i.account =
      some (Book.ofEntries i policy (i.entries l)) := by
  rw [((covers_ofRegistry r policy).run l).book?_eq_some_iff, run_ofRegistry]
  exact ⟨List.mem_map_of_mem hi, congrArg Instrument.account (Book.instrument_ofEntries ..)⟩

/-- An accepted submission is an entry of an instrument, and its book is found on the next board. -/
theorem exists_entry_of_submit {r : Registry} {policy : Policy} {l : List Submission}
    {s : Submission} {done : Submitted} {later : Board}
    (hok : ((ofRegistry r policy).run l).submit s.account s.publisher s.quote =
      .ok (done, later)) :
    ∃ i ∈ r.instruments, ∃ e, i.entry? s = some e ∧
      let after := (Book.ofEntries i policy (i.entries l)).enter policy e
      later.book? i.account = some after ∧ after.aggregate = done.aggregate := by
  obtain ⟨old, -, hold, -⟩ := submit_eq_ok hok
  have hcovers := (covers_ofRegistry r policy).run l
  have hi : old.instrument ∈ r.instruments := hcovers.mem_of_book? hold
  have hacc : old.instrument.account = s.account := account_of_book? hold
  have hbook := book?_run_ofRegistry hi policy l
  rw [hacc] at hbook
  have hsubmit := submit_of_book? hbook
  rw [hok, Book.instrument_ofEntries, policy_run] at hsubmit
  cases he : old.instrument.entry? s with
  | none =>
    rw [he] at hsubmit
    cases hsubmit
  | some e =>
    rw [he] at hsubmit
    cases hsubmit
    exact ⟨_, hi, e, he, hacc ▸ book?_setBook_enter hbook policy e, rfl⟩

/-! ## Outcomes -/

/-- What a submission returns, and what a listener hears if it changed the aggregate. -/
structure Outcome where
  result : Except SubmitError Submitted
  notice : Option (Instrument × Aggregate)

def outcome (b : Board) (s : Submission) : Outcome :=
  match b.submit s.account s.publisher s.quote with
  | .error e => ⟨.error e, none⟩
  | .ok (done, after) =>
    ⟨.ok done, if done.changed then
      (after.book? s.account).map fun book => (book.instrument, done.aggregate) else none⟩

/-- The outcomes of submissions one after another, each with its submission. -/
def outcomes (b : Board) : List Submission → List (Submission × Outcome)
  | [] => []
  | s :: rest => (s, b.outcome s) :: (b.apply s).outcomes rest

theorem outcomes_concat (b : Board) (l : List Submission) (s : Submission) :
    b.outcomes (l ++ [s]) = b.outcomes l ++ [(s, (b.run l).outcome s)] := by
  induction l generalizing b with
  | nil => rfl
  | cons t rest ih =>
    rw [List.cons_append, outcomes, ih]
    rfl

section

variable {b b' : Board} (hpolicy : b.policy = b'.policy) {s : Submission}
  (hbook : b.book? s.account = b'.book? s.account)
include hpolicy hbook

/-- A board looks only at the book that a submission is for. -/
theorem outcome_congr : b.outcome s = b'.outcome s := by
  unfold outcome
  cases hb : b'.book? s.account with
  | none => rw [submit_of_book?_none hb, submit_of_book?_none (hbook.trans hb)]
  | some book =>
    have hb' := hbook.trans hb
    rw [submit_of_book? hb, submit_of_book? hb', hpolicy]
    cases book.instrument.entry? s with
    | none => rfl
    | some e => simp only [book?_setBook_enter hb, book?_setBook_enter hb']

theorem book?_apply_congr : (b.apply s).book? s.account = (b'.apply s).book? s.account := by
  cases hb : b'.book? s.account with
  | none =>
    rw [apply_of_book?_none hb, apply_of_book?_none (hbook.trans hb), hbook]
  | some book =>
    have hb' := hbook.trans hb
    rw [apply_of_book? hb, apply_of_book? hb', hpolicy]
    cases book.instrument.entry? s with
    | none => exact hbook
    | some e => exact (book?_setBook_enter hb' _ e).trans (book?_setBook_enter hb _ e).symm

end

theorem book?_apply_of_ne {s : Submission} {account : String} (h : s.account ≠ account)
    (b : Board) : (b.apply s).book? account = b.book? account := by
  cases hb : b.book? s.account with
  | none => rw [apply_of_book?_none hb]
  | some book =>
    rw [apply_of_book? hb]
    cases book.instrument.entry? s with
    | none => rfl
    | some e =>
      have hnew : (book.enter b.policy e).account = s.account :=
        (Book.account_submit ..).trans (account_of_book? hb)
      exact (book?_replace hb hnew account).trans (if_neg (Ne.symm h))

section

variable (b : Board) (l : List Submission) (account : String)

/-- The book of an account is made by the submissions for it. -/
theorem book?_run_filter :
    (b.run (l.filter (·.account = account))).book? account = (b.run l).book? account := by
  induction l using List.reverseRecOn with
  | nil => rfl
  | append_singleton l s ih =>
    rw [List.filter_append, run_snoc]
    by_cases h : s.account = account
    · subst h
      rw [List.filter_cons_of_pos (by simp), List.filter_nil, run_snoc]
      exact book?_apply_congr (by rw [policy_run, policy_run]) ih
    · rw [List.filter_cons_of_neg (by simpa using h), List.filter_nil, List.append_nil, ih,
        book?_apply_of_ne h]

/-- And so are the outcomes of these submissions. -/
theorem outcomes_filter :
    b.outcomes (l.filter (·.account = account)) =
      (b.outcomes l).filter (·.1.account = account) := by
  induction l using List.reverseRecOn with
  | nil => rfl
  | append_singleton l s ih =>
    rw [List.filter_append, outcomes_concat, List.filter_append]
    by_cases h : s.account = account
    · subst h
      rw [List.filter_cons_of_pos (by simp), List.filter_cons_of_pos (by simp), List.filter_nil,
        List.filter_nil, outcomes_concat, ih]
      rw [outcome_congr (by rw [policy_run, policy_run]) (book?_run_filter b l s.account)]
    · rw [List.filter_cons_of_neg (by simpa using h), List.filter_cons_of_neg (by simpa using h),
        List.filter_nil, List.filter_nil, List.append_nil, List.append_nil, ih]

end

/-! ## Top theorem -/

/-- **Submissions are local to their account.** The book of an account, and all that its
submissions return and let be heard, are the same as if nothing had been submitted for other
accounts. So submissions for different accounts can change places: a run that has the same ones for
each account, in the same order, leaves the same board with the same outcomes. -/
theorem submissions_local (r : Registry) (policy : Policy) (l : List Submission) :
    let b := ofRegistry r policy
    (∀ account, let own := l.filter (·.account = account)
      (b.run own).book? account = (b.run l).book? account ∧
      b.outcomes own = (b.outcomes l).filter (·.1.account = account)) ∧
    (∀ i ∈ r.instruments, ((b.run l).book? i.account).isSome = true) ∧
    ∀ l' : List Submission,
      (∀ account, l'.filter (·.account = account) = l.filter (·.account = account)) →
      b.run l' = b.run l ∧
        ∀ account, (b.outcomes l').filter (·.1.account = account) =
          (b.outcomes l).filter (·.1.account = account) := by
  intro b
  refine ⟨fun account => ⟨book?_run_filter b l account, outcomes_filter b l account⟩,
    fun i hi => ?_, fun l' hl' => ⟨?_, fun account => ?_⟩⟩
  · rw [book?_run_ofRegistry hi]
    rfl
  · rw [run_ofRegistry, run_ofRegistry]
    congr 1
    refine List.map_congr_left fun i _ => ?_
    rw [← i.entries_filter l', hl', i.entries_filter]
  · rw [← outcomes_filter, hl', outcomes_filter]

/-- Two instruments with a publisher each. -/
def twoRegistry : Registry where
  instruments := [⟨"px", "LTC", "prod", -2, .price, ["ann"], 1⟩,
    ⟨"py", "ETH", "prod", -2, .price, ["bob"], 1⟩]
  products := [⟨"prod", [], ["px", "py"]⟩]
  nodup_accounts := by decide

/-- A quote for each of them, and one that is refused. -/
def mixedRun : List Submission :=
  [⟨"px", some "ann", ⟨100, 1, .trading⟩⟩, ⟨"py", some "ann", ⟨60, 1, .trading⟩⟩,
    ⟨"py", some "bob", ⟨50, 1, .trading⟩⟩]

/-- The quote for the first instrument can as well come last. -/
theorem submissions_local_swapped :
    let b := ofRegistry twoRegistry {}
    let swapped := mixedRun.drop 1 ++ mixedRun.take 1
    swapped ≠ mixedRun ∧ b.run swapped = b.run mixedRun ∧
      ((b.run swapped).book? "px").isSome = true := by
  intro b swapped
  have hswapped (account : String) :
      swapped.filter (·.account = account) = mixedRun.filter (·.account = account) := by
    by_cases hx : "px" = account
    · subst hx
      decide
    · by_cases hy : "py" = account
      · subst hy
        decide
      · simp [swapped, mixedRun, hx, hy]
  obtain ⟨-, hbooks, hlocal⟩ := submissions_local twoRegistry {} mixedRun
  obtain ⟨hrun, -⟩ := hlocal swapped hswapped
  refine ⟨by decide, hrun, ?_⟩
  rw [hrun]
  exact hbooks _ List.mem_cons_self

end Board

end PriceFeed
