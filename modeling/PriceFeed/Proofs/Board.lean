import Mathlib.Data.List.Induction
import PriceFeed.Board
import PriceFeed.Proofs.Book
import PriceFeed.Proofs.Keys

/-!
# Runs of submissions

A run hands submissions to a board one after another; a refused one leaves the board as it was.
Whatever is submitted, the books stay those of the registered instruments, and the book of an
account changes only by an accepted submission for it.

    (b.setBook new).book? a = if a = new.account then … new else b.book? a      (book?_setBook)
    b.submit … = .ok _ ↔ the submitted board is b with one book replaced        (submit_eq_ok)
    (b.apply s).book? a is b.book? a, or the book there after s                 (book?_apply)
    b.changedTo? b' a is what the submission reports for a                (changedTo?_submit)
-/

namespace PriceFeed

/-- A quote handed in for an account by a publisher, or by nobody. -/
structure Submission where
  account : String
  publisher : Option String
  quote : Quote
  deriving DecidableEq, Repr

namespace Board

/-! ## Looking up books -/

theorem account_of_book? {b : Board} {account : String} {book : Book}
    (h : b.book? account = some book) : book.account = account := by
  simpa using List.find?_some h

theorem read_of_book? {b : Board} {account : String} {book : Book}
    (h : b.book? account = some book) : b.read account = .ok book.aggregate := by
  rw [read, h]

theorem book?_setBook (b : Board) (new : Book) (account : String) :
    (b.setBook new).book? account =
      if account = new.account then (b.book? account).map fun _ => new else b.book? account := by
  have hp : ((fun old : Book => decide (old.account = account)) ∘
      fun old => if old.account = new.account then new else old) =
      fun old => decide (old.account = account) := by
    funext old
    simp only [Function.comp_apply]
    split
    · next h => rw [h]
    · rfl
  unfold book? setBook
  rw [List.find?_map, hp]
  cases hb : b.books.find? fun old => decide (old.account = account) with
  | none => simp
  | some old =>
    have ha : old.account = account := account_of_book? hb
    simp only [Option.map_some, ha]
    split <;> rfl

/-- A book put in the place of one with its account is found there, and nothing else changes. -/
theorem book?_replace {b : Board} {account : String} {old new : Book}
    (hold : b.book? account = some old) (hnew : new.account = account) (a : String) :
    (b.setBook new).book? a = if a = account then some new else b.book? a := by
  rw [book?_setBook, hnew]
  split
  · next h => rw [h, hold]; rfl
  · rfl

/-! ## Submissions -/

/-- An accepted submission is by a publisher of the instrument, and replaces the book. -/
theorem submit_eq_ok {b b' : Board} {account : String} {publisher : Option String} {quote : Quote}
    {result : Submitted} (h : b.submit account publisher quote = .ok (result, b')) :
    ∃ book p, b.book? account = some book ∧ publisher = some p ∧
      book.instrument.isPublisher p = true ∧ quote.conf ≤ maxConf ∧
      b' = b.setBook (book.submit b.policy p quote) ∧
      result = ⟨(book.submit b.policy p quote).aggregate ≠ book.aggregate,
        (book.submit b.policy p quote).aggregate⟩ := by
  unfold submit accept at h
  split at h
  · cases h
  · next hconf =>
    split at h
    · cases h
    · next book hbook =>
      split at h
      · cases h
      · next p hp =>
        simp only [Except.map, Except.ok.injEq, Prod.mk.injEq] at h
        obtain ⟨rfl, rfl⟩ := h
        rw [Option.filter_eq_some_iff] at hp
        exact ⟨book, p, hbook, hp.1, hp.2, by omega, rfl, rfl⟩

/-- The board after a submission; a refused one leaves it as it was. -/
def apply (b : Board) (s : Submission) : Board :=
  match b.submit s.account s.publisher s.quote with
  | .ok (_, after) => after
  | .error _ => b

theorem apply_of_ok {b later : Board} {s : Submission} {done : Submitted}
    (h : b.submit s.account s.publisher s.quote = .ok (done, later)) : b.apply s = later := by
  rw [apply, h]

theorem apply_of_error {b : Board} {s : Submission} {e : SubmitError}
    (h : b.submit s.account s.publisher s.quote = .error e) : b.apply s = b := by
  rw [apply, h]

/-- The board after submissions one after another. -/
def run (b : Board) (l : List Submission) : Board := l.foldl apply b

theorem run_append (b : Board) (l l' : List Submission) : b.run (l ++ l') = (b.run l).run l' :=
  List.foldl_append

@[simp] theorem run_snoc (b : Board) (l : List Submission) (s : Submission) :
    b.run (l ++ [s]) = (b.run l).apply s := by
  rw [run_append]; rfl

/-- A submission for the account was accepted in the course of `l`. -/
def Accepted (b : Board) (account : String) (l : List Submission) : Prop :=
  ∃ pre s post, l = pre ++ s :: post ∧ s.account = account ∧
    ∃ result, (b.run pre).submit s.account s.publisher s.quote = .ok result

/-- All that a submission can do to a book. -/
theorem book?_apply (b : Board) (s : Submission) (account : String) :
    (b.apply s).book? account = b.book? account ∨
      ∃ book p, b.book? account = some book ∧ book.instrument.isPublisher p = true ∧
        s.quote.conf ≤ maxConf ∧
        (b.apply s).book? account = some (book.submit b.policy p s.quote) := by
  unfold apply
  split
  · next result b' h =>
    obtain ⟨book, p, hbook, -, hp, hconf, rfl, -⟩ := submit_eq_ok h
    have hacc := (Book.account_submit book b.policy p s.quote).trans (account_of_book? hbook)
    rw [book?_replace hbook hacc]
    by_cases ha : account = s.account
    · subst ha
      exact .inr ⟨book, p, hbook, hp, hconf, if_pos rfl⟩
    · exact .inl (if_neg ha)
  · exact .inl rfl

@[simp] theorem policy_apply (b : Board) (s : Submission) : (b.apply s).policy = b.policy := by
  unfold apply
  split
  · next h =>
    obtain ⟨_, _, -, -, -, -, rfl, -⟩ := submit_eq_ok h
    rfl
  · rfl

@[simp] theorem policy_run (b : Board) (l : List Submission) : (b.run l).policy = b.policy := by
  induction l using List.reverseRecOn with
  | nil => rfl
  | append_singleton l s ih => rw [run_snoc, policy_apply, ih]

/-! ## Changes of aggregates -/

/-- The aggregate of an account that has a book. -/
def aggregate? (b : Board) (account : String) : Option Aggregate := (b.read account).toOption

/-- The aggregate of an account on a later board, if it is not the one it has on this board. -/
def changedTo? (b later : Board) (account : String) : Option Aggregate :=
  (later.aggregate? account).filter fun a => b.aggregate? account ≠ some a

theorem aggregate?_eq (b : Board) (account : String) :
    b.aggregate? account = (b.book? account).map (·.aggregate) := by
  unfold aggregate? read
  cases b.book? account <;> rfl

theorem aggregate?_eq_some_iff {b : Board} {account : String} {a : Aggregate} :
    b.aggregate? account = some a ↔ b.read account = .ok a := by
  unfold aggregate?
  cases b.read account <;> simp [Except.toOption]

theorem changedTo?_self (b : Board) (account : String) : b.changedTo? b account = none := by
  unfold changedTo?
  cases b.aggregate? account <;> simp

/-- The aggregate on a later board is the one it changed to, if it changed. -/
theorem aggregate?_of_changedTo? (b later : Board) (account : String)
    (hlater : (later.aggregate? account).isSome) :
    later.aggregate? account = (b.changedTo? later account).or (b.aggregate? account) := by
  obtain ⟨a, ha⟩ := Option.isSome_iff_exists.1 hlater
  unfold changedTo?
  rw [ha]
  by_cases h : b.aggregate? account = some a
  · rw [Option.filter_some_neg (by simpa using h), h]
    rfl
  · rw [Option.filter_some_pos (by simpa using h)]
    rfl

/-- A submission changes the aggregate of its account or none. -/
theorem changedTo?_submit {b b' : Board} {account : String} {publisher : Option String}
    {quote : Quote} {result : Submitted}
    (h : b.submit account publisher quote = .ok (result, b')) (a : String) :
    b.changedTo? b' a =
      if a = account ∧ result.changed = true then some result.aggregate else none := by
  obtain ⟨book, p, hbook, -, -, -, rfl, rfl⟩ := submit_eq_ok h
  have hacc := (Book.account_submit book b.policy p quote).trans (account_of_book? hbook)
  unfold changedTo?
  rw [aggregate?_eq, aggregate?_eq, book?_replace hbook hacc]
  by_cases ha : a = account
  · subst ha
    rw [if_pos rfl, hbook, Option.map_some, Option.map_some]
    by_cases hne : (book.submit b.policy p quote).aggregate = book.aggregate
    · rw [if_neg (by simp [hne]), Option.filter_some_neg (by simp [hne])]
    · rw [if_pos (by simp [hne]), Option.filter_some_pos (by simpa using Ne.symm hne)]
  · rw [if_neg ha, if_neg fun h => ha h.1]
    cases b.book? a <;> simp

/-! ## The books of a registry -/

/-- The board has one book for each instrument, in order. -/
def Covers (b : Board) (r : Registry) : Prop := b.books.map (·.instrument) = r.instruments

theorem covers_ofRegistry (r : Registry) (policy : Policy) : (ofRegistry r policy).Covers r := by
  simp [Covers, ofRegistry, Function.comp_def]

theorem Covers.accounts {b : Board} {r : Registry} (h : b.Covers r) :
    b.books.map (·.account) = r.instruments.map (·.account) := by
  rw [← h, List.map_map]; rfl

theorem Covers.nodup {b : Board} {r : Registry} (h : b.Covers r) :
    (b.books.map (·.account)).Nodup := h.accounts ▸ r.nodup_accounts

theorem Covers.book?_eq_some_iff {b : Board} {r : Registry} (h : b.Covers r) {account : String}
    {book : Book} : b.book? account = some book ↔ book ∈ b.books ∧ book.account = account :=
  find?_key_eq_some_iff h.nodup

theorem Covers.mem_of_book? {b : Board} {r : Registry} (h : b.Covers r) {account : String}
    {book : Book} (hbook : b.book? account = some book) : book.instrument ∈ r.instruments :=
  h ▸ List.mem_map_of_mem (List.mem_of_find?_eq_some hbook)

theorem Covers.exists_book {b : Board} {r : Registry} (h : b.Covers r) {i : Instrument}
    (hi : i ∈ r.instruments) : ∃ book, b.book? i.account = some book ∧ book.instrument = i := by
  obtain ⟨book, hmem, rfl⟩ := List.mem_map.1 (h ▸ hi)
  exact ⟨book, h.book?_eq_some_iff.2 ⟨hmem, rfl⟩, rfl⟩

theorem Covers.exists_aggregate {b : Board} {r : Registry} (h : b.Covers r) {i : Instrument}
    (hi : i ∈ r.instruments) : ∃ a, b.aggregate? i.account = some a := by
  obtain ⟨book, hbook, -⟩ := h.exists_book hi
  exact ⟨book.aggregate, by rw [aggregate?_eq, hbook, Option.map_some]⟩

/-- For a registered instrument and a confidence in range, only the publisher can be wrong. -/
theorem Covers.submit_eq_error_iff {b : Board} {r : Registry} (h : b.Covers r) {i : Instrument}
    (hi : i ∈ r.instruments) {publisher : Option String} {quote : Quote}
    (hconf : quote.conf ≤ maxConf) {e : SubmitError} :
    b.submit i.account publisher quote = .error e ↔
      e = .unauthorized i.account publisher ∧
        ¬ ∃ p, publisher = some p ∧ i.isPublisher p = true := by
  obtain ⟨book, hbook, rfl⟩ := h.exists_book hi
  unfold submit accept
  rw [if_neg (by omega), hbook]
  simp only
  cases hp : publisher.filter book.instrument.isPublisher with
  | none =>
    have hnobody : ¬ ∃ p, publisher = some p ∧ book.instrument.isPublisher p = true := by
      rintro ⟨p, rfl, hpublisher⟩
      rw [Option.filter_some_pos hpublisher] at hp
      cases hp
    rw [and_iff_left hnobody]
    simp only [Except.map, Except.error.injEq]
    exact eq_comm
  | some p =>
    have hsome : ∃ p, publisher = some p ∧ book.instrument.isPublisher p = true :=
      ⟨p, Option.filter_eq_some_iff.1 hp⟩
    simp [Except.map, hsome]

theorem Covers.setBook {b : Board} {r : Registry} (h : b.Covers r) {old new : Book}
    (hold : b.book? new.account = some old) (hnew : new.instrument = old.instrument) :
    (b.setBook new).Covers r := by
  unfold Covers Board.setBook
  rw [← h, List.map_map]
  apply List.map_congr_left
  intro book hbook
  simp only [Function.comp_apply]
  split
  · next heq =>
    have : b.book? new.account = some book := h.book?_eq_some_iff.2 ⟨hbook, heq⟩
    rw [hnew, Option.some.inj (hold.symm.trans this)]
  · rfl

theorem Covers.submit {b b' : Board} {r : Registry} (h : b.Covers r) {account : String}
    {publisher : Option String} {quote : Quote} {result : Submitted}
    (hs : b.submit account publisher quote = .ok (result, b')) : b'.Covers r := by
  obtain ⟨book, p, hbook, -, -, -, rfl, -⟩ := submit_eq_ok hs
  exact h.setBook (by rw [Book.account_submit, account_of_book? hbook, hbook])
    (Book.instrument_submit ..)

theorem Covers.run {b : Board} {r : Registry} (h : b.Covers r) (l : List Submission) :
    (b.run l).Covers r := by
  induction l using List.reverseRecOn with
  | nil => exact h
  | append_singleton l s ih =>
    rw [run_snoc, apply]
    split
    · next hs => exact ih.submit hs
    · exact ih

end Board

end PriceFeed
