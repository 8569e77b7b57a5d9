import PriceFeed.Proofs.Aggregates
import PriceFeed.Proofs.Keyed
import PriceFeed.Proofs.Locality

/-!
# Repeated submissions

A publisher that hands in the same quote again right away only gives it a new number. The aggregate
was made of the fresh quotes, and as long as none of them becomes stale they are still the same: so
it is not made anew, the averages do not move, and nobody hears of it.

    b.Current policy → b.refresh policy true = b                                (Current.refresh)
    the fresh quotes are the same under a new number                               (fresh_renewed)
    any number of repetitions change nothing but numbers                    (resubmissions_silent)
-/

namespace PriceFeed

namespace Book

/-! ## What a submission leaves -/

/-- The aggregate is the one that the fresh quotes make. -/
structure Current (b : Book) (policy : Policy) : Prop where
  idle : b.consensus? policy = none → b.aggregate.status = b.idleStatus policy
  agreed : ∀ c, b.consensus? policy = some c →
    b.aggregate.status = .trading ∧ b.aggregate.price = c.price ∧ b.aggregate.conf = c.conf ∧
      b.contributors = b.valid policy

theorem consensus?_congr {b b' : Book} {policy : Policy} (hinst : b'.instrument = b.instrument)
    (hfresh : b'.fresh policy = b.fresh policy) : b'.consensus? policy = b.consensus? policy := by
  unfold consensus? quorum valid
  rw [hinst, hfresh]

/-- The aggregate depends on the fresh quotes alone. -/
theorem Current.congr {b b' : Book} {policy : Policy} (h : b.Current policy)
    (hinst : b'.instrument = b.instrument) (hfresh : b'.fresh policy = b.fresh policy)
    (haggregate : b'.aggregate = b.aggregate) (hcontributors : b'.contributors = b.contributors) :
    b'.Current policy where
  idle := by
    rw [consensus?_congr hinst hfresh, haggregate, idleStatus, hfresh]
    exact h.idle
  agreed := by
    rw [consensus?_congr hinst hfresh, haggregate, hcontributors, valid, hfresh]
    exact h.agreed

theorem current_refresh (b : Book) (policy : Policy) (repeated : Bool) :
    (b.refresh policy repeated).Current policy := by
  have hconsensus : (b.refresh policy repeated).consensus? policy = b.consensus? policy :=
    consensus?_congr (refresh_frame ..).1 (fresh_refresh ..)
  constructor
  · rw [hconsensus, idleStatus_refresh]
    intro hnone
    rcases refresh_cases b policy repeated with ⟨-, h⟩ | ⟨c, hc, -⟩
    · rw [h]
    · rw [hnone] at hc
      cases hc
  · rw [hconsensus, valid_refresh]
    intro c hc
    rcases refresh_cases b policy repeated with ⟨hnone, -⟩ | ⟨c', hc', ⟨hheld, h⟩ | ⟨-, h⟩⟩
    · rw [hnone] at hc
      cases hc
    · obtain rfl : c' = c := Option.some.inj (hc'.symm.trans hc)
      rw [h]
      exact ⟨hheld.2.1, rfl, rfl, hheld.2.2.symm⟩
    · obtain rfl : c' = c := Option.some.inj (hc'.symm.trans hc)
      rw [h]
      exact ⟨rfl, rfl, rfl, rfl⟩

/-- There is nothing to refresh after a repeated quote. -/
theorem Current.refresh {b : Book} {policy : Policy} (h : b.Current policy) :
    b.refresh policy true = b := by
  rcases refresh_cases b policy true with ⟨hnone, he⟩ | ⟨c, hc, ⟨-, he⟩ | ⟨hnot, -⟩⟩
  · rw [he, ← h.idle hnone]
  · obtain ⟨-, hprice, hconf, -⟩ := h.agreed c hc
    rw [he, ← hprice, ← hconf]
  · obtain ⟨htrading, -, -, hcontributors⟩ := h.agreed c hc
    exact absurd ⟨rfl, htrading, hcontributors.symm⟩ hnot

/-! ## New numbers -/

/-- The book with `n` more submissions, all of them of the one quote of a publisher. -/
def renewed (b : Book) (publisher : String) (quote : Quote) (n : Nat) : Book :=
  { b with
    seq := b.seq + n
    quotes := b.quotes.put publisher { quote with seq := b.seq + n } }

theorem account_renewed (b : Book) (publisher : String) (quote : Quote) (n : Nat) :
    (b.renewed publisher quote n).account = b.account := rfl

/-- No quote of another publisher becomes stale with `n` more submissions. -/
def KeepsFresh (b : Book) (policy : Policy) (publisher : String) (n : Nat) : Prop :=
  ∀ e ∈ b.quotes, e.1 ≠ publisher →
    b.seq - e.2.seq ≤ policy.maxQuoteLag → b.seq + n - e.2.seq ≤ policy.maxQuoteLag

instance (b : Book) (policy : Policy) (publisher : String) (n : Nat) :
    Decidable (b.KeepsFresh policy publisher n) :=
  inferInstanceAs (Decidable (∀ e ∈ b.quotes, _ → _ → _))

/-- The quote was just submitted. -/
structure Latest (b : Book) (publisher : String) (quote : Quote) : Prop where
  ascending : b.quotes.Ascending
  stands : b.quotes.put publisher { quote with seq := b.seq } = b.quotes

variable {b : Book} {policy : Policy} {p : String} {q : Quote}

theorem Latest.renewed_zero (h : b.Latest p q) : b.renewed p q 0 = b := by
  unfold renewed
  rw [Nat.add_zero, h.stands]

theorem Latest.get? (h : b.Latest p q) : b.quotes.get? p = some { q with seq := b.seq } := by
  rw [← h.stands]
  exact Keyed.get?_put_self ..

theorem latest_submit (hb : b.quotes.Ascending) : (b.submit policy p q).Latest p q where
  ascending := by
    rw [quotes_submit]
    exact Keyed.ascending_put hb ..
  stands := by
    rw [quotes_submit, seq_submit, Keyed.put_put]

theorem ascending_ofEntries (i : Instrument) (policy : Policy) (l : List Entry) :
    (ofEntries i policy l).quotes.Ascending := by
  induction l using List.reverseRecOn with
  | nil => exact .nil
  | append_singleton l e ih =>
    rw [ofEntries_concat]
    exact (latest_submit ih).ascending

/-- The fresh quotes are the same under a new number. -/
theorem Latest.fresh_renewed (h : b.Latest p q) {n : Nat} (hn : b.KeepsFresh policy p n) :
    (b.renewed p q n).fresh policy = b.fresh policy := by
  obtain ⟨before, after, hput, hother⟩ := Keyed.exists_put_eq h.ascending p
  have hsame : ∀ e ∈ before ++ after,
      decide (b.seq + n - e.2.seq ≤ policy.maxQuoteLag) =
        decide (b.seq - e.2.seq ≤ policy.maxQuoteLag) := by
    intro e he
    obtain ⟨hmem, hne⟩ := hother e he
    have := hn e hmem hne
    rw [decide_eq_decide]
    omega
  have hbefore := List.filter_congr fun e he => hsame e (List.mem_append_left _ he)
  have hafter := List.filter_congr fun e he => hsame e (List.mem_append_right _ he)
  have hquotes : b.quotes = before ++ (p, { q with seq := b.seq }) :: after :=
    h.stands.symm.trans (hput _)
  -- the quote itself has just come, before and after
  unfold fresh renewed
  simp only [hput]
  rw [hquotes, List.filter_append, List.filter_append, List.filter_cons_of_pos (by simp),
    List.filter_cons_of_pos (by simp), hbefore, hafter]
  simp

theorem repeats_renewed (b : Book) (p : String) (q : Quote) (n : Nat) :
    (b.renewed p q n).repeats p q = true := by
  simp [repeats, renewed]

/-- The same quote once more only gets the next number. -/
theorem submit_renewed (hb : b.Current policy) (hlatest : b.Latest p q) {n : Nat}
    (hn : b.KeepsFresh policy p (n + 1)) :
    (b.renewed p q n).submit policy p q = b.renewed p q (n + 1) := by
  have hrecord : (b.renewed p q n).record p q = b.renewed p q (n + 1) := by
    simp only [record, renewed, Keyed.put_put, Nat.add_assoc]
  have hcurrent : (b.renewed p q (n + 1)).Current policy :=
    hb.congr rfl (hlatest.fresh_renewed hn) rfl rfl
  rw [submit, repeats_renewed, hrecord, hcurrent.refresh]

theorem KeepsFresh.of_succ {n : Nat} (h : b.KeepsFresh policy p (n + 1)) :
    b.KeepsFresh policy p n := by
  intro e he hne hfresh
  have := h e he hne hfresh
  omega

end Book

namespace Board

theorem setBook_setBook (b : Board) {old new : Book} (h : old.account = new.account) :
    (b.setBook old).setBook new = b.setBook new := by
  unfold setBook
  simp only [List.map_map]
  congr 1
  refine List.map_congr_left fun book _ => ?_
  simp only [Function.comp_apply, h]
  by_cases hbook : book.account = new.account
  · simp [hbook, h]
  · simp [hbook]

theorem setBook_self {b : Board} {r : Registry} (hc : b.Covers r) {account : String} {book : Book}
    (hbook : b.book? account = some book) : b.setBook book = b := by
  have hself : ∀ old ∈ b.books, (if old.account = book.account then book else old) = old := by
    intro old hold
    split
    · next heq =>
      have hacc := account_of_book? hbook
      have hold' := hc.book?_eq_some_iff.2 ⟨hold, heq.trans hacc⟩
      exact Option.some.inj (hbook.symm.trans hold')
    · rfl
  unfold setBook
  rw [List.map_congr_left hself, List.map_id']

/-- A submission for an account whose book keeps its aggregate is heard by nobody. -/
theorem outcome_of_enter {b : Board} {s : Submission} {book : Book}
    (hbook : b.book? s.account = some book) {e : Entry} (he : book.instrument.entry? s = some e)
    (hsame : (book.enter b.policy e).aggregate = book.aggregate) :
    b.outcome s = ⟨.ok ⟨false, book.aggregate⟩, none⟩ := by
  unfold outcome
  rw [submit_of_book? hbook, he]
  simp [hsame]

section

variable {b : Board} {r : Registry} (hc : b.Covers r) {s : Submission} {book : Book}
  (hbook : b.book? s.account = some book) {e : Entry} (he : book.instrument.entry? s = some e)
  (hcurrent : book.Current b.policy) (hlatest : book.Latest e.publisher e.quote)
include hc hbook he hcurrent hlatest

/-- The quote that was just taken is taken again any number of times, and only gets new numbers. -/
theorem run_replicate {n : Nat} (hn : book.KeepsFresh b.policy e.publisher n) :
    b.run (List.replicate n s) = b.setBook (book.renewed e.publisher e.quote n) ∧
      ∀ o ∈ b.outcomes (List.replicate n s), o.2 = ⟨.ok ⟨false, book.aggregate⟩, none⟩ := by
  induction n with
  | zero =>
    rw [hlatest.renewed_zero, setBook_self hc hbook]
    exact ⟨rfl, fun _ ho => absurd ho List.not_mem_nil⟩
  | succ n ih =>
    obtain ⟨hrun, hquiet⟩ := ih hn.of_succ
    have hacc : (book.renewed e.publisher e.quote n).account = s.account :=
      (Book.account_renewed ..).trans (account_of_book? hbook)
    have hfound : (b.run (List.replicate n s)).book? s.account =
        some (book.renewed e.publisher e.quote n) := by
      rw [hrun, book?_replace hbook hacc, if_pos rfl]
    have hentry : (book.renewed e.publisher e.quote n).instrument.entry? s = some e := he
    have henter : (book.renewed e.publisher e.quote n).enter b.policy e =
        book.renewed e.publisher e.quote (n + 1) := Book.submit_renewed hcurrent hlatest hn
    have hlast := outcome_of_enter hfound hentry (by rw [policy_run, henter]; rfl)
    rw [List.replicate_succ', run_snoc, outcomes_concat]
    constructor
    · rw [apply_of_book? hfound, hentry, Option.elim_some, policy_run, henter, hrun]
      exact setBook_setBook b rfl
    · intro o ho
      rcases List.mem_append.1 ho with ho | ho
      · exact hquiet o ho
      · rw [List.mem_singleton.1 ho]
        exact hlast

end

/-! ## Top theorem -/

/-- **A repeated quote is silent.** When a quote was accepted, the same publisher can hand it in any
number of times more. As long as this makes no other publisher's quote stale, each time the
aggregate is reported as unchanged and nobody hears of it, and all that is new on the board is the
number of submissions and the number of that one quote. -/
theorem resubmissions_silent (r : Registry) (policy : Policy) (l : List Submission)
    (s : Submission) (done : Submitted) (later : Board)
    (hok : ((ofRegistry r policy).run l).submit s.account s.publisher s.quote =
      .ok (done, later)) :
    ∃ i ∈ r.instruments, i.account = s.account ∧
      ∃ p, s.publisher = some p ∧ i.isPublisher p = true ∧
        let book := Book.ofEntries i policy (i.entries (l ++ [s]))
        later.book? s.account = some book ∧ book.aggregate = done.aggregate ∧
        book.quotes.get? p = some { s.quote with seq := book.seq } ∧
        ∀ n, book.KeepsFresh policy p n →
          let after := { book with
            seq := book.seq + n
            quotes := book.quotes.put p { s.quote with seq := book.seq + n } }
          later.run (List.replicate n s) = later.setBook after ∧
          (later.run (List.replicate n s)).book? s.account = some after ∧
          ∀ o ∈ later.outcomes (List.replicate n s),
            o.2 = ⟨.ok ⟨false, done.aggregate⟩, none⟩ := by
  obtain ⟨i, hi, e, he, hlater, haggregate⟩ := exists_entry_of_submit hok
  obtain ⟨hacc, -, hp, hallowed, hquote⟩ := Instrument.entry?_eq_some_iff.1 he
  have happly : ((ofRegistry r policy).run l).apply s = later := by rw [apply, hok]
  have hsnoc : i.entries (l ++ [s]) = i.entries l ++ [e] := by
    rw [i.entries_concat, he]
    rfl
  have hcovers : later.Covers r := happly ▸ run_snoc .. ▸ (covers_ofRegistry r policy).run _
  have hpolicy : later.policy = policy := by rw [← happly, policy_apply, policy_run]; rfl
  refine ⟨i, hi, hacc.symm, e.publisher, hp, hallowed, ?_⟩
  rw [hacc, hquote, hsnoc, Book.ofEntries_concat]
  intro book
  have hlatest : book.Latest e.publisher e.quote :=
    Book.latest_submit (Book.ascending_ofEntries i policy _)
  have hcurrent : book.Current later.policy := hpolicy ▸ Book.current_refresh ..
  have hentry : book.instrument.entry? s = some e := by
    rw [Book.instrument_enter, Book.instrument_ofEntries, he]
  refine ⟨hlater, haggregate, hlatest.get?, fun n hn => ?_⟩
  obtain ⟨hrun, hquiet⟩ := run_replicate hcovers (hacc ▸ hlater) hentry hcurrent hlatest
    (hpolicy ▸ hn)
  have hsame : (book.renewed e.publisher e.quote n).account = i.account :=
    (Book.account_renewed ..).trans (account_of_book? hlater)
  refine ⟨hrun, ?_, haggregate ▸ hquiet⟩
  rw [hrun, book?_replace hlater hsame, if_pos rfl]
  rfl

/-- The book of the instrument that needs two publishers, after a run. -/
def pairBook (l : List Submission) : Book :=
  let i : Instrument := ⟨"px", "LTC", "prod", -2, .price, ["ann", "bob"], 2⟩
  Book.ofEntries i {} (i.entries l)

/-- Two publishers make a trading aggregate; then the second one repeats itself, while the quote of
the first one stays fresh. -/
theorem resubmissions_silent_pair :
    let l : List Submission := [⟨"px", some "ann", ⟨100, 1, .trading⟩⟩]
    let s : Submission := ⟨"px", some "bob", ⟨102, 1, .trading⟩⟩
    ∃ done later,
      ((ofRegistry pairRegistry {}).run l).submit "px" (some "bob") s.quote = .ok (done, later) ∧
      (pairBook (l ++ [s])).KeepsFresh {} "bob" 3 ∧
      ∀ o ∈ later.outcomes (List.replicate 3 s),
        o.2 = ⟨.ok ⟨false, done.aggregate⟩, none⟩ := by
  intro l s
  obtain ⟨⟨done, later⟩, hok⟩ : ∃ result,
      ((ofRegistry pairRegistry {}).run l).submit "px" (some "bob") s.quote = .ok result := ⟨_, rfl⟩
  obtain ⟨i, hi, -, p, hp, -, -, -, -, hrepeat⟩ :=
    resubmissions_silent pairRegistry {} l s done later hok
  obtain rfl := List.mem_singleton.1 hi
  obtain rfl : "bob" = p := Option.some.inj hp
  have hquotes : (pairBook (l ++ [s])).quotes =
      [("ann", ⟨⟨100, 1, .trading⟩, 1⟩), ("bob", ⟨⟨102, 1, .trading⟩, 2⟩)] := by
    show (((Book.ofEntries _ {} []).enter {} ⟨"ann", _⟩).enter {} ⟨"bob", _⟩).quotes = _
    rw [Book.enter, Book.quotes_submit, Book.enter, Book.quotes_submit, Book.seq_submit]
    decide
  have hseq : (pairBook (l ++ [s])).seq = 2 := Book.seq_ofEntries ..
  have hfresh : (pairBook (l ++ [s])).KeepsFresh {} "bob" 3 := by
    unfold Book.KeepsFresh
    rw [hquotes, hseq]
    decide
  exact ⟨done, later, hok, hfresh, (hrepeat 3 hfresh).2.2⟩

end Board

end PriceFeed
