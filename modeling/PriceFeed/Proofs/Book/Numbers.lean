import Mathlib.Data.List.Perm.Subperm
import PriceFeed.Proofs.Aggregates
import PriceFeed.Proofs.Locality

/-!
# Numbers of standing quotes

A standing quote has the number of the submission that brought it, and no two have the same. So of
any `n` numbers at most `n` quotes have one: at most `maxQuoteLag + 1` quotes are fresh, and an
instrument that needs more never trades.

    a recorded quote has a number of its own                                 (Numbered.record)
    b.Numbered → (b.fresh policy).length ≤ policy.maxQuoteLag + 1        (Numbered.length_fresh_le)
-/

namespace PriceFeed

namespace Keyed

variable {α β : Type} {f : String × α → β} {key : String} {value : α}

/-- A new value put into a table stays apart from the old ones. -/
theorem nodup_map_put {t : Keyed α} (h : (t.map f).Nodup)
    (hnew : ∀ e ∈ t, f e ≠ f (key, value)) : ((put key value t).map f).Nodup := by
  induction t with
  | nil => simp [put]
  | cons e rest ih =>
    obtain ⟨k, v⟩ := e
    have hrest := fun e he => hnew e (List.mem_cons_of_mem _ he)
    have hfirst : f (key, value) ∉ rest.map f := by
      intro hmem
      obtain ⟨e, he, heq⟩ := List.mem_map.1 hmem
      exact hrest e he heq
    rw [List.map_cons, List.nodup_cons] at h
    simp only [put]
    split
    · rw [List.map_cons, List.map_cons, List.nodup_cons, List.nodup_cons, List.mem_cons]
      exact ⟨not_or.2 ⟨(hnew _ List.mem_cons_self).symm, hfirst⟩, h⟩
    · split
      · rw [List.map_cons, List.nodup_cons]
        exact ⟨hfirst, h.2⟩
      · rw [List.map_cons, List.nodup_cons]
        refine ⟨fun hmem => ?_, ih h.2 hrest⟩
        obtain ⟨e, he, heq⟩ := List.mem_map.1 hmem
        rcases mem_put he with rfl | he
        · exact hnew _ List.mem_cons_self heq.symm
        · exact h.1 (List.mem_map.2 ⟨e, he, heq⟩)

end Keyed

namespace Book

/-- The averages move at an entry, or were last moved before it. -/
theorem lastTrading_enter (b : Book) (policy : Policy) (e : Entry) :
    (b.enter policy e).lastTrading = b.lastTrading ∨
      (b.enter policy e).lastTrading = some (b.seq + 1) := by
  unfold enter submit
  rcases refresh_cases (b.record e.publisher e.quote) policy (b.repeats e.publisher e.quote) with
    ⟨-, h⟩ | ⟨c, -, ⟨-, h⟩ | ⟨-, h⟩⟩ <;> rw [h]
  · exact .inl rfl
  · exact .inl rfl
  · exact .inr rfl

theorem le_of_lastTrading {i : Instrument} {policy : Policy} {l : List Entry} {n : Nat}
    (h : (ofEntries i policy l).lastTrading = some n) : n ≤ l.length := by
  induction l using List.reverseRecOn with
  | nil => cases h
  | append_singleton l e ih =>
    rw [ofEntries_concat] at h
    rw [List.length_append, List.length_singleton]
    rcases lastTrading_enter (ofEntries i policy l) policy e with hold | hnew
    · exact Nat.le_succ_of_le (ih (hold.symm.trans h))
    · rw [hnew, seq_ofEntries] at h
      cases h
      exact Nat.le_refl _

/-- The standing quotes of a book are by publishers of its instrument, and have numbers of their
own among those of its submissions. -/
structure Numbered (b : Book) : Prop where
  admitted : ∀ e ∈ b.quotes, b.instrument.isPublisher e.1 = true ∧ e.2.conf ≤ Board.maxConf
  numbers : ∀ e ∈ b.quotes, 1 ≤ e.2.seq ∧ e.2.seq ≤ b.seq
  nodup : (b.quotes.map (·.2.seq)).Nodup

namespace Numbered

theorem empty (i : Instrument) : Numbered { instrument := i } :=
  ⟨nofun, nofun, List.nodup_nil⟩

variable {b : Book} (h : b.Numbered)
include h

/-- A quote is recorded with a number that no other one has. -/
theorem record {p : String} (hp : b.instrument.isPublisher p = true) {q : Quote}
    (hq : q.conf ≤ Board.maxConf) : (b.record p q).Numbered := by
  have hput {e} (he : e ∈ b.quotes.put p { q with seq := b.seq + 1 }) := Keyed.mem_put he
  refine ⟨fun e he => ?_, fun e he => ?_, ?_⟩
  · rcases hput he with rfl | he
    · exact ⟨hp, hq⟩
    · exact h.admitted e he
  · rcases hput he with rfl | he
    · exact ⟨Nat.le_add_left .., Nat.le_refl _⟩
    · exact (h.numbers e he).imp_right Nat.le_succ_of_le
  · refine Keyed.nodup_map_put h.nodup fun e he heq => ?_
    have hle := (h.numbers e he).2
    simp only at heq
    omega

theorem enter {e : Entry} (hp : b.instrument.isPublisher e.publisher = true)
    (hq : e.quote.conf ≤ Board.maxConf) (policy : Policy) : (b.enter policy e).Numbered := by
  have hrecord := h.record hp hq
  obtain ⟨hinstrument, hquotes, hseq⟩ :=
    refresh_frame (b.record e.publisher e.quote) policy (b.repeats e.publisher e.quote)
  unfold Book.enter submit
  constructor
  · rw [hinstrument, hquotes]
    exact hrecord.admitted
  · rw [hquotes, hseq]
    exact hrecord.numbers
  · rw [hquotes]
    exact hrecord.nodup

theorem eq_of_seq {e e' : String × StandingQuote} (he : e ∈ b.quotes) (he' : e' ∈ b.quotes)
    (hseq : e.2.seq = e'.2.seq) : e = e' :=
  List.inj_on_of_nodup_map h.nodup he he' hseq

/-- There are as many ages as a fresh quote may have, and no two quotes have the same. -/
theorem length_fresh_le (policy : Policy) :
    (b.fresh policy).length ≤ policy.maxQuoteLag + 1 := by
  obtain ⟨young, hyoung⟩ : ∃ young,
      young = b.quotes.filter fun e => b.seq - e.2.seq ≤ policy.maxQuoteLag := ⟨_, rfl⟩
  have hmem {e} (he : e ∈ young) : e ∈ b.quotes ∧ b.seq - e.2.seq ≤ policy.maxQuoteLag := by
    rw [hyoung, List.mem_filter, decide_eq_true_eq] at he
    exact he
  have hages : (young.map fun e => b.seq - e.2.seq).Nodup := by
    refine List.Nodup.map_on (fun e he e' he' heq => ?_) (hyoung ▸ h.nodup.of_map.filter _)
    obtain ⟨he, -⟩ := hmem he
    obtain ⟨he', -⟩ := hmem he'
    refine h.eq_of_seq he he' ?_
    have := (h.numbers e he).2
    have := (h.numbers e' he').2
    omega
  have hrange : (young.map fun e => b.seq - e.2.seq) ⊆ List.range (policy.maxQuoteLag + 1) := by
    intro age hage
    obtain ⟨e, he, rfl⟩ := List.mem_map.1 hage
    exact List.mem_range.2 (Nat.lt_succ_of_le (hmem he).2)
  calc (b.fresh policy).length
    _ = (young.map fun e => b.seq - e.2.seq).length := by
      rw [fresh, List.length_map, List.length_map, hyoung]
    _ ≤ (List.range (policy.maxQuoteLag + 1)).length :=
      (hages.subperm hrange).length_le
    _ = policy.maxQuoteLag + 1 := List.length_range

end Numbered

theorem length_valid_le (b : Book) (policy : Policy) :
    (b.valid policy).length ≤ (b.fresh policy).length := by
  rw [valid, List.length_map]
  exact List.length_filter_le ..

/-- The book of an instrument is numbered, however many entries it has. -/
theorem numbered_ofEntries {i : Instrument} (policy : Policy) (l : List Submission) :
    (ofEntries i policy (i.entries l)).Numbered := by
  induction l using List.reverseRecOn with
  | nil => exact .empty i
  | append_singleton l s ih =>
    rw [i.entries_concat]
    cases he : i.entry? s with
    | none => rwa [Option.toList_none, List.append_nil]
    | some e =>
      obtain ⟨-, hconf, -, hp, hq⟩ := Instrument.entry?_eq_some_iff.1 he
      rw [Option.toList_some, ofEntries_concat]
      exact ih.enter (by rwa [instrument_ofEntries]) (hq ▸ hconf) policy

end Book

namespace Board

/-! ## Top theorem -/

/-- **Standing quotes have distinct numbers** among those of the submissions, of which the last one
is the number of the last entry. So no number is taken from a smaller one, neither in the book nor
when the next quote is recorded, and fresh quotes are never missing and never many. -/
theorem standing_quotes_numbered (r : Registry) (policy : Policy) (l : List Submission)
    (i : Instrument) (hi : i ∈ r.instruments) :
    ∃ book, ((ofRegistry r policy).run l).book? i.account = some book ∧
      book.seq = (i.entries l).length ∧
      (∀ e ∈ book.quotes, i.isPublisher e.1 = true ∧ e.2.conf ≤ maxConf ∧
        1 ≤ e.2.seq ∧ e.2.seq ≤ book.seq) ∧
      (∀ e ∈ book.quotes, ∀ e' ∈ book.quotes, e.2.seq = e'.2.seq → e = e') ∧
      (∀ e, (i.entries l).getLast? = some e →
        book.quotes.get? e.publisher = some { e.quote with seq := book.seq }) ∧
      (∀ n, book.lastTrading = some n → n ≤ book.seq) ∧
      (∀ s next, i.entry? s = some next → let after := book.record next.publisher next.quote
        (∀ e ∈ after.quotes, e.2.seq ≤ after.seq) ∧
          ∀ n, after.lastTrading = some n → n ≤ after.seq) ∧
      (i.entries l ≠ [] → book.fresh policy ≠ []) ∧
      (book.fresh policy).length ≤ policy.maxQuoteLag + 1 ∧
      (policy.maxQuoteLag + 1 < i.minPublishers → book.aggregate.status ≠ .trading) := by
  have hbook := book?_run_ofRegistry hi policy l
  have hn := Book.numbered_ofEntries (i := i) policy l
  have hinst := Book.instrument_ofEntries i policy (i.entries l)
  have hlast {n} (h : (Book.ofEntries i policy (i.entries l)).lastTrading = some n) :
      n ≤ (Book.ofEntries i policy (i.entries l)).seq :=
    le_of_le_of_eq (Book.le_of_lastTrading h) (Book.seq_ofEntries ..).symm
  refine ⟨_, hbook, Book.seq_ofEntries .., fun e he => ?_, fun e he e' he' => hn.eq_of_seq he he',
    fun e he => ?_, fun n => hlast, fun s next hs => ?_, fun hne => ?_,
    hn.length_fresh_le policy, fun hmany htrading => ?_⟩
  · obtain ⟨hp, hconf⟩ := hn.admitted e he
    exact ⟨hinst ▸ hp, hconf, hn.numbers e he⟩
  · obtain ⟨pre, hpre⟩ := List.getLast?_eq_some_iff.1 he
    rw [hpre, Book.ofEntries_concat, Book.seq_enter, Book.enter, Book.quotes_submit]
    exact Keyed.get?_put_self ..
  · obtain ⟨-, hconf, -, hp, hq⟩ := Instrument.entry?_eq_some_iff.1 hs
    have hafter := hn.record (hinst.symm ▸ hp) (hq ▸ hconf)
    exact ⟨fun e he => (hafter.numbers e he).2, fun n h => Nat.le_succ_of_le (hlast h)⟩
  · obtain ⟨pre, e, hpre⟩ := (List.eq_nil_or_concat _).resolve_left hne
    rw [hpre, List.concat_eq_append, Book.ofEntries_concat, Book.enter]
    exact Book.fresh_submit_ne_nil _ policy e.publisher e.quote
  · -- a quorum of valid quotes would all have to be fresh
    obtain ⟨found, hfound, -, hset⟩ := settled_run r policy hi l
    obtain rfl := Option.some.inj (hfound.symm.trans hbook)
    have hquorum := hset.trading_iff.1 htrading
    have hvalid := Book.length_valid_le (Book.ofEntries i policy (i.entries l)) policy
    have hfresh := hn.length_fresh_le policy
    rw [Book.quorum, hinst] at hquorum
    omega

/-- A quote that is repeated, and one beside it. -/
def repeatedRun : List Submission :=
  [⟨"px", some "ann", ⟨100, 1, .trading⟩⟩, ⟨"px", some "bob", ⟨102, 1, .trading⟩⟩,
    ⟨"px", some "ann", ⟨100, 1, .trading⟩⟩]

/-- The publisher of the repeated quote has the last number, the other one keeps the second. -/
theorem standing_quotes_numbered_repeated :
    ∃ book, ((ofRegistry pairRegistry {}).run repeatedRun).book? "px" = some book ∧ book.seq = 3 ∧
      book.quotes.get? "ann" = some { (⟨100, 1, .trading⟩ : Quote) with seq := 3 } ∧
      (book.fresh {}).length ≤ 26 := by
  obtain ⟨book, hbook, hseq, -, -, hlast, -, -, -, hfresh, -⟩ :=
    standing_quotes_numbered pairRegistry {} repeatedRun _ List.mem_cons_self
  have hann := hlast ⟨"ann", ⟨100, 1, .trading⟩⟩ rfl
  have hthree : book.seq = 3 := hseq
  rw [hthree] at hann
  exact ⟨book, hbook, hthree, hann, hfresh⟩

end Board

end PriceFeed
