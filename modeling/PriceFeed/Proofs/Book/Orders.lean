import PriceFeed.Proofs.Book.Numbers
import PriceFeed.Proofs.Consensus.Ranks
import PriceFeed.Proofs.Keyed

/-!
# First quotes in any order

While every publisher has one entry at most, and there are no more entries than a quote may be old,
the fresh quotes are all the entries. So more entries never make fewer valid quotes: an instrument
that does not trade has never traded, and its price and confidence are zero still. What it shows
besides its averages is made of the fresh quotes, whatever their order.

    the fresh quotes are those of the entries                          (fresh_ofEntries_perm)
    not trading means never having traded                                 (settled_first_quotes)
    the same quotes in another order show the same                     (first_quotes_unordered)
-/

namespace PriceFeed

namespace Book

/-! ## Fresh quotes -/

/-- With one entry of each publisher all entries are standing. -/
theorem quotes_ofEntries_perm (i : Instrument) (policy : Policy) {l : List Entry}
    (hdistinct : (l.map (·.publisher)).Nodup) :
    ((ofEntries i policy l).quotes.map fun e => Entry.mk e.1 e.2.toQuote).Perm l := by
  induction l using List.reverseRecOn with
  | nil => exact .refl _
  | append_singleton l e ih =>
    rw [List.map_append, List.nodup_append] at hdistinct
    obtain ⟨hdistinct, -, hapart⟩ := hdistinct
    have hstanding := ih hdistinct
    have hnew : ∀ x ∈ (ofEntries i policy l).quotes, x.1 ≠ e.publisher := fun x hx =>
      hapart x.1 (List.mem_map_of_mem (hstanding.subset (List.mem_map_of_mem hx))) e.publisher
        (by simp)
    rw [ofEntries_concat, enter, quotes_submit]
    exact ((Keyed.put_perm hnew _).map _).trans
      ((hstanding.cons e).trans (List.perm_append_singleton e l).symm)

section FirstQuotes

variable {i : Instrument} {policy : Policy} {l : List Submission}

/-- As long as the first entry is fresh, all are. -/
theorem fresh_ofEntries_perm (hfew : (i.entries l).length ≤ policy.maxQuoteLag + 1)
    (hdistinct : ((i.entries l).map (·.publisher)).Nodup) :
    ((ofEntries i policy (i.entries l)).fresh policy).Perm ((i.entries l).map (·.quote)) := by
  have hyoung : ∀ e ∈ (ofEntries i policy (i.entries l)).quotes,
      decide ((ofEntries i policy (i.entries l)).seq - e.2.seq ≤ policy.maxQuoteLag) = true := by
    intro e he
    have := ((numbered_ofEntries policy l).numbers e he).1
    rw [seq_ofEntries, decide_eq_true_eq]
    omega
  have hquotes := (quotes_ofEntries_perm i policy hdistinct).map (·.quote)
  rw [List.map_map] at hquotes
  rw [fresh, List.filter_eq_self.2 hyoung]
  exact hquotes

end FirstQuotes

theorem length_valid (b : Book) (policy : Policy) :
    (b.valid policy).length = (b.fresh policy).countP (Counts policy) := by
  rw [valid, List.length_map, List.countP_eq_length_filter]

/-- An instrument that does not trade has not traded with its first quotes. -/
theorem settled_first_quotes {i : Instrument} {policy : Policy} {l : List Submission}
    (hfew : (i.entries l).length ≤ policy.maxQuoteLag + 1)
    (hdistinct : ((i.entries l).map (·.publisher)).Nodup) :
    ∃ last, (ofEntries i policy (i.entries l)).Settled policy last ∧
      ((ofEntries i policy (i.entries l)).aggregate.status ≠ .trading → last = {}) := by
  induction l using List.reverseRecOn with
  | nil => exact ⟨{}, settled_empty i policy, fun _ => rfl⟩
  | append_singleton l s ih =>
    have hfresh := fresh_ofEntries_perm hfew hdistinct
    rw [i.entries_concat] at hfew hdistinct hfresh ⊢
    have hfew' : (i.entries l).length ≤ policy.maxQuoteLag + 1 := by
      rw [List.length_append] at hfew
      omega
    have hdistinct' : ((i.entries l).map (·.publisher)).Nodup := by
      rw [List.map_append] at hdistinct
      exact hdistinct.of_append_left
    obtain ⟨last, hset, hlast⟩ := ih hfew' hdistinct'
    cases he : i.entry? s with
    | none =>
      rw [Option.toList_none, List.append_nil]
      exact ⟨last, hset, hlast⟩
    | some e =>
      have hfresh' := fresh_ofEntries_perm hfew' hdistinct'
      rw [he, Option.toList_some] at hfresh
      rw [Option.toList_some]
      have hafter := hset.submit e.publisher e.quote
      rw [ofEntries_concat] at hfresh ⊢
      -- the entry only adds to the valid quotes
      have hmore : ((ofEntries i policy (i.entries l)).valid policy).length ≤
          (((ofEntries i policy (i.entries l)).enter policy e).valid policy).length := by
        rw [length_valid, length_valid, hfresh.countP_eq, hfresh'.countP_eq, List.map_append,
          List.countP_append]
        exact Nat.le_add_right ..
      refine ⟨_, hafter, fun hidle => ?_⟩
      have hbefore : (ofEntries i policy (i.entries l)).aggregate.status ≠ .trading := by
        intro htrading
        refine hidle (hafter.trading_iff.2 ?_)
        have hquorum := hset.trading_iff.1 htrading
        unfold quorum at hquorum ⊢
        rw [instrument_submit]
        exact Nat.le_trans hquorum hmore
      exact (if_neg hidle).trans (hlast hbefore)

/-! ## Books with the same fresh quotes -/

section SameQuotes

variable {b b' : Book} {policy : Policy} (hinstrument : b'.instrument = b.instrument)
  (hfresh : (b'.fresh policy).Perm (b.fresh policy))

include hfresh in
theorem valid_perm : (b'.valid policy).Perm (b.valid policy) := (hfresh.filter _).map _

include hfresh in
theorem idleStatus_perm : b'.idleStatus policy = b.idleStatus policy := by
  unfold idleStatus
  simp only [hfresh.isEmpty_eq, hfresh.all_eq]

include hinstrument hfresh

/-- Status, and price and confidence of a trading instrument, are made of the fresh quotes in any
order. -/
theorem Settled.shown_eq {last last' : Aggregate} (h : b.Settled policy last)
    (h' : b'.Settled policy last') :
    b'.aggregate.status = b.aggregate.status ∧ (b.aggregate.status = .trading →
      b'.aggregate.price = b.aggregate.price ∧ b'.aggregate.conf = b.aggregate.conf) := by
  have hvalid := valid_perm hfresh
  have htrading : b'.aggregate.status = .trading ↔ b.aggregate.status = .trading := by
    rw [h.trading_iff, h'.trading_iff, quorum, quorum, hinstrument, hvalid.length_eq]
  by_cases ht : b.aggregate.status = .trading
  · have hc := h.agreed ht
    have hc' := h'.agreed (htrading.2 ht)
    rw [consensus_perm hvalid, hc, Option.some.injEq, Band.mk.injEq] at hc'
    exact ⟨(htrading.2 ht).trans ht.symm, fun _ => ⟨hc'.1.symm, hc'.2.symm⟩⟩
  · have hidle := h'.idle fun ht' => ht (htrading.1 ht')
    rw [idleStatus_perm hfresh, ← h.idle ht] at hidle
    exact ⟨hidle, fun ht' => absurd ht' ht⟩

end SameQuotes

end Book

namespace Board

/-! ## Top theorem -/

/-- **The first quotes can come in any order.** When no publisher of an instrument has more than
one quote accepted, and no quote has become stale, price, confidence and status of the instrument
do not depend on the order of the submissions. (Its averages do.) -/
theorem first_quotes_unordered (r : Registry) (policy : Policy) (i : Instrument)
    (hi : i ∈ r.instruments) (l l' : List Submission) (hperm : l'.Perm l)
    (hfew : (i.entries l).length ≤ policy.maxQuoteLag + 1)
    (hdistinct : ((i.entries l).map (·.publisher)).Nodup) :
    ∃ a a', ((ofRegistry r policy).run l).read i.account = .ok a ∧
      ((ofRegistry r policy).run l').read i.account = .ok a' ∧
      a'.price = a.price ∧ a'.conf = a.conf ∧ a'.status = a.status := by
  have hentries : (i.entries l').Perm (i.entries l) := hperm.filterMap _
  have hfew' : (i.entries l').length ≤ policy.maxQuoteLag + 1 := hentries.length_eq ▸ hfew
  have hdistinct' : ((i.entries l').map (·.publisher)).Nodup :=
    (hentries.map _).nodup_iff.2 hdistinct
  obtain ⟨last, hset, hlast⟩ := Book.settled_first_quotes hfew hdistinct
  obtain ⟨last', hset', hlast'⟩ := Book.settled_first_quotes hfew' hdistinct'
  have hfresh : ((Book.ofEntries i policy (i.entries l')).fresh policy).Perm
      ((Book.ofEntries i policy (i.entries l)).fresh policy) :=
    (Book.fresh_ofEntries_perm hfew' hdistinct').trans
      ((hentries.map _).trans (Book.fresh_ofEntries_perm hfew hdistinct).symm)
  have hinstrument : (Book.ofEntries i policy (i.entries l')).instrument =
      (Book.ofEntries i policy (i.entries l)).instrument := by
    rw [Book.instrument_ofEntries, Book.instrument_ofEntries]
  obtain ⟨hstatus, hshown⟩ := hset.shown_eq hinstrument hfresh hset'
  refine ⟨_, _, read_of_book? (book?_run_ofRegistry hi policy l),
    read_of_book? (book?_run_ofRegistry hi policy l'), ?_⟩
  by_cases htrading : (Book.ofEntries i policy (i.entries l)).aggregate.status = .trading
  · obtain ⟨hprice, hconf⟩ := hshown htrading
    exact ⟨hprice, hconf, hstatus⟩
  · rw [hset.kept, hset'.kept, hlast htrading, hlast' (hstatus ▸ htrading)]
    exact ⟨rfl, rfl, hstatus⟩

/-- Two publishers that are both needed, and a stranger between them, the other way round. -/
theorem first_quotes_unordered_pair :
    let px : Instrument := ⟨"px", "LTC", "prod", -2, .price, ["ann", "bob"], 2⟩
    px ∈ pairRegistry.instruments ∧ (px.entries pairRun).length ≤ 26 ∧
      ((px.entries pairRun).map (·.publisher)).Nodup ∧
      ∃ a a', ((ofRegistry pairRegistry {}).run pairRun).read "px" = .ok a ∧
        ((ofRegistry pairRegistry {}).run pairRun.reverse).read "px" = .ok a' ∧
        a'.price = a.price ∧ a'.conf = a.conf ∧ a'.status = a.status := by
  intro px
  have hpx : px ∈ pairRegistry.instruments := List.mem_cons_self
  have hfew : (px.entries pairRun).length ≤ 26 := by decide
  have hdistinct : ((px.entries pairRun).map (·.publisher)).Nodup := by decide
  exact ⟨hpx, hfew, hdistinct, first_quotes_unordered pairRegistry {} px hpx pairRun
    pairRun.reverse (List.reverse_perm pairRun) hfew hdistinct⟩

end Board

end PriceFeed
