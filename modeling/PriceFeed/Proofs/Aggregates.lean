import PriceFeed.Proofs.Locality

/-!
# Aggregates over runs of submissions

After any run of submissions the aggregate of an instrument follows from the quotes that stand in
its book and the last aggregate that was trading, however it was made (`aggregate_eq_after_run`).
The consensus it publishes cannot be moved out of an interval in which most publishers agree,
whatever the others say (`majority_bounds_consensus`).
-/

namespace PriceFeed

namespace Board

/-- The aggregates of an account after each submission of a run. -/
def history (b : Board) (account : String) : List Submission → List Aggregate
  | [] => []
  | s :: rest =>
    ((b.apply s).aggregate? account).toList ++ (b.apply s).history account rest

/-- The last trading aggregate of a history; zero if there is none. -/
def lastTrading (l : List Aggregate) : Aggregate :=
  (l.reverse.find? (·.status = .trading)).getD {}

theorem history_append (b : Board) (account : String) (l l' : List Submission) :
    b.history account (l ++ l') = b.history account l ++ (b.run l).history account l' := by
  induction l generalizing b with
  | nil => rfl
  | cons s rest ih =>
    rw [List.cons_append, history, history, ih, List.append_assoc]
    rfl

theorem lastTrading_snoc (l : List Aggregate) (a : Aggregate) :
    lastTrading (l ++ [a]) = (lastTrading l).newer a := by
  unfold lastTrading Aggregate.newer
  rw [List.reverse_append]
  by_cases h : a.status = .trading
  · simp [h]
  · simp [h]

theorem history_snoc {b : Board} {account : String} {l : List Submission} {s : Submission}
    {book : Book} (h : ((b.run l).apply s).book? account = some book) :
    b.history account (l ++ [s]) = b.history account l ++ [book.aggregate] := by
  rw [history_append]
  simp [history, aggregate?_eq, h]

/-- The aggregates of a run are settled, at any moment. -/
theorem settled_run (r : Registry) (policy : Policy) {i : Instrument} (hi : i ∈ r.instruments)
    (l : List Submission) :
    ∃ book, ((ofRegistry r policy).run l).book? i.account = some book ∧ book.instrument = i ∧
      book.Settled policy (lastTrading ((ofRegistry r policy).history i.account l)) := by
  induction l using List.reverseRecOn with
  | nil =>
    obtain ⟨book, hbook, rfl⟩ := (covers_ofRegistry r policy).exists_book hi
    obtain ⟨j, -, rfl⟩ := List.mem_map.1 (List.mem_of_find?_eq_some hbook)
    exact ⟨_, hbook, rfl, Book.settled_empty _ _⟩
  | append_singleton l s ih =>
    obtain ⟨book, hbook, hinst, hset⟩ := ih
    rw [run_snoc]
    rcases book?_apply ((ofRegistry r policy).run l) s i.account with h | ⟨old, p, hold, -, -, h⟩
    · rw [hbook] at h
      refine ⟨book, h, hinst, ?_⟩
      rw [history_snoc h, lastTrading_snoc, hset.newer_eq]
      exact hset
    · rw [hbook, Option.some.injEq] at hold
      subst hold
      rw [policy_run] at h
      refine ⟨_, h, (Book.instrument_submit ..).trans hinst, ?_⟩
      rw [history_snoc h, lastTrading_snoc]
      exact hset.submit p s.quote

/-- Once a submission was accepted there are always fresh quotes. -/
theorem fresh_ne_nil_of_accepted {b : Board} {account : String} {l : List Submission}
    (h : b.Accepted account l) {book : Book} (hbook : (b.run l).book? account = some book) :
    book.fresh b.policy ≠ [] := by
  obtain ⟨pre, s, post, rfl, rfl, ⟨result, after⟩, hok⟩ := h
  induction post using List.reverseRecOn generalizing book with
  | nil =>
    have happly : (b.run pre).apply s = after := apply_of_ok hok
    obtain ⟨old, p, hold, -, -, -, rfl, -⟩ := submit_eq_ok hok
    have hacc := (Book.account_submit old (b.run pre).policy p s.quote).trans
      (account_of_book? hold)
    rw [run_snoc, happly, book?_replace hold hacc, if_pos rfl, Option.some.injEq] at hbook
    subst hbook
    rw [policy_run]
    exact Book.fresh_submit_ne_nil _ _ _ _
  | append_singleton post t ih =>
    rw [← List.cons_append, ← List.append_assoc, run_snoc] at hbook
    rcases book?_apply (b.run (pre ++ s :: post)) t s.account with h | ⟨old, p, -, -, -, h⟩
    · exact ih (h ▸ hbook)
    · rw [hbook, Option.some.injEq, policy_run] at h
      subst h
      exact Book.fresh_submit_ne_nil _ _ _ _

/-- What the aggregate of an instrument is after any run with an accepted submission for it, and
which of the quotes that stand it is made of. -/
theorem aggregate_eq_after_run (r : Registry) (policy : Policy) (l : List Submission)
    (i : Instrument) (hi : i ∈ r.instruments)
    (hl : (ofRegistry r policy).Accepted i.account l) :
    ∃ book, ((ofRegistry r policy).run l).book? i.account = some book ∧ book.instrument = i ∧
      (∀ q, q ∈ book.fresh policy ↔
        ∃ e ∈ book.quotes, book.seq - e.2.seq ≤ policy.maxQuoteLag ∧ e.2.toQuote = q) ∧
      book.valid policy =
        (book.quotes.filter fun e => book.seq - e.2.seq ≤ policy.maxQuoteLag ∧
          e.2.status = .trading ∧ e.2.Narrow policy.confDivisor ∧ e.2.band.Fits).map (·.2.band) ∧
      (book.aggregate.status = .trading ↔ max 1 i.minPublishers ≤ (book.valid policy).length) ∧
      (book.aggregate.status = .trading →
        consensus (book.valid policy) = some ⟨book.aggregate.price, book.aggregate.conf⟩) ∧
      (book.aggregate.status ≠ .trading →
        book.aggregate =
          { lastTrading ((ofRegistry r policy).history i.account l) with
            status := if ∀ q ∈ book.fresh policy, q.status = .halted then .halted
              else .unknown }) := by
  obtain ⟨book, hbook, rfl, hset⟩ := settled_run r policy hi l
  refine ⟨book, hbook, rfl, fun q => Book.mem_fresh_iff, book.valid_eq policy, hset.trading_iff,
    hset.agreed, fun hne => ?_⟩
  have hfresh : book.fresh policy ≠ [] := fresh_ne_nil_of_accepted hl hbook
  rw [← Book.idleStatus_eq hfresh, ← hset.idle hne]
  exact hset.kept

/-- An instrument that needs both of its publishers. -/
def pairRegistry : Registry where
  instruments := [⟨"px", "LTC", "prod", -2, .price, ["ann", "bob"], 2⟩]
  products := [⟨"prod", [], ["px"]⟩]
  nodup_accounts := by decide

/-- One publisher, a stranger who is refused, and the other publisher. -/
def pairRun : List Submission :=
  [⟨"px", some "ann", ⟨100, 1, .trading⟩⟩, ⟨"px", some "eve", ⟨7, 0, .trading⟩⟩,
    ⟨"px", some "bob", ⟨102, 1, .trading⟩⟩]

/-- Both quotes count, and the aggregate is their consensus. -/
theorem aggregate_eq_after_pairRun :
    (ofRegistry pairRegistry {}).Accepted "px" pairRun ∧
      ∃ book, ((ofRegistry pairRegistry {}).run pairRun).book? "px" = some book ∧
        book.valid {} = [⟨100, 1⟩, ⟨102, 1⟩] ∧ book.aggregate.status = .trading ∧
        book.aggregate.price = 101 ∧ book.aggregate.conf = 1 := by
  have hl : (ofRegistry pairRegistry {}).Accepted "px" pairRun :=
    ⟨[], ⟨"px", some "ann", ⟨100, 1, .trading⟩⟩, _, rfl, rfl, _, rfl⟩
  obtain ⟨book, hbook, -, -, hvalid, htrading, hagreed, -⟩ :=
    aggregate_eq_after_run pairRegistry {} pairRun _ List.mem_cons_self hl
  -- the stranger makes no entry, so two quotes stand
  let px : Instrument := ⟨"px", "LTC", "prod", -2, .price, ["ann", "bob"], 2⟩
  have hentries := book?_run_ofRegistry (r := pairRegistry) (i := px) List.mem_cons_self {} pairRun
  obtain rfl := Option.some.inj (hbook.symm.trans hentries)
  have hquotes : (Book.ofEntries px {} (px.entries pairRun)).quotes =
      [("ann", ⟨⟨100, 1, .trading⟩, 1⟩), ("bob", ⟨⟨102, 1, .trading⟩, 2⟩)] := by
    have htwo : px.entries pairRun =
        [⟨"ann", ⟨100, 1, .trading⟩⟩, ⟨"bob", ⟨102, 1, .trading⟩⟩] := by decide
    simp only [htwo, Book.ofEntries, Book.enter, List.foldl_cons, List.foldl_nil,
      Book.quotes_submit, Book.seq_submit]
    decide
  have hboth : (Book.ofEntries px {} (px.entries pairRun)).valid {} = [⟨100, 1⟩, ⟨102, 1⟩] := by
    rw [hvalid, hquotes, Book.seq_ofEntries]
    decide
  have hstatus := htrading.2 (by rw [hboth]; decide)
  have hsamples : sortedSamples [⟨100, 1⟩, ⟨102, 1⟩] = [99, 100, 101, 101, 102, 103] := by
    have hbands : ([⟨100, 1⟩, ⟨102, 1⟩] : List Band).filterMap Band.samples? =
        [[99, 100, 101], [101, 102, 103]] := by decide
    rw [sortedSamples, hbands]
    exact List.mergeSort_of_pairwise (by decide)
  have hconsensus : consensus [⟨100, 1⟩, ⟨102, 1⟩] = some ⟨101, 1⟩ := by
    rw [consensus, hsamples]
    decide
  have hagreed := hagreed hstatus
  rw [hboth, hconsensus, Option.some.injEq, Band.mk.injEq] at hagreed
  exact ⟨hl, _, hbook, hboth, hstatus, hagreed.1.symm, hagreed.2.symm⟩

/-! ## Majorities -/

/-- The consensus lies where most bands lie, and is no wider if more than three quarters do; and
it is what a trading aggregate publishes whose valid bands these are. -/
theorem majority_bounds_consensus (bands : List Band) (lo hi : Int) (hne : bands ≠ [])
    (hfit : ∀ b ∈ bands, b.Fits) :
    ∃ c, consensus bands = some c ∧
      (bands.length < 2 * bands.countP (·.Within lo hi) → lo ≤ c.price ∧ c.price ≤ hi) ∧
      (3 * bands.length < 4 * bands.countP (·.Within lo hi) → (c.conf : Int) ≤ hi - lo) ∧
      ∀ (r : Registry) (policy : Policy) (l : List Submission) (account : String) (book : Book),
        ((ofRegistry r policy).run l).book? account = some book →
        book.aggregate.status = .trading → book.valid policy = bands →
        book.aggregate.price = c.price ∧ book.aggregate.conf = c.conf := by
  refine ⟨_, consensus_eq_some hne hfit, fun h => median_mem_of_majority hfit h, fun h => ?_,
    fun r policy l account book hbook ht hv => ?_⟩
  · have hm : lo ≤ median (sortedSamples bands) ∧ median (sortedSamples bands) ≤ hi :=
      median_mem_of_majority hfit (by omega)
    have hl := lowerQuartile_mem_of_majority hfit h
    have hu := upperQuartile_mem_of_majority hfit h
    simp only
    omega
  · have hcov := (covers_ofRegistry r policy).run l
    have hi : book.instrument ∈ r.instruments :=
      hcov ▸ List.mem_map_of_mem (hcov.book?_eq_some_iff.1 hbook).1
    have hacc : book.instrument.account = account := account_of_book? hbook
    obtain ⟨found, hfound, -, hset⟩ := settled_run r policy hi l
    rw [hacc, hbook, Option.some.injEq] at hfound
    subst hfound
    have hc := hset.agreed ht
    rw [hv, consensus_eq_some hne hfit, Option.some.injEq, Band.mk.injEq] at hc
    exact ⟨hc.1.symm, hc.2.symm⟩

/-- Four publishers that agree, and one far off. -/
theorem majority_bounds_outlier :
    let bands : List Band := [⟨100, 1⟩, ⟨101, 1⟩, ⟨10000, 1⟩, ⟨102, 1⟩, ⟨103, 1⟩]
    3 * bands.length < 4 * bands.countP (·.Within 99 104) ∧
      ∃ c, consensus bands = some c ∧ 99 ≤ c.price ∧ c.price ≤ 104 ∧ c.conf ≤ 5 := by
  intro bands
  have hmost : 3 * bands.length < 4 * bands.countP (·.Within 99 104) := by decide
  obtain ⟨c, hc, hprice, hconf, -⟩ :=
    majority_bounds_consensus bands 99 104 (by decide) (by decide)
  have := hprice (by omega)
  have := hconf hmost
  exact ⟨hmost, c, hc, by omega, by omega, by omega⟩

end Board

end PriceFeed
