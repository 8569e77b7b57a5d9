import PriceFeed.Commits

/-!
# Commits between the hub and the store

A queue takes a commit or drops it, and a commit that it takes is passed to the store in its turn
unless the worker ends before. So the commits a queue took are those that were passed on, followed
by those that wait, followed by those that were lost when the worker ended (`Ledger`). A store that
takes every commit has, for each account, the aggregate of the last one (`lastFor`).

    q.Ledger offers attempts → (q.enqueue c).2.Ledger (offers ++ [⟨c, (q.enqueue c).1⟩]) attempts
                                                                                (Ledger.enqueue)
    q.Ledger offers attempts → the queue after a step of the worker has a ledger   (Ledger.step)
    (l.foldl commit s).committed? account = (lastFor l account).or (s.committed? account)
                                                                           (committed?_foldl_commit)
-/

namespace PriceFeed

/-! ## Last commits -/

/-- The aggregate that the last of some commits for an account has. -/
def lastFor (l : List Commit) (account : String) : Option Aggregate :=
  ((l.filter (·.account = account)).getLast?).map (·.aggregate)

@[simp] theorem lastFor_nil (account : String) : lastFor [] account = none := rfl

theorem lastFor_append (l l' : List Commit) (account : String) :
    lastFor (l ++ l') account = (lastFor l' account).or (lastFor l account) := by
  unfold lastFor
  rw [List.filter_append, List.getLast?_append]
  cases (l'.filter (·.account = account)).getLast? <;> rfl

theorem lastFor_singleton (c : Commit) (account : String) :
    lastFor [c] account = if account = c.account then some c.aggregate else none := by
  unfold lastFor
  by_cases h : c.account = account
  · simp [h]
  · simp [h, Ne.symm h]

theorem isSome_lastFor {l : List Commit} {account : String} :
    (lastFor l account).isSome = true ↔ ∃ c ∈ l, c.account = account := by
  unfold lastFor
  rw [Option.isSome_map, List.getLast?_isSome, Ne, List.filter_eq_nil_iff]
  simp

namespace Store

theorem committed?_foldl_commit (s : Store) (l : List Commit) (account : String) :
    (l.foldl commit s).committed? account = (lastFor l account).or (s.committed? account) := by
  induction l generalizing s with
  | nil => rfl
  | cons c rest ih =>
    have hone : (s.commit c).committed? account =
        (lastFor [c] account).or (s.committed? account) := by
      rw [lastFor_singleton]
      split
      · next h => rw [h, committed?_commit_self, Option.some_or]
      · next h => rw [committed?_commit_of_ne h, Option.none_or]
    rw [List.foldl_cons, ih, hone, ← Option.or_assoc, ← lastFor_append]
    rfl

/-- A store is made of the commits it took. -/
theorem absorb_eq (s : Store) (attempts : List CommitAttempt) :
    s.absorb attempts = ((attempts.filter (·.accepted)).map (·.commit)).foldl commit s := by
  unfold absorb
  rw [List.foldl_map, List.foldl_filter]

theorem absorb_append (s : Store) (l l' : List CommitAttempt) :
    s.absorb (l ++ l') = (s.absorb l).absorb l' := List.foldl_append

end Store

/-! ## Offers -/

/-- A commit offered to a queue, and whether the queue took it. -/
structure Offer where
  commit : Commit
  taken : Bool
  deriving DecidableEq, Repr

/-- The commits that a queue took. -/
def taken (offers : List Offer) : List Commit := (offers.filter (·.taken)).map (·.commit)

theorem taken_append (l l' : List Offer) : taken (l ++ l') = taken l ++ taken l' := by
  simp [taken]

namespace CommitQueue

/-- Offers commits to a queue one after another. -/
def enqueueAll (q : CommitQueue) (l : List Commit) : CommitQueue :=
  l.foldl (fun q c => (q.enqueue c).2) q

/-- What becomes of commits offered to a queue one after another. -/
def offers (q : CommitQueue) : List Commit → List Offer
  | [] => []
  | c :: rest => ⟨c, (q.enqueue c).1⟩ :: (q.enqueue c).2.offers rest

theorem enqueueAll_append (q : CommitQueue) (l l' : List Commit) :
    q.enqueueAll (l ++ l') = (q.enqueueAll l).enqueueAll l' := List.foldl_append

theorem commit_offers (q : CommitQueue) (l : List Commit) :
    (q.offers l).map (·.commit) = l := by
  induction l generalizing q with
  | nil => rfl
  | cons c rest ih => rw [offers, List.map_cons, ih]

theorem offers_append (q : CommitQueue) (l l' : List Commit) :
    q.offers (l ++ l') = q.offers l ++ (q.enqueueAll l).offers l' := by
  induction l generalizing q with
  | nil => rfl
  | cons c rest ih => exact congrArg (_ :: ·) (ih (q.enqueue c).2)

/-- Whether the worker has ended is not for those who offer commits to decide. -/
@[simp] theorem stopped_enqueue (q : CommitQueue) (c : Commit) :
    (q.enqueue c).2.stopped = q.stopped := by
  unfold enqueue
  split
  · rfl
  · split <;> rfl

/-- While the worker runs, a commit is taken or counted as dropped. -/
theorem dropped_enqueue {q : CommitQueue} (hrun : q.stopped = false) (c : Commit) :
    (q.enqueue c).2.dropped = q.dropped + if (q.enqueue c).1 then 0 else 1 := by
  unfold enqueue
  rw [hrun, if_neg Bool.false_ne_true]
  split <;> rfl

theorem dropped_enqueueAll {q : CommitQueue} (hrun : q.stopped = false) (l : List Commit) :
    (q.enqueueAll l).dropped = q.dropped + (q.offers l).countP (!·.taken) := by
  induction l generalizing q with
  | nil => rfl
  | cons c rest ih =>
    have hrest := ih ((stopped_enqueue q c).trans hrun)
    rw [dropped_enqueue hrun] at hrest
    rw [offers, List.countP_cons]
    refine hrest.trans ?_
    cases (q.enqueue c).1 with
    | true => simp
    | false => simp; omega

/-- The worker drops nothing for want of room. -/
theorem dropped_step (q : CommitQueue) (accepts : Commit → Bool) :
    (q.step accepts).2.dropped = q.dropped := by
  unfold step
  split
  · rfl
  · split
    · rfl
    · split
      · rfl
      · split <;> rfl

/-- The worker runs and has no reason to end. -/
structure Attended (q : CommitQueue) : Prop where
  running : q.stopped = false
  wanted : q.cancelled = false
  held : q.handleGone = false

namespace Attended

variable {q : CommitQueue} (h : q.Attended)
include h

theorem enqueue (c : Commit) : (q.enqueue c).2.Attended := by
  unfold CommitQueue.enqueue
  split
  · exact h
  · split <;> exact ⟨h.running, h.wanted, h.held⟩

theorem enqueueAll (l : List Commit) : (q.enqueueAll l).Attended := by
  induction l generalizing q with
  | nil => exact h
  | cons c rest ih => exact ih (h.enqueue c)

theorem step (accepts : Commit → Bool) : (q.step accepts).2.Attended := by
  unfold CommitQueue.step
  rw [h.running, h.wanted, if_neg Bool.false_ne_true, if_neg Bool.false_ne_true]
  split
  · exact ⟨rfl, rfl, h.held⟩
  · rw [h.held]
    exact h

end Attended

/-! ## Ledgers -/

/-- What has become of all commits offered to a queue, where the worker has passed `attempts` to the
store. -/
structure Ledger (q : CommitQueue) (offers : List Offer) (attempts : List CommitAttempt) :
    Prop where
  kept : ∃ lost, taken offers = attempts.map (·.commit) ++ (q.pending ++ lost) ∧
    (q.stopped = false → lost = [])
  drained : q.stopped = true → q.pending = []
  failed : q.failed = attempts.countP (!·.accepted)

theorem ledger_new (capacity : Nat) : Ledger { capacity } [] [] where
  kept := ⟨[], rfl, fun _ => rfl⟩
  drained := nofun
  failed := rfl

namespace Ledger

variable {q : CommitQueue} {offers : List Offer} {attempts : List CommitAttempt}

theorem cancel (h : q.Ledger offers attempts) : q.cancel.Ledger offers attempts :=
  ⟨h.kept, h.drained, h.failed⟩

theorem stop (h : q.Ledger offers attempts) : q.stop.Ledger offers attempts where
  kept := by
    obtain ⟨lost, hkept, -⟩ := h.kept
    exact ⟨q.pending ++ lost, hkept, nofun⟩
  drained := fun _ => rfl
  failed := h.failed

theorem enqueue (h : q.Ledger offers attempts) (c : Commit) :
    (q.enqueue c).2.Ledger (offers ++ [⟨c, (q.enqueue c).1⟩]) attempts := by
  obtain ⟨lost, hkept, hlost⟩ := h.kept
  have hrefused : taken (offers ++ [⟨c, false⟩]) = taken offers := by simp [taken]
  unfold CommitQueue.enqueue
  split
  · exact ⟨⟨lost, hrefused.trans hkept, hlost⟩, h.drained, h.failed⟩
  · next hrun =>
    split
    · -- a commit that is taken waits behind the others, since nothing is lost yet
      obtain rfl := hlost (Bool.eq_false_iff.2 hrun)
      refine ⟨⟨[], ?_, fun _ => rfl⟩, fun hs => absurd hs hrun, h.failed⟩
      rw [taken_append, hkept]
      simp [taken]
    · exact ⟨⟨lost, hrefused.trans hkept, hlost⟩, h.drained, h.failed⟩

theorem enqueueAll (h : q.Ledger offers attempts) (l : List Commit) :
    (q.enqueueAll l).Ledger (offers ++ q.offers l) attempts := by
  induction l generalizing q offers with
  | nil => exact (List.append_nil offers).symm ▸ h
  | cons c rest ih =>
    have hrest := ih (h.enqueue c)
    rw [List.append_assoc] at hrest
    exact hrest

theorem step (h : q.Ledger offers attempts) (accepts : Commit → Bool) :
    (q.step accepts).2.Ledger offers (attempts ++ (q.step accepts).1.toList) := by
  have hnone : attempts ++ (none : Option CommitAttempt).toList = attempts := List.append_nil _
  unfold CommitQueue.step
  split
  · exact hnone.symm ▸ h
  · next hrun =>
    split
    · exact hnone.symm ▸ h.stop
    · split
      · next c rest hpending =>
        obtain ⟨lost, hkept, hlost⟩ := h.kept
        refine ⟨⟨lost, ?_, hlost⟩, fun hs => absurd hs hrun, ?_⟩
        · rw [hkept, hpending]
          simp
        · rw [List.countP_append, ← h.failed]
          cases accepts c <;> simp
      · split
        · exact hnone.symm ▸ h.stop
        · exact hnone.symm ▸ h

end Ledger

end CommitQueue

end PriceFeed
