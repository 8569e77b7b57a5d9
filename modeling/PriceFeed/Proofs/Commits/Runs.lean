import PriceFeed.Proofs.Commits

/-!
# Runs of a commit queue

Commits are put in, the worker takes its steps, and at some time it is told to end or the last
handle goes away, in any order. Each step is taken over a store of its own, which refuses what it
likes.

    all that a step of the worker can do                                                  (worked)
    q.Served offers attempts → it is served after an operation, too                 (Served.act)
    q.stopped → nothing is passed on any more                                        (stopped_run)
    what a store refuses is nothing to the queue                                    (run_accepting)

## Top theorem

    the worker passes on what the queue took, in order                       (passed_on_in_order)
-/

namespace PriceFeed

namespace CommitQueue

/-! ## Operations -/

/-- What can happen to a commit queue. -/
inductive Op where
  | enqueue (c : Commit)
  /-- A step of the worker over a store that takes the commits `accepts` names. -/
  | work (accepts : Commit → Bool)
  | cancel
  | dropHandle

/-- The same, over a store that takes every commit. -/
def Op.accepting : Op → Op
  | work _ => work fun _ => true
  | o => o

def act (q : CommitQueue) : Op → CommitQueue
  | .enqueue c => (q.enqueue c).2
  | .work accepts => (q.step accepts).2
  | .cancel => q.cancel
  | .dropHandle => q.dropHandle

/-- The commits that an operation offers to the queue. -/
def offeredBy (q : CommitQueue) : Op → List Offer
  | .enqueue c => [⟨c, (q.enqueue c).1⟩]
  | _ => []

/-- The commits that an operation passes to the store. -/
def attemptedBy (q : CommitQueue) : Op → List CommitAttempt
  | .work accepts => (q.step accepts).1.toList
  | _ => []

/-- All that putting a commit in can do. -/
theorem enqueue_cases (q : CommitQueue) (c : Commit) :
    q.stopped = true ∧ q.enqueue c = (false, q) ∨
      q.stopped = false ∧ q.pending.length < q.room ∧
        q.enqueue c = (true, { q with pending := q.pending ++ [c] }) ∨
      q.stopped = false ∧ q.room ≤ q.pending.length ∧
        q.enqueue c = (false, { q with dropped := q.dropped + 1 }) := by
  unfold enqueue
  split
  · next hstopped => exact .inl ⟨hstopped, rfl⟩
  · next hruns =>
    have hruns := Bool.eq_false_iff.2 hruns
    split
    · next hroom => exact .inr (.inl ⟨hruns, hroom, rfl⟩)
    · next hfull => exact .inr (.inr ⟨hruns, Nat.not_lt.1 hfull, rfl⟩)

/-- All that the worker can do in a step. -/
inductive Worked (accepts : Commit → Bool) (q : CommitQueue) :
    Option CommitAttempt × CommitQueue → Prop
  | ended (hstopped : q.stopped = true) : Worked accepts q (none, q)
  | told (hruns : q.stopped = false) (hcancelled : q.cancelled = true) :
    Worked accepts q (none, q.stop)
  | passed {c : Commit} {rest : List Commit} (hruns : q.stopped = false)
    (hwanted : q.cancelled = false) (hpending : q.pending = c :: rest) :
    Worked accepts q (some ⟨c, accepts c⟩,
      { q with pending := rest, failed := q.failed + if accepts c then 0 else 1 })
  | done (hruns : q.stopped = false) (hwanted : q.cancelled = false) (hempty : q.pending = [])
    (hgone : q.handleGone = true) : Worked accepts q (none, q.stop)
  | idle (hruns : q.stopped = false) (hwanted : q.cancelled = false) (hempty : q.pending = [])
    (hheld : q.handleGone = false) : Worked accepts q (none, q)

theorem worked (q : CommitQueue) (accepts : Commit → Bool) :
    Worked accepts q (q.step accepts) := by
  unfold step
  split
  · next hstopped => exact .ended hstopped
  · next hruns =>
    have hruns := Bool.eq_false_iff.2 hruns
    split
    · next hcancelled => exact .told hruns hcancelled
    · next hwanted =>
      have hwanted := Bool.eq_false_iff.2 hwanted
      split
      · next c rest hpending => exact .passed hruns hwanted hpending
      · next hempty =>
        cases hgone : q.handleGone with
        | true => exact .done hruns hwanted hempty hgone
        | false => exact .idle hruns hwanted hempty hgone

/-! ## Runs -/

def run (q : CommitQueue) (l : List Op) : CommitQueue := l.foldl act q

/-- The commits that a run offers to the queue. -/
def offered (q : CommitQueue) : List Op → List Offer
  | [] => []
  | o :: rest => q.offeredBy o ++ (q.act o).offered rest

/-- The commits that a run passes to the store. -/
def attempted (q : CommitQueue) : List Op → List CommitAttempt
  | [] => []
  | o :: rest => q.attemptedBy o ++ (q.act o).attempted rest

theorem offered_append (q : CommitQueue) (l l' : List Op) :
    q.offered (l ++ l') = q.offered l ++ (q.run l).offered l' := by
  induction l generalizing q with
  | nil => rfl
  | cons o rest ih =>
    rw [List.cons_append, offered, ih, offered, List.append_assoc]
    rfl

theorem attempted_append (q : CommitQueue) (l l' : List Op) :
    q.attempted (l ++ l') = q.attempted l ++ (q.run l).attempted l' := by
  induction l generalizing q with
  | nil => rfl
  | cons o rest ih =>
    rw [List.cons_append, attempted, ih, attempted, List.append_assoc]
    rfl

theorem room_act (q : CommitQueue) (o : Op) : (q.act o).room = q.room := by
  cases o with
  | enqueue c =>
    rcases q.enqueue_cases c with ⟨-, he⟩ | ⟨-, -, he⟩ | ⟨-, -, he⟩ <;> simp [act, he, room]
  | work accepts =>
    have hworked := q.worked accepts
    show (q.step accepts).2.room = q.room
    generalize q.step accepts = result at hworked ⊢
    cases hworked <;> rfl
  | _ => rfl

theorem room_run (q : CommitQueue) (l : List Op) : (q.run l).room = q.room := by
  induction l generalizing q with
  | nil => rfl
  | cons o rest ih => exact (ih (q.act o)).trans (q.room_act o)

/-! ## What the queue took -/

/-- What has become of all commits offered to a queue, and of the worker if it was never told to
end. -/
structure Served (q : CommitQueue) (offers : List Offer) (attempts : List CommitAttempt) :
    Prop where
  ledger : q.Ledger offers attempts
  finished : q.stopped = true → q.cancelled = false →
    q.handleGone = true ∧ attempts.map (·.commit) = taken offers

theorem served_new (capacity : Nat) : Served { capacity } [] [] :=
  ⟨ledger_new capacity, nofun⟩

namespace Served

variable {q : CommitQueue} {offers : List Offer} {attempts : List CommitAttempt}

theorem enqueue (h : q.Served offers attempts) (c : Commit) :
    (q.enqueue c).2.Served (offers ++ [⟨c, (q.enqueue c).1⟩]) attempts := by
  refine ⟨h.ledger.enqueue c, ?_⟩
  rcases q.enqueue_cases c with ⟨-, he⟩ | ⟨hruns, -, he⟩ | ⟨hruns, -, he⟩
  · intro hstopped hwanted
    rw [he] at hstopped hwanted
    obtain ⟨hgone, hall⟩ := h.finished hstopped hwanted
    rw [he]
    exact ⟨hgone, hall.trans (by simp [taken])⟩
  · intro hstopped
    simp [he, hruns] at hstopped
  · intro hstopped
    simp [he, hruns] at hstopped

theorem work (h : q.Served offers attempts) (accepts : Commit → Bool) :
    (q.step accepts).2.Served offers (attempts ++ (q.step accepts).1.toList) := by
  refine ⟨h.ledger.step accepts, ?_⟩
  have hworked := q.worked accepts
  generalize q.step accepts = result at hworked ⊢
  cases hworked with
  | ended hstopped =>
    simp only [Option.toList_none, List.append_nil]
    exact h.finished
  | told hruns hcancelled =>
    intro _ hwanted
    rw [show q.stop.cancelled = true from hcancelled] at hwanted
    cases hwanted
  | passed hruns hwanted hpending =>
    intro hstopped
    rw [show q.stopped = true from hstopped] at hruns
    cases hruns
  | done hruns hwanted hempty hgone =>
    -- nothing waits and nothing was lost before, so all that was taken was passed on
    intro _ _
    obtain ⟨lost, hkept, hlost⟩ := h.ledger.kept
    rw [hempty, hlost hruns] at hkept
    simp only [Option.toList_none, List.append_nil]
    exact ⟨hgone, by simpa using hkept.symm⟩
  | idle hruns hwanted hempty hheld =>
    intro hstopped
    rw [hruns] at hstopped
    cases hstopped

theorem act (h : q.Served offers attempts) (o : Op) :
    (q.act o).Served (offers ++ q.offeredBy o) (attempts ++ q.attemptedBy o) := by
  cases o with
  | enqueue c =>
    rw [show q.attemptedBy (.enqueue c) = [] from rfl, List.append_nil]
    exact h.enqueue c
  | work accepts =>
    rw [show q.offeredBy (.work accepts) = [] from rfl, List.append_nil]
    exact h.work accepts
  | cancel =>
    simp only [offeredBy, attemptedBy, List.append_nil]
    exact ⟨h.ledger.cancel, nofun⟩
  | dropHandle =>
    simp only [offeredBy, attemptedBy, List.append_nil]
    refine ⟨⟨h.ledger.kept, h.ledger.drained, h.ledger.failed⟩, fun hstopped hwanted => ?_⟩
    exact ⟨rfl, (h.finished hstopped hwanted).2⟩

theorem run (h : q.Served offers attempts) (l : List Op) :
    (q.run l).Served (offers ++ q.offered l) (attempts ++ q.attempted l) := by
  induction l generalizing q offers attempts with
  | nil =>
    rw [offered, attempted, List.append_nil, List.append_nil]
    exact h
  | cons o rest ih =>
    have hrest := ih (h.act o)
    rw [List.append_assoc, List.append_assoc] at hrest
    exact hrest

end Served

/-! ## The end of the worker -/

theorem stopped_act {q : CommitQueue} (h : q.stopped = true) (o : Op) :
    (q.act o).stopped = true ∧ q.attemptedBy o = [] ∧ taken (q.offeredBy o) = [] := by
  cases o with
  | enqueue c =>
    rcases q.enqueue_cases c with ⟨-, he⟩ | ⟨hruns, -⟩ | ⟨hruns, -⟩
    · simp [act, attemptedBy, offeredBy, he, h, taken]
    · rw [h] at hruns
      cases hruns
    · rw [h] at hruns
      cases hruns
  | work accepts =>
    have he : q.step accepts = (none, q) := if_pos h
    simp [act, attemptedBy, offeredBy, he, h, taken]
  | cancel => exact ⟨h, rfl, rfl⟩
  | dropHandle => exact ⟨h, rfl, rfl⟩

/-- A worker that has ended passes nothing on, and its queue takes nothing. -/
theorem stopped_run {q : CommitQueue} (h : q.stopped = true) (l : List Op) :
    (q.run l).stopped = true ∧ q.attempted l = [] ∧ taken (q.offered l) = [] := by
  induction l generalizing q with
  | nil => exact ⟨h, rfl, rfl⟩
  | cons o rest ih =>
    obtain ⟨hstopped, hattempts, htaken⟩ := stopped_act h o
    obtain ⟨hend, hrest, hmore⟩ := ih hstopped
    rw [attempted, offered, taken_append, hattempts, htaken, hrest, hmore]
    exact ⟨hend, rfl, rfl⟩

/-! ## Refusals -/

/-- The same queue with another count of refusals. -/
def withFailed (q : CommitQueue) (failed : Nat) : CommitQueue := { q with failed }

theorem enqueue_withFailed (q : CommitQueue) (failed : Nat) (c : Commit) :
    (q.withFailed failed).enqueue c = ((q.enqueue c).1, (q.enqueue c).2.withFailed failed) := by
  rcases q.enqueue_cases c with ⟨hstopped, he⟩ | ⟨hruns, hroom, he⟩ | ⟨hruns, hfull, he⟩
  · rw [he]
    exact if_pos hstopped
  · have hstays : ¬ (q.withFailed failed).stopped = true := by simp [withFailed, hruns]
    rw [he]
    exact (if_neg hstays).trans (if_pos hroom)
  · have hstays : ¬ (q.withFailed failed).stopped = true := by simp [withFailed, hruns]
    rw [he]
    exact (if_neg hstays).trans (if_neg (Nat.not_lt.2 hfull))

theorem step_withFailed (q : CommitQueue) (failed : Nat) (accepts : Commit → Bool) :
    (q.withFailed failed).step (fun _ => true) =
      ((q.step accepts).1.map fun a => ⟨a.commit, true⟩, (q.step accepts).2.withFailed failed) := by
  have hworked := q.worked accepts
  generalize q.step accepts = result at hworked ⊢
  cases hworked with
  | ended hstopped => simp [step, withFailed, hstopped]
  | told hruns hcancelled => simp [step, withFailed, stop, hruns, hcancelled]
  | passed hruns hwanted hpending => simp [step, withFailed, hruns, hwanted, hpending]
  | done hruns hwanted hempty hgone => simp [step, withFailed, stop, hruns, hwanted, hempty, hgone]
  | idle hruns hwanted hempty hheld => simp [step, withFailed, hruns, hwanted, hempty, hheld]

/-- To the queue, a store that refuses commits is like one that takes all of them. -/
theorem act_accepting (q : CommitQueue) (failed : Nat) (o : Op) :
    (q.withFailed failed).act o.accepting = (q.act o).withFailed failed ∧
      (q.withFailed failed).offeredBy o.accepting = q.offeredBy o ∧
      ((q.withFailed failed).attemptedBy o.accepting).map (·.commit) =
        (q.attemptedBy o).map (·.commit) := by
  cases o with
  | enqueue c => simp [act, offeredBy, attemptedBy, Op.accepting, enqueue_withFailed]
  | work accepts =>
    have hstep := q.step_withFailed failed accepts
    refine ⟨congrArg (·.2) hstep, rfl, ?_⟩
    show ((q.withFailed failed).step fun _ => true).1.toList.map (·.commit) =
      (q.step accepts).1.toList.map (·.commit)
    rw [hstep]
    cases (q.step accepts).1 <;> rfl
  | cancel => exact ⟨rfl, rfl, rfl⟩
  | dropHandle => exact ⟨rfl, rfl, rfl⟩

theorem run_accepting (q : CommitQueue) (failed : Nat) (l : List Op) :
    (q.withFailed failed).run (l.map Op.accepting) = (q.run l).withFailed failed ∧
      (q.withFailed failed).offered (l.map Op.accepting) = q.offered l ∧
      ((q.withFailed failed).attempted (l.map Op.accepting)).map (·.commit) =
        (q.attempted l).map (·.commit) := by
  induction l generalizing q with
  | nil => exact ⟨rfl, rfl, rfl⟩
  | cons o rest ih =>
    obtain ⟨hact, hoffered, hattempted⟩ := q.act_accepting failed o
    obtain ⟨hrun, hmore, hlater⟩ := ih (q.act o)
    refine ⟨?_, ?_, ?_⟩
    · show ((q.withFailed failed).act o.accepting).run (rest.map Op.accepting) = _
      rw [hact]
      exact hrun
    · rw [List.map_cons, offered, hoffered, hact, hmore]
      rfl
    · rw [List.map_cons, attempted, List.map_append, hattempted, hact, hlater, attempted,
        List.map_append]

/-! ## Progress -/

/-- A worker that is left alone passes on all that waits, and ends if no handle is left. -/
theorem flush_eq {q : CommitQueue} (hruns : q.stopped = false) (hwanted : q.cancelled = false)
    (accepts : Commit → Bool) :
    (q.flush accepts).1 = (q.pending.map fun c => ⟨c, accepts c⟩) ∧
      (q.flush accepts).2.pending = [] ∧ (q.flush accepts).2.stopped = q.handleGone := by
  unfold flush
  generalize hwaits : q.pending = waits
  induction waits generalizing q with
  | nil =>
    have hstep : q.step accepts = (none, if q.handleGone then q.stop else q) := by
      simp [step, hruns, hwanted, hwaits]
    simp only [List.length_nil, steps, hstep]
    cases hgone : q.handleGone <;> simp [stop, hruns, hwaits]
  | cons c rest ih =>
    let next : CommitQueue :=
      { q with pending := rest, failed := q.failed + if accepts c then 0 else 1 }
    have hstep : q.step accepts = (some ⟨c, accepts c⟩, next) := by
      simp [step, hruns, hwanted, hwaits, next]
    obtain ⟨hattempts, hempty, hend⟩ := ih (q := next) hruns hwanted rfl
    rw [List.length_cons, steps, hstep]
    refine ⟨?_, hempty, hend⟩
    show ⟨c, accepts c⟩ :: (next.steps accepts (rest.length + 1)).1 = _
    rw [hattempts, List.map_cons]

/-- A commit is counted as dropped when the worker runs and it finds no place, and only then. -/
theorem dropped_act (q : CommitQueue) (o : Op) :
    (q.act o).dropped =
      q.dropped + if q.stopped then 0 else (q.offeredBy o).countP (!·.taken) := by
  cases o with
  | enqueue c =>
    rcases q.enqueue_cases c with ⟨hstopped, he⟩ | ⟨hruns, -, he⟩ | ⟨hruns, -, he⟩
    · simp [act, he, hstopped]
    · simp [act, offeredBy, he, hruns]
    · simp [act, offeredBy, he, hruns]
  | work accepts =>
    show (q.step accepts).2.dropped = _
    rw [dropped_step]
    simp [offeredBy]
  | cancel => simp [act, cancel, offeredBy]
  | dropHandle => simp [act, dropHandle, offeredBy]

/-! ## Top theorem -/

/-- **The worker passes on the commits that the queue took, each once and in order**, and those that
wait when it ends are lost only if it was told to end. A commit finds its place while the worker
runs and there is room, a refused one matters to no other, and a store has for each account the
last commit that it took. -/
theorem passed_on_in_order (capacity : Nat) (l : List Op) :
    let start : CommitQueue := { capacity }
    let q := start.run l
    let offers := start.offered l
    let attempts := start.attempted l
    attempts.map (·.commit) <+: taken offers ∧
    (q.stopped = false → taken offers = attempts.map (·.commit) ++ q.pending) ∧
    (∀ pre post, l = pre ++ post → (start.run pre).stopped = true →
      (start.run pre).cancelled = false →
        (start.run pre).handleGone = true ∧ attempts.map (·.commit) = taken offers) ∧
    (q.stopped = false → q.cancelled = false → ∀ accepts,
      (q.flush accepts).1.map (·.commit) = q.pending ∧
        (q.flush accepts).2.stopped = q.handleGone) ∧
    (∀ c, ((q.enqueue c).1 = true ↔ q.stopped = false ∧ q.pending.length < max 1 capacity) ∧
      (q.enqueue c).2.pending = if (q.enqueue c).1 then q.pending ++ [c] else q.pending) ∧
    (∀ o, (q.act o).dropped =
      q.dropped + if q.stopped then 0 else (q.offeredBy o).countP (!·.taken)) ∧
    (q.failed = attempts.countP (!·.accepted) ∧
      start.run (l.map Op.accepting) = { q with failed := 0 } ∧
      start.offered (l.map Op.accepting) = offers ∧
      (start.attempted (l.map Op.accepting)).map (·.commit) = attempts.map (·.commit)) ∧
    (q.stopped = true → ∀ l', (q.run l').isRunning = false ∧ q.attempted l' = []) ∧
    ∀ account, (({} : Store).absorb attempts).committed? account =
      lastFor ((attempts.filter (·.accepted)).map (·.commit)) account := by
  intro start q offers attempts
  have hserved : q.Served offers attempts := (served_new capacity).run l
  have hroom : q.room = max 1 capacity := start.room_run l
  obtain ⟨lost, hkept, hlost⟩ := hserved.ledger.kept
  refine ⟨hkept ▸ List.prefix_append .., fun hruns => ?_, ?_, fun hruns hwanted accepts => ?_, fun c => ⟨?_, ?_⟩,
    fun o => ?_, ⟨hserved.ledger.failed, start.run_accepting 0 l⟩, fun hstopped l' => ?_,
    fun account => ?_⟩
  · rw [hkept, hlost hruns, List.append_nil]
  · rintro pre post rfl hstopped hwanted
    have hpre := (served_new capacity).run pre
    obtain ⟨-, hattempts, htaken⟩ := stopped_run hstopped post
    obtain ⟨hgone, hall⟩ := hpre.finished hstopped hwanted
    refine ⟨hgone, ?_⟩
    show (start.attempted (pre ++ post)).map (·.commit) = taken (start.offered (pre ++ post))
    rw [attempted_append, offered_append, taken_append, hattempts, htaken, List.append_nil,
      List.append_nil]
    exact hall
  · obtain ⟨hattempts, -, hend⟩ := flush_eq hruns hwanted accepts
    refine ⟨?_, hend⟩
    rw [hattempts, List.map_map]
    exact List.map_id _
  · rw [enqueue_eq_true_iff, hroom, Bool.not_eq_true]
  · exact pending_enqueue q c
  · exact q.dropped_act o
  · obtain ⟨hend, hnone, -⟩ := stopped_run hstopped l'
    exact ⟨congrArg (!·) hend, hnone⟩
  · rw [Store.absorb_eq, Store.committed?_foldl_commit]
    exact Option.or_none

/-- With room for one commit the second one is dropped, and a refusal of the first does not keep the
third from the store. The handle goes away before the worker is told to end, so nothing is lost. -/
theorem passed_on_in_order_dropHandle :
    let start : CommitQueue := { capacity := 1 }
    let first : Commit := ⟨"a", { price := 1 }⟩
    let third : Commit := ⟨"a", { price := 3 }⟩
    let pre := [.enqueue first, .enqueue ⟨"b", { price := 2 }⟩, .work fun _ => false,
      .enqueue third, .dropHandle, .work fun _ => true, .work fun _ => true]
    let l := pre ++ [.cancel]
    (start.run pre).stopped = true ∧ (start.run pre).cancelled = false ∧
      (start.attempted l).map (·.commit) = [first, third] ∧
      ((start.run l).run [.enqueue first]).isRunning = false ∧
      (({} : Store).absorb (start.attempted l)).committed? "a" = some third.aggregate := by
  intro start first third pre l
  have hstopped : (start.run pre).stopped = true := by decide +kernel
  have hwanted : (start.run pre).cancelled = false := by decide +kernel
  have hended : (start.run l).stopped = true := by decide +kernel
  have htaken : taken (start.offered l) = [first, third] := by decide +kernel
  have haccepted : ((start.attempted l).filter (·.accepted)).map (·.commit) = [third] := by
    decide +kernel
  obtain ⟨-, -, hdone, -, -, -, -, hend, hstore⟩ := passed_on_in_order 1 l
  refine ⟨hstopped, hwanted, ?_, (hend hended [.enqueue first]).1, ?_⟩
  · obtain ⟨-, hall⟩ := hdone pre [.cancel] rfl hstopped hwanted
    exact hall.trans htaken
  · rw [hstore "a", haccepted]
    decide

end CommitQueue

end PriceFeed
