import PriceFeed.Service
import PriceFeed.Proofs.Hub.Changes
import PriceFeed.Proofs.Hub.Counts
import PriceFeed.Proofs.Hub.Lifecycle

/-!
# From the books to the store

The operations of a hub and the steps of its commit worker come in any order. A changed aggregate is
offered to the queue in the payload that changes it, and reaches the store when the worker gets to
it. A queue whose worker has ended is offered nothing, since submissions are no longer taken.

    a changed aggregate is offered, stored or counted in every run              (Persisted.run)
    once the worker has ended, the board stays as it is                (board_run_of_not_ready)
    without a cancellation the worker goes on                                   (Attended.run)
    all that becomes of changed aggregates                             (commits_follow_changes)
-/

namespace PriceFeed

/-- The action is one of the worker. -/
def Action.works : Action → Bool
  | work _ => true
  | _ => false

namespace Hub

/-! ## Actions -/

/-- The aggregates that an action changes, one after another. -/
def changedBy (h : Hub) : Action → List Commit
  | .payload session text => h.changedIn session text
  | _ => []

/-- The commits that an action offers to the queue, one after another. -/
def offeredBy (h : Hub) : Action → List Offer
  | .payload session text => h.offersIn session text
  | _ => []

/-- Only payloads change the board, and only payloads and the worker the queue. -/
theorem payload_or_untouched (h : Hub) (a : Action) :
    (∃ session text, a = .payload session text) ∨
      h.changedBy a = [] ∧ h.offeredBy a = [] ∧ (h.step a).board = h.board ∧
        (a.works = false → (h.step a).commits = h.commits) := by
  have hlike := like_deliverAll (h.issue a).2 (h.issue a).1
  rw [← step_eq] at hlike
  rw [hlike.board, hlike.commits]
  cases a with
  | payload session text => exact .inl ⟨session, text, rfl⟩
  | openSession publisher => exact .inr ⟨rfl, rfl, rfl, fun _ => rfl⟩
  | closeSession session =>
    have hclosed : (h.closeSession session).board = h.board ∧
        (h.closeSession session).commits = h.commits := by
      rcases h.closeSession_cases session with ⟨-, he⟩ | ⟨-, he⟩ <;> rw [he] <;> exact ⟨rfl, rfl⟩
    exact .inr ⟨rfl, rfl, hclosed.1, fun _ => hclosed.2⟩
  | unreadable session => exact .inr ⟨rfl, rfl, rfl, fun _ => rfl⟩
  | tick => exact .inr ⟨rfl, rfl, rfl, fun _ => rfl⟩
  | receive session count =>
    have hreceive := h.like_receive session count
    exact .inr ⟨rfl, rfl, hreceive.board, fun _ => hreceive.commits⟩
  | hangUp session => exact .inr ⟨rfl, rfl, rfl, fun _ => rfl⟩
  | dropReceiver session => exact .inr ⟨rfl, rfl, rfl, fun _ => rfl⟩
  | work f => exact .inr ⟨rfl, rfl, rfl, nofun⟩

namespace Regular

variable {h : Hub} (hr : h.Regular)
include hr

/-- An operation offers for commit what it changes, and nothing else. -/
theorem commits_step {a : Action} (hworks : a.works = false) :
    h.offeredBy a = h.commits.toList.flatMap (·.offers (h.changedBy a)) ∧
      (h.step a).commits = h.commits.map (·.enqueueAll (h.changedBy a)) := by
  rcases h.payload_or_untouched a with ⟨session, text, rfl⟩ | ⟨hchanged, hoffered, -, hcommits⟩
  · refine ⟨hr.offersIn_eq session text, ?_⟩
    rw [step_eq, (like_deliverAll ..).commits]
    exact hr.commits_process session text
  · rw [hchanged, hoffered, hcommits hworks]
    cases h.commits <;> exact ⟨rfl, rfl⟩

theorem aggregate?_step (a : Action) (account : String) :
    (h.step a).board.aggregate? account =
      (lastFor (h.changedBy a) account).or (h.board.aggregate? account) := by
  rcases h.payload_or_untouched a with ⟨session, text, rfl⟩ | ⟨hchanged, -, hboard, -⟩
  · rw [step_eq, (like_deliverAll ..).board]
    exact hr.lastFor_changedIn session text account
  · rw [hchanged, hboard]
    rfl

theorem board_step_of_not_ready (hready : h.isReady = false) (a : Action) :
    (h.step a).board = h.board ∧ h.changedBy a = [] := by
  rcases h.payload_or_untouched a with ⟨session, text, rfl⟩ | ⟨hchanged, -, hboard, -⟩
  · rw [step_eq, (like_deliverAll ..).board]
    exact hr.board_process_of_not_ready session text hready
  · exact ⟨hboard, hchanged⟩

/-- Regularity does not depend on the commit queue. -/
theorem set_commits (commits : Option CommitQueue) : ({ h with commits } : Hub).Regular :=
  ⟨hr.covers, hr.coherent⟩

end Regular

theorem isReady_eq {h : Hub} {q : CommitQueue} (hq : h.commits = some q) :
    h.isReady = !q.stopped := by
  rw [isReady, hq]
  rfl

theorem exists_stopped {h : Hub} (hready : h.isReady = false) :
    ∃ q, h.commits = some q ∧ q.stopped = true := by
  cases hq : h.commits with
  | none =>
    rw [isReady, hq] at hready
    cases hready
  | some q =>
    rw [isReady_eq hq] at hready
    exact ⟨q, rfl, by simpa using hready⟩

end Hub

namespace Service

/-! ## Runs -/

/-- An operation of the hub, a step of the worker, or the order to the worker to end. -/
inductive Event where
  | operate (a : Action) (ha : a.works = false)
  /-- One step over a store that takes the commits `accepts` names. -/
  | work (accepts : Commit → Bool)
  | stopCommits

def step (s : Service) : Event → Service
  | .operate a _ => s.onHub (·.step a)
  | .work accepts => s.stepWorker accepts
  | .stopCommits => s.onHub Hub.stopCommits

def run (s : Service) (l : List Event) : Service := l.foldl step s

/-- The aggregates that an event changes, one after another. -/
def changedBy (s : Service) : Event → List Commit
  | .operate a _ => s.hub.changedBy a
  | _ => []

/-- The commits that an event offers to the queue, one after another. -/
def offeredBy (s : Service) : Event → List Offer
  | .operate a _ => s.hub.offeredBy a
  | _ => []

/-- The aggregates that a run changes, one after another. -/
def changes (s : Service) : List Event → List Commit
  | [] => []
  | e :: rest => s.changedBy e ++ (s.step e).changes rest

/-- The commits that a run offers to the queue, one after another. -/
def offers (s : Service) : List Event → List Offer
  | [] => []
  | e :: rest => s.offeredBy e ++ (s.step e).offers rest

theorem run_append (s : Service) (l l' : List Event) : s.run (l ++ l') = (s.run l).run l' :=
  List.foldl_append

/-- A step of the worker, over its queue. -/
theorem stepWorker_eq {s : Service} {q : CommitQueue} (hq : s.hub.commits = some q)
    (accepts : Commit → Bool) :
    let attempts := (q.step accepts).1.toList
    s.stepWorker accepts =
      { s with
        hub := { s.hub with commits := some (q.step accepts).2 }
        store := s.store.absorb attempts
        attempts := s.attempts ++ attempts } := by
  unfold stepWorker work
  simp only [hq, CommitQueue.steps, List.append_nil]

/-! ## Persistence -/

/-- What a run has done to books, queue and store, where `b` was the board before it. -/
structure Persisted (s : Service) (b : Board) (changes : List Commit) (offers : List Offer) :
    Prop where
  regular : s.hub.Regular
  uncounted : s.hub.queueCounts = (0, 0)
  aggregates : ∀ account,
    s.hub.board.aggregate? account = (lastFor changes account).or (b.aggregate? account)
  offered : offers.map (·.commit) = changes
  queued : ∃ q, s.hub.commits = some q ∧ q.Ledger offers s.attempts ∧
    q.dropped = offers.countP (!·.taken)
  stored : s.store = ({} : Store).absorb s.attempts

namespace Persisted

variable {s : Service} {b : Board} {changes : List Commit} {offers : List Offer}
  (hp : s.Persisted b changes offers)
include hp

theorem operate {a : Action} (ha : a.works = false) :
    (s.onHub (·.step a)).Persisted b (changes ++ s.hub.changedBy a)
      (offers ++ s.hub.offeredBy a) := by
  obtain ⟨q, hq, hledger, hdropped⟩ := hp.queued
  obtain ⟨hoffered, hcommits⟩ := hp.regular.commits_step ha
  rw [hq] at hoffered hcommits
  have hoffers : s.hub.offeredBy a = q.offers (s.hub.changedBy a) := by
    rw [hoffered]
    exact List.append_nil _
  refine ⟨hp.regular.step a, (s.hub.queueCounts_step a).trans hp.uncounted, fun account => ?_, ?_,
    ⟨_, hcommits, ?_, ?_⟩, hp.stored⟩
  · show (s.hub.step a).board.aggregate? account = _
    rw [hp.regular.aggregate?_step, hp.aggregates, lastFor_append, Option.or_assoc]
  · rw [List.map_append, hp.offered, hoffers, CommitQueue.commit_offers]
  · rw [hoffers]
    exact hledger.enqueueAll _
  · cases hstopped : q.stopped with
    | false =>
      rw [CommitQueue.dropped_enqueueAll hstopped, hdropped, hoffers, List.countP_append]
    | true =>
      -- a hub whose worker has ended takes no submissions, so nothing is offered
      have hready : s.hub.isReady = false := by rw [Hub.isReady_eq hq, hstopped]; rfl
      obtain ⟨-, hnil⟩ := hp.regular.board_step_of_not_ready hready a
      rw [hoffers, hnil]
      exact hdropped.trans (congrArg _ (List.append_nil offers).symm)

theorem work (accepts : Commit → Bool) : (s.stepWorker accepts).Persisted b changes offers := by
  obtain ⟨q, hq, hledger, hdropped⟩ := hp.queued
  rw [stepWorker_eq hq]
  refine ⟨hp.regular.set_commits _, hp.uncounted, hp.aggregates, hp.offered,
    ⟨_, rfl, hledger.step accepts, ?_⟩, ?_⟩
  · rw [← hdropped]
    exact q.dropped_step accepts
  · show s.store.absorb _ = _
    rw [hp.stored, ← Store.absorb_append]

theorem stopCommits : (s.onHub Hub.stopCommits).Persisted b changes offers := by
  obtain ⟨q, hq, hledger, hdropped⟩ := hp.queued
  refine ⟨hp.regular.set_commits _, hp.uncounted, hp.aggregates, hp.offered,
    ⟨q.cancel, ?_, hledger.cancel, hdropped⟩, hp.stored⟩
  show s.hub.commits.map (·.cancel) = _
  rw [hq]
  rfl

theorem step (e : Event) :
    (s.step e).Persisted b (changes ++ s.changedBy e) (offers ++ s.offeredBy e) := by
  cases e with
  | operate a ha => exact hp.operate ha
  | work accepts =>
    simp only [changedBy, offeredBy, List.append_nil]
    exact hp.work accepts
  | stopCommits =>
    simp only [changedBy, offeredBy, List.append_nil]
    exact hp.stopCommits

theorem run (l : List Event) :
    (s.run l).Persisted b (changes ++ s.changes l) (offers ++ s.offers l) := by
  induction l generalizing s changes offers with
  | nil =>
    rw [Service.changes, Service.offers, List.append_nil, List.append_nil]
    exact hp
  | cons e rest ih =>
    have hrest := ih (hp.step e)
    rw [List.append_assoc, List.append_assoc] at hrest
    exact hrest

end Persisted

theorem persisted_start {s : Service} {capacity : Nat} (hregular : s.hub.Regular)
    (huncounted : s.hub.queueCounts = (0, 0)) (hq : s.hub.commits = some { capacity })
    (hattempts : s.attempts = []) (hstore : s.store = {}) : s.Persisted s.hub.board [] [] where
  regular := hregular
  uncounted := huncounted
  aggregates := fun _ => rfl
  offered := rfl
  queued := ⟨_, hq, hattempts ▸ CommitQueue.ledger_new capacity, rfl⟩
  stored := by rw [hstore, hattempts]; rfl

/-! ## After the end of the worker -/

/-- A worker that has ended stays so, and nothing changes the board. -/
theorem not_ready_step {s : Service} (hr : s.hub.Regular) (hready : s.hub.isReady = false)
    (e : Event) : (s.step e).hub.Regular ∧ (s.step e).hub.isReady = false ∧
      (s.step e).hub.board = s.hub.board := by
  obtain ⟨q, hq, hstopped⟩ := Hub.exists_stopped hready
  cases e with
  | operate a ha =>
    obtain ⟨hboard, hnil⟩ := hr.board_step_of_not_ready hready a
    obtain ⟨-, hcommits⟩ := hr.commits_step ha
    rw [hq, hnil] at hcommits
    refine ⟨hr.step a, ?_, hboard⟩
    rw [Hub.isReady_eq (h := (s.step (.operate a ha)).hub) hcommits]
    exact congrArg (!·) hstopped
  | work accepts =>
    have hstep : s.step (.work accepts) = _ := stepWorker_eq hq accepts
    rw [hstep]
    refine ⟨hr.set_commits _, ?_, rfl⟩
    rw [Hub.isReady_eq rfl, CommitQueue.step, if_pos hstopped, hstopped]
    rfl
  | stopCommits =>
    have hcancel : (s.step .stopCommits).hub.commits = some q.cancel :=
      congrArg (Option.map CommitQueue.cancel) hq
    refine ⟨hr.set_commits _, ?_, rfl⟩
    rw [Hub.isReady_eq hcancel]
    exact congrArg (!·) hstopped

/-- Once the worker has ended, the board stays as it is. -/
theorem board_run_of_not_ready {s : Service} (hr : s.hub.Regular)
    (hready : s.hub.isReady = false) (l : List Event) : (s.run l).hub.board = s.hub.board := by
  induction l generalizing s with
  | nil => rfl
  | cons e rest ih =>
    obtain ⟨hregular, hstill, hboard⟩ := not_ready_step hr hready e
    exact (ih hregular hstill).trans hboard

/-! ## Without a cancellation -/

/-- The worker runs and has no reason to end. -/
structure Attended (s : Service) : Prop where
  regular : s.hub.Regular
  queue : ∃ q, s.hub.commits = some q ∧ q.Attended

theorem Attended.step {s : Service} (hs : s.Attended) {e : Event} (he : e ≠ .stopCommits) :
    (s.step e).Attended := by
  obtain ⟨q, hq, hattended⟩ := hs.queue
  cases e with
  | operate a ha =>
    obtain ⟨-, hcommits⟩ := hs.regular.commits_step ha
    rw [hq] at hcommits
    exact ⟨hs.regular.step a, _, hcommits, hattended.enqueueAll _⟩
  | work accepts =>
    have hstep : s.step (.work accepts) = _ := stepWorker_eq hq accepts
    rw [hstep]
    exact ⟨hs.regular.set_commits _, _, rfl, hattended.step accepts⟩
  | stopCommits => exact absurd rfl he

/-- Without a cancellation the worker goes on. -/
theorem Attended.run {s : Service} (hs : s.Attended) {l : List Event} (hl : .stopCommits ∉ l) :
    (s.run l).Attended := by
  induction l generalizing s with
  | nil => exact hs
  | cons e rest ih =>
    refine ih (hs.step ?_) fun hmem => hl (List.mem_cons_of_mem e hmem)
    rintro rfl
    exact hl List.mem_cons_self

/-! ## Top theorem -/

/-- A service with nothing done yet. -/
def start (registry : Registry) (policy : Policy) (schedule : SchedulePolicy)
    (capacity room : Nat) : Service :=
  { hub := .create registry policy schedule capacity (some { capacity := room }) }

/-- **Every changed aggregate is offered for commit, and what the queue takes reaches the store in
order.** The drops are counted, a worker that has ended is offered nothing, and a store that refuses
nothing catches up with the books whenever an undisturbed worker has emptied the queue. -/
theorem commits_follow_changes (registry : Registry) (policy : Policy) (schedule : SchedulePolicy)
    (capacity room : Nat) (l : List Event) :
    let start := start registry policy schedule capacity room
    let s := start.run l
    ((start.offers l).map (·.commit) = start.changes l ∧
      s.hub.allMetrics.get .commitsDropped = (start.offers l).countP (!·.taken) ∧
      ∃ q lost, s.hub.commits = some q ∧
        taken (start.offers l) = s.attempts.map (·.commit) ++ (q.pending ++ lost) ∧
        (q.stopped = false → lost = [])) ∧
    (∀ pre post q, l = pre ++ post → (start.run pre).hub.commits = some q → q.stopped = true →
      s.hub.board = (start.run pre).hub.board) ∧
    ((∀ o ∈ start.offers l, o.taken = true) → (∀ a ∈ s.attempts, a.accepted = true) →
      .stopCommits ∉ l → (∀ q, s.hub.commits = some q → q.pending = []) →
      ∀ account,
        ((∃ c ∈ start.changes l, c.account = account) →
          ∃ a, s.hub.board.read account = .ok a ∧ s.store.committed? account = some a) ∧
        ((∀ c ∈ start.changes l, c.account ≠ account) → s.store.committed? account = none)) := by
  intro start s
  have hregular : start.hub.Regular := Hub.regular_create ..
  have hp : s.Persisted start.hub.board (start.changes l) (start.offers l) :=
    (persisted_start hregular rfl rfl rfl rfl).run l
  obtain ⟨q, hq, hledger, hdropped⟩ := hp.queued
  obtain ⟨lost, hkept, hlost⟩ := hledger.kept
  refine ⟨⟨hp.offered, ?_, q, lost, hq, hkept, hlost⟩, ?_, fun htaken haccepted hl hempty => ?_⟩
  · rw [(Hub.get_allMetrics hq hp.uncounted).1, hdropped]
  · rintro pre post q rfl hq hstopped
    have hpre := (persisted_start hregular rfl rfl rfl rfl).run pre
    have hready : (start.run pre).hub.isReady = false := by rw [Hub.isReady_eq hq, hstopped]; rfl
    have hpost := board_run_of_not_ready hpre.regular hready post
    rw [← run_append] at hpost
    exact hpost
  · have hstart : start.Attended := ⟨hregular, _, rfl, rfl, rfl, rfl⟩
    obtain ⟨q', hq', hattended⟩ := (hstart.run hl).queue
    obtain rfl : q = q' := Option.some.inj (hq.symm.trans hq')
    have hcommits : s.attempts.map (·.commit) = start.changes l := by
      rw [hempty q hq, hlost hattended.running] at hkept
      rw [← hp.offered, ← List.filter_eq_self.2 htaken]
      exact (hkept.trans (List.append_nil _)).symm
    have hstore : ∀ account, s.store.committed? account = lastFor (start.changes l) account := by
      intro account
      rw [hp.stored, Store.absorb_eq, List.filter_eq_self.2 haccepted, hcommits,
        Store.committed?_foldl_commit]
      exact Option.or_none
    intro account
    rw [hstore]
    refine ⟨fun hchanged => ?_, fun hunchanged => ?_⟩
    · obtain ⟨a, ha⟩ := Option.isSome_iff_exists.1 (isSome_lastFor.2 hchanged)
      refine ⟨a, Board.aggregate?_eq_some_iff.1 ?_, ha⟩
      rw [hp.aggregates, ha]
      rfl
    · rw [← Option.not_isSome_iff_eq_none, isSome_lastFor]
      rintro ⟨c, hc, hsame⟩
      exact hunchanged c hc hsame

/-- A quote that halts the instrument. -/
def haltText : String :=
  "\x7b\"id\":3,\"method\":\"update_price\",\"params\":\x7b\"account\":\"px\",\"price\":100,\"conf\":1," ++
    "\"status\":\"halted\"\x7d\x7d"

/-- The only publisher halts the instrument, and the worker commits that. -/
def haltRun : List Event :=
  [.operate (.openSession (some "ann")) rfl, .operate (.payload 1 haltText) rfl,
    .work fun _ => true]

theorem commits_follow_changes_halt :
    let start := start Hub.watchRegistry {} .updateDriven 8 8
    (start.changes haltRun).map (·.account) = ["px"] ∧
      ∃ a, (start.run haltRun).hub.board.read "px" = .ok a ∧
        (start.run haltRun).store.committed? "px" = some a := by
  obtain ⟨-, -, hcaught⟩ := commits_follow_changes Hub.watchRegistry {} .updateDriven 8 8 haltRun
  dsimp only
  have hchanges : ((start Hub.watchRegistry {} .updateDriven 8 8).changes haltRun).map
      (·.account) = ["px"] := by decide +kernel
  have hempty : ((start Hub.watchRegistry {} .updateDriven 8 8).run haltRun).hub.commits.map
      (·.pending) = some [] := by decide +kernel
  refine ⟨hchanges, ?_⟩
  obtain ⟨c, hc, haccount⟩ := List.mem_map.1 (hchanges ▸ List.mem_cons_self)
  refine (hcaught (by decide +kernel) (by decide +kernel) ?_ ?_ "px").1 ⟨c, hc, haccount⟩
  · simp [haltRun]
  · intro q hq
    rw [hq] at hempty
    exact Option.some.inj hempty

end Service

end PriceFeed
