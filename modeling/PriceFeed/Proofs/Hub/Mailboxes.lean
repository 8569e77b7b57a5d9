import PriceFeed.Proofs.Hub.Log
import PriceFeed.Proofs.Mailbox

/-!
# The mailboxes in a run

A run of the hub is a run of the mailbox of each session. The posts of the log that are for the
session are handed in, each as it comes, and in between its peer receives, either side closes and
the receiver goes away. Nothing else happens to a mailbox.

    a mailbox has what an action does by itself, then takes in posts     (Regular.mailbox_action)
    which is to go through `opsBy`                                        (Regular.mailboxOf_step)
    in a run of a new hub it goes through `opsOver` from the start               (mailbox_of_new)
    what is handed in there is what the log lists for the session         (message_handed_opsOver)
-/

namespace PriceFeed

/-- What an action does to the mailbox of a session by itself, before any post is delivered. -/
def Action.onMailbox (id : Nat) : Action → List (Mailbox.Op Message)
  | closeSession session => if session = id then [.cancel] else []
  | hangUp session => if session = id then [.cancel] else []
  | receive session count => if session = id then List.replicate count .receive else []
  | dropReceiver session => if session = id then [.dropReceiver] else []
  | _ => []

namespace Hub

/-- What an action does to the mailbox of a session, operation by operation. -/
def opsBy (h : Hub) (id : Nat) (a : Action) : List (Mailbox.Op Message) :=
  (if h.known id then a.onMailbox id else []) ++
    ((h.handed a).filter (·.session = id)).map fun p => .deliver p.message

/-- What a run does to the mailbox of a session, operation by operation. -/
def opsOver (h : Hub) (id : Nat) : List Action → List (Mailbox.Op Message)
  | [] => []
  | a :: rest => h.opsBy id a ++ (h.step a).opsOver id rest

/-! ## Before delivery -/

section Modified

variable {h : Hub} {id : Nat} {s : Session} (hs : h.session? id = some s)
include hs

/-- Where a session is modified, no other one has its mailbox changed. -/
theorem mailbox_modifySession (session : Nat) (f : Session → Session)
    (ops : List (Mailbox.Op Message)) (hid : ∀ s, (f s).id = s.id)
    (hf : session = id → (f s).mailbox = s.mailbox.run ops) :
    ((h.modifySession session f).session? id).map (·.mailbox) =
      some (s.mailbox.run (if session = id then ops else [])) := by
  rw [session?_modifySession _ _ _ hid, hs, Option.map_some, Option.map_some, id_of_session? hs]
  by_cases he : session = id
  · rw [if_pos he.symm, if_pos he, hf he]
  · rw [if_neg (Ne.symm he), if_neg he]
    rfl

theorem mailbox_hangUp (session : Nat) :
    ((h.hangUp session).session? id).map (·.mailbox) =
      some (s.mailbox.run (if session = id then [.cancel] else [])) :=
  mailbox_modifySession hs session (fun s => { s with mailbox := s.mailbox.cancel }) [.cancel]
    (fun _ => rfl) fun _ => rfl

theorem mailbox_closeSession (session : Nat) :
    ((h.closeSession session).session? id).map (·.mailbox) =
      some (s.mailbox.run (if session = id then [.cancel] else [])) := by
  have hup := mailbox_hangUp hs session
  rcases h.closeSession_cases session with ⟨-, he⟩ | ⟨-, he⟩ <;> rw [he]
  · exact hup
  · -- to take the session off the list leaves its mailbox
    obtain ⟨s', hs', hbox⟩ := Option.map_eq_some_iff.1 hup
    have hunlist := mailbox_modifySession hs' session (fun s => { s with listed := false }) []
      (fun _ => rfl) fun _ => rfl
    rw [ite_self, hbox] at hunlist
    exact hunlist

theorem mailbox_receive (session count : Nat) :
    ((h.receive session count).2.session? id).map (·.mailbox) =
      some (s.mailbox.run (if session = id then List.replicate count .receive else [])) := by
  unfold receive
  cases hfound : h.session? session with
  | none =>
    have hne : session ≠ id := fun he => by
      rw [he, hs] at hfound
      cases hfound
    rw [if_neg hne, hs]
    rfl
  | some t =>
    refine mailbox_modifySession hs session
      (fun s => { s with mailbox := (t.mailbox.receiveMany count).2 }) _ (fun _ => rfl) fun he => ?_
    rw [he, hs, Option.some.injEq] at hfound
    exact hfound ▸ congrArg Prod.snd (s.mailbox.receiveMany_eq count)

end Modified

namespace Regular

variable {h : Hub} (hr : h.Regular)
include hr

/-- Before its posts are delivered an action does to a mailbox what it does by itself. -/
theorem mailbox_issue (a : Action) {id : Nat} {s : Session} (hs : h.session? id = some s) :
    ((h.issue a).2.session? id).map (·.mailbox) = some (s.mailbox.run (a.onMailbox id)) := by
  cases a with
  | payload session text =>
    show ((h.process session text).2.session? id).map (·.mailbox) = _
    rw [hr.session?_process, hs]
    rfl
  | openSession publisher =>
    show ((h.openSession publisher).2.session? id).map (·.mailbox) = _
    rcases h.session?_openSession publisher id with ⟨hsame, -⟩ | ⟨hunknown, -⟩
    · rw [hsame, hs]
      rfl
    · rw [known, hs] at hunknown
      cases hunknown
  | closeSession session => exact mailbox_closeSession hs session
  | receive session count => exact mailbox_receive hs session count
  | hangUp session => exact mailbox_hangUp hs session
  | dropReceiver session =>
    exact mailbox_modifySession hs session
      (fun s => { s with mailbox := s.mailbox.dropReceiver }) [.dropReceiver] (fun _ => rfl)
      fun _ => rfl
  | unreadable session =>
    show ((h.count (.errors .parseError)).session? id).map (·.mailbox) = _
    rw [session?_count, hs]
    rfl
  | tick => exact congrArg (Option.map (·.mailbox)) hs
  | work f => exact congrArg (Option.map (·.mailbox)) hs

/-- An action that posts something adds and changes no session before that is delivered. -/
theorem session?_issue {a : Action} {p : Post} (hp : p ∈ (h.issue a).1) (id : Nat) :
    (h.issue a).2.session? id = h.session? id := by
  cases a with
  | payload session text => exact hr.session?_process session text id
  | unreadable session => rfl
  | tick => rfl
  | _ => cases hp

/-- Nothing is handed to a session that is yet to come. -/
theorem handed_unknown {id : Nat} (hnone : h.session? id = none) (a : Action) :
    (h.handed a).filter (·.session = id) = [] := by
  rw [List.filter_eq_nil_iff]
  intro p hp hsession
  obtain ⟨hissue, hreaches⟩ := List.mem_filter.1 hp
  rw [reaches, hr.session?_issue hissue, of_decide_eq_true hsession, hnone] at hreaches
  cases hreaches

/-- A mailbox has done to it what an action does by itself, and then takes in what it is handed, in
order. -/
theorem mailbox_action (a : Action) {id : Nat} {s : Session} (hs : h.session? id = some s) :
    ((h.step a).session? id).map (·.mailbox) =
      some ((((h.handed a).filter (·.session = id)).map (·.message)).foldl
        (fun b m => (b.deliver m).2) (s.mailbox.run (a.onMailbox id))) := by
  rw [mailbox_step, hr.mailbox_issue a hs]
  rfl

/-- A session stays in every run, closed or not. -/
theorem known_run {id : Nat} (hknown : h.known id = true) (l : List Action) :
    (h.run l).known id = true := by
  induction l generalizing h with
  | nil => exact hknown
  | cons a rest ih =>
    obtain ⟨s, hs⟩ := Option.isSome_iff_exists.1 hknown
    obtain ⟨s', hs', -⟩ := Option.map_eq_some_iff.1 (hr.mailbox_action a hs)
    exact ih (hr.step a) (congrArg Option.isSome hs')

/-- A session that an action adds has a new mailbox. -/
theorem mailbox_added {a : Action} {id : Nat} (hnone : h.session? id = none) {s : Session}
    (hs : (h.step a).session? id = some s) : s.mailbox = { capacity := h.capacity } := by
  have hunknown : h.known id = false := congrArg Option.isSome hnone
  by_cases ha : ∃ publisher, a = .openSession publisher
  · obtain ⟨publisher, rfl⟩ := ha
    rcases h.session?_openSession publisher id with ⟨-, hknown⟩ | ⟨-, hnew⟩
    · rw [hknown] at hunknown
      cases hunknown
    · exact (hnew s hs).2
  · have hknown : (h.step a).known id = true := congrArg Option.isSome hs
    rw [hr.known_step_eq ha, hunknown] at hknown
    cases hknown

end Regular

/-! ## Runs -/

/-- The mailbox of a session; a new one where the session is yet to come. -/
def mailboxOf (h : Hub) (id : Nat) : Mailbox Message :=
  ((h.session? id).map (·.mailbox)).getD { capacity := h.capacity }

namespace Regular

variable {h : Hub} (hr : h.Regular)
include hr

theorem mailboxOf_step (a : Action) (id : Nat) :
    (h.step a).mailboxOf id = (h.mailboxOf id).run (h.opsBy id a) := by
  unfold opsBy known
  cases hs : h.session? id with
  | some s =>
    rw [Option.isSome_some, if_pos rfl, Mailbox.run_append, Mailbox.run_deliver, mailboxOf,
      hr.mailbox_action a hs, mailboxOf, hs]
    rfl
  | none =>
    have hnew : h.mailboxOf id = { capacity := h.capacity } := by
      rw [mailboxOf, hs]
      rfl
    rw [hr.handed_unknown hs, hnew]
    unfold mailboxOf
    cases hs' : (h.step a).session? id with
    | some s => exact hr.mailbox_added hs hs'
    | none =>
      rw [(hr.settings_step a).2.2]
      rfl

/-- A mailbox goes through all that a run does to it. -/
theorem mailboxOf_run (l : List Action) (id : Nat) :
    (h.run l).mailboxOf id = (h.mailboxOf id).run (h.opsOver id l) := by
  induction l generalizing h with
  | nil => rfl
  | cons a rest ih =>
    rw [opsOver, Mailbox.run_append, ← hr.mailboxOf_step]
    exact ih (hr.step a)

end Regular

/-- In a run of a new hub the mailbox of a session goes through all of `opsOver`, from the start. -/
theorem mailbox_of_new (registry : Registry) (policy : Policy) (schedule : SchedulePolicy)
    (capacity : Nat) (commits : Option CommitQueue) {l : List Action} {id : Nat} {s : Session}
    (hs : ((create registry policy schedule capacity commits).run l).session? id = some s) :
    s.mailbox =
      Mailbox.run { capacity } ((create registry policy schedule capacity commits).opsOver id l) := by
  have hrun := (regular_create registry policy schedule capacity commits).mailboxOf_run l id
  rw [mailboxOf, hs] at hrun
  exact hrun

/-! ## What is handed in -/

/-- By itself an action hands nothing in. -/
theorem message?_onMailbox (id : Nat) (a : Action) :
    (a.onMailbox id).filterMap (·.message?) = [] := by
  have hops : ∀ (session : Nat) (ops : List (Mailbox.Op Message)),
      ops.filterMap (·.message?) = [] →
        (if session = id then ops else []).filterMap (·.message?) = [] := by
    intro session ops hnone
    split
    · exact hnone
    · rfl
  cases a with
  | closeSession session => exact hops session [.cancel] rfl
  | hangUp session => exact hops session [.cancel] rfl
  | receive session count => exact hops session _ (List.filterMap_replicate_of_none rfl)
  | dropReceiver session => exact hops session [.dropReceiver] rfl
  | _ => rfl

/-- A run hands to a mailbox what the log lists for its session, and nothing else. -/
theorem message_handed_opsOver (b : Mailbox Message) (h : Hub) (id : Nat) (l : List Action) :
    (b.handed (h.opsOver id l)).map (·.message) =
      ((h.log l).filter (·.session = id)).map (·.message) := by
  rw [Mailbox.message_handed]
  induction l generalizing h with
  | nil => rfl
  | cons a rest ih =>
    have hown : (if h.known id then a.onMailbox id else []).filterMap (·.message?) = [] := by
      split
      · exact message?_onMailbox id a
      · rfl
    rw [opsOver, opsBy, List.filterMap_append, List.filterMap_append, hown, ih, log,
      List.filter_append, List.map_append, List.filterMap_map]
    congr 1
    exact congrFun List.filterMap_eq_map _

end Hub

end PriceFeed
