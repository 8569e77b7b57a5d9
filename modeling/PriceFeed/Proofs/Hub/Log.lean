import PriceFeed.Proofs.Hub.Runs

/-!
# What a run hands to mailboxes

The log of a run lists the posts that were handed to mailboxes. It mentions a live subscription just
as often as it is due a notification, and never one that is gone or yet to come.

    a mailbox takes in what is handed to it                                       (mailbox_step)
    a live subscription     mentioning s.id (h.log l) = its `dues`          (Sound.mentioning_log)
    any other id            mentioning id (h.log l) = []                (Sound.mentioning_log_nil)
-/

namespace PriceFeed

namespace Hub

/-- The posts that an action hands to mailboxes. -/
def handed (h : Hub) (a : Action) : List Post := (h.issue a).1.filter (h.issue a).2.reaches

/-- The posts that a run hands to mailboxes. -/
def log (h : Hub) : List Action → List Post
  | [] => []
  | a :: rest => h.handed a ++ (h.step a).log rest

/-- A mailbox takes in what is handed to it, in order. -/
theorem mailbox_step (h : Hub) (a : Action) (id : Nat) :
    ((h.step a).session? id).map (·.mailbox) =
      (((h.issue a).2.session? id).map (·.mailbox)).map fun b =>
        (((h.handed a).filter (·.session = id)).map (·.message)).foldl
          (fun b m => (b.deliver m).2) b := by
  rw [step_eq]
  exact mailbox_deliverAll ..

/-- Where an action does nothing to a session by itself, its mailbox just takes in what it is
handed. -/
theorem mailbox_step_of_same {h : Hub} {a : Action} {id : Nat}
    (hsame : (h.issue a).2.session? id = h.session? id) :
    ((h.step a).session? id).map (·.mailbox) = (h.session? id).map fun s =>
      (((h.handed a).filter (·.session = id)).map (·.message)).foldl
        (fun b m => (b.deliver m).2) s.mailbox := by
  rw [mailbox_step, hsame, Option.map_map]
  rfl

theorem log_append (h : Hub) (l l' : List Action) :
    h.log (l ++ l') = h.log l ++ (h.run l).log l' := by
  induction l generalizing h with
  | nil => rfl
  | cons a rest ih =>
    rw [List.cons_append, log, ih, log, List.append_assoc]
    rfl

/-! ## What an action posts about a subscription -/

/-- What a live subscription is to be told by an action. -/
def due (h : Hub) (s : Subscription) : Action → List Message
  | .payload session text =>
    (h.changesIn s.account session text).flatMap (s.onChange h.schedule)
  | .tick => if s.channel = .schedule then [.schedule s.id] else []
  | _ => []

/-- What a live subscription is to be told in the course of a run. -/
def dues (h : Hub) (s : Subscription) : List Action → List Message
  | [] => []
  | a :: rest => h.due s a ++ (h.step a).dues s rest

/-- A post to a session that is not closed reaches it. -/
theorem reaches_of_isOpen {h : Hub} {p : Post} (hopen : h.isOpen p.session = true) :
    h.reaches p = true := by
  obtain ⟨s, hs, hlisted⟩ := isOpen_iff.1 hopen
  unfold reaches
  rw [hs]
  simp [hlisted]

/-- What an action posts about a subscription is handed over if it is for open sessions. -/
theorem mentioning_handed_eq {h : Hub} {a : Action} {id : Nat}
    (hopen : ∀ q ∈ mentioning id (h.issue a).1, (h.issue a).2.isOpen q.session = true) :
    mentioning id (h.handed a) = mentioning id (h.issue a).1 := by
  unfold handed
  rw [mentioning, List.filter_comm]
  exact List.filter_eq_self.2 fun q hq => reaches_of_isOpen (hopen q hq)

namespace Sound

variable {h : Hub} (hs : h.Sound)
include hs

/-- An action mentions live subscriptions and those it makes. -/
theorem mentions_handed {a : Action} {q : Post} (hq : q ∈ h.handed a) {id : Nat}
    (hid : id ∈ q.message.subscriptions) :
    id ∈ h.subscriptions.live.map (·.id) ∨
      h.subscriptions.nextId ≤ id ∧ id < (h.step a).subscriptions.nextId := by
  rw [subscriptions_step]
  have hissue := (List.mem_filter.1 hq).1
  cases a with
  | payload session text => exact hs.mentions_process session text hissue hid
  | unreadable session =>
    rw [List.mem_singleton.1 hissue] at hid
    cases hid
  | tick =>
    obtain ⟨s, hmem, rfl⟩ := List.mem_map.1 hissue
    rw [List.mem_singleton.1 hid]
    exact .inl (List.mem_map_of_mem (Subscriptions.Coherent.mem_live_of_mem_onChannel hmem))
  | _ => cases hissue

/-- An action that does not close its session tells a live subscription just what is due. -/
theorem mentioning_handed {a : Action} (ha : h.Allows a) {s : Subscription}
    (hmem : s ∈ h.subscriptions.live) (hcloses : a.closes s.session = false) :
    mentioning s.id (h.handed a) = (h.due s a).map (Post.mk s.session) := by
  have hissue : mentioning s.id (h.issue a).1 = (h.due s a).map (Post.mk s.session) := by
    cases a with
    | payload session text => exact hs.mentioning_live session text hmem
    | tick =>
      refine (mentioning_map Subscription.id (fun _ => rfl) _ _).trans ?_
      rw [hs.coherent.filter_onChannel hmem]
      unfold due
      split <;> rfl
    | _ => rfl
  have hlive : s ∈ (h.issue a).2.subscriptions.live := by
    rw [← subscriptions_step]
    exact hs.mem_live_step hmem hcloses
  have hopen := (hs.issue ha).session_open s hlive
  rw [mentioning_handed_eq, hissue]
  intro q hq
  rw [hissue] at hq
  obtain ⟨m, -, rfl⟩ := List.mem_map.1 hq
  exact hopen

/-! ## What a run posts about a subscription -/

/-- Nothing mentions an id that is not live and not handed out in the run. -/
theorem mentioning_log_nil {l : List Action} (hl : h.Admits l) {id : Nat}
    (hlive : id ∉ h.subscriptions.live.map (·.id))
    (hnew : ¬ (h.subscriptions.nextId ≤ id ∧ id < (h.run l).subscriptions.nextId)) :
    mentioning id (h.log l) = [] ∧ id ∉ (h.run l).subscriptions.live.map (·.id) := by
  induction l generalizing h with
  | nil => exact ⟨rfl, hlive⟩
  | cons a rest ih =>
    have hnext := hs.nextId_step_le a
    have hfinal : (h.step a).subscriptions.nextId ≤ (h.run (a :: rest)).subscriptions.nextId :=
      (hs.step hl.1).nextId_run_le hl.2
    -- an id that is new in `a` lies below the last next id, so it is new in the run
    have hhanded : mentioning id (h.handed a) = [] := by
      apply mentioning_eq_nil
      intro q hq hid
      rcases hs.mentions_handed hq hid with hmem | hmem
      · exact hlive hmem
      · omega
    have hlive' : id ∉ (h.step a).subscriptions.live.map (·.id) := by
      intro hmem
      obtain ⟨s, hs', rfl⟩ := List.mem_map.1 hmem
      rcases hs.of_mem_live_step hs' with ⟨hmem, -⟩ | hmem
      · exact hlive (List.mem_map_of_mem hmem)
      · omega
    obtain ⟨hrest, hend⟩ := ih (hs.step hl.1) hl.2 hlive' fun hmem => hnew ⟨by omega, hmem.2⟩
    refine ⟨?_, hend⟩
    rw [log, mentioning_append, hhanded, hrest]
    rfl

/-- Until its session is closed a live subscription stays as it is and is told just what is due;
from then on it is gone and told nothing. -/
theorem mentioning_log {l : List Action} (hl : h.Admits l) {s : Subscription}
    (hmem : s ∈ h.subscriptions.live) :
    mentioning s.id (h.log l) =
        (h.dues s (l.takeWhile fun a => !a.closes s.session)).map (Post.mk s.session) ∧
      (h.run l).subscriptions.get? s.id =
        if l.any (·.closes s.session) then none else some s := by
  induction l generalizing h with
  | nil => exact ⟨rfl, hs.coherent.get?_eq_some_iff.2 ⟨hmem, rfl⟩⟩
  | cons a rest ih =>
    cases hcloses : a.closes s.session with
    | false =>
      obtain ⟨hrest, hend⟩ := ih (hs.step hl.1) hl.2 (hs.mem_live_step hmem hcloses)
      refine ⟨?_, ?_⟩
      · rw [List.takeWhile_cons_of_pos (by rw [hcloses]; rfl), dues, List.map_append, log,
          mentioning_append, hs.mentioning_handed hl.1 hmem hcloses, hrest]
      · rw [List.any_cons, hcloses, Bool.false_or]
        exact hend
    | true =>
      have hlt := hs.coherent.id_lt s hmem
      have hnext := hs.nextId_step_le a
      have hgone : s.id ∉ (h.step a).subscriptions.live.map (·.id) := by
        intro hid
        obtain ⟨t, ht, he⟩ := List.mem_map.1 hid
        rcases hs.of_mem_live_step ht with ⟨ht, hopen⟩ | hnew
        · rw [hs.coherent.eq_of_id ht hmem he, hcloses] at hopen
          cases hopen
        · omega
      obtain ⟨hrest, hend⟩ := (hs.step hl.1).mentioning_log_nil hl.2 hgone fun h => by omega
      have hhanded : h.handed a = [] := by
        cases a with
        | closeSession session => rfl
        | _ => cases hcloses
      refine ⟨?_, ?_⟩
      · rw [List.takeWhile_cons_of_neg (by simp [hcloses]), log, hhanded, List.nil_append, hrest]
        rfl
      · rw [List.any_cons, hcloses, Bool.true_or, if_pos rfl]
        unfold Subscriptions.get?
        rw [List.find?_eq_none]
        intro t ht he
        exact hend (List.mem_map.2 ⟨t, ht, of_decide_eq_true he⟩)

end Sound

end Hub

end PriceFeed
