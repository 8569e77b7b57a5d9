import PriceFeed.Proofs.Hub.Mailboxes

/-!
# What becomes of posts

A post that gets to a mailbox is queued there, or closes it, or finds it closed. Delivery counts
each notification once, by what becomes of it, and each mailbox that is closed by what does not fit.
A closed mailbox stays closed, so in a run no mailbox is closed twice in that way.

    delivery counts the events of the fates of its posts                     (counted_deliverAll)
    a mailbox takes in the posts whose fate it is to be queued                (queues_deliverAll)
    delivery closes the mailboxes of the posts that overflow                   (closes_deliverAll)
    an action closes no mailbox twice                                       (Regular.closes_step)
-/

namespace PriceFeed

/-- The event is one of delivery. -/
def Series.ofDelivery : Series → Bool
  | sent _ => true
  | dropped _ _ => true
  | sessionsOverflowed => true
  | _ => false

/-- A post and what its mailbox did with it; `none` if it got to no mailbox. -/
structure Fate where
  post : Post
  delivery : Option Delivery

namespace Fate

/-- The kind of notification, if it is one. -/
def kind? (f : Fate) : Option NoticeKind := f.post.message.noticeKind?

def isQueued (f : Fate) : Bool := f.delivery = some .queued

def overflows (f : Fate) : Bool := f.delivery = some .overflow

/-- What is counted for a post: a mailbox that it closes, and a notification as sent or dropped. -/
def events (f : Fate) : List Series :=
  (if f.overflows then [.sessionsOverflowed] else []) ++
    f.kind?.toList.map fun kind =>
      match f.delivery with
      | some .queued => .sent kind
      | some .overflow => .dropped kind .overflow
      | _ => .dropped kind .sessionClosed

end Fate

/-! ## Events -/

/-- What is in a list as often as its items say. -/
theorem count_flatMap_eq_countP {α β : Type} [DecidableEq β] {f : α → List β} {b : β}
    {p : α → Bool} (h : ∀ a, (f a).count b = if p a then 1 else 0) (l : List α) :
    (l.flatMap f).count b = l.countP p := by
  induction l with
  | nil => rfl
  | cons a rest ih =>
    rw [List.flatMap_cons, List.count_append, h, ih, List.countP_cons, Nat.add_comm]

namespace Fate

variable (l : List Fate) (kind : NoticeKind)

theorem count_sent : (l.flatMap events).count (.sent kind) =
    l.countP fun f => f.kind? = some kind && f.isQueued := by
  refine count_flatMap_eq_countP (fun ⟨⟨_, m⟩, delivery⟩ => ?_) l
  rcases delivery with _ | _ | _ | _ <;> cases m <;> cases kind <;> rfl

theorem count_dropped : (l.flatMap events).count (.dropped kind .overflow) =
    l.countP fun f => f.kind? = some kind && f.overflows := by
  refine count_flatMap_eq_countP (fun ⟨⟨_, m⟩, delivery⟩ => ?_) l
  rcases delivery with _ | _ | _ | _ <;> cases m <;> cases kind <;> rfl

theorem count_overflowed : (l.flatMap events).count .sessionsOverflowed =
    l.countP (·.overflows) := by
  refine count_flatMap_eq_countP (fun ⟨⟨_, m⟩, delivery⟩ => ?_) l
  rcases delivery with _ | _ | _ | _ <;> cases m <;> rfl

/-- Each notification is counted once, as sent or as dropped. -/
theorem count_notices : (l.flatMap events).count (.sent kind) +
    (l.flatMap events).count (.dropped kind .sessionClosed) +
      (l.flatMap events).count (.dropped kind .overflow) =
    l.countP (·.kind? = some kind) := by
  induction l with
  | nil => rfl
  | cons f rest ih =>
    have hone : f.events.count (.sent kind) + f.events.count (.dropped kind .sessionClosed) +
        f.events.count (.dropped kind .overflow) = if f.kind? = some kind then 1 else 0 := by
      obtain ⟨⟨_, m⟩, delivery⟩ := f
      rcases delivery with _ | _ | _ | _ <;> cases m <;> cases kind <;> rfl
    simp only [List.flatMap_cons, List.count_append, List.countP_cons, decide_eq_true_eq]
    omega

/-- What overflows is a price notification, or one on the schedule, or a reply. -/
theorem countP_overflows : l.countP (·.overflows) =
    l.countP (fun f => f.kind? = some .price && f.overflows) +
        l.countP (fun f => f.kind? = some .schedule && f.overflows) +
      l.countP fun f => f.kind? = none && f.overflows := by
  induction l with
  | nil => rfl
  | cons f rest ih =>
    rw [List.countP_cons, List.countP_cons, List.countP_cons, List.countP_cons, ih]
    cases f.overflows with
    | false => simp
    | true =>
      rcases f.kind? with _ | _ | _ <;> simp <;> omega

theorem ofDelivery_events : ∀ s ∈ l.flatMap events, s.ofDelivery = true := by
  intro s hs
  obtain ⟨f, -, hs⟩ := List.mem_flatMap.1 hs
  unfold events at hs
  rcases List.mem_append.1 hs with hs | hs
  · split at hs
    · rw [List.mem_singleton.1 hs]
      rfl
    · cases hs
  · obtain ⟨kind, -, rfl⟩ := List.mem_map.1 hs
    split <;> rfl

end Fate

namespace Hub

/-- What the mailbox of its session does with a post; `none` if it gets to no mailbox. -/
def delivery? (h : Hub) (p : Post) : Option Delivery :=
  if h.reaches p then (h.session? p.session).map fun s => (s.mailbox.deliver p.message).1 else none

/-- What becomes of posts, one after another. -/
def fates (h : Hub) : List Post → List Fate
  | [] => []
  | p :: rest => ⟨p, h.delivery? p⟩ :: (h.deliver p).fates rest

theorem map_post_fates (h : Hub) (posts : List Post) : (h.fates posts).map (·.post) = posts := by
  induction posts generalizing h with
  | nil => rfl
  | cons p rest ih => exact congrArg (p :: ·) (ih _)

/-! ## Counting -/

/-- From `h` to `h'` just the events of a list were counted. -/
def Counted (h h' : Hub) (l : List Series) : Prop :=
  ∀ s : Series, s.isGauge = false → h'.metrics.get s = h.metrics.get s + l.count s

theorem get_countAll (h : Hub) (l : List Series) (s : Series) :
    (h.countAll l).metrics.get s = h.metrics.get s + l.count s := by
  induction l generalizing h with
  | nil => rfl
  | cons t rest ih =>
    have hfirst : (h.count t).metrics.get s = h.metrics.get s + if t = s then 1 else 0 := by
      by_cases hts : t = s
      · rw [if_pos hts, hts]
        exact Metrics.get_add_self ..
      · rw [if_neg hts]
        exact Metrics.get_add_of_ne (Ne.symm hts) ..
    refine (ih (h.count t)).trans ?_
    rw [hfirst, List.count_cons]
    simp only [beq_iff_eq]
    omega

namespace Counted

variable {h h' h'' : Hub} {l l' : List Series}

theorem of_metrics (hm : h'.metrics = h.metrics) : h.Counted h' [] := fun s _ => by
  rw [hm]
  rfl

theorem refl (h : Hub) : h.Counted h [] := of_metrics rfl

theorem of_countAll (hm : h'.metrics = (h.countAll l).metrics) : h.Counted h' l := fun s _ => by
  rw [hm, get_countAll]

theorem trans (hl : h.Counted h' l) (hl' : h'.Counted h'' l') : h.Counted h'' (l ++ l') :=
  fun s hs => by rw [hl' s hs, hl s hs, List.count_append, Nat.add_assoc]

theorem trans_nil (hl : h.Counted h' l) (hl' : h'.Counted h'' []) : h.Counted h'' l :=
  List.append_nil l ▸ hl.trans hl'

theorem perm (hl : h.Counted h' l) (hp : l.Perm l') : h.Counted h' l' := fun s hs => by
  rw [hl s hs, hp.count_eq]

end Counted

/-- A gauge is no counter. -/
theorem counted_updateGauges (h : Hub) : h.Counted h.updateGauges [] := by
  intro s hs
  have hne : ∀ g : Series, g.isGauge = true → s ≠ g := by
    rintro g hg rfl
    rw [hs] at hg
    cases hg
  unfold updateGauges
  rw [Metrics.get_set_of_ne (hne _ rfl), Metrics.get_set_of_ne (hne _ rfl)]
  rfl

theorem delivery?_eq {h : Hub} {p : Post} {s : Session} (hs : h.session? p.session = some s) :
    h.delivery? p =
      if p.message.noticeKind?.isNone || s.listed then some (s.mailbox.deliver p.message).1
      else none := by
  unfold delivery? reaches
  rw [hs]
  rfl

theorem delivery?_of_none {h : Hub} {p : Post} (hs : h.session? p.session = none) :
    h.delivery? p = none := by
  unfold delivery?
  rw [hs]
  exact ite_self _

theorem counted_deliver (h : Hub) (p : Post) :
    h.Counted (h.deliver p) (Fate.events ⟨p, h.delivery? p⟩) := by
  refine .of_countAll ?_
  unfold deliver Fate.events Fate.kind? Fate.overflows
  cases hs : h.session? p.session with
  | none =>
    rw [delivery?_of_none hs]
    cases p.message.noticeKind? <;> rfl
  | some s =>
    rw [delivery?_eq hs]
    cases p.message.noticeKind? with
    | none =>
      simp only [handOver]
      cases (s.mailbox.deliver p.message).1 <;> rfl
    | some kind =>
      cases hlisted : s.listed with
      | false =>
        rw [Option.filter_some_neg (by simp [hlisted])]
        rfl
      | true =>
        rw [Option.filter_some_pos hlisted]
        simp only [handOver]
        cases (s.mailbox.deliver p.message).1 <;> rfl

theorem counted_deliverAll (h : Hub) (posts : List Post) :
    h.Counted (h.deliverAll posts) ((h.fates posts).flatMap Fate.events) := by
  induction posts generalizing h with
  | nil => exact .refl h
  | cons p rest ih => exact (h.counted_deliver p).trans (ih (h.deliver p))

/-! ## Queues -/

/-- The messages that are queued for a session. -/
def queuedFor (session : Nat) (l : List Fate) : List Message :=
  (l.filter fun f => f.isQueued && f.post.session = session).map (·.post.message)

theorem queuedFor_append (session : Nat) (l l' : List Fate) :
    queuedFor session (l ++ l') = queuedFor session l ++ queuedFor session l' := by
  rw [queuedFor, List.filter_append, List.map_append]
  rfl

theorem queues_deliver (h : Hub) (p : Post) (id : Nat) :
    ((h.deliver p).session? id).map (·.mailbox.queue) =
      ((h.session? id).map (·.mailbox.queue)).map
        (· ++ queuedFor id [⟨p, h.delivery? p⟩]) := by
  have hbox := congrArg (Option.map Mailbox.queue) (h.mailbox_deliver p id)
  rw [Option.map_map, Option.map_map, Option.map_map] at hbox
  refine hbox.trans ?_
  rw [Option.map_map]
  cases hs : h.session? id with
  | none => rfl
  | some s =>
    simp only [Option.map_some, Function.comp_apply, Option.some.injEq]
    by_cases hsession : p.session = id
    · subst hsession
      unfold queuedFor delivery?
      rw [hs]
      by_cases hr : h.reaches p = true
      · rw [if_pos ⟨hr, rfl⟩, Mailbox.queue_deliver, if_pos hr]
        by_cases hq : (s.mailbox.deliver p.message).1 = .queued <;> simp [Fate.isQueued, hq]
      · rw [if_neg fun hboth => hr hboth.1, if_neg hr]
        simp [Fate.isQueued]
    · rw [if_neg fun hboth => hsession hboth.2]
      simp [queuedFor, hsession]

/-- Each mailbox takes in, at its end and in order, what is queued for its session. -/
theorem queues_deliverAll (h : Hub) (posts : List Post) (id : Nat) :
    ((h.deliverAll posts).session? id).map (·.mailbox.queue) =
      ((h.session? id).map (·.mailbox.queue)).map (· ++ queuedFor id (h.fates posts)) := by
  induction posts generalizing h with
  | nil =>
    rw [Option.map_map]
    congr 1
    funext s
    exact (List.append_nil _).symm
  | cons p rest ih =>
    refine (ih (h.deliver p)).trans ?_
    have hcons : queuedFor id (h.fates (p :: rest)) =
        queuedFor id [⟨p, h.delivery? p⟩] ++ queuedFor id ((h.deliver p).fates rest) :=
      queuedFor_append id [_] _
    rw [queues_deliver, Option.map_map, hcons]
    congr 1
    funext queue
    exact List.append_assoc ..

/-! ## Closing -/

/-- There is a session with this id, and its mailbox takes no more messages. -/
def shut (h : Hub) (id : Nat) : Bool := ((h.session? id).map (·.mailbox)).any (·.isClosed)

/-- From `h` to `h'` mailboxes stay closed, and those of `ids` are closed, each once. -/
structure Closes (h h' : Hub) (ids : List Nat) : Prop where
  stays : ∀ id, h.shut id = true → h'.shut id = true
  nodup : ids.Nodup
  before : ∀ id ∈ ids, h.shut id = false
  after : ∀ id ∈ ids, h'.shut id = true

namespace Closes

variable {h h' h'' : Hub} {ids ids' : List Nat}

theorem of_stays (hstays : ∀ id, h.shut id = true → h'.shut id = true) : h.Closes h' [] :=
  ⟨hstays, List.nodup_nil, nofun, nofun⟩

theorem trans (hc : h.Closes h' ids) (hc' : h'.Closes h'' ids') : h.Closes h'' (ids ++ ids') where
  stays id hid := hc'.stays id (hc.stays id hid)
  nodup := by
    refine List.nodup_append.2 ⟨hc.nodup, hc'.nodup, fun id hid id' hid' he => ?_⟩
    have hshut := hc.after id hid
    rw [he, hc'.before id' hid'] at hshut
    cases hshut
  before id hid := by
    rcases List.mem_append.1 hid with hid | hid
    · exact hc.before id hid
    · have hopen := hc'.before id hid
      rw [Bool.eq_false_iff] at hopen ⊢
      exact fun hshut => hopen (hc.stays id hshut)
  after id hid := by
    rcases List.mem_append.1 hid with hid | hid
    · exact hc'.stays id (hc.after id hid)
    · exact hc'.after id hid

end Closes

theorem shut_deliver (h : Hub) (p : Post) (id : Nat) :
    (h.deliver p).shut id =
      (h.shut id || (decide (h.delivery? p = some .overflow) && decide (p.session = id))) := by
  unfold shut
  rw [mailbox_deliver]
  cases hs : h.session? id with
  | none =>
    by_cases hsession : p.session = id
    · rw [delivery?_of_none (hsession ▸ hs)]
      rfl
    · simp [hsession]
  | some s =>
    simp only [Option.map_some, Option.any_some]
    by_cases hsession : p.session = id
    · subst hsession
      unfold delivery?
      rw [hs]
      by_cases hr : h.reaches p = true
      · rw [if_pos ⟨hr, rfl⟩, if_pos hr]
        rcases s.mailbox.deliver_cases p.message with ⟨hclosed, he⟩ | ⟨-, -, he⟩ | ⟨-, -, he⟩
        · simp [he, hclosed]
        · simp [he, Mailbox.isClosed]
        · simp [he, Mailbox.isClosed]
      · simp [hr]
    · simp [hsession]

/-- The sessions whose mailboxes are closed by what does not fit. -/
def overflowed (l : List Fate) : List Nat := (l.filter (·.overflows)).map (·.post.session)

theorem overflowed_append (l l' : List Fate) :
    overflowed (l ++ l') = overflowed l ++ overflowed l' := by
  rw [overflowed, List.filter_append, List.map_append]
  rfl

theorem closes_deliver (h : Hub) (p : Post) :
    h.Closes (h.deliver p) (overflowed [⟨p, h.delivery? p⟩]) := by
  have hstays : ∀ id, h.shut id = true → (h.deliver p).shut id = true := by
    intro id hid
    rw [shut_deliver, hid]
    rfl
  by_cases ho : h.delivery? p = some .overflow
  · have hone : overflowed [⟨p, h.delivery? p⟩] = [p.session] := by
      simp [overflowed, Fate.overflows, ho]
    rw [hone]
    refine ⟨hstays, List.nodup_singleton _, fun id hid => ?_, fun id hid => ?_⟩
    · rw [List.mem_singleton.1 hid]
      -- a closed mailbox cannot overflow
      cases hs : h.session? p.session with
      | none => rw [shut, hs]; rfl
      | some s =>
        rw [delivery?_eq hs] at ho
        have hdelivery : (s.mailbox.deliver p.message).1 = .overflow := by
          split at ho
          · exact Option.some.inj ho
          · cases ho
        rw [shut, hs]
        rcases s.mailbox.deliver_cases p.message with ⟨-, he⟩ | ⟨-, -, he⟩ | ⟨hopen, -, -⟩
        · rw [he] at hdelivery
          cases hdelivery
        · rw [he] at hdelivery
          cases hdelivery
        · exact hopen
    · rw [List.mem_singleton.1 hid, shut_deliver]
      simp [ho]
  · have hnone : overflowed [⟨p, h.delivery? p⟩] = [] := by
      simp [overflowed, Fate.overflows, ho]
    rw [hnone]
    exact .of_stays hstays

theorem closes_deliverAll (h : Hub) (posts : List Post) :
    h.Closes (h.deliverAll posts) (overflowed (h.fates posts)) := by
  induction posts generalizing h with
  | nil => exact .of_stays fun _ => id
  | cons p rest ih =>
    have hcons : overflowed (h.fates (p :: rest)) =
        overflowed [⟨p, h.delivery? p⟩] ++ overflowed ((h.deliver p).fates rest) :=
      overflowed_append [_] _
    rw [hcons]
    exact (h.closes_deliver p).trans (ih (h.deliver p))

/-- What becomes of the posts of an action. -/
def fatesOf (h : Hub) (a : Action) : List Fate := (h.issue a).2.fates (h.issue a).1

namespace Regular

variable {h : Hub} (hr : h.Regular)
include hr

/-- Before its posts are delivered, an action leaves closed mailboxes closed. -/
theorem shut_issue (a : Action) {id : Nat} (hshut : h.shut id = true) :
    (h.issue a).2.shut id = true := by
  obtain ⟨b, hbox, hclosed⟩ := (Option.any_eq_true ..).1 hshut
  obtain ⟨s, hs, rfl⟩ := Option.map_eq_some_iff.1 hbox
  rw [shut, hr.mailbox_issue a hs]
  exact (Mailbox.closed_run hclosed _).1

theorem closes_step (a : Action) : h.Closes (h.step a) (overflowed (h.fatesOf a)) := by
  rw [step_eq]
  exact (Closes.of_stays fun _ => hr.shut_issue a).trans (closes_deliverAll ..)

end Regular

end Hub

end PriceFeed
