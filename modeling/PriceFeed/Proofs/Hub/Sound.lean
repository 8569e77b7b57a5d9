import PriceFeed.Proofs.Hub.Replies

/-!
# Regular and sound hubs

In a regular hub the board has a book for every registered instrument and the subscription table is
coherent. Every operation keeps a hub regular. In a sound hub, moreover, every live subscription
belongs to a session that is not closed and to a registered instrument, and the gauges show what
there is. Every operation keeps a hub sound, a payload if it comes from a session that is not closed.

    every activation of a payload succeeds                               (Regular.activated)
    h.Regular → (h.process session text).2.Regular                         (Regular.process)
    h.Sound → h.isOpen session → (h.process session text).2.Sound            (Sound.process)
    h.Sound → (h.closeSession id).Sound                                 (Sound.closeSession)
-/

namespace PriceFeed

/-- The subscription that an activation makes for a session. -/
def Activation.subscription (session : Nat) (a : Activation) : Subscription :=
  ⟨a.id, session, a.account, a.channel⟩

/-- The notification with which a subscription becomes live. -/
def Subscription.first (s : Subscription) (aggregate : Aggregate) : Message :=
  match s.channel with
  | .price => .price s.id aggregate
  | .schedule => .schedule s.id

namespace Hub

/-! ## Gauges -/

/-- The gauges show how many sessions are open and how many subscriptions are live. -/
structure Gauged (h : Hub) : Prop where
  sessions : h.metrics.get .sessions = h.openSessions.length
  subscriptions : h.metrics.get .subscriptions = h.subscriptions.live.length

theorem gauged_updateGauges (h : Hub) : h.updateGauges.Gauged where
  sessions := by
    unfold updateGauges
    rw [Metrics.get_set_of_ne (by decide), Metrics.get_set_self]
    rfl
  subscriptions := Metrics.get_set_self ..

theorem length_openSessions (h : Hub) :
    h.openSessions.length = (h.roster.filter (·.2.2)).length := by
  unfold openSessions roster
  rw [List.filter_map, List.length_map]
  rfl

/-- Gauges depend on the roster and the live subscriptions alone. -/
theorem Gauged.congr {h h' : Hub} (hg : h.Gauged) (hroster : h'.roster = h.roster)
    (hlive : h'.subscriptions.live = h.subscriptions.live)
    (hgauges : ∀ s : Series, s.isGauge = true → h'.metrics.get s = h.metrics.get s) :
    h'.Gauged where
  sessions := by
    rw [hgauges _ rfl, hg.sessions, length_openSessions, length_openSessions, hroster]
  subscriptions := by rw [hgauges _ rfl, hg.subscriptions, hlive]

/-! ## Activations -/

/-- All that activating subscriptions for a session changes. -/
structure Activated (h : Hub) (session : Nat) (l : List Activation) (h' : Hub) : Prop where
  registry : h'.registry = h.registry
  schedule : h'.schedule = h.schedule
  board : h'.board = h.board
  commits : h'.commits = h.commits
  capacity : h'.capacity = h.capacity
  sessions : h'.sessions = h.sessions
  subscriptions : h'.subscriptions =
    (l.map (·.subscription session)).foldl Subscriptions.activate h.subscriptions
  gauged : h.Gauged → h'.Gauged

theorem activate_eq {h : Hub} {a : Activation} {aggregate : Aggregate}
    (hread : h.board.aggregate? a.account = some aggregate) (session : Nat) :
    h.activate session a = ([⟨session, (a.subscription session).first aggregate⟩],
      updateGauges
        { h with subscriptions := h.subscriptions.activate (a.subscription session) }) := by
  unfold activate
  rw [Board.aggregate?_eq_some_iff.1 hread]
  obtain ⟨id, account, channel⟩ := a
  cases channel <;> rfl

theorem activateAll_eq {h : Hub} {l : List Activation}
    (hread : ∀ a ∈ l, ∃ aggregate, h.board.aggregate? a.account = some aggregate)
    (session : Nat) :
    Activated h session l (h.activateAll session l).2 ∧
      (h.activateAll session l).1 = l.map fun a =>
        ⟨session, (a.subscription session).first
          ((h.board.aggregate? a.account).getD {})⟩ := by
  induction l generalizing h with
  | nil => exact ⟨⟨rfl, rfl, rfl, rfl, rfl, rfl, rfl, id⟩, rfl⟩
  | cons a rest ih =>
    obtain ⟨aggregate, ha⟩ := hread a List.mem_cons_self
    let next := updateGauges
      { h with subscriptions := h.subscriptions.activate (a.subscription session) }
    have hnext : h.activate session a =
        ([⟨session, (a.subscription session).first aggregate⟩], next) := activate_eq ha session
    obtain ⟨hrest, hposts⟩ := @ih next fun b hb => hread b (List.mem_cons_of_mem _ hb)
    simp only [activateAll, hnext, List.map_cons, ha, Option.getD_some]
    refine ⟨⟨hrest.registry, hrest.schedule, hrest.board, hrest.commits, hrest.capacity,
      hrest.sessions, hrest.subscriptions, fun _ => hrest.gauged (gauged_updateGauges _)⟩, ?_⟩
    rw [hposts]
    rfl

/-! ## Regularity and soundness -/

/-- What holds of a hub between any two operations, whichever sessions payloads come from. -/
structure Regular (h : Hub) : Prop where
  covers : h.board.Covers h.registry
  coherent : h.subscriptions.Coherent

theorem regular_create (registry : Registry) (policy : Policy) (schedule : SchedulePolicy)
    (capacity : Nat) (commits : Option CommitQueue) :
    (create registry policy schedule capacity commits).Regular where
  covers := Board.covers_ofRegistry registry policy
  coherent := Subscriptions.coherent_empty

theorem Regular.like {h h' : Hub} (hr : h.Regular) (hl : h.Like h') : h'.Regular where
  covers := by
    rw [hl.board, hl.registry]
    exact hr.covers
  coherent := hl.subscriptions ▸ hr.coherent

/-- What holds of a hub between any two operations. -/
structure Sound (h : Hub) : Prop where
  covers : h.board.Covers h.registry
  coherent : h.subscriptions.Coherent
  session_open : ∀ s ∈ h.subscriptions.live, h.isOpen s.session = true
  registered : ∀ s ∈ h.subscriptions.live, ∃ i ∈ h.registry.instruments, i.account = s.account
  gauged : h.Gauged

theorem sound_create (registry : Registry) (policy : Policy) (schedule : SchedulePolicy)
    (capacity : Nat) (commits : Option CommitQueue) :
    (create registry policy schedule capacity commits).Sound where
  covers := (regular_create ..).covers
  coherent := (regular_create ..).coherent
  session_open := nofun
  registered := nofun
  gauged := ⟨rfl, rfl⟩

theorem Sound.regular {h : Hub} (hs : h.Sound) : h.Regular := ⟨hs.covers, hs.coherent⟩

theorem Sound.like {h h' : Hub} (hs : h.Sound) (hl : h.Like h') : h'.Sound where
  covers := (hs.regular.like hl).covers
  coherent := (hs.regular.like hl).coherent
  session_open := by
    intro s hmem
    rw [hl.subscriptions] at hmem
    rw [hl.isOpen]
    exact hs.session_open s hmem
  registered := by
    rw [hl.subscriptions, hl.registry]
    exact hs.registered
  gauged := hs.gauged.congr hl.roster (by rw [hl.subscriptions]) hl.gauges

/-! ## Opening and closing -/

theorem isOpen_iff {h : Hub} {id : Nat} :
    h.isOpen id = true ↔ ∃ s, h.session? id = some s ∧ s.listed = true :=
  Option.any_eq_true ..

/-- Sessions that are there stay, and a new one is open and has a new mailbox. -/
theorem session?_openSession (h : Hub) (publisher : Option String) (id : Nat) :
    (h.openSession publisher).2.session? id = h.session? id ∧ h.known id = true ∨
      h.known id = false ∧ ∀ s, (h.openSession publisher).2.session? id = some s →
        s.listed = true ∧ s.mailbox = { capacity := h.capacity } := by
  let new : Session := { id := h.nextSession, publisher, mailbox := { capacity := h.capacity } }
  have hfind : (h.openSession publisher).2.session? id =
      (h.session? id).or ([new].find? (·.id = id)) := List.find?_append
  cases hs : h.session? id with
  | some s =>
    have hknown : h.known id = true := congrArg Option.isSome hs
    exact .inl ⟨by rw [hfind, hs, Option.some_or], hknown⟩
  | none =>
    have hunknown : h.known id = false := congrArg Option.isSome hs
    refine .inr ⟨hunknown, fun s hnew => ?_⟩
    rw [hfind, hs, Option.none_or] at hnew
    rw [List.mem_singleton.1 (List.mem_of_find?_eq_some hnew)]
    exact ⟨rfl, rfl⟩

theorem isOpen_openSession {h : Hub} {id : Nat} (hopen : h.isOpen id = true)
    (publisher : Option String) : (h.openSession publisher).2.isOpen id = true := by
  obtain ⟨s, hs, hlisted⟩ := isOpen_iff.1 hopen
  rw [isOpen_iff]
  rcases h.session?_openSession publisher id with ⟨hsame, -⟩ | ⟨-, hnew⟩
  · exact ⟨s, hsame.trans hs, hlisted⟩
  · exact ⟨s, List.find?_append.trans (by rw [show h.sessions.find? _ = some s from hs]; rfl),
      hlisted⟩

theorem Sound.openSession {h : Hub} (hs : h.Sound) (publisher : Option String) :
    (h.openSession publisher).2.Sound where
  covers := hs.covers
  coherent := hs.coherent
  session_open := fun s hmem => isOpen_openSession (hs.session_open s hmem) publisher
  registered := hs.registered
  gauged := gauged_updateGauges _

theorem like_hangUp (h : Hub) (id : Nat) : h.Like (h.hangUp id) :=
  h.like_modifyMailbox id fun s => s.mailbox.cancel

/-- All that closing a session can do. -/
theorem closeSession_cases (h : Hub) (id : Nat) :
    h.isOpen id = false ∧ h.closeSession id = h.hangUp id ∨
      h.isOpen id = true ∧ h.closeSession id = updateGauges
        { (h.hangUp id).modifySession id fun s => { s with listed := false } with
          subscriptions := (h.subscriptions.removeAll id).2 } := by
  unfold closeSession isOpen
  cases (h.session? id).any (·.listed)
  · exact .inl ⟨rfl, rfl⟩
  · exact .inr ⟨rfl, rfl⟩

theorem isOpen_unlist (h : Hub) (id id' : Nat) :
    (h.modifySession id fun s => { s with listed := false }).isOpen id' =
      (decide (id' ≠ id) && h.isOpen id') := by
  unfold isOpen
  rw [session?_modifySession _ _ (fun s => { s with listed := false }) fun _ => rfl, Option.any_map]
  cases hs : h.session? id' with
  | none => simp
  | some s =>
    have hid := id_of_session? hs
    by_cases he : id' = id
    · simp [hid, he]
    · simp [hid, he]

theorem isOpen_closeSession (h : Hub) (id id' : Nat) :
    (h.closeSession id).isOpen id' = (decide (id' ≠ id) && h.isOpen id') := by
  rcases h.closeSession_cases id with ⟨hclosed, he⟩ | ⟨-, he⟩
  · rw [he, (h.like_hangUp id).isOpen]
    by_cases hid : id' = id
    · simp [hid, hclosed]
    · simp [hid]
  · rw [he, ← (h.like_hangUp id).isOpen id', ← isOpen_unlist]
    rfl

theorem known_closeSession (h : Hub) (id id' : Nat) :
    (h.closeSession id).known id' = h.known id' := by
  rcases h.closeSession_cases id with ⟨-, he⟩ | ⟨-, he⟩
  · rw [he, known_eq, (h.like_hangUp id).roster, ← known_eq]
  · have hunlist := session?_modifySession (h.hangUp id) id (fun s => { s with listed := false })
      (fun _ => rfl) id'
    rw [he, known_eq h, ← (h.like_hangUp id).roster, ← known_eq]
    exact (congrArg Option.isSome hunlist).trans Option.isSome_map

/-- Closing an open session removes its subscriptions, and no others; closing another removes
nothing. -/
theorem Regular.subscriptions_closeSession {h : Hub} (hr : h.Regular) (id : Nat) :
    (h.closeSession id).subscriptions.Coherent ∧
      (h.closeSession id).subscriptions.live =
        h.subscriptions.live.filter (fun s => !(decide (s.session = id) && h.isOpen id)) ∧
      (h.closeSession id).subscriptions.nextId = h.subscriptions.nextId := by
  rcases h.closeSession_cases id with ⟨hclosed, he⟩ | ⟨hopen, he⟩
  · rw [he, hclosed]
    exact ⟨hr.coherent, (List.filter_eq_self.2 fun s _ => by simp).symm, rfl⟩
  · rw [he, hopen]
    refine ⟨hr.coherent.removeAll id, (hr.coherent.live_removeAll id).trans ?_, rfl⟩
    exact List.filter_congr fun s _ => by simp

theorem registry_closeSession (h : Hub) (id : Nat) : (h.closeSession id).registry = h.registry := by
  rcases h.closeSession_cases id with ⟨-, he⟩ | ⟨-, he⟩ <;> rw [he]
  · rfl
  · rfl

theorem Regular.closeSession {h : Hub} (hr : h.Regular) (id : Nat) :
    (h.closeSession id).Regular where
  covers := by
    rcases h.closeSession_cases id with ⟨-, he⟩ | ⟨-, he⟩ <;> rw [he]
    · exact hr.covers
    · exact hr.covers
  coherent := (hr.subscriptions_closeSession id).1

/-- Closing a session removes its subscriptions, and no others. -/
theorem Sound.subscriptions_closeSession {h : Hub} (hs : h.Sound) (id : Nat) :
    (h.closeSession id).subscriptions.Coherent ∧
      (h.closeSession id).subscriptions.live = h.subscriptions.live.filter (·.session ≠ id) ∧
      (h.closeSession id).subscriptions.nextId = h.subscriptions.nextId := by
  obtain ⟨hcoherent, hlive, hnext⟩ := hs.regular.subscriptions_closeSession id
  refine ⟨hcoherent, hlive.trans (List.filter_congr fun s hmem => ?_), hnext⟩
  by_cases hid : s.session = id
  · simp [hid, ← hs.session_open s hmem]
  · simp [hid]

theorem Sound.closeSession {h : Hub} (hs : h.Sound) (id : Nat) : (h.closeSession id).Sound := by
  obtain ⟨hcoherent, hlive, -⟩ := hs.subscriptions_closeSession id
  refine ⟨(hs.regular.closeSession id).covers, hcoherent, ?_, ?_, ?_⟩
  · intro s hmem
    rw [hlive, List.mem_filter] at hmem
    rw [isOpen_closeSession, hs.session_open s hmem.1, Bool.and_true]
    exact hmem.2
  · intro s hmem
    rw [hlive, List.mem_filter] at hmem
    rw [registry_closeSession]
    exact hs.registered s hmem.1
  · rcases h.closeSession_cases id with ⟨-, he⟩ | ⟨-, he⟩ <;> rw [he]
    · exact (hs.like (h.like_hangUp id)).gauged
    · exact gauged_updateGauges _

/-! ## Payloads -/

/-- The posts of a payload: what its updates cause, the reply, and the first notifications. -/
theorem process_eq (h : Hub) (session : Nat) (text : String) :
    let p := h.progressOf session text
    h.process session text =
      (p.posts ++ ⟨session, .reply (h.replyTo session text)⟩ ::
          (p.hub.activateAll session p.pending).1,
        (p.hub.activateAll session p.pending).2) := rfl

namespace Regular

variable {h : Hub} (hr : h.Regular) (session : Nat) (text : String)
include hr

theorem follows : Follows h (h.progressOf session text) := follows_reply hr.covers _ text

theorem aggregate?_pending {a : Activation} (ha : a ∈ (h.progressOf session text).pending) :
    ∃ aggregate, (h.progressOf session text).hub.board.aggregate? a.account = some aggregate := by
  have hf := hr.follows session text
  obtain ⟨i, hi, hacc⟩ := hf.registered a ha
  exact hacc ▸ hf.covers.exists_aggregate hi

/-- Every activation of a payload succeeds. -/
theorem activated : Activated (h.progressOf session text).hub session
    (h.progressOf session text).pending (h.process session text).2 :=
  (activateAll_eq (fun _ ha => hr.aggregate?_pending session text ha) session).1

theorem board_process :
    (h.process session text).2.board = (h.progressOf session text).hub.board :=
  (hr.activated session text).board

/-- A payload fills no mailbox before its posts are delivered. -/
theorem sessions_process : (h.process session text).2.sessions = h.sessions :=
  (hr.activated session text).sessions.trans (hr.follows session text).sessions

theorem session?_process (id : Nat) : (h.process session text).2.session? id = h.session? id := by
  rw [session?, hr.sessions_process, session?]

theorem roster_process : (h.process session text).2.roster = h.roster := by
  rw [roster, hr.sessions_process, roster]

/-- The new subscriptions join those that are live. -/
theorem subscriptions_process :
    (h.process session text).2.subscriptions.Coherent ∧
      (h.process session text).2.subscriptions.live =
        ((h.progressOf session text).pending.map (·.subscription session)).reverse ++
          h.subscriptions.live ∧
      (h.process session text).2.subscriptions.nextId =
        h.subscriptions.nextId + (h.progressOf session text).pending.length := by
  have hf := hr.follows session text
  have hids : ((h.progressOf session text).pending.map (·.subscription session)).map (·.id) =
      (h.progressOf session text).pending.map (·.id) := by
    rw [List.map_map]
    rfl
  rw [(hr.activated session text).subscriptions, ← hf.live, ← hf.nextId]
  apply Subscriptions.Coherent.activateAll (hf.coherent hr.coherent)
  · rw [hids]
    exact hf.nodup_pending
  · intro s hmem old hold
    obtain ⟨a, ha, rfl⟩ := List.mem_map.1 hmem
    rw [hf.live] at hold
    have hold_lt := hr.coherent.id_lt old hold
    have ha_ge := (hf.id_pending ha).1
    show old.id ≠ a.id
    omega
  · intro s hmem
    obtain ⟨a, ha, rfl⟩ := List.mem_map.1 hmem
    rw [hf.nextId]
    exact (hf.id_pending ha).2

theorem registry_process : (h.process session text).2.registry = h.registry :=
  (hr.activated session text).registry.trans (hr.follows session text).registry

theorem process : (h.process session text).2.Regular where
  covers := by
    rw [hr.board_process, hr.registry_process]
    exact (hr.follows session text).covers
  coherent := (hr.subscriptions_process session text).1

end Regular

theorem Sound.process {h : Hub} (hs : h.Sound) (session : Nat) (text : String)
    (hopen : h.isOpen session = true) : (h.process session text).2.Sound := by
  have hf := hs.regular.follows session text
  have ha := hs.regular.activated session text
  obtain ⟨hcoherent, hlive, -⟩ := hs.regular.subscriptions_process session text
  refine ⟨(hs.regular.process session text).covers, hcoherent, ?_, ?_, ?_⟩
  · intro s hmem
    rw [isOpen_eq, hs.regular.roster_process, ← isOpen_eq]
    rw [hlive, List.mem_append, List.mem_reverse, List.mem_map] at hmem
    rcases hmem with ⟨a, -, rfl⟩ | hmem
    · exact hopen
    · exact hs.session_open s hmem
  · intro s hmem
    rw [hs.regular.registry_process]
    rw [hlive, List.mem_append, List.mem_reverse, List.mem_map] at hmem
    rcases hmem with ⟨a, hpending, rfl⟩ | hmem
    · exact hf.registered a hpending
    · exact hs.registered s hmem
  · exact ha.gauged (hs.gauged.congr hf.roster hf.live hf.gauges)

end Hub

end PriceFeed
