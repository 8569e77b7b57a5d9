import PriceFeed.Hub

/-!
# What delivery changes

Delivering posts fills mailboxes and counts events, and touches nothing else (`like_deliverAll`).
Which posts get to a mailbox at all does not depend on those delivered before them: a mailbox is
handed, in order, the messages of those posts for its session that reach it.

    h.Like (h.deliverAll posts)                                                  (like_deliverAll)
    the mailbox of a session takes in what `handedTo` lists                     (mailbox_deliverAll)
-/

namespace PriceFeed

/-- A gauge is set to what it measures; all other series count events. -/
def Series.isGauge : Series → Bool
  | .sessions => true
  | .subscriptions => true
  | _ => false

namespace Hub

/-! ## Sessions -/

/-- The ids of all sessions, with identity and whether they are listed. -/
def roster (h : Hub) : List (Nat × Option String × Bool) :=
  h.sessions.map fun s => (s.id, s.publisher, s.listed)

/-- The session is in the session map. -/
def isOpen (h : Hub) (id : Nat) : Bool := (h.session? id).any (·.listed)

/-- There is a session with this id, closed or not. -/
def known (h : Hub) (id : Nat) : Bool := (h.session? id).isSome

/-- The identity of a session. -/
def publisherOf (h : Hub) (id : Nat) : Option String := (h.session? id).bind (·.publisher)

/-- Whether a post gets to a mailbox: a reply does in any case, a notification only while its
session is in the session map. -/
def reaches (h : Hub) (p : Post) : Bool :=
  (h.session? p.session).any fun s => p.message.noticeKind?.isNone || s.listed

theorem find?_roster (h : Hub) (id : Nat) :
    h.roster.find? (·.1 = id) = (h.session? id).map fun s => (s.id, s.publisher, s.listed) := by
  unfold roster session?
  rw [List.find?_map]
  rfl

theorem id_of_session? {h : Hub} {id : Nat} {s : Session} (hs : h.session? id = some s) :
    s.id = id := by
  simpa using List.find?_some hs

theorem isOpen_eq (h : Hub) (id : Nat) :
    h.isOpen id = (h.roster.find? (·.1 = id)).any (·.2.2) := by
  rw [find?_roster, Option.any_map]
  rfl

theorem known_eq (h : Hub) (id : Nat) : h.known id = (h.roster.find? (·.1 = id)).isSome := by
  rw [find?_roster, Option.isSome_map]
  rfl

theorem publisherOf_eq (h : Hub) (id : Nat) :
    h.publisherOf id = (h.roster.find? (·.1 = id)).bind (·.2.1) := by
  rw [find?_roster, Option.bind_map]
  rfl

theorem reaches_eq (h : Hub) (p : Post) :
    h.reaches p = (h.roster.find? (·.1 = p.session)).any
      fun e => p.message.noticeKind?.isNone || e.2.2 := by
  rw [find?_roster, Option.any_map]
  rfl

theorem session?_modifySession (h : Hub) (id : Nat) (f : Session → Session)
    (hf : ∀ s, (f s).id = s.id) (id' : Nat) :
    (h.modifySession id f).session? id' =
      (h.session? id').map fun s => if s.id = id then f s else s := by
  have hp : ((fun s : Session => decide (s.id = id')) ∘ fun s => if s.id = id then f s else s) =
      fun s => decide (s.id = id') := by
    funext s
    simp only [Function.comp_apply]
    split
    · rw [hf]
    · rfl
  unfold session? modifySession
  rw [List.find?_map, hp]

theorem roster_modifySession (h : Hub) (id : Nat) {f : Session → Session}
    (hf : ∀ s, ((f s).id, (f s).publisher, (f s).listed) = (s.id, s.publisher, s.listed)) :
    (h.modifySession id f).roster = h.roster := by
  unfold roster modifySession
  rw [List.map_map]
  apply List.map_congr_left
  intro s _
  simp only [Function.comp_apply]
  split
  · exact hf s
  · rfl

/-! ## Hubs alike -/

/-- The hubs differ at most in what mailboxes hold and how many events were counted. -/
structure Like (h h' : Hub) : Prop where
  registry : h'.registry = h.registry
  board : h'.board = h.board
  schedule : h'.schedule = h.schedule
  capacity : h'.capacity = h.capacity
  commits : h'.commits = h.commits
  subscriptions : h'.subscriptions = h.subscriptions
  roster : h'.roster = h.roster
  nextSession : h'.nextSession = h.nextSession
  gauges : ∀ s : Series, s.isGauge = true → h'.metrics.get s = h.metrics.get s

namespace Like

theorem refl (h : Hub) : h.Like h := ⟨rfl, rfl, rfl, rfl, rfl, rfl, rfl, rfl, fun _ _ => rfl⟩

theorem trans {a b c : Hub} (hab : a.Like b) (hbc : b.Like c) : a.Like c where
  registry := hbc.registry.trans hab.registry
  board := hbc.board.trans hab.board
  schedule := hbc.schedule.trans hab.schedule
  capacity := hbc.capacity.trans hab.capacity
  commits := hbc.commits.trans hab.commits
  subscriptions := hbc.subscriptions.trans hab.subscriptions
  roster := hbc.roster.trans hab.roster
  nextSession := hbc.nextSession.trans hab.nextSession
  gauges := fun s hs => (hbc.gauges s hs).trans (hab.gauges s hs)

theorem isOpen {h h' : Hub} (hl : h.Like h') (id : Nat) : h'.isOpen id = h.isOpen id := by
  rw [isOpen_eq, isOpen_eq, hl.roster]

theorem reaches {h h' : Hub} (hl : h.Like h') (p : Post) : h'.reaches p = h.reaches p := by
  rw [reaches_eq, reaches_eq, hl.roster]

end Like

theorem get_count_gauge (m : Metrics) {s g : Series} (hs : s.isGauge = false)
    (hg : g.isGauge = true) : (m.count s).get g = m.get g := by
  apply Metrics.get_add_of_ne
  rintro rfl
  rw [hs] at hg
  cases hg

theorem like_count (h : Hub) {s : Series} (hs : s.isGauge = false) : h.Like (h.count s) :=
  ⟨rfl, rfl, rfl, rfl, rfl, rfl, rfl, rfl, fun _ hg => get_count_gauge h.metrics hs hg⟩

theorem like_modifyMailbox (h : Hub) (id : Nat) (f : Session → Mailbox Message) :
    h.Like (h.modifySession id fun s => { s with mailbox := f s }) :=
  ⟨rfl, rfl, rfl, rfl, rfl, rfl, roster_modifySession h id fun _ => rfl, rfl, fun _ _ => rfl⟩

/-! ## Delivery -/

/-- All that delivering a post can do. -/
theorem deliver_cases (h : Hub) (p : Post) :
    h.reaches p = false ∧ (h.deliver p = h ∨
      ∃ kind, h.deliver p = h.count (.dropped kind .sessionClosed)) ∨
    ∃ s, h.reaches p = true ∧ h.session? p.session = some s ∧
      (h.deliver p = (h.handOver s p.message).2 ∨
        ∃ e : Series, e.isGauge = false ∧ h.deliver p = (h.handOver s p.message).2.count e) := by
  unfold deliver reaches
  split
  · next hkind =>
    cases hs : h.session? p.session with
    | none => exact .inl ⟨rfl, .inl rfl⟩
    | some s => exact .inr ⟨s, by simp [hkind], rfl, .inl rfl⟩
  · next kind hkind =>
    cases hs : h.session? p.session with
    | none => exact .inl ⟨rfl, .inr ⟨kind, rfl⟩⟩
    | some s =>
      cases hlisted : s.listed with
      | false =>
        rw [Option.filter_some_neg (by simp [hlisted])]
        exact .inl ⟨by simp [hkind, hlisted], .inr ⟨kind, rfl⟩⟩
      | true =>
        rw [Option.filter_some_pos hlisted]
        refine .inr ⟨s, by simp [hlisted], rfl, .inr ?_⟩
        simp only
        obtain ⟨delivery, h'⟩ := h.handOver s p.message
        cases delivery with
        | queued => exact ⟨.sent kind, rfl, rfl⟩
        | overflow => exact ⟨.dropped kind .overflow, rfl, rfl⟩
        | closed => exact ⟨.dropped kind .sessionClosed, rfl, rfl⟩

theorem handOver_cases (h : Hub) (s : Session) (m : Message) :
    let filled := h.modifySession s.id fun s' => { s' with mailbox := (s.mailbox.deliver m).2 }
    (h.handOver s m).2 = filled ∨ (h.handOver s m).2 = filled.count .sessionsOverflowed := by
  unfold handOver
  simp only
  split
  · exact .inr rfl
  · exact .inl rfl

theorem like_handOver (h : Hub) (s : Session) (m : Message) : h.Like (h.handOver s m).2 := by
  have hfill := h.like_modifyMailbox s.id fun _ => (s.mailbox.deliver m).2
  rcases h.handOver_cases s m with he | he <;> rw [he]
  · exact hfill
  · exact hfill.trans (like_count _ rfl)

theorem like_deliver (h : Hub) (p : Post) : h.Like (h.deliver p) := by
  rcases h.deliver_cases p with ⟨-, he | ⟨kind, he⟩⟩ | ⟨s, -, -, he | ⟨e, hg, he⟩⟩ <;> rw [he]
  · exact .refl h
  · exact like_count h rfl
  · exact h.like_handOver s p.message
  · exact (h.like_handOver s p.message).trans (like_count _ hg)

theorem like_deliverAll (h : Hub) (posts : List Post) : h.Like (h.deliverAll posts) := by
  induction posts generalizing h with
  | nil => exact .refl h
  | cons p rest ih => exact (h.like_deliver p).trans (ih (h.deliver p))

/-! ## Mailboxes -/

@[simp] theorem session?_count (h : Hub) (s : Series) (id : Nat) :
    (h.count s).session? id = h.session? id := rfl

theorem session?_handOver (h : Hub) (s : Session) (m : Message) (id : Nat) :
    (h.handOver s m).2.session? id = (h.session? id).map fun s' =>
      if s'.id = s.id then { s' with mailbox := (s.mailbox.deliver m).2 } else s' := by
  have hfill := h.session?_modifySession s.id
    (fun s' => { s' with mailbox := (s.mailbox.deliver m).2 }) (fun _ => rfl) id
  rcases h.handOver_cases s m with ho | ho <;> rw [ho]
  · exact hfill
  · exact hfill

/-- A post that reaches its session is handed to its mailbox, and to no other. -/
theorem mailbox_deliver (h : Hub) (p : Post) (id : Nat) :
    ((h.deliver p).session? id).map (·.mailbox) =
      ((h.session? id).map (·.mailbox)).map fun b =>
        if h.reaches p ∧ p.session = id then (b.deliver p.message).2 else b := by
  rcases h.deliver_cases p with ⟨hr, hd⟩ | ⟨s, hr, hs, hd⟩
  · have hd' : (h.deliver p).session? id = h.session? id := by
      rcases hd with hd | ⟨kind, hd⟩ <;> rw [hd]
      exact session?_count ..
    rw [hd', hr]
    cases h.session? id with
    | none => rfl
    | some s => rfl
  · have hd' : (h.deliver p).session? id = ((h.handOver s p.message).2).session? id := by
      rcases hd with hd | ⟨e, -, hd⟩ <;> rw [hd]
      exact session?_count ..
    rw [hd', session?_handOver, Option.map_map, Option.map_map]
    cases hid : h.session? id with
    | none => rfl
    | some s' =>
      have hsid := id_of_session? hs
      have hid' := id_of_session? hid
      simp only [Option.map_some, Function.comp_apply, hr, true_and, hid', hsid]
      by_cases heq : p.session = id
      · rw [if_pos heq.symm, if_pos heq]
        rw [heq, hid, Option.some.injEq] at hs
        rw [hs]
      · rw [if_neg (Ne.symm heq), if_neg heq]

/-- The messages that are handed to the mailbox of a session. -/
def handedTo (h : Hub) (id : Nat) (posts : List Post) : List Message :=
  ((posts.filter h.reaches).filter (·.session = id)).map (·.message)

theorem mailbox_deliverAll (h : Hub) (posts : List Post) (id : Nat) :
    ((h.deliverAll posts).session? id).map (·.mailbox) =
      ((h.session? id).map (·.mailbox)).map fun b =>
        (h.handedTo id posts).foldl (fun b m => (b.deliver m).2) b := by
  induction posts generalizing h with
  | nil =>
    rw [Option.map_map]
    rfl
  | cons p rest ih =>
    have hlike : (h.deliver p).handedTo id rest = h.handedTo id rest := by
      have hr : (h.deliver p).reaches = h.reaches := funext (h.like_deliver p).reaches
      rw [handedTo, handedTo, hr]
    have hstep := ih (h.deliver p)
    rw [hlike, mailbox_deliver, Option.map_map] at hstep
    refine hstep.trans ?_
    congr 1
    funext b
    by_cases hp : h.reaches p = true ∧ p.session = id
    · simp [handedTo, hp]
    · by_cases hr : h.reaches p = true
      · have hne : p.session ≠ id := fun he => hp ⟨hr, he⟩
        simp [handedTo, hr, hne]
      · simp [handedTo, hr]

end Hub

end PriceFeed
