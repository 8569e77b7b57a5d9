import PriceFeed.Proofs.Hub.Sound

/-!
# What a payload posts about a subscription

A payload posts one notification about a live subscription for each item that changes the aggregate
it is subscribed to. About a subscription that it makes it posts the reply and a first notification,
and about any other it posts nothing.

    about a live one    `onChange` of each of `changesIn`                (Sound.mentioning_live)
    about a new one     the reply, then `first`                           (Sound.mentioning_new)
    about any other     nothing                                         (Sound.mentions_process)
-/

namespace PriceFeed

/-- What a live subscription is told when the aggregate it is subscribed to changes. -/
def Subscription.onChange (schedule : SchedulePolicy) (s : Subscription) (aggregate : Aggregate) :
    List Message :=
  match s.channel with
  | .price => [.price s.id aggregate]
  | .schedule => if schedule = .updateDriven then [.schedule s.id] else []

/-- The posts that mention a subscription id. -/
def mentioning (id : Nat) (l : List Post) : List Post := l.filter fun p => p.message.mentions id

theorem mentioning_append (id : Nat) (l l' : List Post) :
    mentioning id (l ++ l') = mentioning id l ++ mentioning id l' := List.filter_append ..

theorem mentioning_eq_nil {id : Nat} {l : List Post}
    (h : ∀ p ∈ l, id ∉ p.message.subscriptions) : mentioning id l = [] := by
  unfold mentioning
  rw [List.filter_eq_nil_iff]
  intro p hp hm
  exact h p hp (of_decide_eq_true hm)

/-- Posts made from keyed items, each of which mentions the key of its item. -/
theorem mentioning_map {α : Type} (key : α → Nat) {f : α → Post}
    (hf : ∀ a, (f a).message.subscriptions = [key a]) (id : Nat) (l : List α) :
    mentioning id (l.map f) = (l.filter fun a => key a = id).map f := by
  unfold mentioning
  rw [List.filter_map]
  congr 1
  apply List.filter_congr
  intro a _
  simp [Message.mentions, hf, eq_comm]

namespace Hub

/-! ## Notifications of changes -/

/-- Of the subscribers to a target, a live subscription is the one that its id is mentioned for. -/
theorem mentioning_subscribersOf {t : Subscriptions} (hc : t.Coherent) {s : Subscription}
    (hs : s ∈ t.live) (account : String) (channel : Channel) {f : Nat → Message}
    (hf : ∀ id, (f id).subscriptions = [id]) :
    mentioning s.id ((t.subscribersOf (account, channel)).map fun t => ⟨t.session, f t.id⟩) =
      if s.account = account ∧ s.channel = channel then [⟨s.session, f s.id⟩] else [] := by
  rw [mentioning_map Subscription.id fun _ => hf _, hc.filter_subscribersOf hs]
  simp only [Subscription.target, Prod.mk.injEq]
  split <;> rfl

theorem mentioning_changePosts {h : Hub} (hc : h.subscriptions.Coherent) {s : Subscription}
    (hs : s ∈ h.subscriptions.live) (account : String) (aggregate : Aggregate) :
    mentioning s.id (h.changePosts account aggregate) =
      if s.account = account then (s.onChange h.schedule aggregate).map (Post.mk s.session)
      else [] := by
  have hprice := mentioning_subscribersOf hc hs account .price
    (f := fun id => .price id aggregate) fun _ => rfl
  have hschedule := mentioning_subscribersOf hc hs account .schedule
    (f := .schedule) fun _ => rfl
  unfold changePosts Subscription.onChange
  rw [mentioning_append, hprice, apply_ite (mentioning s.id), hschedule]
  by_cases ha : s.account = account
  · cases hchannel : s.channel with
    | price => simp [ha, mentioning]
    | schedule =>
      by_cases hd : h.schedule = .updateDriven
      · simp [ha, hd]
      · simp [ha, hd, mentioning]
  · simp [ha, mentioning]

/-- Changes are told to live subscriptions only. -/
theorem mentions_changePosts {h : Hub} {account : String} {aggregate : Aggregate} {q : Post}
    (hq : q ∈ h.changePosts account aggregate) {id : Nat} (hid : id ∈ q.message.subscriptions) :
    id ∈ h.subscriptions.live.map (·.id) := by
  have hlive : ∀ {channel : Channel} {t : Subscription},
      t ∈ h.subscriptions.subscribersOf (account, channel) →
        t.id ∈ h.subscriptions.live.map (·.id) := fun ht =>
    List.mem_map_of_mem (Subscriptions.Coherent.mem_live_of_mem_subscribersOf ht)
  unfold changePosts at hq
  rcases List.mem_append.1 hq with hq | hq
  · obtain ⟨t, ht, rfl⟩ := List.mem_map.1 hq
    rw [List.mem_singleton.1 hid]
    exact hlive ht
  · split at hq
    · obtain ⟨t, ht, rfl⟩ := List.mem_map.1 hq
      rw [List.mem_singleton.1 hid]
      exact hlive ht
    · cases hq

/-! ## Posts of items -/

/-- An item posts something just when it hands in a quote, which then changes one aggregate. -/
theorem Answered.posted {publisher : Option String} {p p' : Progress} {item : Envelope}
    {r : Response} (ha : Answered publisher p item r p') :
    p'.posts = p.posts ∧ p'.hub.board = p.hub.board ∨
      ∃ account result, p'.posts = p.posts ++ p.hub.postsAfter account result ∧
        ∀ a, p.hub.board.changedTo? p'.hub.board a =
          if a = account ∧ result.changed = true then some result.aggregate else none := by
  cases ha with
  | refused served => exact .inl ⟨rfl, board_countAll ..⟩
  | listed hmethod => exact .inl ⟨rfl, board_countAll ..⟩
  | subscribed channel hmethod hparams hlookup => exact .inl ⟨rfl, board_countAll ..⟩
  | @updated request params i result board hmethod hparams hlookup hready hsubmit =>
    refine .inr ⟨i.account, result, rfl, fun a => ?_⟩
    rw [board_countAll]
    exact Board.changedTo?_submit hsubmit a

/-- The aggregates that an account takes on while items are answered, one for each change. -/
def changes (p : Progress) (publisher : Option String) (account : String) :
    List Envelope → List Aggregate
  | [] => []
  | item :: rest =>
    let next := (answer p publisher item).2
    (p.hub.board.changedTo? next.hub.board account).toList ++
      changes next publisher account rest

section Live

variable {h : Hub} {p : Progress} {s : Subscription}

theorem mentioning_answered (f : Follows h p) (hc : h.subscriptions.Coherent)
    (hs : s ∈ h.subscriptions.live) {publisher : Option String} {item : Envelope} {r : Response}
    {p' : Progress} (ha : Answered publisher p item r p') :
    mentioning s.id p'.posts = mentioning s.id p.posts ++
      ((p.hub.board.changedTo? p'.hub.board s.account).toList.flatMap
        (s.onChange h.schedule)).map (Post.mk s.session) := by
  rcases ha.posted with ⟨hposts, hboard⟩ | ⟨account, result, hposts, hchanged⟩
  · rw [hposts, hboard, Board.changedTo?_self]
    exact (List.append_nil _).symm
  · rw [hposts, mentioning_append, hchanged, postsAfter, ← f.schedule]
    cases result.changed with
    | false =>
      rw [if_neg Bool.false_ne_true, if_neg fun h => Bool.false_ne_true h.2]
      rfl
    | true =>
      rw [if_pos rfl, mentioning_changePosts (f.coherent hc) (f.live ▸ hs)]
      by_cases haccount : s.account = account
      · rw [if_pos haccount, if_pos ⟨haccount, rfl⟩]
        simp
      · rw [if_neg haccount, if_neg fun h => haccount h.1]
        rfl

theorem mentioning_answerAll (f : Follows h p) (hc : h.subscriptions.Coherent)
    (hs : s ∈ h.subscriptions.live) (publisher : Option String) (items : List Envelope) :
    mentioning s.id (answerAll p publisher items).2.posts = mentioning s.id p.posts ++
      ((changes p publisher s.account items).flatMap (s.onChange h.schedule)).map
        (Post.mk s.session) := by
  induction items generalizing p with
  | nil => exact (List.append_nil _).symm
  | cons item rest ih =>
    have hstep := mentioning_answered f hc hs (answered p publisher item)
    simp only [answerAll, changes]
    rw [ih (f.answer publisher item), hstep, List.flatMap_append, List.map_append,
      List.append_assoc]

end Live

/-- Until the reply only live subscriptions are told anything. -/
theorem mentions_answerAll {h : Hub} {p : Progress} (f : Follows h p) (publisher : Option String)
    (items : List Envelope)
    (hp : ∀ q ∈ p.posts, ∀ id ∈ q.message.subscriptions, id ∈ h.subscriptions.live.map (·.id)) :
    ∀ q ∈ (answerAll p publisher items).2.posts, ∀ id ∈ q.message.subscriptions,
      id ∈ h.subscriptions.live.map (·.id) := by
  induction items generalizing p with
  | nil => exact hp
  | cons item rest ih =>
    have hstep : ∀ q ∈ (answer p publisher item).2.posts, ∀ id ∈ q.message.subscriptions,
        id ∈ h.subscriptions.live.map (·.id) := by
      intro q hq id hid
      rcases (answered p publisher item).posted with ⟨hposts, -⟩ | ⟨account, result, hposts, -⟩
      · exact hp q (hposts ▸ hq) id hid
      · rw [hposts] at hq
        rcases List.mem_append.1 hq with hq | hq
        · exact hp q hq id hid
        · unfold postsAfter at hq
          split at hq
          · exact f.live ▸ mentions_changePosts hq hid
          · cases hq
    exact ih (f.answer publisher item) hstep

/-! ## Posts of a payload -/

/-- The aggregates that an account takes on while a payload of a session is answered. -/
def changesIn (h : Hub) (account : String) (session : Nat) (text : String) : List Aggregate :=
  changes { hub := h } (h.publisherOf session) account (Payload.itemsOf text)

/-- Answering a payload posts and changes what answering its items posts and changes. -/
theorem progressOf_eq (h : Hub) (session : Nat) (text : String) :
    let p := (answerAll { hub := h } (h.publisherOf session) (Payload.itemsOf text)).2
    (h.progressOf session text).posts = p.posts ∧
      (h.progressOf session text).hub.board = p.hub.board := by
  unfold progressOf
  rcases h.reply_cases (h.publisherOf session) text with he | ⟨hnil, e, he⟩
  · rw [(Prod.mk.inj he).2]
    exact ⟨rfl, rfl⟩
  · rw [he, hnil]
    exact ⟨rfl, rfl⟩

/-- The aggregate after a payload is the last one it was changed to, if it was changed. -/
theorem aggregate?_answerAll {h : Hub} {p : Progress} (f : Follows h p)
    {i : Instrument} (hi : i ∈ h.registry.instruments) (publisher : Option String)
    (items : List Envelope) :
    (answerAll p publisher items).2.hub.board.aggregate? i.account =
      (changes p publisher i.account items).getLast?.or (p.hub.board.aggregate? i.account) := by
  induction items generalizing p with
  | nil => rfl
  | cons item rest ih =>
    have hnext := f.answer publisher item
    obtain ⟨a, ha⟩ := hnext.covers.exists_aggregate hi
    have hstep := Board.aggregate?_of_changedTo? p.hub.board
      (answer p publisher item).2.hub.board i.account (by rw [ha]; rfl)
    simp only [answerAll, changes]
    rw [ih hnext, hstep, List.getLast?_append, Option.or_assoc]
    congr 2
    cases p.hub.board.changedTo? (answer p publisher item).2.hub.board i.account <;> rfl

/-- The posts of a payload, once more, with its first notifications in full. -/
theorem Regular.posts_process {h : Hub} (hr : h.Regular) (session : Nat) (text : String) :
    (h.process session text).1 =
      (h.progressOf session text).posts ++
        ⟨session, .reply (h.replyTo session text)⟩ ::
          (h.progressOf session text).pending.map fun a => ⟨session,
            (a.subscription session).first
              (((h.process session text).2.board.aggregate? a.account).getD {})⟩ := by
  rw [hr.board_process, process_eq]
  simp only
  rw [(activateAll_eq (fun _ ha => hr.aggregate?_pending session text ha) session).2]

namespace Sound

variable {h : Hub} (hs : h.Sound) (session : Nat) (text : String)
include hs

theorem aggregate?_process {i : Instrument} (hi : i ∈ h.registry.instruments) :
    (h.process session text).2.board.aggregate? i.account =
      (h.changesIn i.account session text).getLast?.or (h.board.aggregate? i.account) := by
  rw [hs.regular.board_process, (h.progressOf_eq session text).2]
  exact aggregate?_answerAll (Follows.init hs.covers) hi _ _

/-- New subscriptions have ids that were never handed out before. -/
theorem id_pending {a : Activation} (ha : a ∈ (h.progressOf session text).pending) :
    h.subscriptions.nextId ≤ a.id ∧
      a.id < (h.process session text).2.subscriptions.nextId := by
  rw [(hs.regular.subscriptions_process session text).2.2]
  exact (hs.regular.follows session text).id_pending ha

omit hs in
theorem subscriptions_first (a : Activation) (aggregate : Aggregate) :
    ((a.subscription session).first aggregate).subscriptions = [a.id] := by
  unfold Subscription.first
  split <;> rfl

theorem mentions_posts {q : Post} (hq : q ∈ (h.progressOf session text).posts) {id : Nat}
    (hid : id ∈ q.message.subscriptions) : id ∈ h.subscriptions.live.map (·.id) := by
  rw [(h.progressOf_eq session text).1] at hq
  exact mentions_answerAll (Follows.init hs.covers) _ _ nofun q hq id hid

/-- A payload mentions live subscriptions and those it makes. -/
theorem mentions_process {q : Post} (hq : q ∈ (h.process session text).1) {id : Nat}
    (hid : id ∈ q.message.subscriptions) :
    id ∈ h.subscriptions.live.map (·.id) ∨
      h.subscriptions.nextId ≤ id ∧ id < (h.process session text).2.subscriptions.nextId := by
  rw [hs.regular.posts_process, List.mem_append, List.mem_cons, List.mem_map] at hq
  rcases hq with hq | rfl | ⟨a, ha, rfl⟩
  · exact .inl (hs.mentions_posts session text hq hid)
  · have hreported : id ∈ (h.replyTo session text).subscriptions := hid
    rw [subscriptions_replyTo] at hreported
    obtain ⟨a, ha, rfl⟩ := List.mem_map.1 hreported
    exact .inr (hs.id_pending session text ha)
  · rw [subscriptions_first, List.mem_singleton] at hid
    exact .inr (hid ▸ hs.id_pending session text ha)

/-- A live subscription is told each change of its aggregate, and nothing else. -/
theorem mentioning_live {s : Subscription} (hmem : s ∈ h.subscriptions.live) :
    mentioning s.id (h.process session text).1 =
      ((h.changesIn s.account session text).flatMap (s.onChange h.schedule)).map
        (Post.mk s.session) := by
  have hlt := hs.coherent.id_lt s hmem
  have hreply : s.id ∉ (h.replyTo session text).subscriptions := by
    rw [subscriptions_replyTo]
    intro hid
    obtain ⟨a, ha, hid⟩ := List.mem_map.1 hid
    have := (hs.id_pending session text ha).1
    omega
  rw [hs.regular.posts_process, mentioning_append, (h.progressOf_eq session text).1,
    mentioning_answerAll (Follows.init hs.covers) hs.coherent hmem, mentioning_eq_nil (l := _ :: _)]
  · rw [List.append_nil]
    rfl
  · intro q hq hid
    rcases List.mem_cons.1 hq with rfl | hq
    · exact hreply hid
    · obtain ⟨a, ha, rfl⟩ := List.mem_map.1 hq
      rw [subscriptions_first, List.mem_singleton] at hid
      have := (hs.id_pending session text ha).1
      omega

/-- A new subscription is reported and then told its aggregate, and nothing else. -/
theorem mentioning_new {a : Activation} (ha : a ∈ (h.progressOf session text).pending)
    {aggregate : Aggregate}
    (hread : (h.process session text).2.board.aggregate? a.account = some aggregate) :
    mentioning a.id (h.process session text).1 =
      [⟨session, .reply (h.replyTo session text)⟩,
        ⟨session, (a.subscription session).first aggregate⟩] := by
  have hposts : mentioning a.id (h.progressOf session text).posts = [] := by
    apply mentioning_eq_nil
    intro q hq hid
    obtain ⟨s, hmem, he⟩ := List.mem_map.1 (hs.mentions_posts session text hq hid)
    have := hs.coherent.id_lt s hmem
    have := (hs.id_pending session text ha).1
    omega
  have hreply : Message.mentions a.id (.reply (h.replyTo session text)) = true := by
    have hid : a.id ∈ (h.replyTo session text).subscriptions := by
      rw [subscriptions_replyTo]
      exact List.mem_map_of_mem ha
    exact decide_eq_true hid
  rw [hs.regular.posts_process, mentioning_append, hposts, List.nil_append]
  unfold mentioning
  rw [List.filter_cons, if_pos hreply]
  refine congrArg (_ :: ·) ((mentioning_map Activation.id (subscriptions_first session · _) a.id _).trans ?_)
  rw [filter_key_of_mem (hs.regular.follows session text).nodup_pending ha, List.map_singleton, hread,
    Option.getD_some]

end Sound

end Hub

end PriceFeed
