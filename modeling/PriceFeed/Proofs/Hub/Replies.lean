import PriceFeed.Hub.Payload
import PriceFeed.Proofs.Board
import PriceFeed.Proofs.Hub.Answers
import PriceFeed.Proofs.Subscriptions

/-!
# What a reply reports

The reply to a payload reports an id for each item that asks for a channel of a registered
instrument. Until the reply is handed over, answering has touched the books and the next id, and
nothing else that a session can see; every reported id waits as an activation (`Follows`).

    Follows h p → Follows h (answerAll p publisher items).2                    (Follows.answerAll)
    the ids of the responses are those of the activations                      (answerAll_reported)
    each response with an id answers an item that asks for its activation        (answerAll_asked)
-/

namespace PriceFeed

/-! ## Ids in messages -/

/-- The subscription id that a response reports. -/
def Response.subscription? (r : Response) : Option Nat :=
  match r.outcome with
  | .ok (.object [("subscription", .int id)]) => some id.toNat
  | _ => none

def Reply.responses : Reply → List Response
  | single r => [r]
  | batch rs => rs

/-- The subscription ids that a reply reports. -/
def Reply.subscriptions (r : Reply) : List Nat := r.responses.filterMap (·.subscription?)

/-- The subscription ids that a message mentions. -/
def Message.subscriptions : Message → List Nat
  | reply r => r.subscriptions
  | price id _ => [id]
  | schedule id => [id]

/-- The message mentions a subscription id. -/
def Message.mentions (id : Nat) (m : Message) : Bool := id ∈ m.subscriptions

/-! ## Items -/

def Payload.items : Payload → List Envelope
  | single item => [item]
  | batch items => items

/-- The items of the text of a payload; none if it is no payload. -/
def Payload.itemsOf (text : String) : List Envelope :=
  match decode text with
  | .ok payload => payload.items
  | .error _ => []

/-- The items of the value of a payload: those of an array, and any other value by itself. -/
def Json.Value.items : Json.Value → List Json.Value
  | .array items => items
  | v => [v]

/-- The channel that a method subscribes to. -/
def Method.channel? : Method → Option Channel
  | subscribePrice => some .price
  | subscribePriceSched => some .schedule
  | getProductList => none
  | updatePrice => none

theorem Channel.channel?_method (c : Channel) : c.method.channel? = some c := by cases c <;> rfl

/-- The channel, and the account of the instrument, that an item asks to subscribe to. -/
def Envelope.subscribes? (registry : Registry) : Envelope → Option (Channel × String)
  | call request => do
    let channel ← (Method.ofName? request.method).bind (·.channel?)
    let params ← (SubscribeParams.read request.params).toOption
    let i ← (registry.lookup params.account).toOption
    return (channel, i.account)
  | invalid _ => none

namespace Hub

/-! ## Hubs while a payload is answered -/

/-- What answering items of a payload has done to the hub `h`. -/
structure Follows (h : Hub) (p : Progress) : Prop where
  registry : p.hub.registry = h.registry
  schedule : p.hub.schedule = h.schedule
  capacity : p.hub.capacity = h.capacity
  sessions : p.hub.sessions = h.sessions
  gauges : ∀ s : Series, s.isGauge = true → p.hub.metrics.get s = h.metrics.get s
  covers : p.hub.board.Covers h.registry
  subscriptions : p.hub.subscriptions =
    { h.subscriptions with nextId := h.subscriptions.nextId + p.pending.length }
  ids : p.pending.map (·.id) = List.range' h.subscriptions.nextId p.pending.length
  registered : ∀ a ∈ p.pending, ∃ i ∈ h.registry.instruments, i.account = a.account

namespace Follows

variable {h : Hub} {p : Progress}

theorem init (hc : h.board.Covers h.registry) : Follows h { hub := h } :=
  ⟨rfl, rfl, rfl, rfl, fun _ _ => rfl, hc, rfl, rfl, nofun⟩

theorem countAll (f : Follows h p) {l : List Series} (hl : ∀ s ∈ l, s.isGauge = false) :
    Follows h { p with hub := p.hub.countAll l } :=
  have hlike := like_countAll p.hub hl
  { registry := hlike.registry.trans f.registry
    schedule := hlike.schedule.trans f.schedule
    capacity := hlike.capacity.trans f.capacity
    sessions := (sessions_countAll ..).trans f.sessions
    gauges := fun s hs => (hlike.gauges s hs).trans (f.gauges s hs)
    covers := hlike.board ▸ f.covers
    subscriptions := hlike.subscriptions.trans f.subscriptions
    ids := f.ids
    registered := f.registered }

theorem roster (f : Follows h p) : p.hub.roster = h.roster := by
  rw [Hub.roster, f.sessions, Hub.roster]

theorem nextId (f : Follows h p) :
    p.hub.subscriptions.nextId = h.subscriptions.nextId + p.pending.length := by
  rw [f.subscriptions]

theorem live (f : Follows h p) : p.hub.subscriptions.live = h.subscriptions.live := by
  rw [f.subscriptions]

theorem coherent (f : Follows h p) (hc : h.subscriptions.Coherent) :
    p.hub.subscriptions.Coherent := by
  rw [f.subscriptions]
  exact ⟨hc.nodup, fun s hs => Nat.lt_add_right _ (hc.id_lt s hs), hc.targets_eq, hc.owners_eq⟩

/-- Activations have ids that were not handed out before. -/
theorem id_pending (f : Follows h p) {a : Activation} (ha : a ∈ p.pending) :
    h.subscriptions.nextId ≤ a.id ∧ a.id < h.subscriptions.nextId + p.pending.length := by
  have hid := List.mem_map_of_mem (f := Activation.id) ha
  rw [f.ids, List.mem_range'_1] at hid
  exact hid

theorem nodup_pending (f : Follows h p) : (p.pending.map (·.id)).Nodup := by
  rw [f.ids]
  exact List.nodup_range'

/-- One step of answering. -/
theorem answered (f : Follows h p) {publisher : Option String} {item : Envelope} {r : Response}
    {p' : Progress} (ha : Answered publisher p item r p') : Follows h p' := by
  cases ha with
  | refused served => exact f.countAll (by cases served <;> simp [Series.isGauge])
  | listed hmethod => exact f.countAll (by simp [Series.isGauge])
  | @subscribed request channel params i hmethod hparams hlookup =>
    have hi : i ∈ h.registry.instruments := f.registry ▸ Registry.mem_of_lookup hlookup
    let waiting := p.pending ++ [⟨p.hub.subscriptions.nextId, i.account, channel⟩]
    have hlen : waiting.length = p.pending.length + 1 := List.length_append
    have hids : waiting.map (·.id) = List.range' h.subscriptions.nextId waiting.length := by
      rw [hlen, List.range'_concat, Nat.one_mul, List.map_append, f.ids]
      simp [f.nextId]
    have hreg : ∀ a ∈ waiting, ∃ i ∈ h.registry.instruments, i.account = a.account := by
      intro a ha
      rcases List.mem_append.1 ha with ha | ha
      · exact f.registered a ha
      · rw [List.mem_singleton] at ha
        exact ⟨i, hi, ha ▸ rfl⟩
    have hsubs : p.hub.subscriptions.reserve.2 =
        { h.subscriptions with nextId := h.subscriptions.nextId + waiting.length } := by
      rw [f.subscriptions, hlen]
      rfl
    -- what is left after this is to count the request
    have hf : Follows h { p with
        hub := { p.hub with subscriptions := p.hub.subscriptions.reserve.2 }
        pending := waiting } :=
      ⟨f.registry, f.schedule, f.capacity, f.sessions, f.gauges, f.covers, hsubs, hids, hreg⟩
    exact hf.countAll (by simp [Series.isGauge])
  | @updated request params i result board hmethod hparams hlookup hready hsubmit =>
    have hf : Follows h { p with
        hub := { p.hub with board, commits := p.hub.commitsAfter i.account result }
        posts := p.posts ++ p.hub.postsAfter i.account result } :=
      ⟨f.registry, f.schedule, f.capacity, f.sessions, f.gauges, f.covers.submit hsubmit,
        f.subscriptions, f.ids, f.registered⟩
    exact hf.countAll (by simp [Series.isGauge])

theorem answer (f : Follows h p) (publisher : Option String) (item : Envelope) :
    Follows h (Hub.answer p publisher item).2 := f.answered (Hub.answered p publisher item)

theorem answerAll (f : Follows h p) (publisher : Option String) (items : List Envelope) :
    Follows h (Hub.answerAll p publisher items).2 := by
  induction items generalizing p with
  | nil => exact f
  | cons item rest ih => exact ih (f.answer publisher item)

end Follows

/-! ## Reported ids -/

/-- A response reports an id just when its item was taken as an activation. -/
theorem Answered.reported {publisher : Option String} {p p' : Progress} {item : Envelope}
    {r : Response} (ha : Answered publisher p item r p') :
    r.subscription? = none ∧ p'.pending = p.pending ∨
      ∃ channel account, item.subscribes? p.hub.registry = some (channel, account) ∧
        r.subscription? = some p.hub.subscriptions.nextId ∧
        p'.pending = p.pending ++ [⟨p.hub.subscriptions.nextId, account, channel⟩] := by
  cases ha with
  | refused served => exact .inl ⟨rfl, rfl⟩
  | listed hmethod => exact .inl ⟨rfl, rfl⟩
  | @subscribed request channel params i hmethod hparams hlookup =>
    refine .inr ⟨channel, i.account, ?_, rfl, rfl⟩
    simp [Envelope.subscribes?, hmethod, channel.channel?_method, hparams, hlookup,
      Except.toOption]
  | updated hmethod hparams hlookup hready hsubmit => exact .inl ⟨rfl, rfl⟩

theorem answerAll_reported (p : Progress) (publisher : Option String) (items : List Envelope) :
    (answerAll p publisher items).2.pending.map (·.id) =
      p.pending.map (·.id) ++ (answerAll p publisher items).1.filterMap (·.subscription?) := by
  induction items generalizing p with
  | nil => exact (List.append_nil _).symm
  | cons item rest ih =>
    simp only [answerAll]
    rw [ih]
    rcases (answered p publisher item).reported with ⟨hr, hp⟩ | ⟨channel, account, -, hr, hp⟩
    · rw [List.filterMap_cons_none hr, hp]
    · rw [List.filterMap_cons_some hr, hp, List.map_append, List.append_assoc]
      rfl

theorem length_answerAll (p : Progress) (publisher : Option String) (items : List Envelope) :
    (answerAll p publisher items).1.length = items.length := by
  induction items generalizing p with
  | nil => rfl
  | cons item rest ih => exact congrArg (· + 1) (ih _)

theorem answerAll_append (p : Progress) (publisher : Option String) (first rest : List Envelope) :
    answerAll p publisher (first ++ rest) =
      let p' := (answerAll p publisher first).2
      ((answerAll p publisher first).1 ++ (answerAll p' publisher rest).1,
        (answerAll p' publisher rest).2) := by
  induction first generalizing p with
  | nil => rfl
  | cons item first ih =>
    simp only [List.cons_append, answerAll, ih]

/-- Activations stay until the reply. -/
theorem pending_answerAll (p : Progress) (publisher : Option String) (items : List Envelope) :
    p.pending <+: (answerAll p publisher items).2.pending := by
  induction items generalizing p with
  | nil => exact List.prefix_rfl
  | cons item rest ih =>
    have hstep : p.pending <+: (answer p publisher item).2.pending := by
      rcases (answered p publisher item).reported with ⟨-, hp⟩ | ⟨channel, account, -, -, hp⟩
      · exact hp ▸ List.prefix_rfl
      · rw [hp]
        exact List.prefix_append ..
    exact hstep.trans (ih _)

/-- A reported id is that of the activation its item asked for. -/
theorem answerAll_asked {h : Hub} {p : Progress} (f : Follows h p) (publisher : Option String)
    {items : List Envelope} {item : Envelope} {r : Response} {id : Nat}
    (hmem : (item, r) ∈ items.zip (answerAll p publisher items).1)
    (hid : r.subscription? = some id) :
    ∃ channel account, item.subscribes? h.registry = some (channel, account) ∧
      ⟨id, account, channel⟩ ∈ (answerAll p publisher items).2.pending := by
  induction items generalizing p with
  | nil => cases hmem
  | cons first rest ih =>
    simp only [answerAll, List.zip_cons_cons, List.mem_cons] at hmem
    rcases hmem with he | hmem
    · obtain ⟨rfl, rfl⟩ := Prod.mk.inj he
      have hgrows := pending_answerAll (answer p publisher item).2 publisher rest
      rcases (answered p publisher item).reported with ⟨hnone, -⟩ | ⟨channel, account, hask, hr, hp⟩
      · rw [hnone] at hid
        cases hid
      · rw [hr, Option.some.injEq] at hid
        rw [hid] at hp
        refine ⟨channel, account, f.registry ▸ hask, hgrows.subset ?_⟩
        rw [hp]
        exact List.mem_append_right _ List.mem_cons_self
    · exact ih (f.answer publisher first) hmem

/-! ## The reply -/

/-- The reply to a payload answers its items, unless it is no payload; then it reports nothing. -/
theorem reply_cases (h : Hub) (publisher : Option String) (text : String) :
    ((h.reply publisher text).1.responses, (h.reply publisher text).2) =
        answerAll { hub := h } publisher (Payload.itemsOf text) ∨
      Payload.itemsOf text = [] ∧ ∃ e, h.reply publisher text =
        (.single ⟨.null, .error e⟩, { hub := h.count (.errors e) }) := by
  unfold reply Payload.itemsOf
  cases Payload.decode text with
  | error e => exact .inr ⟨rfl, e, rfl⟩
  | ok payload => cases payload <;> exact .inl rfl

/-- The reply to an array with items answers them one after another. -/
theorem reply_batch (h : Hub) (publisher : Option String) {text : String}
    {items : List Json.Value} (hparse : Json.Value.parse? text = some (.array items))
    (hne : items ≠ []) :
    h.reply publisher text =
      let p := answerAll { hub := h } publisher (items.map .ofValue)
      (.batch p.1, p.2) := by
  have hdecode : Payload.decode text = .ok (.batch (items.map .ofValue)) := by
    unfold Payload.decode
    rw [hparse]
    cases items with
    | nil => exact absurd rfl hne
    | cons item rest => rfl
  unfold reply
  rw [hdecode]

/-- The reply to anything but an array answers it as an item. -/
theorem reply_single (h : Hub) (publisher : Option String) {text : String} {v : Json.Value}
    (hparse : Json.Value.parse? text = some v) (hv : ∀ items, v ≠ .array items) :
    h.reply publisher text =
      let p := answer { hub := h } publisher (.ofValue v)
      (.single p.1, p.2) := by
  unfold reply Payload.decode
  rw [hparse]
  cases v with
  | array items => exact absurd rfl (hv items)
  | _ => rfl

/-- The reply to a payload with items answers them one after another. -/
theorem reply_items (h : Hub) (publisher : Option String) {text : String} {payload : Json.Value}
    (hparse : Json.Value.parse? text = some payload) (hne : payload.items ≠ []) :
    ((h.reply publisher text).1.responses, (h.reply publisher text).2) =
      answerAll { hub := h } publisher (payload.items.map .ofValue) := by
  cases payload with
  | array items => rw [h.reply_batch publisher hparse hne]; rfl
  | _ => rw [h.reply_single publisher hparse nofun]; rfl

theorem follows_reply {h : Hub} (hc : h.board.Covers h.registry) (publisher : Option String)
    (text : String) : Follows h (h.reply publisher text).2 := by
  rcases h.reply_cases publisher text with he | ⟨-, e, he⟩
  · rw [(Prod.mk.inj he).2]
    exact (Follows.init hc).answerAll publisher _
  · rw [he]
    exact (Follows.init hc).countAll (l := [.errors e]) (by simp [Series.isGauge])

/-- The reply to a payload of a session. -/
def replyTo (h : Hub) (session : Nat) (text : String) : Reply :=
  (h.reply (h.publisherOf session) text).1

/-- What answering a payload of a session has done when its reply is handed over. -/
def progressOf (h : Hub) (session : Nat) (text : String) : Progress :=
  (h.reply (h.publisherOf session) text).2

/-- The ids that a reply reports are those of the activations that wait for it. -/
theorem subscriptions_replyTo (h : Hub) (session : Nat) (text : String) :
    (h.replyTo session text).subscriptions =
      (h.progressOf session text).pending.map (·.id) := by
  unfold replyTo progressOf Reply.subscriptions
  rcases h.reply_cases (h.publisherOf session) text with he | ⟨-, e, he⟩
  · rw [(Prod.mk.inj he).1, (Prod.mk.inj he).2, answerAll_reported]
    rfl
  · rw [he]
    rfl

/-- The reply to a payload reports the id for an item that asks for a channel of an instrument. -/
def Reports (h : Hub) (session : Nat) (text : String) (channel : Channel) (account : String)
    (id : Nat) : Prop :=
  ∃ e ∈ (Payload.itemsOf text).zip (h.replyTo session text).responses,
    e.1.subscribes? h.registry = some (channel, account) ∧ e.2.subscription? = some id

instance (h : Hub) (session : Nat) (text : String) (channel : Channel) (account : String)
    (id : Nat) : Decidable (h.Reports session text channel account id) :=
  inferInstanceAs (Decidable (∃ e ∈ _, _ ∧ _))

/-- A reported id waits as an activation. -/
theorem Reports.mem_pending {h : Hub} (hc : h.board.Covers h.registry) {session : Nat}
    {text : String} {channel : Channel} {account : String} {id : Nat}
    (hr : h.Reports session text channel account id) :
    ⟨id, account, channel⟩ ∈ (h.progressOf session text).pending := by
  obtain ⟨⟨item, r⟩, hmem, hask, hid⟩ := hr
  unfold replyTo at hmem
  unfold progressOf
  rcases h.reply_cases (h.publisherOf session) text with he | ⟨hnil, -⟩
  · rw [(Prod.mk.inj he).1] at hmem
    obtain ⟨channel', account', hask', hpending⟩ :=
      answerAll_asked (Follows.init hc) _ hmem hid
    rw [hask, Option.some.injEq, Prod.mk.injEq] at hask'
    obtain ⟨rfl, rfl⟩ := hask'
    exact (Prod.mk.inj he).2 ▸ hpending
  · rw [hnil] at hmem
    cases hmem

/-- Each id in a reply is reported for an item of the payload. -/
theorem exists_reports {h : Hub} (hc : h.board.Covers h.registry) {session : Nat}
    {text : String} {id : Nat} (hid : id ∈ (h.replyTo session text).subscriptions) :
    ∃ channel account, h.Reports session text channel account id := by
  obtain ⟨r, hr, hrid⟩ := List.mem_filterMap.1 hid
  unfold replyTo at hr
  rcases h.reply_cases (h.publisherOf session) text with he | ⟨-, e, he⟩
  · have hresponses := (Prod.mk.inj he).1
    have hlen := length_answerAll { hub := h } (h.publisherOf session) (Payload.itemsOf text)
    rw [hresponses, ← List.map_snd_zip (Nat.le_of_eq hlen)] at hr
    obtain ⟨⟨item, r'⟩, hmem, rfl⟩ := List.mem_map.1 hr
    obtain ⟨channel, account, hask, -⟩ := answerAll_asked (Follows.init hc) _ hmem hrid
    refine ⟨channel, account, ⟨item, r'⟩, ?_, hask, hrid⟩
    unfold replyTo
    rw [hresponses]
    exact hmem
  · rw [he] at hr
    rw [List.mem_singleton.1 hr] at hrid
    cases hrid

end Hub

end PriceFeed
