import Mathlib
import PriceFeed.Proofs.Hub.Confinement
import PriceFeed.Proofs.Hub.Schedule

/-!
# The reply to a payload

A payload is answered by one reply to its sender. The reply stands behind all notifications that
updates in the payload cause, and before all of the subscriptions that the payload makes. It is an
error under the id null for what is no payload, a response for an object, and for a batch a list
with a response for each item, at its place and under its id.

    a response is written with a result or an error, and its id            (Response.render_toJson)
    an item is answered under its own id                                               (id_answer)
    the response at a place answers the item at that place                    (getElem?_answerAll)
    a payload hands over changes, the reply, first notifications          (Regular.handed_payload)

## Top theorem

    a payload gets one reply, at its place                                          (replies_once)
-/

namespace PriceFeed

open Json

/-! ## Wire form -/

/-- The member of a response that says how its request went. -/
def Response.member (r : Response) : String × Value :=
  match r.outcome with
  | .ok result => ("result", result)
  | .error e => ("error", e.toJson)

/-- A response has an id, and either a result or an error. -/
theorem Response.toJson_eq (r : Response) :
    r.toJson = .object [("jsonrpc", .string "2.0"), r.member, ("id", r.id)] ∧
      ((r.toJson.get? "result").isSome = !(r.toJson.get? "error").isSome) := by
  obtain ⟨id, outcome⟩ := r
  cases outcome with
  | ok result => exact ⟨rfl, rfl⟩
  | error e => exact ⟨rfl, rfl⟩

/-- The text of a response. The result is there even where it is null. -/
theorem Response.render_toJson (r : Response) :
    r.toJson.render = "\x7b\"jsonrpc\":\"2.0\",\"" ++ r.member.1 ++ "\":" ++ r.member.2.render ++
      ",\"id\":" ++ r.id.render ++ "\x7d" := by
  have hkey : writeString "jsonrpc" = "\"jsonrpc\"".toList := by decide
  have hversion : writeString protocolVersion = "\"2.0\"".toList := by decide
  have hresult : writeString "result" = "\"result\"".toList := by decide
  have herror : writeString "error" = "\"error\"".toList := by decide
  have hid : writeString "id" = "\"id\"".toList := by decide
  rw [← String.toList_inj]
  obtain ⟨id, outcome⟩ := r
  cases outcome with
  | ok result =>
    simp only [String.toList_append, Value.toList_render, toJson, member, Value.write, writeMembers, hkey,
      hversion, hresult, hid]
    simp
  | error e =>
    simp only [String.toList_append, Value.toList_render, toJson, member, Value.write, writeMembers, hkey,
      hversion, herror, hid]
    simp

/-! ## Ids -/

/-- The id of an item, if it has one that can be answered under, and null otherwise. -/
def Json.Value.answerId (v : Value) : Value := ((v.get? "id").filter Value.isScalar).getD .null

theorem Envelope.id_ofValue (v : Value) : (ofValue v).id = v.answerId := by
  cases v with
  | object members =>
    simp only [ofValue, requestId?, Value.answerId, Value.get?]
    cases (Keyed.get? "id" members).filter Value.isScalar with
    | none => rfl
    | some id =>
      cases Keyed.get? "method" members with
      | none => rfl
      | some method => cases method <;> rfl
  | _ => rfl

namespace Hub

theorem id_answer (p : Progress) (publisher : Option String) (item : Envelope) :
    (answer p publisher item).1.id = item.id := by
  rw [answer_eq]
  cases p.hub.judge publisher item <;> rfl

/-! ## Batches -/

/-- The response to an item of a payload, after the items before it. -/
def answerTo (h : Hub) (session : Nat) (earlier : List Value) (item : Value) : Response :=
  let p := (answerAll { hub := h } (h.publisherOf session) (earlier.map .ofValue)).2
  (answer p (h.publisherOf session) (.ofValue item)).1

/-- The response at a place answers the item at that place. -/
theorem getElem?_answerAll (p : Progress) (publisher : Option String) (items : List Envelope)
    (i : Nat) :
    (answerAll p publisher items).1[i]? = items[i]?.map fun item =>
      (answer (answerAll p publisher (items.take i)).2 publisher item).1 := by
  induction items generalizing p i with
  | nil => rfl
  | cons first rest ih =>
    cases i with
    | zero => rfl
    | succ i => exact ih (answer p publisher first).2 i

/-- The reply to an array with items is the list of their answers. -/
theorem replyTo_batch (h : Hub) (session : Nat) {text : String} {items : List Value}
    (hparse : Value.parse? text = some (.array items)) (hne : items ≠ []) :
    ∃ responses, h.replyTo session text = .batch responses ∧ responses.length = items.length ∧
      ∀ i item, items[i]? = some item →
        responses[i]? = some (h.answerTo session (items.take i) item) := by
  refine ⟨_, congrArg Prod.fst (h.reply_batch (h.publisherOf session) hparse hne), ?_, ?_⟩
  · rw [length_answerAll, List.length_map]
  · intro i item hitem
    rw [getElem?_answerAll, List.getElem?_map, hitem, ← List.map_take]
    rfl

/-- What is neither object nor batch is answered by an error under the id null. -/
theorem replyTo_invalid (h : Hub) (session : Nat) {text : String} {v : Value}
    (hparse : Value.parse? text = some v) (hv : v.isScalar = true ∨ v = .array []) :
    h.replyTo session text = .single ⟨.null, .error .invalidRequest⟩ := by
  have hdecode : Payload.decode text = .error .invalidRequest := by
    unfold Payload.decode
    rw [hparse]
    rcases hv with hscalar | rfl
    · cases v with
      | array items => cases hscalar
      | object members => cases hscalar
      | _ => rfl
    · rfl
  unfold replyTo reply
  rw [hdecode]

theorem replyTo_unparsed (h : Hub) (session : Nat) {text : String}
    (hparse : Value.parse? text = none) :
    h.replyTo session text = .single ⟨.null, .error .parseError⟩ := by
  unfold replyTo reply Payload.decode
  rw [hparse]

/-! ## The place of the reply -/

/-- A reply reaches any session there is, closed or not. -/
theorem reaches_reply (h : Hub) (session : Nat) (r : Reply) :
    h.reaches ⟨session, .reply r⟩ = h.known session := by
  unfold reaches known
  cases h.session? session <;> rfl

namespace Regular

variable {h : Hub} (hr : h.Regular)
include hr

/-- What a payload makes was not live before. -/
theorem made_not_live {a : Action} {s t : Subscription} (hs : s ∈ h.made a)
    (ht : t ∈ h.subscriptions.live) : s.id ≠ t.id := by
  have hnew := ((hr.live_step a).2.1 s hs).1
  have hold := hr.coherent.id_lt t ht
  omega

/-- A payload hands over notifications of changes, then the reply, and then the first notifications
of the subscriptions it makes. -/
theorem handed_payload {session : Nat} (hknown : h.known session = true) (text : String) :
    ∃ changes firsts,
      h.handed (.payload session text) =
        changes ++ ⟨session, .reply (h.replyTo session text)⟩ :: firsts ∧
      (∀ p ∈ changes, ∃ s ∈ h.subscriptions.live, s.session = p.session ∧
        ∃ aggregate, p.message ∈ s.onChange h.schedule aggregate) ∧
      ∀ p ∈ firsts, p.session = session ∧
        ∃ s ∈ h.made (.payload session text), ∃ aggregate, p.message = s.first aggregate := by
  let p := h.progressOf session text
  let after := (h.process session text).2
  have hstill : after.known session = true := by
    rw [known_eq, hr.roster_process, ← known_eq, hknown]
  have hposts := (activateAll_eq (fun _ ha => hr.aggregate?_pending session text ha) session).2
  refine ⟨p.posts.filter after.reaches, (p.hub.activateAll session p.pending).1.filter after.reaches,
    ?_, fun q hq => ?_, fun q hq => ?_⟩
  · show (h.process session text).1.filter after.reaches = _
    rw [process_eq, List.filter_append, List.filter_cons, reaches_reply, hstill]
    rfl
  · obtain ⟨s, hlive, hsession, -, hchange⟩ :=
      (hr.confined session text).posts q (List.mem_filter.1 hq).1
    exact ⟨s, hlive, hsession, hchange⟩
  · have hq := (List.mem_filter.1 hq).1
    rw [hposts] at hq
    obtain ⟨a, ha, rfl⟩ := List.mem_map.1 hq
    refine ⟨rfl, a.subscription session, ?_, _, rfl⟩
    exact List.mem_reverse.2 (List.mem_map_of_mem ha)

/-- All that a payload hands over but its reply are notifications. -/
theorem filter_handed_payload {session : Nat} (hknown : h.known session = true) (text : String) :
    (h.handed (.payload session text)).filter (·.message.noticeKind?.isNone) =
      [⟨session, .reply (h.replyTo session text)⟩] := by
  obtain ⟨changes, firsts, hhanded, hchanges, hfirsts⟩ := hr.handed_payload hknown text
  have hbefore : changes.filter (·.message.noticeKind?.isNone) = [] := by
    rw [List.filter_eq_nil_iff]
    intro p hp
    obtain ⟨s, -, -, aggregate, hm⟩ := hchanges p hp
    rw [(Subscription.suits_onChange hm).notifies.1]
    exact Bool.false_ne_true
  have hafter : firsts.filter (·.message.noticeKind?.isNone) = [] := by
    rw [List.filter_eq_nil_iff]
    intro p hp
    obtain ⟨-, s, -, aggregate, hm⟩ := hfirsts p hp
    rw [hm, (Subscription.suits_first s aggregate).notifies.1]
    exact Bool.false_ne_true
  rw [hhanded, List.filter_append, hbefore, List.filter_cons, hafter]
  rfl

/-- The mailbox of a session takes in what a payload hands over for it, in order. -/
theorem mailbox_payload (session : Nat) (text : String) (id : Nat) :
    ((h.step (.payload session text)).session? id).map (·.mailbox) =
      (h.session? id).map fun s =>
        (((h.handed (.payload session text)).filter (·.session = id)).map (·.message)).foldl
          (fun b m => (b.deliver m).2) s.mailbox :=
  mailbox_step_of_same (hr.session?_process session text id)

end Regular

/-! ## Top theorem -/

/-- **A payload is answered by one reply**, which its sender is handed behind all notifications of
changes and before those of the subscriptions that the payload makes. Text that is no payload gets
an error under the id null, an object one response, and a batch a response for each item, in order.
A response has either a result or an error, and the id of its item. -/
theorem replies_once (registry : Registry) (policy : Policy) (schedule : SchedulePolicy)
    (capacity : Nat) (commits : Option CommitQueue) (l : List Action) (session : Nat)
    (text : String)
    (hknown : ((create registry policy schedule capacity commits).run l).known session = true) :
    let h := (create registry policy schedule capacity commits).run l
    let a := Action.payload session text
    let reply := h.replyTo session text
    (∃ changes firsts, h.handed a = changes ++ ⟨session, .reply reply⟩ :: firsts ∧
      (∀ p ∈ changes, ∃ s ∈ h.subscriptions.live, s.session = p.session ∧
        ∃ aggregate, p.message ∈ s.onChange h.schedule aggregate) ∧
      (∀ p ∈ firsts, p.session = session ∧
        ∃ s ∈ h.made a, ∃ aggregate, p.message = s.first aggregate) ∧
      ∀ p ∈ changes, ∀ s ∈ h.made a, p.message.mentions s.id = false) ∧
    (h.handed a).filter (·.message.noticeKind?.isNone) = [⟨session, .reply reply⟩] ∧
    ((h.step a).session? session).map (·.mailbox) = (h.session? session).map (fun s =>
      (((h.handed a).filter (·.session = session)).map (·.message)).foldl
        (fun b m => (b.deliver m).2) s.mailbox) ∧
    (Value.parse? text = none →
      reply = .single ⟨.null, .error .parseError⟩ ∧ (Message.reply reply).render =
        "\x7b\"jsonrpc\":\"2.0\",\"error\":\x7b\"code\":-32700,\"message\":\"parse error\"\x7d," ++
          "\"id\":null\x7d") ∧
    (∀ v, Value.parse? text = some v → v.isScalar = true ∨ v = .array [] →
      reply = .single ⟨.null, .error .invalidRequest⟩ ∧ (Message.reply reply).render =
        "\x7b\"jsonrpc\":\"2.0\",\"error\":\x7b\"code\":-32600,\"message\":\"invalid request\"" ++
          "\x7d,\"id\":null\x7d") ∧
    (∀ members, Value.parse? text = some (.object members) →
      reply = .single (h.answerTo session [] (.object members))) ∧
    (∀ items, Value.parse? text = some (.array items) → items ≠ [] →
      ∃ responses, reply = .batch responses ∧ responses.length = items.length ∧
        (∀ i item, items[i]? = some item →
          responses[i]? = some (h.answerTo session (items.take i) item)) ∧
        (Message.reply reply).render =
          "[" ++ ",".intercalate (responses.map (·.toJson.render)) ++ "]") ∧
    (∀ earlier item, (h.answerTo session earlier item).id = item.answerId) ∧
    ∀ r ∈ reply.responses,
      r.toJson = .object [("jsonrpc", .string "2.0"), r.member, ("id", r.id)] ∧
      ((r.toJson.get? "result").isSome = !(r.toJson.get? "error").isSome) ∧
      r.toJson.render = "\x7b\"jsonrpc\":\"2.0\",\"" ++ r.member.1 ++ "\":" ++
        r.member.2.render ++ ",\"id\":" ++ r.id.render ++ "\x7d" := by
  intro h a reply
  have hr : h.Regular := (regular_create registry policy schedule capacity commits).run l
  obtain ⟨changes, firsts, hhanded, hchanges, hfirsts⟩ := hr.handed_payload hknown text
  have hquiet : ∀ p ∈ changes, ∀ s ∈ h.made a, p.message.mentions s.id = false := by
    intro p hp s hs
    obtain ⟨t, ht, -, aggregate, hm⟩ := hchanges p hp
    have hsuits := Subscription.suits_onChange hm
    simp [Message.mentions, hsuits.notifies.2, hr.made_not_live hs ht]
  refine ⟨⟨changes, firsts, hhanded, hchanges, hfirsts, hquiet⟩,
    hr.filter_handed_payload hknown text, hr.mailbox_payload session text session,
    fun hparse => ?_, fun v hparse hv => ?_, fun members hparse => ?_, fun items hparse hne => ?_,
    fun earlier item => ?_, fun r _ => ⟨r.toJson_eq.1, r.toJson_eq.2, r.render_toJson⟩⟩
  · have hreply : reply = .single ⟨.null, .error .parseError⟩ := h.replyTo_unparsed session hparse
    refine ⟨hreply, ?_⟩
    rw [hreply]
    decide +kernel
  · have hreply : reply = .single ⟨.null, .error .invalidRequest⟩ :=
      h.replyTo_invalid session hparse hv
    refine ⟨hreply, ?_⟩
    rw [hreply]
    decide +kernel
  · exact congrArg Prod.fst (h.reply_single (h.publisherOf session) hparse (by simp))
  · obtain ⟨responses, hreply, hlength, hplaces⟩ := h.replyTo_batch session hparse hne
    have hrender : (Message.reply (.batch responses)).render =
        "[" ++ ",".intercalate ((responses.map Response.toJson).map Value.render) ++ "]" :=
      Value.render_array _
    refine ⟨responses, hreply, hlength, hplaces, ?_⟩
    show (Message.reply (h.replyTo session text)).render = _
    rw [hreply, hrender, List.map_map]
    rfl
  · exact (id_answer ..).trans (Envelope.id_ofValue item)

/-- A batch of a number and of an object that asks for nothing. -/
def oddText : String := "[7,\x7b\"id\":\"a\"\x7d]"

theorem parse_oddText :
    Value.parse? oddText = some (.array [.int 7, .object [("id", .string "a")]]) := by cbv

/-- Both items are answered, the number under the id null and the object under its own. -/
theorem replies_once_odd :
    let h := watchHub.run [.openSession none]
    h.known 1 = true ∧
      (h.handed (.payload 1 oddText)).filter (·.message.noticeKind?.isNone) =
        [⟨1, .reply (h.replyTo 1 oddText)⟩] ∧
      ∃ responses, h.replyTo 1 oddText = .batch responses ∧
        responses.map (·.id) = [.null, .string "a"] := by
  intro h
  have hknown : h.known 1 = true := by decide +kernel
  obtain ⟨-, hone, -, -, -, -, hbatch, hid, -⟩ :=
    replies_once watchRegistry {} .updateDriven 8 none [.openSession none] 1 oddText hknown
  obtain ⟨responses, hreply, hlength, hplaces, -⟩ := hbatch _ parse_oddText nofun
  refine ⟨hknown, hone, responses, hreply, ?_⟩
  have hfirst := hplaces 0 _ rfl
  have hsecond := hplaces 1 _ rfl
  match responses, hlength with
  | [first, second], _ =>
    rw [List.getElem?_cons_zero, Option.some.injEq] at hfirst
    rw [List.getElem?_cons_succ, List.getElem?_cons_zero, Option.some.injEq] at hsecond
    rw [List.map_cons, List.map_singleton, hfirst, hsecond, hid, hid]
    rfl

end Hub

end PriceFeed
