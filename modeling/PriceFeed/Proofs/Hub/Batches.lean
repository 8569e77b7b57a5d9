import Mathlib
import PriceFeed.Proofs.Hub.Feed

/-!
# Batches and single payloads

In a batch the subscriptions go live after the last item, and all items share the list of those
that wait. Sent one by one, each goes live before the next item is answered. Responses, books,
subscriptions and commits come out the same: a subscription that waits amounts to one that was
added (`table_subscription`), and no answer depends on which are live.

    if p.Agrees session q, both are answered alike and go on to agree            (Agrees.answer)
    what waits for a reply agrees with the hub in which it is live       (Regular.agrees_payload)

## Top theorem

    a batch does what its items do one by one                             (batch_as_one_by_one)
-/

namespace PriceFeed

open Json

namespace Hub

/-! ## One by one -/

/-- The hub after payloads of a session, one after another. -/
def handlePayloads (h : Hub) (session : Nat) (texts : List String) : Hub :=
  texts.foldl (fun h text => h.handlePayload session text) h

/-- The replies to payloads of a session, one after another. -/
def repliesTo (h : Hub) (session : Nat) : List String → List Reply
  | [] => []
  | text :: rest => h.replyTo session text :: (h.handlePayload session text).repliesTo session rest

/-! ## Subscriptions that wait -/

namespace Progress

/-- The subscription table once all that waits has gone live. -/
def table (p : Progress) (session : Nat) : Subscriptions :=
  (p.pending.map (·.subscription session)).foldl Subscriptions.activate p.hub.subscriptions

/-- What a verdict does, counts apart. -/
def settle (p : Progress) : Except RpcError Grant → Progress
  | .ok grant => p.enact grant
  | .error _ => p

end Progress

theorem activateAll_reserve (t : Subscriptions) (l : List Subscription) :
    l.foldl Subscriptions.activate t.reserve.2 =
      (l.foldl Subscriptions.activate t).reserve.2 := by
  induction l generalizing t with
  | nil => rfl
  | cons s rest ih => exact ih (t.activate s)

theorem nextId_activateAll (t : Subscriptions) (l : List Subscription) :
    (l.foldl Subscriptions.activate t).nextId = t.nextId := by
  induction l generalizing t with
  | nil => rfl
  | cons s rest ih => exact ih (t.activate s)

theorem Progress.nextId_table (p : Progress) (session : Nat) :
    (p.table session).nextId = p.hub.subscriptions.nextId := nextId_activateAll ..

/-- A subscription that waits amounts to one that was added. -/
theorem Progress.table_subscription (p : Progress) (session : Nat) (channel : Channel)
    (account : String) :
    (p.enact (.subscription channel account)).table session =
      ((p.table session).add session account channel).2 := by
  have hwaiting : (p.enact (.subscription channel account)).table session =
      ((p.pending.map (·.subscription session)).foldl Subscriptions.activate
        p.hub.subscriptions.reserve.2).activate
          ⟨p.hub.subscriptions.nextId, session, account, channel⟩ := by
    unfold Progress.table
    simp only [Progress.enact, List.map_append, List.foldl_append]
    rfl
  rw [hwaiting, activateAll_reserve, ← p.nextId_table session]
  rfl

theorem Progress.table_enact (p : Progress) (session : Nat) (grant : Grant) :
    (p.enact grant).table session =
      match grant with
      | .subscription channel account => ((p.table session).add session account channel).2
      | _ => p.table session := by
  cases grant with
  | subscription channel account => exact p.table_subscription session channel account
  | products => rfl
  | update account result board => rfl

/-! ## Agreement -/

/-- The two differ in nothing that an answer can depend on, whether subscriptions wait or are
live. -/
structure Progress.Agrees (session : Nat) (p q : Progress) : Prop where
  registry : q.hub.registry = p.hub.registry
  board : q.hub.board = p.hub.board
  commits : q.hub.commits = p.hub.commits
  table : q.table session = p.table session

namespace Progress.Agrees

variable {session : Nat} {p q r : Progress}

theorem refl (p : Progress) : p.Agrees session p := ⟨rfl, rfl, rfl, rfl⟩

theorem symm (a : p.Agrees session q) : q.Agrees session p :=
  ⟨a.registry.symm, a.board.symm, a.commits.symm, a.table.symm⟩

theorem trans (a : p.Agrees session q) (b : q.Agrees session r) : p.Agrees session r :=
  ⟨b.registry.trans a.registry, b.board.trans a.board, b.commits.trans a.commits,
    b.table.trans a.table⟩

theorem like (p : Progress) {hub : Hub} (hl : p.hub.Like hub) :
    p.Agrees session { p with hub } where
  registry := hl.registry
  board := hl.board
  commits := hl.commits
  table := by
    unfold Progress.table
    rw [hl.subscriptions]

theorem nextId (a : p.Agrees session q) :
    q.hub.subscriptions.nextId = p.hub.subscriptions.nextId := by
  rw [← q.nextId_table session, a.table, p.nextId_table]

theorem judge (a : p.Agrees session q) (publisher : Option String) (item : Envelope) :
    q.hub.judge publisher item = p.hub.judge publisher item :=
  judge_congr a.registry a.board a.commits publisher item

theorem enact (a : p.Agrees session q) (grant : Grant) :
    (p.enact grant).Agrees session (q.enact grant) where
  registry := by cases grant <;> exact a.registry
  board := by
    cases grant with
    | update account result board => rfl
    | _ => exact a.board
  commits := by
    cases grant with
    | update account result board =>
      show q.hub.commitsAfter account result = p.hub.commitsAfter account result
      rw [commitsAfter, a.commits, commitsAfter]
    | _ => exact a.commits
  table := by rw [p.table_enact, q.table_enact, a.table]

theorem settle (a : p.Agrees session q) (verdict : Except RpcError Grant) :
    (p.settle verdict).Agrees session (q.settle verdict) := by
  cases verdict with
  | ok grant => exact a.enact grant
  | error e => exact a

end Progress.Agrees

/-- Answering an item does what its verdict does. -/
theorem agrees_settle (session : Nat) (p : Progress) (publisher : Option String)
    (item : Envelope) :
    (p.settle (p.hub.judge publisher item)).Agrees session (answer p publisher item).2 := by
  have hcounted : p.Agrees session
      { p with hub := p.hub.countAll (item.method?.toList.map .requests) } :=
    .like p (like_countMethod p.hub item)
  rw [answer_eq]
  cases p.hub.judge publisher item with
  | ok grant => exact hcounted.enact grant
  | error e => exact hcounted.trans (.like _ (like_count _ rfl))

/-- Progress that agrees is answered alike, and goes on to agree. -/
theorem Progress.Agrees.answer {session : Nat} {p q : Progress} (a : p.Agrees session q)
    (publisher : Option String) (item : Envelope) :
    (answer q publisher item).1 = (answer p publisher item).1 ∧
      (answer p publisher item).2.Agrees session (answer q publisher item).2 := by
  constructor
  · rw [answer_eq, answer_eq, a.judge]
    cases p.hub.judge publisher item with
    | ok grant => simp only [result_congr a.registry a.nextId]
    | error e => rfl
  · have hsettled := a.settle (p.hub.judge publisher item)
    have hq := agrees_settle session q publisher item
    rw [a.judge] at hq
    exact (agrees_settle session p publisher item).symm.trans (hsettled.trans hq)

/-! ## Payloads -/

namespace Regular

variable {h : Hub} (hr : h.Regular)
include hr

/-- What waits for the reply to a payload agrees with the hub in which it has gone live. -/
theorem agrees_payload (session : Nat) (text : String) :
    (h.progressOf session text).Agrees session { hub := h.handlePayload session text } := by
  have hactivated := hr.activated session text
  have hlike := like_deliverAll (h.process session text).2 (h.process session text).1
  exact ⟨hlike.registry.trans hactivated.registry, hlike.board.trans hactivated.board,
    hlike.commits.trans hactivated.commits, hlike.subscriptions.trans hactivated.subscriptions⟩

theorem publisherOf_handlePayload (session : Nat) (text : String) :
    (h.handlePayload session text).publisherOf session = h.publisherOf session := by
  have hlike := like_deliverAll (h.process session text).2 (h.process session text).1
  have hroster : (h.handlePayload session text).roster = h.roster :=
    hlike.roster.trans (hr.roster_process session text)
  rw [publisherOf_eq, hroster, publisherOf_eq]

/-- Payloads of single items go on as the items of a batch do. -/
theorem agrees_payloads {session : Nat} {publisher : Option String}
    (hpublisher : h.publisherOf session = publisher) {p : Progress}
    (ha : p.Agrees session { hub := h }) {items : List Value} {texts : List String}
    (hflat : ∀ v ∈ items, ∀ vs, v ≠ .array vs) (htexts : texts.map Value.parse? = items.map some) :
    h.repliesTo session texts =
        (answerAll p publisher (items.map .ofValue)).1.map .single ∧
      (answerAll p publisher (items.map .ofValue)).2.Agrees session
        { hub := h.handlePayloads session texts } := by
  induction items generalizing h p texts with
  | nil =>
    obtain rfl := List.map_eq_nil_iff.1 htexts
    exact ⟨rfl, ha⟩
  | cons v rest ih =>
    obtain ⟨text, later, rfl, hparse, hlater⟩ := List.map_eq_cons_iff.1 htexts
    have hreply := h.reply_single publisher hparse (hflat v List.mem_cons_self)
    obtain ⟨hresponse, hafter⟩ := ha.answer publisher (.ofValue v)
    have hprogress : h.progressOf session text =
        (Hub.answer { hub := h } publisher (.ofValue v)).2 := by
      rw [progressOf, hpublisher, hreply]
    have hagrees := hr.agrees_payload session text
    rw [hprogress] at hagrees
    have hpublisher' := (hr.publisherOf_handlePayload session text).trans hpublisher
    obtain ⟨hreplies, hend⟩ := ih (hr.step (.payload session text)) hpublisher'
      (hafter.trans hagrees) (fun w hw => hflat w (List.mem_cons_of_mem _ hw)) hlater
    refine ⟨?_, hend⟩
    simp only [repliesTo, List.map_cons, answerAll]
    rw [replyTo, hpublisher, hreply, ← hresponse]
    exact congrArg _ hreplies

end Regular

/-- **A batch does what its items do one by one**: in every run and for every session it is answered
with the same responses, one for each item, and leaves the same books, subscriptions and
commits. -/
theorem batch_as_one_by_one (registry : Registry) (policy : Policy) (schedule : SchedulePolicy)
    (capacity : Nat) (commits : Option CommitQueue) (l : List Action) (session : Nat)
    {items : List Value} (hne : items ≠ []) (hflat : ∀ v ∈ items, ∀ vs, v ≠ .array vs)
    {batch : String} (hbatch : Value.parse? batch = some (.array items))
    {texts : List String} (htexts : texts.map Value.parse? = items.map some) :
    let h := (create registry policy schedule capacity commits).run l
    let together := h.handlePayload session batch
    let apart := h.handlePayloads session texts
    ∃ responses, responses.length = items.length ∧ h.replyTo session batch = .batch responses ∧
      h.repliesTo session texts = responses.map .single ∧
      apart.board = together.board ∧ apart.subscriptions = together.subscriptions ∧
      apart.commits = together.commits := by
  intro h together apart
  have hr : h.Regular := (regular_create registry policy schedule capacity commits).run l
  let p := answerAll { hub := h } (h.publisherOf session) (items.map .ofValue)
  have hreply : h.reply (h.publisherOf session) batch = (.batch p.1, p.2) :=
    h.reply_batch (h.publisherOf session) hbatch hne
  have hprogress : h.progressOf session batch = p.2 := congrArg Prod.snd hreply
  have htogether := hr.agrees_payload session batch
  rw [hprogress] at htogether
  obtain ⟨hreplies, hapart⟩ := hr.agrees_payloads rfl (.refl { hub := h }) hflat htexts
  have hsame := htogether.symm.trans hapart
  have hlength : p.1.length = items.length := by
    rw [length_answerAll, List.length_map]
  exact ⟨p.1, hlength, congrArg Prod.fst hreply, hreplies, hsame.board, hsame.table, hsame.commits⟩

theorem parse_watchText : Value.parse? watchText = some watchItem := by cbv

theorem parse_quoteText : Value.parse? quoteText = some quoteItem := by cbv

/-- A request for the prices of the instrument and a quote for it, as a batch. -/
def pairText : String := "[" ++ watchText ++ "," ++ quoteText ++ "]"

theorem parse_pairText : Value.parse? pairText = some (.array [watchItem, quoteItem]) := by cbv

theorem batch_as_one_by_one_pair :
    let h := (create watchRegistry {} .updateDriven 8 none).run [.openSession (some "ann")]
    let together := h.handlePayload 1 pairText
    let apart := h.handlePayloads 1 [watchText, quoteText]
    (∀ v ∈ [watchItem, quoteItem], ∀ vs, v ≠ .array vs) ∧
      Value.parse? pairText = some (.array [watchItem, quoteItem]) ∧
      [watchText, quoteText].map Value.parse? = [watchItem, quoteItem].map some ∧
      ∃ responses, responses.length = 2 ∧ h.replyTo 1 pairText = .batch responses ∧
        h.repliesTo 1 [watchText, quoteText] = responses.map .single ∧
        apart.board = together.board ∧ apart.subscriptions = together.subscriptions ∧
        apart.commits = together.commits := by
  have hflat : ∀ v ∈ [watchItem, quoteItem], ∀ vs, v ≠ .array vs := by
    simp [watchItem, quoteItem]
  have htexts : [watchText, quoteText].map Value.parse? = [watchItem, quoteItem].map some := by
    rw [List.map_cons, List.map_cons, List.map_nil, parse_watchText, parse_quoteText]
    rfl
  exact ⟨hflat, parse_pairText, htexts, batch_as_one_by_one watchRegistry {} .updateDriven 8 none
    [.openSession (some "ann")] 1 (List.cons_ne_nil _ _) hflat parse_pairText htexts⟩

end Hub

end PriceFeed
