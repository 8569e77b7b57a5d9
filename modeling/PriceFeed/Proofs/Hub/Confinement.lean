import PriceFeed.Proofs.Hub.Changes
import PriceFeed.Proofs.Hub.Feed

/-!
# What a payload can reach

Whatever a session sends, it touches only the books of instruments that its publisher may quote, and
there only its own quote. Nobody else's subscriptions or sessions change, and the messages that
others receive tell of those instruments alone.

    a payload is answered with `Confined` effects                        (Regular.confined)
    its changes are to accounts which the publisher may quote            (Regular.mayQuote_changedIn)

## Top theorem

    a payload reaches what its publisher may quote, and nothing else          (payload_confined)
-/

namespace PriceFeed

/-- The publisher may quote the registered instrument of an account. -/
def Registry.MayQuote (r : Registry) (publisher : Option String) (account : String) : Prop :=
  ∃ i ∈ r.instruments, i.account = account ∧ ∃ p, publisher = some p ∧ i.isPublisher p = true

/-! ## Boards -/

namespace Board

variable {b b' : Board} {r : Registry} {account : String} {publisher : Option String}
  {quote : Quote} {result : Submitted}

theorem Covers.mayQuote (hc : b.Covers r)
    (h : b.submit account publisher quote = .ok (result, b')) : r.MayQuote publisher account := by
  obtain ⟨book, p, hbook, rfl, hp, -⟩ := submit_eq_ok h
  obtain ⟨hmem, rfl⟩ := hc.book?_eq_some_iff.1 hbook
  exact ⟨book.instrument, hc ▸ List.mem_map_of_mem hmem, rfl, p, rfl, hp⟩

/-- A submission leaves the books of all other accounts. -/
theorem book?_submit_of_ne (h : b.submit account publisher quote = .ok (result, b')) {a : String}
    (ha : a ≠ account) : b'.book? a = b.book? a := by
  obtain ⟨book, p, hbook, -, -, -, rfl, -⟩ := submit_eq_ok h
  have hacc := (Book.account_submit book b.policy p quote).trans (account_of_book? hbook)
  rw [book?_replace hbook hacc, if_neg ha]

/-- A submission leaves the quotes of all other publishers. -/
theorem quote?_submit_of_ne (h : b.submit account publisher quote = .ok (result, b')) (a : String)
    {q : String} (hq : publisher ≠ some q) : b'.quote? a q = b.quote? a q := by
  by_cases ha : a = account
  · obtain ⟨book, p, hbook, rfl, -, -, rfl, -⟩ := submit_eq_ok h
    have hacc := (Book.account_submit book b.policy p quote).trans (account_of_book? hbook)
    have hne : q ≠ p := fun he => hq (he ▸ rfl)
    subst ha
    simp only [quote?, book?_replace hbook hacc, if_true, hbook, Option.bind_some,
      Book.quotes_submit]
    exact Keyed.get?_put_of_ne hne ..
  · rw [quote?, book?_submit_of_ne h ha, quote?]

/-- Boards over the same instruments have the same books if each account has the same one. -/
theorem Covers.books_eq (hc : b.Covers r) (hc' : b'.Covers r)
    (h : ∀ account, b'.book? account = b.book? account) : b'.books = b.books := by
  have hlist : ∀ {c : Board}, c.Covers r →
      c.books = r.instruments.filterMap fun i => c.book? i.account := by
    intro c hcov
    rw [← hcov, List.filterMap_map]
    refine (List.filterMap_some.symm.trans (List.filterMap_congr fun book hmem => ?_))
    exact (hcov.book?_eq_some_iff.2 ⟨hmem, rfl⟩).symm
  rw [hlist hc, hlist hc', List.filterMap_congr fun i _ => h i.account]

end Board

namespace Hub

/-! ## Items -/

/-- Changes are told to live subscriptions to the account, as they are due. -/
theorem mem_changePosts {h : Hub} (hc : h.subscriptions.Coherent) {account : String}
    {aggregate : Aggregate} {q : Post} (hq : q ∈ h.changePosts account aggregate) :
    ∃ s ∈ h.subscriptions.live, s.account = account ∧ q.session = s.session ∧
      q.message ∈ s.onChange h.schedule aggregate := by
  have hlive : ∀ {channel : Channel} {s : Subscription},
      s ∈ h.subscriptions.subscribersOf (account, channel) →
        s ∈ h.subscriptions.live ∧ s.account = account ∧ s.channel = channel := by
    intro channel s hs
    rw [hc.subscribersOf_eq] at hs
    obtain ⟨hmem, htarget⟩ := List.mem_filter.1 (List.mem_mergeSort.1 hs)
    exact ⟨hmem, Prod.mk.inj (of_decide_eq_true htarget)⟩
  unfold changePosts at hq
  rcases List.mem_append.1 hq with hq | hq
  · obtain ⟨s, hs, rfl⟩ := List.mem_map.1 hq
    obtain ⟨hmem, hacc, hchannel⟩ := hlive hs
    exact ⟨s, hmem, hacc, rfl, by simp [Subscription.onChange, hchannel]⟩
  · split at hq
    · next hschedule =>
      obtain ⟨s, hs, rfl⟩ := List.mem_map.1 hq
      obtain ⟨hmem, hacc, hchannel⟩ := hlive hs
      exact ⟨s, hmem, hacc, rfl, by simp [Subscription.onChange, hchannel, hschedule]⟩
    · cases hq

/-- A message that tells a session of a change to an instrument which the publisher may quote. -/
def TellsOf (h : Hub) (publisher : Option String) (session : Nat) (m : Message) : Prop :=
  ∃ s ∈ h.subscriptions.live, s.session = session ∧ h.registry.MayQuote publisher s.account ∧
    ∃ aggregate, m ∈ s.onChange h.schedule aggregate

/-- What answering items for a publisher has left of the hub `h`. -/
structure Confined (h : Hub) (publisher : Option String) (p : Progress) : Prop where
  books : ∀ account, ¬ h.registry.MayQuote publisher account →
    p.hub.board.book? account = h.board.book? account
  quotes : ∀ account q, publisher ≠ some q →
    p.hub.board.quote? account q = h.board.quote? account q
  posts : ∀ q ∈ p.posts, h.TellsOf publisher q.session q.message

namespace Confined

variable {h : Hub} {publisher : Option String} {p p' : Progress}

theorem init (h : Hub) (publisher : Option String) : Confined h publisher { hub := h } :=
  ⟨fun _ _ => rfl, fun _ _ _ => rfl, nofun⟩

theorem congr (c : Confined h publisher p) (hboard : p'.hub.board = p.hub.board)
    (hposts : p'.posts = p.posts) : Confined h publisher p' where
  books := hboard ▸ c.books
  quotes := hboard ▸ c.quotes
  posts := hposts ▸ c.posts

/-- One step of answering. -/
theorem answered (f : Follows h p) (hc : h.subscriptions.Coherent) (c : Confined h publisher p)
    {item : Envelope} {r : Response} (ha : Answered publisher p item r p') :
    Confined h publisher p' := by
  cases ha with
  | refused served => exact c.congr (board_countAll ..) rfl
  | listed hmethod => exact c.congr (board_countAll ..) rfl
  | subscribed channel hmethod hparams hlookup => exact c.congr (board_countAll ..) rfl
  | @updated request params i result board hmethod hparams hlookup hready hsubmit =>
    have hmay : h.registry.MayQuote publisher i.account := f.covers.mayQuote hsubmit
    refine ⟨fun account hnot => ?_, fun account q hq => ?_, fun q hq => ?_⟩
    · have hne : account ≠ i.account := fun he => hnot (he ▸ hmay)
      rw [board_countAll, ← c.books account hnot]
      exact Board.book?_submit_of_ne hsubmit hne
    · rw [board_countAll, ← c.quotes account q hq]
      exact Board.quote?_submit_of_ne hsubmit account hq
    · rcases List.mem_append.1 hq with hq | hq
      · exact c.posts q hq
      · unfold postsAfter at hq
        split at hq
        · obtain ⟨s, hmem, hacc, hsession, hm⟩ := mem_changePosts (f.coherent hc) hq
          rw [f.live] at hmem
          rw [f.schedule] at hm
          exact ⟨s, hmem, hsession.symm, hacc ▸ hmay, _, hm⟩
        · cases hq

theorem answerAll (f : Follows h p) (hc : h.subscriptions.Coherent) (c : Confined h publisher p)
    (items : List Envelope) : Confined h publisher (Hub.answerAll p publisher items).2 := by
  induction items generalizing p with
  | nil => exact c
  | cons item rest ih =>
    exact ih (f.answer publisher item) (c.answered f hc (Hub.answered p publisher item))

end Confined

/-- Items change only aggregates of instruments which the publisher may quote. -/
theorem mayQuote_changesOf {h : Hub} {p : Progress} (f : Follows h p) (publisher : Option String)
    (items : List Envelope) :
    ∀ c ∈ changesOf p publisher items, h.registry.MayQuote publisher c.account := by
  induction items generalizing p with
  | nil => nofun
  | cons item rest ih =>
    intro c hmem
    rcases List.mem_append.1 hmem with hmem | hmem
    · rcases answer_cases p publisher item with
        ⟨hboard, -⟩ | ⟨account, quote, result, -, hsubmit, -⟩
      · rw [hboard, Board.changes_self] at hmem
        cases hmem
      · rw [f.covers.changes_submit hsubmit] at hmem
        split at hmem
        · rw [List.mem_singleton.1 hmem]
          exact f.covers.mayQuote hsubmit
        · cases hmem
    · exact ih (f.answer publisher item) c hmem

/-! ## Payloads -/

theorem session?_eq_of_roster {h h' : Hub} (hroster : h'.roster = h.roster) {id : Nat}
    (hmailbox : (h'.session? id).map (·.mailbox) = (h.session? id).map (·.mailbox)) :
    h'.session? id = h.session? id := by
  have hentry := h'.find?_roster id
  rw [hroster, find?_roster] at hentry
  cases hs : h.session? id with
  | none =>
    rw [hs] at hmailbox
    exact Option.map_eq_none_iff.1 hmailbox
  | some s =>
    rw [hs] at hmailbox hentry
    obtain ⟨s', hs', hbox⟩ := Option.map_eq_some_iff.1 hmailbox
    rw [hs', Option.map_some, Option.map_some, Option.some.injEq, Prod.mk.injEq,
      Prod.mk.injEq] at hentry
    obtain ⟨hid, hpublisher, hlisted⟩ := hentry
    rw [hs']
    cases s
    cases s'
    simp only at hid hpublisher hlisted hbox
    rw [hid, hpublisher, hlisted, hbox]

namespace Regular

variable {h : Hub} (hr : h.Regular) (session : Nat) (text : String)
include hr

/-- Answering a payload is confined to what its publisher may quote. -/
theorem confined : Confined h (h.publisherOf session) (h.progressOf session text) := by
  have hall := (Confined.init h (h.publisherOf session)).answerAll (Follows.init hr.covers)
    hr.coherent (Payload.itemsOf text)
  unfold progressOf
  rcases h.reply_cases (h.publisherOf session) text with he | ⟨-, e, he⟩
  · rw [(Prod.mk.inj he).2]
    exact hall
  · rw [he]
    exact (Confined.init h (h.publisherOf session)).congr rfl rfl

theorem mayQuote_changedIn :
    ∀ c ∈ h.changedIn session text, h.registry.MayQuote (h.publisherOf session) c.account :=
  mayQuote_changesOf (Follows.init hr.covers) _ _

/-- Other sessions are told of instruments which the publisher may quote. -/
theorem tellsOf_process {q : Post} (hq : q ∈ (h.process session text).1)
    (hother : q.session ≠ session) :
    h.TellsOf (h.publisherOf session) q.session q.message := by
  have hfirsts := (activateAll_eq (fun _ ha => hr.aggregate?_pending session text ha) session).2
  rw [process_eq, hfirsts, List.mem_append, List.mem_cons] at hq
  rcases hq with hq | rfl | hq
  · exact (hr.confined session text).posts q hq
  · exact absurd rfl hother
  · obtain ⟨a, -, rfl⟩ := List.mem_map.1 hq
    exact absurd rfl hother

/-- What a payload puts into the mailbox of another session. -/
theorem mailbox_handlePayload {other : Nat} (hother : other ≠ session) :
    ∃ messages : List Message, ((h.handlePayload session text).session? other).map (·.mailbox) =
        ((h.session? other).map (·.mailbox)).map
          (fun b => messages.foldl (fun b m => (b.deliver m).2) b) ∧
      ∀ m ∈ messages, h.TellsOf (h.publisherOf session) other m := by
  let issued := h.process session text
  refine ⟨issued.2.handedTo other issued.1, ?_, fun m hm => ?_⟩
  · rw [← hr.session?_process session text]
    exact mailbox_deliverAll ..
  · obtain ⟨q, hq, rfl⟩ := List.mem_map.1 hm
    obtain ⟨hq, hsession⟩ := List.mem_filter.1 hq
    have hsession : q.session = other := of_decide_eq_true hsession
    exact hsession ▸ hr.tellsOf_process session text (List.mem_filter.1 hq).1 (hsession ▸ hother)

/-- A payload leaves the subscriptions of other sessions. -/
theorem live_handlePayload {other : Nat} (hother : other ≠ session) :
    (h.handlePayload session text).subscriptions.live.filter (·.session = other) =
      h.subscriptions.live.filter (·.session = other) := by
  have hlike := like_deliverAll (h.process session text).2 (h.process session text).1
  have hsubs : (h.handlePayload session text).subscriptions =
      (h.process session text).2.subscriptions := hlike.subscriptions
  rw [hsubs, (hr.subscriptions_process session text).2.1, List.filter_append]
  refine (congrArg (· ++ _) ?_).trans (List.nil_append _)
  rw [List.filter_eq_nil_iff]
  intro s hs hsession
  obtain ⟨a, -, rfl⟩ := List.mem_map.1 (List.mem_reverse.1 hs)
  exact hother (of_decide_eq_true hsession).symm

end Regular

/-- **A payload reaches what its publisher may quote, and nothing else**, in every run, for every
session and whatever the payload says. -/
theorem payload_confined (registry : Registry) (policy : Policy) (schedule : SchedulePolicy)
    (capacity : Nat) (commits : Option CommitQueue) (l : List Action) (session : Nat)
    (text : String) :
    let h := (create registry policy schedule capacity commits).run l
    let after := h.handlePayload session text
    let publisher := h.publisherOf session
    (∀ account, ¬ registry.MayQuote publisher account →
      after.board.book? account = h.board.book? account) ∧
    (∀ account q, publisher ≠ some q →
      after.board.quote? account q = h.board.quote? account q) ∧
    (∃ changes, after.commits = h.commits.map (·.enqueueAll changes) ∧
      ∀ c ∈ changes, registry.MayQuote publisher c.account) ∧
    after.roster = h.roster ∧
    (∀ other, other ≠ session →
      after.subscriptions.live.filter (·.session = other) =
          h.subscriptions.live.filter (·.session = other) ∧
        after.subscriptions.sessionIds other = h.subscriptions.sessionIds other ∧
        ∃ messages : List Message, (after.session? other).map (·.mailbox) =
            ((h.session? other).map (·.mailbox)).map
              (fun b => messages.foldl (fun b m => (b.deliver m).2) b) ∧
          ∀ m ∈ messages, ∃ s ∈ h.subscriptions.live, s.session = other ∧
            registry.MayQuote publisher s.account ∧
            ∃ aggregate, m ∈ s.onChange h.schedule aggregate) ∧
    ((∀ account, ¬ registry.MayQuote publisher account) →
      after.board.books = h.board.books ∧ after.commits = h.commits ∧
        ∀ other, other ≠ session → after.session? other = h.session? other) := by
  intro h after publisher
  have hstart : (create registry policy schedule capacity commits).Regular := regular_create ..
  have hr : h.Regular := hstart.run l
  have hregistry : h.registry = registry := hstart.registry_run l
  have hafter : after.Regular := hr.step (.payload session text)
  have hlike : (h.process session text).2.Like after := like_deliverAll ..
  have hboard : after.board = (h.progressOf session text).hub.board :=
    hlike.board.trans (hr.board_process session text)
  have hconfined := hr.confined session text
  have hbooks : ∀ account, ¬ registry.MayQuote publisher account →
      after.board.book? account = h.board.book? account := by
    rw [hboard, ← hregistry]
    exact hconfined.books
  have hcommits : after.commits = h.commits.map (·.enqueueAll (h.changedIn session text)) :=
    hlike.commits.trans (hr.commits_process session text)
  have hchanges : ∀ c ∈ h.changedIn session text, registry.MayQuote publisher c.account :=
    hregistry ▸ hr.mayQuote_changedIn session text
  have hroster : after.roster = h.roster := hlike.roster.trans (hr.roster_process session text)
  have hmailbox := fun other (hother : other ≠ session) =>
    hr.mailbox_handlePayload session text hother
  simp only [TellsOf, hregistry] at hmailbox
  refine ⟨hbooks, ?_, ⟨_, hcommits, hchanges⟩, hroster, fun other hother => ?_, fun hnone => ?_⟩
  · rw [hboard]
    exact hconfined.quotes
  · have hlive := hr.live_handlePayload session text hother
    refine ⟨hlive, ?_, hmailbox other hother⟩
    rw [hafter.coherent.sessionIds_eq, hlive, hr.coherent.sessionIds_eq]
  · have hnil : h.changedIn session text = [] :=
      List.eq_nil_iff_forall_not_mem.2 fun c hc => hnone _ (hchanges c hc)
    refine ⟨?_, ?_, fun other hother => session?_eq_of_roster hroster ?_⟩
    · have hcovers : after.board.Covers h.registry :=
        hr.registry_step (.payload session text) ▸ hafter.covers
      exact hr.covers.books_eq hcovers fun account => hbooks account (hnone account)
    · rw [hcommits, hnil]
      exact congrFun Option.map_id _
    · obtain ⟨messages, hbox, htells⟩ := hmailbox other hother
      have hquiet : messages = [] := by
        refine List.eq_nil_iff_forall_not_mem.2 fun m hm => ?_
        obtain ⟨s, -, -, hmay, -⟩ := htells m hm
        exact hnone _ hmay
      rw [hbox, hquiet]
      exact congrFun Option.map_id _

/-- A session without a publisher hands in a quote, beside a publisher that watches the price. -/
theorem payload_confined_stranger :
    let h := (create watchRegistry {} .updateDriven 8 none).run
      [.openSession (some "ann"), .openSession none, .payload 1 watchText]
    let after := h.handlePayload 2 quoteText
    (∀ account, ¬ watchRegistry.MayQuote (h.publisherOf 2) account) ∧
      after.board.books = h.board.books ∧ after.session? 1 = h.session? 1 := by
  obtain ⟨-, -, -, -, -, hstranger⟩ := payload_confined watchRegistry {} .updateDriven 8 none
    [.openSession (some "ann"), .openSession none, .payload 1 watchText] 2 quoteText
  dsimp only
  have hnobody : ((create watchRegistry {} .updateDriven 8 none).run
      [.openSession (some "ann"), .openSession none, .payload 1 watchText]).publisherOf 2 =
        none := by decide +kernel
  rw [hnobody] at hstranger ⊢
  have hnone : ∀ account, ¬ watchRegistry.MayQuote none account := by
    rintro account ⟨_, -, -, p, hp, -⟩
    cases hp
  obtain ⟨hbooks, -, hothers⟩ := hstranger hnone
  exact ⟨hnone, hbooks, hothers 1 (by decide)⟩

end Hub

end PriceFeed
