import Mathlib.Data.List.Perm.Basic
import PriceFeed.Proofs.Hub.Fates
import PriceFeed.Proofs.Persistence

/-!
# What the counters show

Every counter shows how often its event has come about in a run. Answering counts calls, failures
and updates, and nothing of what becomes of posts (`Tallied`); delivery counts just that. An action
addresses a notification to each subscriber of what it changes, to each that it makes, and on a tick
to each on the schedule.

    answering counts what its responses tell                               (tallied_answerAll)
    the notifications of an action are those that it addresses      (Regular.perm_addressed)
    a run counts what its answers tell and what becomes of its posts   (Regular.tallied_run)

## Top theorem

    the counters account for a run                                          (counters_account)
-/

namespace PriceFeed

/-- The code that a response fails with. -/
def Response.errorCode? (r : Response) : Option Int :=
  match r.outcome with
  | .ok _ => none
  | .error e => some e.code

def Message.responses : Message → List Response
  | reply r => r.responses
  | price _ _ => []
  | schedule _ => []

/-- An item and its response are an update that was accepted. -/
def isUpdate (answer : Envelope × Response) : Bool :=
  answer.1.method? = some .updatePrice && answer.2.outcome.isOk

/-- The items of the payload that is handled. -/
def Action.items : Action → List Envelope
  | payload _ text => Payload.itemsOf text
  | _ => []

theorem RpcError.code_injective : Function.Injective RpcError.code := by
  intro e e' h
  cases e <;> cases e' <;> first | rfl | cases h

namespace Hub

/-! ## Answering -/

/-- The events counted while items are answered, by the items, the responses to them and the changes
that they make. -/
structure Tallied (l : List Series) (items : List Envelope) (responses : List Response)
    (answers : List (Envelope × Response)) (changes : List Commit) : Prop where
  requests : ∀ m, l.count (.requests m) = items.countP (·.method? = some m)
  errors : ∀ e, l.count (.errors e) = responses.countP (·.errorCode? = some e.code)
  submissions : l.count .submissions = answers.countP isUpdate
  updates : l.count (.updates true) + l.count (.updates false) = l.count .submissions
  changed : l.count (.updates true) = changes.length
  quiet : ∀ s ∈ l, s.ofDelivery = false

namespace Tallied

theorem nil : Tallied [] [] [] [] [] :=
  ⟨fun _ => rfl, fun _ => rfl, rfl, rfl, rfl, nofun⟩

theorem append {l l' : List Series} {items items' : List Envelope}
    {responses responses' : List Response} {answers answers' : List (Envelope × Response)}
    {changes changes' : List Commit} (h : Tallied l items responses answers changes)
    (h' : Tallied l' items' responses' answers' changes') :
    Tallied (l ++ l') (items ++ items') (responses ++ responses') (answers ++ answers')
      (changes ++ changes') where
  requests m := by rw [List.count_append, List.countP_append, h.requests, h'.requests]
  errors e := by rw [List.count_append, List.countP_append, h.errors, h'.errors]
  submissions := by rw [List.count_append, List.countP_append, h.submissions, h'.submissions]
  updates := by
    have := h.updates
    have := h'.updates
    simp only [List.count_append]
    omega
  changed := by rw [List.count_append, List.length_append, h.changed, h'.changed]
  quiet s hs := (List.mem_append.1 hs).elim (h.quiet s) (h'.quiet s)

/-- The served method of an item is counted. -/
theorem method (item : Envelope) :
    Tallied (item.method?.toList.map .requests) [item] [] [] [] := by
  cases hm : item.method? with
  | none => exact ⟨fun m => by simp [hm], fun _ => rfl, rfl, rfl, rfl, nofun⟩
  | some method =>
    exact ⟨fun m => by simp [hm, List.count_singleton], fun _ => rfl, rfl, rfl, rfl,
      by simp [Series.ofDelivery]⟩

/-- So is a failure. -/
theorem failure (id : Json.Value) (e : RpcError) :
    Tallied [.errors e] [] [⟨id, .error e⟩] [] [] := by
  refine ⟨fun _ => rfl, fun e' => ?_, rfl, rfl, rfl, by simp [Series.ofDelivery]⟩
  simp [List.count_singleton, List.countP_singleton, Response.errorCode?,
    RpcError.code_injective.eq_iff]

/-- A failure is no update, and neither is a success of another method. -/
theorem answer {item : Envelope} {r : Response} (h : isUpdate (item, r) = false) :
    Tallied [] [] [] [(item, r)] [] :=
  ⟨fun _ => rfl, fun _ => rfl, by simp [h], rfl, rfl, nofun⟩

theorem success {r : Response} (h : r.errorCode? = none) : Tallied [] [] [r] [] [] :=
  ⟨fun _ => rfl, fun e => by simp [h], rfl, rfl, rfl, nofun⟩

theorem update {item : Envelope} {r : Response} {changed : Bool} {changes : List Commit}
    (h : isUpdate (item, r) = true) (hchanges : changes.length = if changed then 1 else 0) :
    Tallied [.updates changed, .submissions] [] [] [(item, r)] changes := by
  refine ⟨fun _ => rfl, fun _ => rfl, ?_, ?_, ?_, by simp [Series.ofDelivery]⟩
  · simp [h]
  · cases changed <;> rfl
  · rw [hchanges]
    cases changed <;> rfl

end Tallied

/-- The method that gets a grant. -/
def Grant.method : Grant → Method
  | products => .getProductList
  | subscription channel _ => channel.method
  | update _ _ _ => .updatePrice

theorem method?_of_judge {h : Hub} {publisher : Option String} {item : Envelope} {grant : Grant}
    (hj : h.judge publisher item = .ok grant) : item.method? = some grant.method := by
  cases item with
  | invalid id => cases hj
  | call request =>
    simp only [judge] at hj
    simp only [Envelope.method?]
    cases hm : Method.ofName? request.method with
    | none =>
      rw [hm] at hj
      cases hj
    | some method =>
      rw [hm] at hj
      cases method with
      | getProductList =>
        cases hj
        rfl
      | subscribePrice =>
        obtain ⟨_, _, -, -, rfl⟩ := judgeSubscription_eq_ok hj
        rfl
      | subscribePriceSched =>
        obtain ⟨_, _, -, -, rfl⟩ := judgeSubscription_eq_ok hj
        rfl
      | updatePrice =>
        obtain ⟨_, _, _, _, -, -, -, -, rfl⟩ := judgeUpdate_eq_ok hj
        rfl

theorem answer_of_error {p : Progress} {publisher : Option String} {item : Envelope} {e : RpcError}
    (hj : p.hub.judge publisher item = .error e) :
    answer p publisher item = (⟨item.id, .error e⟩, { p with
      hub := (p.hub.countAll (item.method?.toList.map .requests)).count (.errors e) }) := by
  rw [answer_eq, hj]

theorem answer_of_ok {p : Progress} {publisher : Option String} {item : Envelope} {grant : Grant}
    (hj : p.hub.judge publisher item = .ok grant) :
    answer p publisher item = (⟨item.id, .ok (grant.result p.hub)⟩, ({ p with
      hub := p.hub.countAll (item.method?.toList.map .requests) } : Progress).enact grant) := by
  rw [answer_eq, hj]

section Items

variable {h : Hub} {p : Progress} (f : Follows h p) (publisher : Option String)
include f

theorem tallied_answer (item : Envelope) :
    ∃ l, p.hub.Counted (answer p publisher item).2.hub l ∧
      Tallied l [item] [(answer p publisher item).1] [(item, (answer p publisher item).1)]
        (p.hub.board.changes (answer p publisher item).2.hub.board) := by
  let counted : Hub := p.hub.countAll (item.method?.toList.map .requests)
  have hcount : p.hub.Counted counted (item.method?.toList.map .requests) := .of_countAll rfl
  have hmethod := Tallied.method item
  have hboard : counted.board = p.hub.board := board_countAll ..
  have hsame : p.hub.board.changes counted.board = [] := hboard ▸ Board.changes_self _
  cases hj : p.hub.judge publisher item with
  | error e =>
    rw [answer_of_error hj]
    have hfailed : counted.Counted (counted.count (.errors e)) [.errors e] := .of_countAll rfl
    have hno : isUpdate (item, ⟨item.id, .error e⟩) = false := Bool.and_false _
    have htold := (Tallied.failure item.id e).append (.answer hno)
    exact ⟨_, hcount.trans hfailed, hsame ▸ hmethod.append htold⟩
  | ok grant =>
    rw [answer_of_ok hj]
    have hm := method?_of_judge hj
    let r : Response := ⟨item.id, .ok (grant.result p.hub)⟩
    have hsuccess : Tallied [] [] [r] [] [] := .success rfl
    -- but for an update, counting the method is all that there is
    have hplain (hno : isUpdate (item, r) = false) :
        Tallied (item.method?.toList.map .requests) [item] [r] [(item, r)]
          (p.hub.board.changes counted.board) := by
      have htold : Tallied (item.method?.toList.map .requests ++ []) [item] [r] [(item, r)] [] :=
        hmethod.append (hsuccess.append (.answer hno))
      rw [List.append_nil] at htold
      exact hsame ▸ htold
    cases grant with
    | products =>
      exact ⟨_, hcount.trans_nil (.of_metrics rfl), hplain (by simp [isUpdate, hm, Grant.method])⟩
    | subscription channel account =>
      refine ⟨_, hcount.trans_nil (.of_metrics rfl), hplain ?_⟩
      cases channel <;> simp [isUpdate, hm, Grant.method, Channel.method]
    | update account result board =>
      obtain ⟨-, quote, hsubmit⟩ := judge_eq_update hj
      have hchanges := f.covers.changes_submit hsubmit
      have hone : (p.hub.board.changes board).length = if result.changed then 1 else 0 := by
        rw [hchanges]
        cases result.changed <;> rfl
      have hyes : isUpdate (item, r) = true := by simp [isUpdate, hm, Grant.method, r, Except.isOk,
        Except.toBool]
      have htold := hmethod.append (hsuccess.append (.update hyes hone))
      refine ⟨_, hcount.trans ?_, htold⟩
      exact .of_countAll rfl

theorem tallied_answerAll (items : List Envelope) :
    let responses := (answerAll p publisher items).1
    ∃ l, p.hub.Counted (answerAll p publisher items).2.hub l ∧
      Tallied l items responses (items.zip responses) (changesOf p publisher items) := by
  induction items generalizing p with
  | nil => exact ⟨[], .refl _, .nil⟩
  | cons item rest ih =>
    obtain ⟨first, hfirst, htold⟩ := tallied_answer f publisher item
    obtain ⟨more, hmore, hrest⟩ := ih (f.answer publisher item)
    exact ⟨first ++ more, hfirst.trans hmore, htold.append hrest⟩

end Items

/-! ## Payloads -/

theorem counted_activateAll (h : Hub) (session : Nat) (l : List Activation) :
    h.Counted (h.activateAll session l).2 [] := by
  induction l generalizing h with
  | nil => exact .refl h
  | cons a rest ih =>
    refine Counted.trans_nil ?_ (ih (h.activate session a).2)
    unfold activate
    cases h.board.read a.account with
    | error e => exact .refl h
    | ok aggregate => exact counted_updateGauges _

/-- The items of a payload with the responses to them. -/
def answers (h : Hub) : Action → List (Envelope × Response)
  | .payload session text => (Payload.itemsOf text).zip (h.replyTo session text).responses
  | _ => []

namespace Regular

variable {h : Hub} (hr : h.Regular) (session : Nat) (text : String)
include hr

theorem tallied_process :
    ∃ l, h.Counted (h.process session text).2 l ∧
      Tallied l (Payload.itemsOf text) (h.replyTo session text).responses
        (h.answers (.payload session text)) (h.changedIn session text) := by
  have hactivated : (h.progressOf session text).hub.Counted (h.process session text).2 [] :=
    counted_activateAll _ session _
  show ∃ l, _ ∧ Tallied l _ _ ((Payload.itemsOf text).zip (h.replyTo session text).responses)
    (changesOf { hub := h } (h.publisherOf session) (Payload.itemsOf text))
  rcases h.reply_cases (h.publisherOf session) text with he | ⟨hnil, e, he⟩
  · obtain ⟨hresponses, hprogress⟩ := Prod.mk.inj he
    obtain ⟨l, hl, htold⟩ := tallied_answerAll (Follows.init hr.covers) (h.publisherOf session)
      (Payload.itemsOf text)
    rw [← hprogress] at hl
    rw [← hresponses] at htold
    exact ⟨l, hl.trans_nil hactivated, htold⟩
  · have hcount : h.Counted (h.progressOf session text).hub [.errors e] := by
      unfold progressOf
      rw [he]
      exact .of_countAll rfl
    refine ⟨_, hcount.trans_nil hactivated, ?_⟩
    unfold replyTo
    rw [he, hnil]
    exact .failure .null e

end Regular

/-! ## Notifications -/

/-- The notifications of a change, to each live subscription that is told of it. -/
def fanOut (h : Hub) (c : Commit) : List Post :=
  (h.subscriptions.live.filter (·.account = c.account)).flatMap fun s =>
    (s.onChange h.schedule c.aggregate).map (Post.mk s.session)

/-- The notifications that an action addresses: of each change to the live subscriptions that are
told of it, the first one of each subscription that is made, and on a tick one to each live
subscription on the schedule. -/
def addressed (h : Hub) : Action → List Post
  | .payload session text =>
    (h.changedIn session text).flatMap h.fanOut ++
      (h.progressOf session text).pending.map fun a =>
        ⟨session, (a.subscription session).first
          (((h.process session text).2.board.aggregate? a.account).getD {})⟩
  | .tick =>
    (h.subscriptions.live.filter (·.channel = .schedule)).map fun s => ⟨s.session, .schedule s.id⟩
  | _ => []

/-- A price subscriber is told of a change, and a schedule subscriber if changes drive the
schedule. -/
theorem perm_onChange (l : List Subscription) (schedule : SchedulePolicy) (account : String)
    (aggregate : Aggregate) :
    ((l.filter fun s => s.target = (account, Channel.price)).map (fun s =>
          Post.mk s.session (.price s.id aggregate)) ++
        if schedule = .updateDriven then
          (l.filter fun s => s.target = (account, Channel.schedule)).map fun s =>
            Post.mk s.session (.schedule s.id)
        else []).Perm
      ((l.filter (·.account = account)).flatMap fun s =>
        (s.onChange schedule aggregate).map (Post.mk s.session)) := by
  induction l with
  | nil => cases schedule <;> exact .refl _
  | cons s rest ih =>
    by_cases ha : s.account = account
    · cases hc : s.channel with
      | price =>
        rw [List.filter_cons_of_pos (by simp [Subscription.target, ha, hc]),
          List.filter_cons_of_neg (by simp [Subscription.target, hc]),
          List.filter_cons_of_pos (by simpa using ha), List.flatMap_cons]
        have hone : s.onChange schedule aggregate = [.price s.id aggregate] := by
          simp [Subscription.onChange, hc]
        rw [hone]
        exact ih.cons _
      | schedule =>
        rw [List.filter_cons_of_neg (by simp [Subscription.target, hc]),
          List.filter_cons_of_pos (by simp [Subscription.target, ha, hc]),
          List.filter_cons_of_pos (by simpa using ha), List.flatMap_cons]
        by_cases hd : schedule = .updateDriven
        · have hone : s.onChange schedule aggregate = [.schedule s.id] := by
            simp [Subscription.onChange, hc, hd]
          rw [hone]
          rw [if_pos hd] at ih ⊢
          exact List.perm_middle.trans (ih.cons _)
        · have hnone : s.onChange schedule aggregate = [] := by
            simp [Subscription.onChange, hc, hd]
          rw [hnone]
          rw [if_neg hd] at ih ⊢
          exact ih
    · rw [List.filter_cons_of_neg (by simp [Subscription.target, ha]),
        List.filter_cons_of_neg (by simp [Subscription.target, ha]),
        List.filter_cons_of_neg (by simpa using ha)]
      exact ih

theorem perm_changePosts {h : Hub} (hc : h.subscriptions.Coherent) (c : Commit) :
    (h.changePosts c.account c.aggregate).Perm (h.fanOut c) := by
  refine List.Perm.trans ?_ (perm_onChange h.subscriptions.live h.schedule c.account c.aggregate)
  unfold changePosts
  rw [hc.subscribersOf_eq, hc.subscribersOf_eq]
  have hsorted := fun target => List.mergeSort_perm
    (h.subscriptions.live.filter (·.target = target)) fun a b => decide (a.id ≤ b.id)
  refine ((hsorted _).map _).append ?_
  split
  · exact (hsorted _).map _
  · exact .refl _

/-- An item posts what the change that it makes is to be told. -/
theorem posts_answer {h : Hub} {p : Progress} (f : Follows h p) (publisher : Option String)
    (item : Envelope) :
    (answer p publisher item).2.posts = p.posts ++
      (p.hub.board.changes (answer p publisher item).2.hub.board).flatMap fun c =>
        p.hub.changePosts c.account c.aggregate := by
  have hanswered := answered p publisher item
  generalize (answer p publisher item).1 = r, (answer p publisher item).2 = p' at hanswered ⊢
  have hquiet : p'.hub.board = p.hub.board → p.posts = p.posts ++
      (p.hub.board.changes p'.hub.board).flatMap fun c =>
        p.hub.changePosts c.account c.aggregate := fun hboard => by
    rw [hboard, Board.changes_self]
    exact (List.append_nil _).symm
  cases hanswered with
  | refused served => exact hquiet (board_countAll ..)
  | listed hmethod => exact hquiet (board_countAll ..)
  | subscribed channel hmethod hparams hlookup => exact hquiet (board_countAll ..)
  | @updated request params i result board hmethod hparams hlookup hready hsubmit =>
    rw [board_countAll, f.covers.changes_submit hsubmit, postsAfter]
    cases result.changed with
    | false => rfl
    | true =>
      rw [if_pos rfl, if_pos rfl, List.flatMap_singleton]

theorem fanOut_follows {h : Hub} {p : Progress} (f : Follows h p) : p.hub.fanOut = h.fanOut := by
  funext c
  rw [fanOut, f.live, f.schedule, fanOut]

/-- Answering items posts what the changes that they make are to be told. -/
theorem perm_posts_answerAll {h : Hub} {p : Progress} (f : Follows h p)
    (hc : h.subscriptions.Coherent) (publisher : Option String) (items : List Envelope) :
    (answerAll p publisher items).2.posts.Perm
      (p.posts ++ (changesOf p publisher items).flatMap h.fanOut) := by
  induction items generalizing p with
  | nil => exact (List.append_nil p.posts).symm ▸ .refl _
  | cons item rest ih =>
    have hone : (answer p publisher item).2.posts.Perm (p.posts ++
        (p.hub.board.changes (answer p publisher item).2.hub.board).flatMap h.fanOut) := by
      rw [posts_answer f, ← fanOut_follows f]
      exact (List.Perm.flatMap_left _ fun c _ => perm_changePosts (f.coherent hc) c).append_left _
    simp only [answerAll, changesOf, List.flatMap_append, ← List.append_assoc]
    exact (ih (f.answer publisher item)).trans (hone.append_right _)

/-! ## Actions -/

/-- The post is a notification. -/
def isNotice (p : Post) : Bool := p.message.noticeKind?.isSome

theorem isNotice_fanOut {h : Hub} {c : Commit} {q : Post} (hq : q ∈ h.fanOut c) :
    isNotice q = true := by
  obtain ⟨s, -, hq⟩ := List.mem_flatMap.1 hq
  obtain ⟨m, hm, rfl⟩ := List.mem_map.1 hq
  unfold Subscription.onChange at hm
  split at hm
  · rw [List.mem_singleton.1 hm]
    rfl
  · split at hm
    · rw [List.mem_singleton.1 hm]
      rfl
    · cases hm

theorem isNotice_first (session : Nat) (s : Subscription) (aggregate : Aggregate) :
    isNotice ⟨session, s.first aggregate⟩ = true := by
  unfold Subscription.first
  split <;> rfl

theorem responses_of_isNotice {q : Post} (hq : isNotice q = true) : q.message.responses = [] := by
  obtain ⟨session, message⟩ := q
  cases message with
  | reply r => cases hq
  | price id aggregate => rfl
  | schedule id => rfl

namespace Regular

variable {h : Hub} (hr : h.Regular)
include hr

theorem perm_posts_progressOf (session : Nat) (text : String) :
    (h.progressOf session text).posts.Perm ((h.changedIn session text).flatMap h.fanOut) := by
  rw [(h.progressOf_eq session text).1]
  exact perm_posts_answerAll (Follows.init hr.covers) hr.coherent _ _

theorem isNotice_progressOf {session : Nat} {text : String} {q : Post}
    (hq : q ∈ (h.progressOf session text).posts) : isNotice q = true := by
  have hmem := (hr.perm_posts_progressOf session text).mem_iff.1 hq
  obtain ⟨c, -, hc⟩ := List.mem_flatMap.1 hmem
  exact isNotice_fanOut hc

/-- Of the posts of a payload the reply has responses. -/
theorem responses_process (session : Nat) (text : String) :
    (h.process session text).1.flatMap (·.message.responses) =
      (h.replyTo session text).responses := by
  have hfirst : (h.progressOf session text).posts.flatMap (·.message.responses) = [] :=
    List.flatMap_eq_nil_iff.2 fun q hq => responses_of_isNotice (hr.isNotice_progressOf hq)
  rw [hr.posts_process, List.flatMap_append, hfirst, List.nil_append, List.flatMap_cons]
  refine (congrArg (_ ++ ·) (List.flatMap_eq_nil_iff.2 fun q hq => ?_)).trans (List.append_nil _)
  obtain ⟨a, -, rfl⟩ := List.mem_map.1 hq
  exact responses_of_isNotice (isNotice_first ..)

/-- The notifications that an action posts are those that it addresses. -/
theorem perm_addressed (a : Action) : ((h.issue a).1.filter isNotice).Perm (h.addressed a) := by
  cases a with
  | payload session text =>
    show ((h.process session text).1.filter isNotice).Perm _
    have hposts := List.filter_eq_self.2 fun q (hq : q ∈ (h.progressOf session text).posts) =>
      hr.isNotice_progressOf hq
    rw [hr.posts_process, List.filter_append, hposts, List.filter_cons_of_neg Bool.false_ne_true,
      List.filter_eq_self.2]
    · exact (hr.perm_posts_progressOf session text).append_right _
    · intro q hq
      obtain ⟨a, -, rfl⟩ := List.mem_map.1 hq
      exact isNotice_first ..
  | tick =>
    show (h.tickPosts.filter isNotice).Perm _
    rw [List.filter_eq_self.2]
    · exact (List.mergeSort_perm ..).map _
    · intro q hq
      obtain ⟨s, -, rfl⟩ := List.mem_map.1 hq
      rfl
  | unreadable session => exact .refl _
  | _ => exact .refl _

theorem tallied_issue (a : Action) :
    ∃ l, h.Counted (h.issue a).2 l ∧
      Tallied l a.items ((h.issue a).1.flatMap (·.message.responses)) (h.answers a)
        (h.changedBy a) := by
  cases a with
  | payload session text =>
    obtain ⟨l, hl, htold⟩ := hr.tallied_process session text
    rw [← hr.responses_process session text] at htold
    exact ⟨l, hl, htold⟩
  | openSession publisher => exact ⟨[], counted_updateGauges _, .nil⟩
  | closeSession session =>
    refine ⟨[], ?_, .nil⟩
    show h.Counted (h.closeSession session) []
    rcases h.closeSession_cases session with ⟨-, he⟩ | ⟨-, he⟩ <;> rw [he]
    · exact .refl h
    · exact counted_updateGauges _
  | unreadable session => exact ⟨_, .of_countAll rfl, .failure .null .parseError⟩
  | tick =>
    have hnone : h.tickPosts.flatMap (·.message.responses) = [] :=
      List.flatMap_eq_nil_iff.2 fun q hq => by
        obtain ⟨s, -, rfl⟩ := List.mem_map.1 hq
        rfl
    exact ⟨[], .refl h, hnone.symm ▸ .nil⟩
  | receive session count =>
    refine ⟨[], ?_, .nil⟩
    show h.Counted (h.receive session count).2 []
    unfold receive
    split <;> exact .refl h
  | _ => exact ⟨[], .refl h, .nil⟩

end Regular

/-! ## Runs -/

/-- The actions of a run with the hubs that they meet. -/
def trace (h : Hub) : List Action → List (Hub × Action)
  | [] => []
  | a :: rest => (h, a) :: (h.step a).trace rest

/-- What each action of a run does at the hub that it meets, one after another. -/
def along {α : Type} (h : Hub) (f : Hub → Action → List α) (l : List Action) : List α :=
  (h.trace l).flatMap fun x => f x.1 x.2

theorem along_cons {α : Type} (h : Hub) (f : Hub → Action → List α) (a : Action)
    (rest : List Action) : h.along f (a :: rest) = f h a ++ (h.step a).along f rest :=
  List.flatMap_cons

theorem map_post_along (h : Hub) (l : List Action) :
    (h.along fatesOf l).map (·.post) = h.along (fun h a => (h.issue a).1) l := by
  unfold along
  rw [List.map_flatMap]
  exact congrArg (List.flatMap · _) (funext fun x => map_post_fates ..)

namespace Regular

variable {h : Hub} (hr : h.Regular)
include hr

theorem of_mem_trace {l : List Action} {x : Hub × Action} (hx : x ∈ h.trace l) : x.1.Regular := by
  induction l generalizing h with
  | nil => cases hx
  | cons a rest ih =>
    rcases List.mem_cons.1 hx with rfl | hx
    · exact hr
    · exact ih (hr.step a) hx

/-- A run counts what its answers tell and what becomes of its posts. -/
theorem tallied_run (l : List Action) :
    ∃ t, h.Counted (h.run l) (t ++ (h.along fatesOf l).flatMap Fate.events) ∧
      Tallied t (l.flatMap Action.items)
        ((h.along (fun h a => (h.issue a).1) l).flatMap (·.message.responses))
        (h.along answers l) (h.along changedBy l) := by
  induction l generalizing h with
  | nil => exact ⟨[], .refl h, .nil⟩
  | cons a rest ih =>
    obtain ⟨first, hissue, htold⟩ := hr.tallied_issue a
    obtain ⟨more, hrest, hmore⟩ := ih (hr.step a)
    have hfirst : h.Counted (h.step a) (first ++ (h.fatesOf a).flatMap Fate.events) := by
      rw [step_eq]
      exact hissue.trans (counted_deliverAll _ _)
    simp only [along_cons, List.flatMap_cons, List.flatMap_append]
    refine ⟨first ++ more, (hfirst.trans hrest).perm ?_, htold.append hmore⟩
    rw [List.append_assoc, List.append_assoc]
    exact (List.perm_append_comm_assoc ..).append_left _

theorem closes_run (l : List Action) : h.Closes (h.run l) (overflowed (h.along fatesOf l)) := by
  induction l generalizing h with
  | nil => exact .of_stays fun _ => id
  | cons a rest ih =>
    rw [along_cons, overflowed_append]
    exact (hr.closes_step a).trans (ih (hr.step a))

/-- The notifications that a run posts are those that its actions address. -/
theorem countP_addressed (l : List Action) (kind : NoticeKind) :
    (h.along (fun h a => (h.issue a).1) l).countP (·.message.noticeKind? = some kind) =
      (h.along addressed l).countP (·.message.noticeKind? = some kind) := by
  have hperm : ((h.along (fun h a => (h.issue a).1) l).filter isNotice).Perm
      (h.along addressed l) := by
    unfold along
    rw [List.filter_flatMap]
    exact List.Perm.flatMap_left _ fun x hx => (hr.of_mem_trace hx).perm_addressed x.2
  rw [← hperm.countP_eq, List.countP_filter]
  refine List.countP_congr fun q _ => ?_
  unfold isNotice
  cases q.message.noticeKind? <;> simp

end Regular

/-! ## Top theorem -/

/-- The counts of the commit queue apart, all metrics are those of the hub. -/
theorem get_allMetrics_of_hub (h : Hub) {s : Series} (hs : s.ofQueue = false) :
    h.allMetrics.get s = h.metrics.get s := by
  have hne : ∀ t : Series, t.ofQueue = true → s ≠ t := by
    rintro t ht rfl
    rw [hs] at ht
    cases ht
  unfold allMetrics
  split
  · rfl
  · rw [Metrics.get_add_of_ne (hne _ rfl), Metrics.get_add_of_ne (hne _ rfl)]

/-- **The counters account for every event once**, in every run of a hub: failures by the responses
that tell of them, calls by the items that make them, updates by the calls that are accepted and by
the changes that they make, notifications by what is addressed and by what becomes of it, and closed
mailboxes by the sessions they are of. -/
theorem counters_account (registry : Registry) (policy : Policy) (schedule : SchedulePolicy)
    (capacity : Nat) (commits : Option CommitQueue) (l : List Action) :
    let h := create registry policy schedule capacity commits
    let counter := (h.run l).allMetrics.get
    let posts := h.along (fun h a => (h.issue a).1) l
    let answers := h.along answers l
    let fates := h.along fatesOf l
    (∀ e : RpcError, counter (.errors e) =
      (posts.flatMap (·.message.responses)).countP (·.errorCode? = some e.code)) ∧
    (∀ m, counter (.requests m) = (l.flatMap Action.items).countP (·.method? = some m)) ∧
    (counter (.updates true) + counter (.updates false) = answers.countP isUpdate ∧
      counter .submissions = answers.countP isUpdate ∧
      counter (.updates true) = (h.along changedBy l).length) ∧
    (∀ kind,
      counter (.sent kind) + counter (.dropped kind .sessionClosed) +
          counter (.dropped kind .overflow) =
        (h.along addressed l).countP (·.message.noticeKind? = some kind) ∧
      counter (.sent kind) = fates.countP fun f => f.kind? = some kind && f.isQueued) ∧
    (fates.map (·.post) = posts ∧
      ∀ x ∈ h.trace l, ∀ id, ((x.1.step x.2).session? id).map (·.mailbox.queue) =
        (((x.1.issue x.2).2.session? id).map (·.mailbox.queue)).map
          (· ++ queuedFor id (x.1.fatesOf x.2))) ∧
    ((overflowed fates).Nodup ∧ counter .sessionsOverflowed = (overflowed fates).length ∧
      counter (.dropped .price .overflow) + counter (.dropped .schedule .overflow) ≤
        counter .sessionsOverflowed ∧
      counter .sessionsOverflowed =
        counter (.dropped .price .overflow) + counter (.dropped .schedule .overflow) +
          fates.countP fun f => f.kind? = none && f.overflows) := by
  intro h counter posts answers fates
  have hr : h.Regular := regular_create ..
  obtain ⟨told, hcounted, htold⟩ := hr.tallied_run l
  have hposts : fates.map (·.post) = posts := h.map_post_along l
  have hget : ∀ s : Series, s.ofQueue = false → s.isGauge = false →
      counter s = told.count s + (fates.flatMap Fate.events).count s := fun s hqueue hgauge => by
    have hzero : h.metrics.get s = 0 := rfl
    rw [← List.count_append, ← Nat.zero_add (List.count _ _), ← hzero, ← hcounted s hgauge]
    exact get_allMetrics_of_hub _ hqueue
  have hanswer : ∀ s : Series, s.ofQueue = false → s.isGauge = false → s.ofDelivery = false →
      counter s = told.count s := fun s hqueue hgauge hs => by
    have hnone : s ∉ fates.flatMap Fate.events := fun hmem => by
      rw [Fate.ofDelivery_events fates s hmem] at hs
      cases hs
    rw [hget s hqueue hgauge, List.count_eq_zero_of_not_mem hnone, Nat.add_zero]
  have hdelivery : ∀ s : Series, s.ofQueue = false → s.isGauge = false → s.ofDelivery = true →
      counter s = (fates.flatMap Fate.events).count s := fun s hqueue hgauge hs => by
    have hnone : s ∉ told := fun hmem => by
      rw [htold.quiet s hmem] at hs
      cases hs
    rw [hget s hqueue hgauge, List.count_eq_zero_of_not_mem hnone, Nat.zero_add]
  have hupdates : counter (.updates true) + counter (.updates false) = answers.countP isUpdate := by
    rw [hanswer _ rfl rfl rfl, hanswer _ rfl rfl rfl, htold.updates, htold.submissions]
  have hoverflows : fates.countP (·.overflows) = counter (.dropped .price .overflow) +
      counter (.dropped .schedule .overflow) +
        fates.countP fun f => f.kind? = none && f.overflows := by
    rw [hdelivery _ rfl rfl rfl, hdelivery _ rfl rfl rfl, Fate.count_dropped, Fate.count_dropped]
    exact Fate.countP_overflows fates
  have hclosed : counter .sessionsOverflowed = fates.countP (·.overflows) :=
    (hdelivery _ rfl rfl rfl).trans (Fate.count_overflowed fates)
  refine ⟨fun e => ?_, fun m => ?_, ⟨hupdates, ?_, ?_⟩, fun kind => ⟨?_, ?_⟩, ⟨hposts, ?_⟩,
    (hr.closes_run l).nodup, ?_, ?_, ?_⟩
  · rw [hanswer _ rfl rfl rfl, htold.errors]
  · rw [hanswer _ rfl rfl rfl, htold.requests]
  · rw [hanswer _ rfl rfl rfl, htold.submissions]
  · rw [hanswer _ rfl rfl rfl, htold.changed]
  · rw [hdelivery _ rfl rfl rfl, hdelivery _ rfl rfl rfl, hdelivery _ rfl rfl rfl,
      Fate.count_notices, ← hr.countP_addressed, show h.along _ l = posts from rfl, ← hposts,
      List.countP_map]
    rfl
  · rw [hdelivery _ rfl rfl rfl, Fate.count_sent]
  · intro x _ id
    rw [step_eq]
    exact queues_deliverAll ..
  · rw [hclosed, overflowed, List.length_map, List.countP_eq_length_filter]
  · omega
  · omega

end Hub

end PriceFeed
