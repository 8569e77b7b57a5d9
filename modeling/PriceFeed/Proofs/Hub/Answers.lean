import PriceFeed.Hub.Call
import PriceFeed.Proofs.Hub.Delivery

/-!
# What answering an item can do

To answer an item is to judge it and then to do what it is granted (`answer_eq`). The verdict is
made of the registry, the books and the commit queue, before anything is done. So an item is
refused, or answered with the product list, with a new subscription id, or with zero for an update
(`Answered`, `answered`).

    answer = count the method; judge; enact the grant, or count the error          (answer_eq)
    all that answering can do, in four cases                                        (answered)
-/

namespace PriceFeed

/-- The method that subscribes to a channel. -/
def Channel.method : Channel → Method
  | .price => .subscribePrice
  | .schedule => .subscribePriceSched

/-- The id that an item is answered under. -/
def Envelope.id : Envelope → Json.Value
  | call request => request.id
  | invalid id => id

/-- The served method that an item calls. -/
def Envelope.method? : Envelope → Option Method
  | call request => Method.ofName? request.method
  | invalid _ => none

namespace Hub

/-- Counts several events. -/
def countAll (h : Hub) (l : List Series) : Hub := l.foldl count h

theorem like_countAll (h : Hub) {l : List Series} (hl : ∀ s ∈ l, s.isGauge = false) :
    h.Like (h.countAll l) := by
  induction l generalizing h with
  | nil => exact .refl h
  | cons s rest ih =>
    exact (like_count h (hl s List.mem_cons_self)).trans
      (ih _ fun t ht => hl t (List.mem_cons_of_mem _ ht))

/-- The served method of an item is counted. -/
theorem like_countMethod (h : Hub) (item : Envelope) :
    h.Like (h.countAll (item.method?.toList.map .requests)) :=
  like_countAll h fun s hs => by
    obtain ⟨method, -, rfl⟩ := List.mem_map.1 hs
    rfl

theorem board_countAll (h : Hub) (l : List Series) : (h.countAll l).board = h.board := by
  induction l generalizing h with
  | nil => rfl
  | cons s rest ih => exact ih (h.count s)

/-- Counting touches nothing but metrics. -/
theorem countAll_eq (h : Hub) (l : List Series) :
    h.countAll l = { h with metrics := (h.countAll l).metrics } := by
  induction l generalizing h with
  | nil => rfl
  | cons s rest ih => exact ih (h.count s)

theorem commits_countAll (h : Hub) (l : List Series) : (h.countAll l).commits = h.commits := by
  rw [countAll_eq]

theorem sessions_countAll (h : Hub) (l : List Series) : (h.countAll l).sessions = h.sessions := by
  rw [countAll_eq]

/-- The commits after an accepted submission for an account. -/
def commitsAfter (h : Hub) (account : String) (result : Submitted) : Option CommitQueue :=
  if result.changed then h.commits.map fun q => (q.enqueue ⟨account, result.aggregate⟩).2
  else h.commits

/-- The posts of an accepted submission for an account. -/
def postsAfter (h : Hub) (account : String) (result : Submitted) : List Post :=
  if result.changed then h.changePosts account result.aggregate else []

theorem submit_eq (h : Hub) (publisher : Option String) (account : String) (quote : Quote) :
    h.submit publisher account quote = (h.board.submit account publisher quote).map
      fun (result, board) => (h.postsAfter account result,
        ({ h with board, commits := h.commitsAfter account result } : Hub).countAll
          [.updates result.changed, .submissions]) := by
  unfold submit
  congr 1
  funext ⟨⟨changed, aggregate⟩, board⟩
  cases changed <;> rfl

/-! ## Outcomes -/

section Except

variable {ε ε' α β : Type} {f : ε → ε'}

theorem bind_eq_ok_iff {x : Except ε α} {f : α → Except ε β} {b : β} :
    (x >>= f) = .ok b ↔ ∃ a, x = .ok a ∧ f a = .ok b := by
  cases x <;> simp [bind, Except.bind]

theorem mapError_ok (a : α) : (Except.ok a).mapError f = .ok a := rfl

theorem mapError_error (e : ε) : (Except.error e : Except ε α).mapError f = .error (f e) := rfl

theorem mapError_eq_ok_iff {x : Except ε α} {a : α} : x.mapError f = .ok a ↔ x = .ok a := by
  cases x <;> simp [mapError_ok, mapError_error]

theorem mapError_eq_error_iff {x : Except ε α} {e : ε'} :
    x.mapError f = .error e ↔ ∃ e', x = .error e' ∧ f e' = e := by
  cases x <;> simp [mapError_ok, mapError_error]

end Except

/-! ## Verdicts -/

/-- What an item gets if nothing stands against it. -/
inductive Grant where
  | products
  | subscription (channel : Channel) (account : String)
  | update (account : String) (result : Submitted) (board : Board)

def judgeSubscription (h : Hub) (channel : Channel) (params : Option Json.Value) :
    Except RpcError Grant := do
  let read ← SubscribeParams.read params
  let i ← (h.registry.lookup read.account).mapError (·.toRpc)
  return .subscription channel i.account

def judgeUpdate (h : Hub) (publisher : Option String) (params : Option Json.Value) :
    Except RpcError Grant := do
  let read ← UpdateParams.read params
  let i ← (h.registry.lookup read.account).mapError (·.toRpc)
  if !h.isReady then throw .notReady
  let (result, board) ← (h.board.submit i.account publisher read.quote).mapError (·.toRpc)
  return .update i.account result board

/-- What a call of a served method gets, or why it is refused. -/
def judgeCall (h : Hub) (publisher : Option String) (method : Method)
    (params : Option Json.Value) : Except RpcError Grant :=
  match method with
  | .getProductList => .ok .products
  | .subscribePrice => h.judgeSubscription .price params
  | .subscribePriceSched => h.judgeSubscription .schedule params
  | .updatePrice => h.judgeUpdate publisher params

/-- What an item gets, or why it is refused. Counts and mailboxes have no part in it. -/
def judge (h : Hub) (publisher : Option String) : Envelope → Except RpcError Grant
  | .invalid _ => .error .invalidRequest
  | .call request =>
    match Method.ofName? request.method with
    | none => .error .methodNotFound
    | some method => h.judgeCall publisher method request.params

/-- The result that tells of a grant. -/
def Grant.result (h : Hub) : Grant → Json.Value
  | products => h.productList
  | subscription _ _ => subscriptionResult h.subscriptions.nextId
  | update _ _ _ => .int 0

/-- What a grant does. -/
def Progress.enact (p : Progress) : Grant → Progress
  | .products => p
  | .subscription channel account =>
    { p with
      hub := { p.hub with subscriptions := p.hub.subscriptions.reserve.2 }
      pending := p.pending ++ [⟨p.hub.subscriptions.nextId, account, channel⟩] }
  | .update account result board =>
    { p with
      hub := ({ p.hub with board, commits := p.hub.commitsAfter account result } :
        Hub).countAll [.updates result.changed, .submissions]
      posts := p.posts ++ p.hub.postsAfter account result }

theorem subscribe_eq (p : Progress) (channel : Channel) (params : Option Json.Value) :
    subscribe p channel params =
      (p.hub.judgeSubscription channel params).map fun g => (g.result p.hub, p.enact g) := by
  unfold subscribe judgeSubscription
  cases SubscribeParams.read params with
  | error e => rfl
  | ok read =>
    simp only [bind, Except.bind]
    cases p.hub.registry.lookup read.account <;> rfl

theorem updatePrice_eq (p : Progress) (publisher : Option String) (params : Option Json.Value) :
    updatePrice p publisher params =
      (p.hub.judgeUpdate publisher params).map fun g => (g.result p.hub, p.enact g) := by
  unfold updatePrice judgeUpdate
  cases UpdateParams.read params with
  | error e => rfl
  | ok read =>
    simp only [bind, Except.bind]
    cases p.hub.registry.lookup read.account with
    | error e => rfl
    | ok i =>
      simp only [mapError_ok]
      cases p.hub.isReady with
      | false => rfl
      | true =>
        simp only [submit_eq]
        cases p.hub.board.submit i.account publisher read.quote <;> rfl

theorem serve_eq (p : Progress) (publisher : Option String) (method : Method)
    (params : Option Json.Value) :
    serve p publisher method params =
      (p.hub.judgeCall publisher method params).map fun g => (g.result p.hub, p.enact g) := by
  cases method with
  | getProductList => rfl
  | subscribePrice => exact subscribe_eq p .price params
  | subscribePriceSched => exact subscribe_eq p .schedule params
  | updatePrice => exact updatePrice_eq p publisher params

/-- Answering an item is to count its method, to judge it, and to do what it is granted or to count
the error. -/
theorem answer_eq (p : Progress) (publisher : Option String) (item : Envelope) :
    answer p publisher item =
      let counted : Progress :=
        { p with hub := p.hub.countAll (item.method?.toList.map .requests) }
      match p.hub.judge publisher item with
      | .ok grant => (⟨item.id, .ok (grant.result p.hub)⟩, counted.enact grant)
      | .error e => (⟨item.id, .error e⟩, { counted with hub := counted.hub.count (.errors e) }) := by
  cases item with
  | invalid id => rfl
  | call request =>
    simp only [answer, call, judge, Envelope.method?]
    cases Method.ofName? request.method with
    | none => rfl
    | some method =>
      -- a count changes neither verdict nor result
      let counted : Progress := { p with hub := p.hub.count (.requests method) }
      have hserve : serve counted publisher method request.params =
          (p.hub.judgeCall publisher method request.params).map fun g =>
            (g.result p.hub, counted.enact g) := serve_eq counted publisher method request.params
      simp only [counted] at hserve
      simp only [hserve]
      cases p.hub.judgeCall publisher method request.params <;> rfl

/-- The verdict depends on registry, books and commits alone. -/
theorem judge_congr {h h' : Hub} (hregistry : h'.registry = h.registry)
    (hboard : h'.board = h.board) (hcommits : h'.commits = h.commits) (publisher : Option String)
    (item : Envelope) : h'.judge publisher item = h.judge publisher item := by
  have hsubscription : h'.judgeSubscription = h.judgeSubscription := by
    funext channel params
    rw [judgeSubscription, hregistry]
    rfl
  have hupdate : h'.judgeUpdate = h.judgeUpdate := by
    funext publisher params
    rw [judgeUpdate, isReady, hregistry, hboard, hcommits]
    rfl
  cases item with
  | invalid id => rfl
  | call request => simp only [judge, judgeCall, hsubscription, hupdate]

theorem result_congr {h h' : Hub} (hregistry : h'.registry = h.registry)
    (hnext : h'.subscriptions.nextId = h.subscriptions.nextId) (grant : Grant) :
    grant.result h' = grant.result h := by
  cases grant with
  | products => simp only [Grant.result, productList, hregistry]
  | subscription channel account => simp only [Grant.result, hnext]
  | update account result board => rfl

/-! ## Cases -/

/-- All that answering an item can do. -/
inductive Answered (publisher : Option String) (p : Progress) :
    Envelope → Response → Progress → Prop
  | refused {item : Envelope} {id : Json.Value} {e : RpcError} (served : Option Method) :
    Answered publisher p item ⟨id, .error e⟩
      { p with hub := p.hub.countAll (served.toList.map .requests ++ [.errors e]) }
  | listed {request : Request} (hmethod : Method.ofName? request.method = some .getProductList) :
    Answered publisher p (.call request) ⟨request.id, .ok p.hub.productList⟩
      { p with hub := p.hub.countAll [.requests .getProductList] }
  | subscribed {request : Request} (channel : Channel) {params : SubscribeParams} {i : Instrument}
    (hmethod : Method.ofName? request.method = some channel.method)
    (hparams : SubscribeParams.read request.params = .ok params)
    (hlookup : p.hub.registry.lookup params.account = .ok i) :
    Answered publisher p (.call request)
      ⟨request.id, .ok (subscriptionResult p.hub.subscriptions.nextId)⟩
      { p with
        hub := ({ p.hub with subscriptions := p.hub.subscriptions.reserve.2 } : Hub).countAll
          [.requests channel.method]
        pending := p.pending ++ [⟨p.hub.subscriptions.nextId, i.account, channel⟩] }
  | updated {request : Request} {params : UpdateParams} {i : Instrument} {result : Submitted}
    {board : Board}
    (hmethod : Method.ofName? request.method = some .updatePrice)
    (hparams : UpdateParams.read request.params = .ok params)
    (hlookup : p.hub.registry.lookup params.account = .ok i)
    (hready : p.hub.isReady = true)
    (hsubmit : p.hub.board.submit i.account publisher params.quote = .ok (result, board)) :
    Answered publisher p (.call request) ⟨request.id, .ok (.int 0)⟩
      { p with
        hub := ({ p.hub with board, commits := p.hub.commitsAfter i.account result } : Hub).countAll
          [.requests .updatePrice, .updates result.changed, .submissions]
        posts := p.posts ++ p.hub.postsAfter i.account result }

theorem judgeSubscription_eq_ok {h : Hub} {channel : Channel} {params : Option Json.Value}
    {grant : Grant} (hok : h.judgeSubscription channel params = .ok grant) :
    ∃ read i, SubscribeParams.read params = .ok read ∧
      h.registry.lookup read.account = .ok i ∧ grant = .subscription channel i.account := by
  obtain ⟨read, hread, hok⟩ := bind_eq_ok_iff.1 hok
  obtain ⟨i, hlookup, hok⟩ := bind_eq_ok_iff.1 hok
  cases hok
  exact ⟨read, i, hread, mapError_eq_ok_iff.1 hlookup, rfl⟩

theorem judgeUpdate_eq_ok {h : Hub} {publisher : Option String} {params : Option Json.Value}
    {grant : Grant} (hok : h.judgeUpdate publisher params = .ok grant) :
    ∃ read i result board, UpdateParams.read params = .ok read ∧
      h.registry.lookup read.account = .ok i ∧ h.isReady = true ∧
      h.board.submit i.account publisher read.quote = .ok (result, board) ∧
      grant = .update i.account result board := by
  obtain ⟨read, hread, hok⟩ := bind_eq_ok_iff.1 hok
  obtain ⟨i, hlookup, hok⟩ := bind_eq_ok_iff.1 hok
  cases hready : h.isReady with
  | false =>
    rw [hready] at hok
    cases hok
  | true =>
    rw [hready] at hok
    obtain ⟨⟨result, board⟩, hsubmit, hok⟩ := bind_eq_ok_iff.1 hok
    cases hok
    exact ⟨read, i, result, board, hread, mapError_eq_ok_iff.1 hlookup, rfl,
      mapError_eq_ok_iff.1 hsubmit, rfl⟩

theorem answered (p : Progress) (publisher : Option String) (item : Envelope) :
    Answered publisher p item (answer p publisher item).1 (answer p publisher item).2 := by
  rw [answer_eq]
  cases hjudge : p.hub.judge publisher item with
  | error e =>
    have hcount : (p.hub.countAll (item.method?.toList.map .requests)).count (.errors e) =
        p.hub.countAll (item.method?.toList.map .requests ++ [.errors e]) := by
      rw [countAll, countAll, List.foldl_append]
      rfl
    simp only [hcount]
    exact .refused item.method?
  | ok grant =>
    cases item with
    | invalid id => cases hjudge
    | call request =>
      simp only [judge] at hjudge
      simp only [Envelope.method?, Envelope.id]
      cases hmethod : Method.ofName? request.method with
      | none =>
        rw [hmethod] at hjudge
        cases hjudge
      | some method =>
        rw [hmethod] at hjudge
        cases method with
        | getProductList =>
          cases hjudge
          exact .listed hmethod
        | subscribePrice =>
          obtain ⟨read, i, hread, hlookup, rfl⟩ := judgeSubscription_eq_ok hjudge
          exact .subscribed .price hmethod hread hlookup
        | subscribePriceSched =>
          obtain ⟨read, i, hread, hlookup, rfl⟩ := judgeSubscription_eq_ok hjudge
          exact .subscribed .schedule hmethod hread hlookup
        | updatePrice =>
          obtain ⟨read, i, result, board, hread, hlookup, hready, hsubmit, rfl⟩ :=
            judgeUpdate_eq_ok hjudge
          exact .updated hmethod hread hlookup hready hsubmit

end Hub

end PriceFeed
