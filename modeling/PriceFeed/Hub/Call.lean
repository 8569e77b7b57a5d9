import PriceFeed.Hub

/-!
# Serving calls

The items of a payload are answered one after another. A call that fails leaves nothing behind but
its count. An update causes posts at once; a subscription is only reserved, and waits as an
activation until the reply has been handed over.
-/

namespace PriceFeed

open Json

/-- A subscription whose reply is yet to be handed over. -/
structure Activation where
  id : Nat
  account : String
  channel : Channel
  deriving DecidableEq, Repr

namespace Hub

/-! ## Updates -/

/-- The posts for a changed aggregate, ascending by subscription id on each channel. -/
def changePosts (h : Hub) (account : String) (aggregate : Aggregate) : List Post :=
  (h.subscriptions.subscribersOf (account, .price)).map (fun s =>
      ⟨s.session, .price s.id aggregate⟩)
    ++ if h.schedule = .updateDriven then
        (h.subscriptions.subscribersOf (account, .schedule)).map fun s =>
          ⟨s.session, .schedule s.id⟩
      else []

/-- Puts a changed aggregate in for commit. -/
def enqueueCommit (h : Hub) (account : String) (aggregate : Aggregate) : Hub :=
  { h with commits := h.commits.map fun q => (q.enqueue ⟨account, aggregate⟩).2 }

/-- Submits a quote for a resolved instrument and returns the posts it causes. -/
def submit (h : Hub) (publisher : Option String) (account : String) (quote : Quote) :
    Except SubmitError (List Post × Hub) :=
  (h.board.submit account publisher quote).map fun (result, board) =>
    let h := { h with board }
    let posts := if result.changed then h.changePosts account result.aggregate else []
    let h := if result.changed then h.enqueueCommit account result.aggregate else h
    (posts, (h.count (.updates result.changed)).count .submissions)

/-! ## Calls -/

/-- What handling a payload has done so far. -/
structure Progress where
  hub : Hub
  pending : List Activation := []
  posts : List Post := []

def priceEntry (i : Instrument) : Value :=
  .object [
    ("account", .string i.account),
    ("price_exponent", .int i.priceExponent),
    ("price_type", .string i.priceType.name)]

/-- All products with their instruments, in catalog order. -/
def productList (h : Hub) : Value :=
  .array <| h.registry.products.map fun p =>
    .object [
      ("account", .string p.account),
      ("attr_dict", .object (p.attributes.map fun (name, text) => (name, .string text))),
      ("price", .array <| p.instruments.filterMap fun account =>
        (h.registry.lookup account).toOption.map priceEntry)]

def subscriptionResult (id : Nat) : Value := .object [("subscription", .int id)]

def subscribe (p : Progress) (channel : Channel) (params : Option Value) :
    Except RpcError (Value × Progress) := do
  let params ← SubscribeParams.read params
  let instrument ← (p.hub.registry.lookup params.account).mapError (·.toRpc)
  let (id, subscriptions) := p.hub.subscriptions.reserve
  return (subscriptionResult id,
    { p with
      hub := { p.hub with subscriptions }
      pending := p.pending ++ [⟨id, instrument.account, channel⟩] })

def updatePrice (p : Progress) (publisher : Option String) (params : Option Value) :
    Except RpcError (Value × Progress) := do
  let params ← UpdateParams.read params
  let instrument ← (p.hub.registry.lookup params.account).mapError (·.toRpc)
  if !p.hub.isReady then throw .notReady
  let (posts, hub) ← (p.hub.submit publisher instrument.account params.quote).mapError (·.toRpc)
  return (.int 0, { p with hub, posts := p.posts ++ posts })

/-- Serves a method. -/
def serve (p : Progress) (publisher : Option String) (method : Method) (params : Option Value) :
    Except RpcError (Value × Progress) :=
  match method with
  | .getProductList => .ok (p.hub.productList, p)
  | .subscribePrice => subscribe p .price params
  | .subscribePriceSched => subscribe p .schedule params
  | .updatePrice => updatePrice p publisher params

/-- Answers a request; a failed one leaves nothing but its count behind. -/
def call (p : Progress) (publisher : Option String) (request : Request) :
    Except RpcError Value × Progress :=
  match Method.ofName? request.method with
  | none => (.error .methodNotFound, p)
  | some method =>
    let p := { p with hub := p.hub.count (.requests method) }
    match serve p publisher method request.params with
    | .ok (result, p) => (.ok result, p)
    | .error e => (.error e, p)

/-- Answers an item of a payload. -/
def answer (p : Progress) (publisher : Option String) (item : Envelope) : Response × Progress :=
  let (id, outcome, p) : Value × Except RpcError Value × Progress :=
    match item with
    | .invalid id => (id, .error .invalidRequest, p)
    | .call request =>
      let (outcome, p) := call p publisher request
      (request.id, outcome, p)
  match outcome with
  | .ok _ => (⟨id, outcome⟩, p)
  | .error e => (⟨id, outcome⟩, { p with hub := p.hub.count (.errors e) })

def answerAll (p : Progress) (publisher : Option String) :
    List Envelope → List Response × Progress
  | [] => ([], p)
  | item :: rest =>
    let (response, p) := answer p publisher item
    let (responses, p) := answerAll p publisher rest
    (response :: responses, p)

end Hub

end PriceFeed
