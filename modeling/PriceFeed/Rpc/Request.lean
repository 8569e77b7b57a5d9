import PriceFeed.Json.Value
import PriceFeed.Rpc.Error

/-!
# Requests

A payload is one request object or a batch, a non-empty array whose items are looked at one by one.
A request has an id, which is null, a boolean, a number or a string, and the name of a method; it
may have params. An item without these is invalid, and is answered under its id if it has a good
one. Other members of a request are passed over.
-/

namespace PriceFeed

open Json

/-- The methods that are served. -/
inductive Method where
  | getProductList
  | subscribePrice
  | subscribePriceSched
  | updatePrice
  deriving DecidableEq, Repr

namespace Method

def name : Method → String
  | getProductList => "get_product_list"
  | subscribePrice => "subscribe_price"
  | subscribePriceSched => "subscribe_price_sched"
  | updatePrice => "update_price"

def all : List Method := [getProductList, subscribePrice, subscribePriceSched, updatePrice]

def ofName? (s : String) : Option Method := all.find? (·.name = s)

end Method

structure Request where
  id : Value
  method : String
  params : Option Value

/-- An item of a payload. -/
inductive Envelope where
  | call (request : Request)
  /-- Not a request; `id` is the one to answer under. -/
  | invalid (id : Value)

inductive Payload where
  | single (item : Envelope)
  | batch (items : List Envelope)

/-- Null, a boolean, a number or a string. -/
def Json.Value.isScalar : Value → Bool
  | .array _ => false
  | .object _ => false
  | _ => true

/-- The id of a request object. -/
def requestId? (members : List (String × Value)) : Option Value :=
  (Keyed.get? "id" members).filter Value.isScalar

def Envelope.ofValue : Value → Envelope
  | .object members =>
    match requestId? members with
    | none => .invalid .null
    | some id =>
      match Keyed.get? "method" members with
      | some (.string method) => .call ⟨id, method, Keyed.get? "params" members⟩
      | _ => .invalid id
  | _ => .invalid .null

def Payload.ofValue : Value → Except RpcError Payload
  | .object members => .ok (.single (.ofValue (.object members)))
  | .array [] => .error .invalidRequest
  | .array items => .ok (.batch (items.map .ofValue))
  | _ => .error .invalidRequest

/-- Reads the text of a payload. -/
def Payload.decode (text : String) : Except RpcError Payload :=
  match Value.parse? text with
  | none => .error .parseError
  | some v => ofValue v

/-! ## Params -/

structure SubscribeParams where
  account : String
  deriving DecidableEq, Repr

structure UpdateParams where
  account : String
  quote : Quote
  deriving DecidableEq, Repr

/-- A status is its name, or an object with that name as its only member and the value null. -/
def Status.ofValue? : Value → Option Status
  | .string s => ofName? s
  | .object [(s, .null)] => ofName? s
  | _ => none

def SubscribeParams.ofMembers? (members : List (String × Value)) : Option SubscribeParams := do
  return ⟨← (← Keyed.get? "account" members).string?⟩

def UpdateParams.ofMembers? (members : List (String × Value)) : Option UpdateParams := do
  let account ← (← Keyed.get? "account" members).string?
  let price ← (← Keyed.get? "price" members).intIn? .signed64
  let conf ← (← Keyed.get? "conf" members).intIn? .unsigned64
  let status ← Status.ofValue? (← Keyed.get? "status" members)
  if conf ≤ Board.maxConf then some ⟨account, price, conf.toNat, status⟩ else none

/-- Params must be an object that `read` takes. -/
def readParams {α : Type} (read : List (String × Value) → Option α) : Option Value →
    Except RpcError α
  | some (.object members) =>
    match read members with
    | some a => .ok a
    | none => .error .invalidParams
  | _ => .error .invalidParams

def SubscribeParams.read : Option Value → Except RpcError SubscribeParams := readParams ofMembers?

def UpdateParams.read : Option Value → Except RpcError UpdateParams := readParams ofMembers?

end PriceFeed
