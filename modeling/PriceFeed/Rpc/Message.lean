import PriceFeed.Json.Writer
import PriceFeed.Rpc.Error

/-!
# Messages to peers

A peer gets replies to its payloads, and notifications of its subscriptions. A response holds
either a result, which may be null, or an error, and the id of its request.
-/

namespace PriceFeed

open Json

def protocolVersion : String := "2.0"

structure Response where
  id : Value
  outcome : Except RpcError Value

/-- The answer to a payload: one response, or one for each item of a batch. -/
inductive Reply where
  | single (response : Response)
  | batch (responses : List Response)

inductive Message where
  | reply (r : Reply)
  | price (subscription : Nat) (aggregate : Aggregate)
  | schedule (subscription : Nat)

/-! ## Wire form -/

def RpcError.toJson (e : RpcError) : Value :=
  .object [("code", .int e.code), ("message", .string e.message)]

def Response.toJson (r : Response) : Value :=
  .object [
    ("jsonrpc", .string protocolVersion),
    (match r.outcome with
      | .ok result => ("result", result)
      | .error e => ("error", e.toJson)),
    ("id", r.id)]

def Reply.toJson : Reply → Value
  | single r => r.toJson
  | batch rs => .array (rs.map Response.toJson)

def Aggregate.toJson (a : Aggregate) : Value :=
  .object [
    ("price", .int a.price),
    ("conf", .int a.conf),
    ("status", .string a.status.name),
    ("twap", .int a.twap),
    ("twac", .int a.twac)]

def notification (method : String) (params : Value) : Value :=
  .object [("jsonrpc", .string protocolVersion), ("method", .string method), ("params", params)]

def Message.toJson : Message → Value
  | reply r => r.toJson
  | price id a =>
    notification "notify_price" (.object [("subscription", .int id), ("result", a.toJson)])
  | schedule id => notification "notify_price_sched" (.object [("subscription", .int id)])

/-- The text sent to the peer. -/
def Message.render (m : Message) : String := m.toJson.render

end PriceFeed
