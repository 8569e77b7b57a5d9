import PriceFeed.Hub.Payload
import PriceFeed.Text.Utf8

/-!
# Gateway

The gateway joins connections to sessions of the hub. A connection says who publishes over it by its
query, or by a header, or not at all and then gets a default identity. Each text it sends is a
payload; so are bytes that are text. Whatever comes into a session's mailbox goes out on its
connection, and a connection ends when its peer ends it or its mailbox closes.
-/

namespace PriceFeed

/-! ## Identity -/

/-- Splits a list at each `sep`. -/
def splitAt (sep : Char) : List Char → List (List Char)
  | [] => [[]]
  | c :: rest =>
    if c = sep then [] :: splitAt sep rest
    else
      match splitAt sep rest with
      | [] => [[c]]
      | part :: parts => (c :: part) :: parts

/-- The bytes of a part of a query: a plus sign is a space, and a percent sign with two hexadecimal
digits is a byte. -/
def unescapeQuery : List Char → List UInt8
  | [] => []
  | '%' :: a :: b :: rest =>
    match Json.hexDigit? a, Json.hexDigit? b with
    | some x, some y => UInt8.ofNat (x * 16 + y) :: unescapeQuery rest
    | _, _ => '%'.toUInt8 :: unescapeQuery (a :: b :: rest)
  | c :: rest =>
    (if c = '+' then [' '.toUInt8] else c.toString.toUTF8.toList) ++ unescapeQuery rest

/-- The names and values of a query, in order. -/
def queryPairs (query : String) : List (String × String) :=
  ((splitAt '&' query.toList).filter (· ≠ [])).map fun part =>
    (Text.decodeLossy (unescapeQuery (part.takeWhile (· ≠ '='))),
      Text.decodeLossy (unescapeQuery ((part.dropWhile (· ≠ '=')).drop 1)))

/-- The text of a header value without blanks around it, if it is visible ASCII. -/
def headerText? (bytes : List UInt8) : Option String :=
  let blank : UInt8 → Bool := fun b => b == 0x20 || b == 0x09
  let body := ((bytes.dropWhile blank).reverse.dropWhile blank).reverse
  if body.all fun b => blank b || (0x21 ≤ b && b ≤ 0x7E) then
    some (String.ofList (body.map fun b => Char.ofNat b.toNat))
  else none

/-- A request to connect. -/
structure ConnectRequest where
  path : String
  query : String
  /-- The values of the identity header, in order. -/
  headers : List (List UInt8)

/-- Why a connection is refused. -/
inductive Refusal where
  | notFound
  | badRequest
  deriving DecidableEq, Repr

def Refusal.status : Refusal → Nat
  | notFound => 404
  | badRequest => 400

/-- The identity of a connection: from the query, else from the first header, else the default; an
empty one counts as none. -/
def ConnectRequest.publisher (r : ConnectRequest) (default : Option String) :
    Except Refusal (Option String) :=
  if r.path ≠ "/" then .error .notFound
  else
    match (queryPairs r.query).filter (·.1 = "publisher") with
    | _ :: _ :: _ => .error .badRequest
    | named =>
      let fromQuery := (named.head?.map (·.2)).filter (· ≠ "")
      let fromHeader := (r.headers.head?.bind headerText?).filter (· ≠ "")
      .ok (fromQuery <|> fromHeader <|> default)

/-! ## Connections -/

/-- Whether and how a connection has ended. -/
inductive LinkState where
  | live
  | endedByPeer
  | endedByHub
  deriving DecidableEq, Repr

structure Link where
  session : Nat
  state : LinkState := .live

/-- What comes in on a connection. -/
inductive Frame where
  | text (s : String)
  | binary (bytes : List UInt8)
  | ping
  | close

structure Gateway where
  hub : Hub
  defaultPublisher : Option String
  links : List Link := []

namespace Gateway

/-- The messages of each connection that has any. -/
abbrev Sent := List (Nat × List Message)

def setLink (g : Gateway) (n : Nat) (state : LinkState) : Gateway :=
  { g with links := g.links.modify n fun l => { l with state } }

/-- Sends out what has come into the mailbox of a connection, and ends it if the mailbox closed. -/
def drainLink (g : Gateway) (n : Nat) : List Message × Gateway :=
  match g.links[n]? with
  | none => ([], g)
  | some link =>
    if link.state ≠ .live then ([], g)
    else
      match g.hub.session? link.session with
      | none => ([], g)
      | some s =>
        let (messages, hub) := g.hub.receive link.session (g.hub.waiting link.session)
        let g := { g with hub }
        if s.mailbox.isClosed then
          (messages, { g with hub := g.hub.closeSession link.session }.setLink n .endedByHub)
        else (messages, g)

def drainFrom (g : Gateway) (n : Nat) : Nat → Sent × Gateway
  | 0 => ([], g)
  | count + 1 =>
    let (messages, g) := g.drainLink n
    let (sent, g) := drainFrom g (n + 1) count
    (if messages.isEmpty then sent else (n, messages) :: sent, g)

/-- Sends out what has come into all mailboxes. -/
def drain (g : Gateway) : Sent × Gateway := g.drainFrom 0 g.links.length

/-- Opens a connection and returns its number. -/
def connect (g : Gateway) (r : ConnectRequest) : Except Refusal (Nat × Gateway) :=
  (r.publisher g.defaultPublisher).map fun publisher =>
    let (session, hub) := g.hub.openSession publisher
    (g.links.length, { g with hub, links := g.links ++ [{ session }] })

/-- Handles a frame; one on a connection that has ended is lost. -/
def handle (g : Gateway) (n : Nat) (frame : Frame) : Gateway :=
  match g.links[n]? with
  | none => g
  | some link =>
    if link.state ≠ .live then g
    else
      match frame with
      | .text s => { g with hub := g.hub.handlePayload link.session s }
      | .binary bytes =>
        match Text.decode? bytes with
        | some s => { g with hub := g.hub.handlePayload link.session s }
        | none => { g with hub := g.hub.handleUnreadable link.session }
      | .ping => g
      | .close => { g with hub := g.hub.closeSession link.session }.setLink n .endedByPeer

end Gateway

end PriceFeed
