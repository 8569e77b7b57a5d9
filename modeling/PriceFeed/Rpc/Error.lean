import PriceFeed.Board

/-!
# Protocol errors

What a peer is told when a request fails: a code and a message. Errors of the registry and of the
board are told as protocol errors.
-/

namespace PriceFeed

inductive RpcError where
  | parseError
  | invalidRequest
  | methodNotFound
  | invalidParams
  | unknownSymbol
  | missingPermission
  | notReady
  deriving DecidableEq, Repr

def RpcError.code : RpcError → Int
  | parseError => -32700
  | invalidRequest => -32600
  | methodNotFound => -32601
  | invalidParams => -32602
  | unknownSymbol => -32000
  | missingPermission => -32001
  | notReady => -32002

def RpcError.message : RpcError → String
  | parseError => "parse error"
  | invalidRequest => "invalid request"
  | methodNotFound => "method not found"
  | invalidParams => "invalid params"
  | unknownSymbol => "unknown symbol"
  | missingPermission => "missing publish permission"
  | notReady => "not ready to publish"

def SubmitError.toRpc : SubmitError → RpcError
  | unknownInstrument _ => .unknownSymbol
  | unauthorized _ _ => .missingPermission
  | invalidParams _ => .invalidParams

def RegistryError.toRpc : RegistryError → RpcError
  | _ => .unknownSymbol

end PriceFeed
