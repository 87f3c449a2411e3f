import DecryptorNode.Chain.Failure
import DecryptorNode.Internet.Url

/-! Connecting to the chain through one of several endpoints. -/
namespace DecryptorNode.Chain

/-- What endpoints answer when they are asked for the latest block; an endpoint that cannot be
reached answers nothing. -/
abbrev Reachable := String → Option Nat

namespace Endpoint

def isSocket (endpoint : String) : Bool :=
  "ws://".toList.isPrefixOf endpoint.toList || "wss://".toList.isPrefixOf endpoint.toList

/-- An endpoint with an open connection has to be reached at once; of any other it is enough that
it is a URL. -/
def isUsable (answers : Reachable) (endpoint : String) : Bool :=
  if isSocket endpoint then (answers endpoint).isSome else Internet.Url.isAbsolute endpoint

/-- Asks the first usable endpoint for the latest block. A failure counts the usable endpoints, or
all of them if none is. -/
def connect (answers : Reachable) (endpoints : List String) : Except ChainError Nat :=
  match endpoints.filter (isUsable answers) with
  | [] => .error (.connectionFailed endpoints.length)
  | first :: others => (answers first).elim (.error (.connectionFailed (others.length + 1))) .ok

end Endpoint
end DecryptorNode.Chain
