import DecryptorNode.Network.Router

/-! Handlers that always answer the same, and the message that exists to try them out. -/
namespace DecryptorNode.Network

/-- A message of one number. -/
structure Ping where
  n : Nat
  deriving DecidableEq, Repr

namespace Ping

def topic : String := "ping"

def ofJson? (v : Json.Value) : Option Ping := do
  match ← v.record? ["n"] with
  | [n] => return ⟨← n.natural? Chain.maxWord⟩
  | _ => none

def decode? (payload : Bytes) : Option Ping := (Json.Value.parse? payload).bind ofJson?

end Ping

def fixedHandler {μ : Type} (topic : String) (decode? : Bytes → Option μ) (verdict : Verdict)
    (result : Except NetworkError (List Outbound)) : Handler μ where
  topic := topic
  decode? := decode?
  validate _ := pure verdict
  handle _ := ExceptT.mk (pure result)

end DecryptorNode.Network
