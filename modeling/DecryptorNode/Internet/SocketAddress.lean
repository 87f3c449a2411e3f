import DecryptorNode.Internet.Host

/-! The addresses that a server listens on: a host, and a number that tells its servers apart. -/
namespace DecryptorNode.Internet

open Text (Scan exactly)

/-- A host of either kind and the number of a server on it. The newer kind may name a scope; zero
is none. -/
inductive SocketAddress where
  | v4 : Host4 → (tcpPort : Nat) → SocketAddress
  | v6 : Host6 → (scope tcpPort : Nat) → SocketAddress
  deriving DecidableEq, Repr

namespace SocketAddress

def portOf? (cs : List Char) : Option Nat := do
  let ((), cs) ← exactly ':' cs
  let (tcpPort, cs) ← number 10 cs.length 0xFFFF cs
  if cs = [] then some tcpPort else none

def scopeOf? : Scan Nat
  | '%' :: cs => number 10 cs.length 0xFFFFFFFF cs
  | cs => some (0, cs)

def parse? (text : String) : Option SocketAddress :=
  match text.toList with
  | '[' :: cs => do
    let (host, cs) ← Host6.scan cs
    let (scope, cs) ← scopeOf? cs
    let ((), cs) ← exactly ']' cs
    return .v6 host scope (← portOf? cs)
  | cs => do
    let (host, cs) ← Host4.scan cs
    return .v4 host (← portOf? cs)

def text : SocketAddress → String
  | .v4 host tcpPort => host.text ++ ":" ++ toString tcpPort
  | .v6 host scope tcpPort =>
    let suffix := if scope = 0 then "" else "%" ++ toString scope
    "[" ++ host.text ++ suffix ++ "]:" ++ toString tcpPort

def isLocal4 (h : Host4) : Bool := h.a = 127 || h = ⟨0, 0, 0, 0⟩

/-- Whether any machine can listen on the address: it is a loopback address or stands for all
addresses of the machine. -/
def isLocal : SocketAddress → Bool
  | .v4 host _ => isLocal4 host
  | .v6 host _ _ =>
    match host.mapped? with
    | some inner => isLocal4 inner
    | none => host == ⟨[0, 0, 0, 0, 0, 0, 0, 0]⟩ || host == ⟨[0, 0, 0, 0, 0, 0, 0, 1]⟩

end SocketAddress
end DecryptorNode.Internet
