import DecryptorNode.Telemetry.Activity

/-! Reading the address lists that configurations refer to. -/
namespace DecryptorNode.Chain

/-- What comes back: a list, a failure, or nothing ever. -/
inductive AddressReply where
  | addresses : List Address → AddressReply
  | failed : ChainError → AddressReply
  | stalled : AddressReply
  deriving DecidableEq

def AddressReply.succeeded : AddressReply → Bool
  | .addresses _ => true
  | _ => false

/-- A reply with what was done to get it, in order. -/
structure AddressAnswer where
  activity : List Telemetry.Activity
  reply : AddressReply

/-- A source of address lists, a fixed function of set and index. -/
abbrev AddressReader := AddressSet → Nat → AddressAnswer

end DecryptorNode.Chain
