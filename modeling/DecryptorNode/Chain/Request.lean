import DecryptorNode.Chain.Abi

/-! What the node asks of the chain. -/
namespace DecryptorNode.Chain

/-- The two sequences of address lists that configurations refer to by index. -/
inductive AddressSet where
  | keypers : AddressSet
  | decryptors : AddressSet
  deriving DecidableEq, Repr

def AddressSet.label : AddressSet → String
  | .keypers => "keypers"
  | .decryptors => "decryptors"

inductive Request where
  | head : Request
  | logs : (first last : Nat) → List Address → List Topic → Request
  | call : Address → Bytes → Request
  deriving DecidableEq

/-- The selector of getAddrs(uint64). -/
def getAddrsSelector : Bytes := [0x14, 0x9C, 0x0A, 0x90]

def getAddrsCall (index : Nat) : Bytes := getAddrsSelector ++ Abi.encodeNumber index

end DecryptorNode.Chain
