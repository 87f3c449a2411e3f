import DecryptorNode.Chain.AddressReader
import DecryptorNode.Chain.Rpc

/-! Address lists read from the two sequence contracts. -/
namespace DecryptorNode.Chain

/-- The contracts that hold the sequences, and how long a call may take in milliseconds. -/
structure SequenceContracts where
  keypers : Address
  decryptors : Address
  timeout : Nat
  deriving DecidableEq

namespace SequenceContracts

def address (c : SequenceContracts) : AddressSet → Address
  | .keypers => c.keypers
  | .decryptors => c.decryptors

def operation : String := "AddrsSeq::getAddrs"

/-- What an answer to a call means. An answer that does not hold a list is a failed call. -/
def interpret (c : SequenceContracts) : Reply Bytes → AddressReply
  | .value data =>
    match Abi.addressListAt? data 0 with
    | some addresses => .addresses addresses
    | none => .failed .contractCall
  | .failed _ => .failed .contractCall
  | .silent => .failed (.timeout operation c.timeout)

def reader (c : SequenceContracts) (answers : Address → Nat → Reply Bytes) : AddressReader :=
  fun set index =>
    let contract := c.address set
    let reply := c.interpret (answers contract index)
    ⟨[.request (.call contract (getAddrsCall index)),
      .addressQuery set (reply.succeeded)], reply⟩

end SequenceContracts
end DecryptorNode.Chain
