import DecryptorNode.Chain.Abi
import DecryptorNode.Chain.Failure

/-! Logs of the watched contracts and the events that they carry. -/
namespace DecryptorNode.Chain

/-- The contracts whose events configure the node. -/
structure WatchedContracts where
  keyperConfigs : Address
  decryptorConfigs : Address
  publicKeyRegistry : Address
  signatureRegistry : Address
  deriving DecidableEq

def WatchedContracts.addresses (c : WatchedContracts) : List Address :=
  [c.keyperConfigs, c.decryptorConfigs, c.publicKeyRegistry, c.signatureRegistry]

namespace Signature

/-- The digest of NewConfig(uint64,uint64,uint64). -/
def keyperConfig : Topic :=
  .ofNat 0xf1c5613227525376c83485d5a7995987dcfcd90512b0de33df550d2469fba9d9

/-- The digest of NewConfig(uint64,uint64). -/
def decryptorConfig : Topic :=
  .ofNat 0xf991c74e88b00b8de409caf790045f133e9a8283d3b989db88e2b2d93612c3a7

/-- The digest of Registered(address,bytes). -/
def registered : Topic :=
  .ofNat 0xb5ca2dfb0bd25603299b76fefa9fbe3abdc9f951bdfb7ffd208f93ab7f8e203c

def all : List Topic := [keyperConfig, decryptorConfig, registered]

end Signature

/-- A log as the chain reports it; its position is missing while it is pending. -/
structure Log where
  address : Address
  topics : List Topic
  data : Bytes
  block : Option Nat
  index : Option Nat
  removed : Bool
  deriving DecidableEq

/-- A new set of keypers, named by its index in the list of keyper sets. -/
structure KeyperConfig where
  activation : Nat
  index : Nat
  threshold : Nat
  deriving DecidableEq, Repr

/-- A new set of decryptors, named by its index in the list of decryptor sets. -/
structure DecryptorConfig where
  activation : Nat
  index : Nat
  deriving DecidableEq, Repr

/-- A credential that an account registered. The registry tells keys from signatures. -/
structure Registration where
  registry : Address
  account : Address
  data : Bytes
  deriving DecidableEq

inductive ChainEvent where
  | keyperConfig : KeyperConfig → ChainEvent
  | decryptorConfig : DecryptorConfig → ChainEvent
  | registered : Registration → ChainEvent
  | unknown : Address → Option Topic → ChainEvent
  deriving DecidableEq

namespace ChainEvent

def kind : ChainEvent → String
  | .keyperConfig _ => "keypers_config"
  | .decryptorConfig _ => "decryptors_config"
  | .registered _ => "registered"
  | .unknown _ _ => "unknown"

end ChainEvent

/-- The events that an address and a first topic select. -/
inductive EventShape where
  | keyperConfig : EventShape
  | decryptorConfig : EventShape
  | registered : EventShape
  deriving DecidableEq, Repr

/-- Configurations count only from their own list; registrations count from any address. -/
def EventShape.select? (contracts : WatchedContracts) (address : Address) (topic : Topic) :
    Option EventShape :=
  if address = contracts.keyperConfigs ∧ topic = Signature.keyperConfig then some .keyperConfig
  else if address = contracts.decryptorConfigs ∧ topic = Signature.decryptorConfig then
    some .decryptorConfig
  else if topic = Signature.registered then some .registered
  else none

def EventShape.read? (shape : EventShape) (address : Address) (data : Bytes) :
    Option ChainEvent :=
  match shape with
  | .keyperConfig => do
    let activation ← Abi.numberAt? data 0
    let index ← Abi.numberAt? data 32
    return .keyperConfig ⟨activation, index, ← Abi.numberAt? data 64⟩
  | .decryptorConfig => do
    let activation ← Abi.numberAt? data 0
    return .decryptorConfig ⟨activation, ← Abi.numberAt? data 32⟩
  | .registered => do
    let account ← Abi.addressAt? data 0
    return .registered ⟨address, account, ← Abi.bytesAt? data 32⟩

namespace Log

/-- The error for a log that does not hold the event it announces. It says where the log stands, and
leaves out the words in which the ABI decoder gives its reason. -/
def decodeError (log : Log) : ChainError := .decodeEvent log.address (log.block.getD 0)

/-- The event of a log. A selected shape has no indexed fields, so its signature must be the only
topic and the data must read. -/
def event (contracts : WatchedContracts) (log : Log) : Except ChainError ChainEvent :=
  match log.topics with
  | [] => .ok (.unknown log.address none)
  | topic :: others =>
    match EventShape.select? contracts log.address topic with
    | none => .ok (.unknown log.address (some topic))
    | some shape =>
      match others, shape.read? log.address log.data with
      | [], some event => .ok event
      | _, _ => .error log.decodeError

end Log
end DecryptorNode.Chain
