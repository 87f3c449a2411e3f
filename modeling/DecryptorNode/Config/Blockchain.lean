import DecryptorNode.Chain.ContractReader
import DecryptorNode.Chain.Follower
import DecryptorNode.Config.Reader

/-! Settings of the access to the chain, and the contracts and limits that they come to. -/
namespace DecryptorNode.Config

open Chain (Address FollowPlan SequenceContracts WatchedContracts)

/-- The settings as they are written. -/
structure BlockchainSettings where
  rpcEndpoints : List String
  keypersConfigList : String
  decryptorsConfigList : String
  keypers : String
  decryptors : String
  publicKeyRegistry : String
  signatureRegistry : String
  finalityOffset : Nat
  pollInterval : Nat
  maxBlocksPerFetch : Nat
  eventBuffer : Nat
  callTimeout : Nat
  deriving DecidableEq, Repr

/-- Access to the chain. Times are in milliseconds. -/
structure Blockchain where
  rpcEndpoints : List String
  plan : FollowPlan
  sequences : SequenceContracts
  pollInterval : Nat
  eventBuffer : Nat
  deriving DecidableEq

inductive BlockchainFault where
  | noEndpoints : BlockchainFault
  | noBlocksPerFetch : BlockchainFault
  | noEventBuffer : BlockchainFault
  | invalidAddress : (field value : String) → BlockchainFault
  | sharedRegistry : BlockchainFault
  deriving DecidableEq, Repr

def BlockchainFault.message : BlockchainFault → String
  | .noEndpoints => "Invalid configuration: rpc_endpoints must include at least one endpoint"
  | .noBlocksPerFetch => "Invalid configuration: max_blocks_per_fetch must be greater than 0"
  | .noEventBuffer => "Invalid configuration: event_buffer must be greater than 0"
  | .invalidAddress field value => "Invalid address for " ++ field ++ ": " ++ value
  | .sharedRegistry =>
    "Invalid configuration: BLS public key and signature registries must be distinct contracts"

namespace BlockchainSettings

def blank : BlockchainSettings := ⟨[], "", "", "", "", "", "", 0, 0, 0, 0, 0⟩

def word : Reader Nat := Reader.natural Chain.maxWord

def fields : List (Reader.Field BlockchainSettings) :=
  [.defaulting "rpc_endpoints" (Reader.list Reader.text) [] fun v s => { s with rpcEndpoints := v },
    .required "keypers_config_list_address" Reader.text fun v s =>
      { s with keypersConfigList := v },
    .required "decryptors_config_list_address" Reader.text fun v s =>
      { s with decryptorsConfigList := v },
    .required "keypers_address" Reader.text fun v s => { s with keypers := v },
    .required "decryptors_address" Reader.text fun v s => { s with decryptors := v },
    .required "bls_public_key_registry_address" Reader.text fun v s =>
      { s with publicKeyRegistry := v },
    .required "bls_signature_registry_address" Reader.text fun v s =>
      { s with signatureRegistry := v },
    .required "finality_offset" word fun v s => { s with finalityOffset := v },
    .required "poll_interval_ms" word fun v s => { s with pollInterval := v },
    .required "max_blocks_per_fetch" word fun v s => { s with maxBlocksPerFetch := v },
    .required "event_buffer" word fun v s => { s with eventBuffer := v },
    .required "contract_call_timeout_ms" word fun v s => { s with callTimeout := v }]

def read : Reader BlockchainSettings := Reader.record blank fields

def toValue (s : BlockchainSettings) : Value :=
  .table (Entries.ofList [("rpc_endpoints", .list (s.rpcEndpoints.map .text)),
    ("keypers_config_list_address", .text s.keypersConfigList),
    ("decryptors_config_list_address", .text s.decryptorsConfigList),
    ("keypers_address", .text s.keypers), ("decryptors_address", .text s.decryptors),
    ("bls_public_key_registry_address", .text s.publicKeyRegistry),
    ("bls_signature_registry_address", .text s.signatureRegistry),
    ("finality_offset", .natural s.finalityOffset), ("poll_interval_ms", .natural s.pollInterval),
    ("max_blocks_per_fetch", .natural s.maxBlocksPerFetch),
    ("event_buffer", .natural s.eventBuffer),
    ("contract_call_timeout_ms", .natural s.callTimeout)])

def address (field value : String) : Except BlockchainFault Address :=
  (Address.parse? value).elim (.error (.invalidAddress field value)) .ok

/-- The contracts whose events are followed; the two registries must differ. -/
def watched (s : BlockchainSettings) : Except BlockchainFault WatchedContracts := do
  let keypers ← address "keypers_config_list_address" s.keypersConfigList
  let decryptors ← address "decryptors_config_list_address" s.decryptorsConfigList
  let publicKeys ← address "bls_public_key_registry_address" s.publicKeyRegistry
  let signatures ← address "bls_signature_registry_address" s.signatureRegistry
  if publicKeys = signatures then .error .sharedRegistry
  else return ⟨keypers, decryptors, publicKeys, signatures⟩

def resolve (s : BlockchainSettings) : Except BlockchainFault Blockchain :=
  if s.rpcEndpoints = [] then .error .noEndpoints
  else if s.maxBlocksPerFetch = 0 then .error .noBlocksPerFetch
  else if s.eventBuffer = 0 then .error .noEventBuffer
  else do
    let watched ← s.watched
    let keypers ← address "keypers_address" s.keypers
    let decryptors ← address "decryptors_address" s.decryptors
    return ⟨s.rpcEndpoints, ⟨watched, s.finalityOffset, s.maxBlocksPerFetch⟩,
      ⟨keypers, decryptors, s.callTimeout⟩, s.pollInterval, s.eventBuffer⟩

end BlockchainSettings
end DecryptorNode.Config
