import DecryptorNode.Config.Failure
import DecryptorNode.Config.Logging

/-! The settings of a node as a whole. -/
namespace DecryptorNode.Config

/-- All settings as they are written. -/
structure Settings where
  environment : String
  instanceId : Nat
  log : LogSettings
  metrics : MetricsSettings
  repository : RepositorySettings
  blockchain : BlockchainSettings
  deriving DecidableEq, Repr

/-- What a node runs with. -/
structure Configuration where
  instanceId : Nat
  log : LogSettings
  metrics : MetricsSettings
  repository : Repository
  blockchain : Blockchain
  deriving DecidableEq

namespace Settings

def blank : Settings :=
  ⟨"", 0, ⟨"", .pretty⟩, .blank, .blank, .blank⟩

def readNode : Reader Nat :=
  Reader.record 0 [.required "instance_id" (Reader.natural Chain.maxWord) fun v _ => v]

def fields : List (Reader.Field Settings) :=
  [.required "environment" Reader.text fun v s => { s with environment := v },
    .required "node" readNode fun v s => { s with instanceId := v },
    .required "logger" LogSettings.read fun v s => { s with log := v },
    .required "telemetry" MetricsSettings.readTelemetry fun v s => { s with metrics := v },
    .required "repository" RepositorySettings.read fun v s => { s with repository := v },
    .required "blockchain" BlockchainSettings.read fun v s => { s with blockchain := v }]

def read : Reader Settings := Reader.record blank fields

def toValue (s : Settings) : Value :=
  .table (Entries.ofList [("environment", .text s.environment),
    ("node", .table [("instance_id", .natural s.instanceId)]), ("logger", s.log.toValue),
    ("telemetry", .table [("metrics", s.metrics.toValue)]), ("repository", s.repository.toValue),
    ("blockchain", s.blockchain.toValue)])

/-- Settles the database first, then the chain. -/
def resolve (s : Settings) : Except ConfigError Configuration := do
  let repository ← s.repository.resolve.mapError .repository
  let blockchain ← s.blockchain.resolve.mapError .blockchain
  return ⟨s.instanceId, s.log, s.metrics, repository, blockchain⟩

end Settings
end DecryptorNode.Config
