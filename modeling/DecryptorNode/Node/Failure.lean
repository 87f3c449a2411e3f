import DecryptorNode.Config.Failure
import DecryptorNode.Logging.Start
import DecryptorNode.Sync.Failure

/-! Why a node stops. -/
namespace DecryptorNode.Node

inductive NodeError where
  | config : Config.ConfigError → NodeError
  | log : Logging.LogError → NodeError
  | store : Store.StoreError → NodeError
  | chain : Chain.ChainError → NodeError
  | sync : Sync.SyncError → NodeError
  deriving DecidableEq

/-- The message; what the database itself reports is not repeated. -/
def NodeError.message : NodeError → String
  | .config e => "Configuration error: " ++ e.message
  | .log e => "Logger error: " ++ e.message
  | .store _ => "Repository error"
  | .chain e => "Blockchain error: " ++ e.message
  | .sync e => "Synchronization error: " ++ e.message

end DecryptorNode.Node
