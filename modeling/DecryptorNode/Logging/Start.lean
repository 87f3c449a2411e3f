import DecryptorNode.Config.Logging
import DecryptorNode.Logging.Directive

/-! Starting the log and the server of metrics. -/
namespace DecryptorNode.Logging

open Config (LogSettings MetricsSettings)
open Internet (SocketAddress)

inductive LogError where
  | invalidLevel : String → LogError
  | metricsServer : SocketAddress → LogError
  deriving DecidableEq, Repr

def LogError.message : LogError → String
  | .invalidLevel level => "Invalid log level directive \x60" ++ level ++ "\x60"
  | .metricsServer address => "Failed to start Prometheus exporter on " ++ address.text

/-- The directives in force: those of the environment if they are well formed, else those of the
settings. -/
def filter (environment : Option String) (settings : LogSettings) : Except LogError String :=
  match environment.filter isFilter with
  | some directives => .ok directives
  | none =>
    if isFilter settings.level then .ok settings.level else .error (.invalidLevel settings.level)

/-- Starts the log, then the server of metrics if it is wanted, on an address that the machine may
have or not. The directives in force are the result. -/
def start (hasAddress : SocketAddress → Bool) (environment : Option String) (log : LogSettings)
    (metrics : MetricsSettings) : Except LogError String := do
  let directives ← filter environment log
  if metrics.enabled && !hasAddress metrics.bindAddress then
    .error (.metricsServer metrics.bindAddress)
  else return directives

def variableName : String := "RUST_LOG"

end DecryptorNode.Logging
