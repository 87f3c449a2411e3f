import DecryptorNode.Chain.Endpoint
import DecryptorNode.Config.Layers
import DecryptorNode.Config.VariableFile
import DecryptorNode.Node.CommandLine
import DecryptorNode.Node.Disk
import DecryptorNode.Node.Failure

/-! Starting a node: its configuration, its log, its database and its access to the chain, one
after the other. -/
namespace DecryptorNode.Node

open Config (Configuration Environment Surroundings Variable)

/-- The machine that a node runs on: its files and variables, its network addresses, its disk, and
the endpoints that it can reach. -/
structure Machine where
  surroundings : Surroundings
  hasAddress : Internet.SocketAddress → Bool
  disk : Disk
  answers : Chain.Reachable

def variableFile : String := ".env"

def withVariableFile (s : Surroundings) : Surroundings :=
  match s.files.find variableFile with
  | .document text => { s with variableList := Config.VariableFile.load text s.variableList }
  | _ => s

/-- A node that is ready to run, and the latest block when it was. -/
structure Ready where
  environment : Environment
  configuration : Configuration
  head : Nat
  deriving DecidableEq

def start (m : Machine) (file : Option String) : Except NodeError Ready := do
  let surroundings := withVariableFile m.surroundings
  let (environment, configuration) ← (Config.load surroundings file).mapError .config
  let directives := Variable.find? surroundings.variableList Logging.variableName
  discard ((Logging.start m.hasAddress directives configuration.log configuration.metrics).mapError
    .log)
  discard ((m.disk.connect (.ofRepository configuration.repository)).mapError .store)
  let head ←
    (Chain.Endpoint.connect m.answers configuration.blockchain.rpcEndpoints).mapError .chain
  return ⟨environment, configuration, head⟩

/-- What becomes of a command line. -/
inductive Launch where
  | shown : String → Launch
  | refused : UsageError → Launch
  | failed : NodeError → Launch
  | running : Ready → Launch
  deriving DecidableEq

def launch (m : Machine) (arguments : List String) : Launch :=
  match CommandLine.parse arguments with
  | .error e => .refused e
  | .ok .help => .shown CommandLine.helpText
  | .ok .version => .shown CommandLine.versionText
  | .ok (.run file) =>
    match start m file with
    | .error e => .failed e
    | .ok ready => .running ready

/-- The code that a program ends with: zero if all is well, another for arguments that are not
understood than for a failure. -/
def Launch.exitCode : Launch → UInt32
  | .shown _ | .running _ => 0
  | .failed _ => 1
  | .refused _ => 2

end DecryptorNode.Node
