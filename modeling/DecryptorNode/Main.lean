import DecryptorNode.Node.Start

/-! The program: it reads its surroundings, gets a node ready and says why it cannot. -/
namespace DecryptorNode

open Config (Files Variable)

def readText (path : String) : IO (Option String) := do
  try return some (← IO.FS.readFile path)
  catch _ => return none

def readFiles (paths : List String) : IO Files := do
  let found ← paths.filterMapM fun path => do return (← readText path).map fun text => (path, text)
  return .ofPaths found

def readVariables : IO (List Variable) := do
  return ((← readText "/proc/self/environ").map Variable.ofBlock).getD []

def requested (arguments : List String) : List String :=
  match Node.CommandLine.parse arguments with
  | .ok (.run (some file)) => [file]
  | _ => []

/-- The machine as far as it can be seen from here; no network is. -/
def observe (arguments : List String) : IO Node.Machine := do
  let files ← readFiles (Node.variableFile :: Config.usualFile :: requested arguments)
  let disk : Node.Disk := ⟨fun path => files.find path = .directory,
    fun path => files.find path ≠ .absent, []⟩
  return ⟨⟨files, ← readVariables⟩, Internet.SocketAddress.isLocal, disk, fun _ => none⟩

end DecryptorNode

open DecryptorNode in
def main (arguments : List String) : IO UInt32 := do
  let outcome := Node.launch (← observe arguments) arguments
  match outcome with
  | .shown text => IO.print text
  | .refused e => IO.eprintln e.message
  | .failed e => IO.eprintln ("Failed to start node: " ++ e.message)
  | .running ready => IO.println ("Node is running in " ++ ready.environment.label)
  return outcome.exitCode
