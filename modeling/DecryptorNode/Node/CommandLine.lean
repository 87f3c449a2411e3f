/-! The command line: one option that names a file, help and the version. -/
namespace DecryptorNode.Node

/-- What the command line asks for. -/
inductive Command where
  | help : Command
  | version : Command
  | run : (file : Option String) → Command
  deriving DecidableEq, Repr

inductive UsageError where
  | unexpected : String → UsageError
  | missingValue : UsageError
  | repeated : UsageError
  | needlessValue : (option value : String) → UsageError
  deriving DecidableEq, Repr

namespace UsageError

def fileOption : String := "--config <FILE>"

def message : UsageError → String
  | .unexpected argument => "error: unexpected argument '" ++ argument ++ "' found"
  | .missingValue => "error: a value is required for '" ++ fileOption ++ "' but none was supplied"
  | .repeated => "error: the argument '" ++ fileOption ++ "' cannot be used multiple times"
  | .needlessValue option value => "error: unexpected value '" ++ value ++ "' for '" ++ option ++
      "' found; no more were expected"

end UsageError

namespace CommandLine

def helpText : String :=
  "Usage: rust-shutter-node [OPTIONS]\n\nOptions:\n" ++
  "  -c, --config <FILE>  Sets a custom config file (.toml format)\n" ++
  "  -h, --help           Print help\n" ++
  "  -V, --version        Print version\n"

def versionNumber : String := "0.1.0"

def versionText : String := "Rust Shutter Node " ++ versionNumber ++ "\n"

/-- An option that names a file and has been met: it waits for the name, or has it but has not
been settled. -/
inductive Pending where
  | nothing : Pending
  | waiting : Pending
  | named : String → Pending
  deriving DecidableEq, Repr

/-- The file of the options that are settled, and the option that is not. -/
structure State where
  file : Option String
  pending : Pending
  deriving DecidableEq, Repr

abbrev Step (α : Type) := Except (Except UsageError Command) α

def refuse {α : Type} (e : UsageError) : Step α := .error (.error e)

def finish {α : Type} (c : Command) : Step α := .error (.ok c)

namespace State

def name (s : State) (file : String) : Step State :=
  match s.file with
  | none => .ok ⟨some file, .nothing⟩
  | some _ => refuse .repeated

/-- Settles the option that was met before. -/
def settle (s : State) : Step State :=
  match s.pending with
  | .nothing => .ok s
  | .waiting => refuse .missingValue
  | .named file => s.name file

def meet (s : State) (file : Option String) : Step State := do
  let s ← s.settle
  match file with
  | some file => s.name file
  | none => return { s with pending := .waiting }

def conclude (s : State) (c : Command) : Step State := do
  discard s.settle
  finish c

/-- Letters of short options, of which one takes the rest as its value. -/
def short (s : State) : List Char → Step State
  | [] => .ok s
  | 'h' :: _ => s.conclude .help
  | 'V' :: _ => s.conclude .version
  | 'c' :: rest => s.meet (match rest with
    | [] => none
    | '=' :: value => some (String.ofList value)
    | value => some (String.ofList value))
  | c :: _ => refuse (.unexpected (String.ofList ['-', c]))

def long (s : State) (option : List Char) (value : Option (List Char)) : Step State :=
  let written := String.ofList ('-' :: '-' :: option)
  let flag (c : Command) : Step State :=
    match value with
    | some value => refuse (.needlessValue written (String.ofList value))
    | none => s.conclude c
  match written with
  | "--config" => s.meet (value.map String.ofList)
  | "--help" => flag .help
  | "--version" => flag .version
  | _ => refuse (.unexpected written)

def plain (s : State) (argument : String) : Step State :=
  match s.pending with
  | .waiting => .ok { s with pending := .named argument }
  | _ => refuse (.unexpected argument)

def splitValue (cs : List Char) : List Char × Option (List Char) :=
  match cs.span (· ≠ '=') with
  | (option, _ :: value) => (option, some value)
  | (option, []) => (option, none)

/-- Reads all arguments. After two dashes alone no options follow. -/
def read (s : State) : List String → Step State
  | [] => s.settle
  | argument :: rest =>
    match argument.toList with
    | ['-', '-'] =>
      match rest with
      | [] => s.settle
      | next :: _ => refuse (.unexpected next)
    | '-' :: '-' :: cs =>
      let (option, value) := splitValue cs
      (s.long option value).bind fun s => s.read rest
    | '-' :: c :: cs => (s.short (c :: cs)).bind fun s => s.read rest
    | _ => (s.plain argument).bind fun s => s.read rest

end State

/-- What arguments ask for. What decides first, from the left, decides. -/
def parse (arguments : List String) : Except UsageError Command :=
  match State.read ⟨none, .nothing⟩ arguments with
  | .ok s => .ok (.run s.file)
  | .error outcome => outcome

end CommandLine
end DecryptorNode.Node
