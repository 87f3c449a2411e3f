import DecryptorNode.Config.Variables

/-! Variables in a file, one to a line. They fill in what the environment does not set. -/
namespace DecryptorNode.Config.VariableFile

open Text (exactly)

inductive Quote where
  | unquoted : Quote
  | single : Quote
  | double : Quote
  deriving DecidableEq, Repr

/-- A name whose value is put in its place: bare letters and digits, or anything in braces. -/
inductive Mention where
  | absent : Mention
  | bare : List Char → Mention
  | braced : List Char → Mention
  deriving DecidableEq, Repr

/-- A value as far as it has been read. Names and the value are in reverse. -/
structure Progress where
  quote : Quote
  escaped : Bool
  ended : Bool
  mention : Mention
  value : List Char
  deriving DecidableEq, Repr

namespace Progress

def initial : Progress := ⟨.unquoted, false, false, .absent, []⟩

def add (p : Progress) (c : Char) : Progress := { p with value := c :: p.value }

def escape? (c : Char) : Option Char :=
  if c ∈ ['\\', '\'', '"', '$', ' '] then some c else if c = 'n' then some '\n' else none

def substitute (value? : String → Option String) (name : List Char) (p : Progress) : Progress :=
  let found := ((value? (String.ofList name.reverse)).getD "").toList
  { p with mention := .absent, value := found.reverse ++ p.value }

def ordinary (p : Progress) (c : Char) : Progress :=
  match p.quote with
  | .single => if c = '\'' then { p with quote := .unquoted } else p.add c
  | .double =>
    if c = '$' then { p with mention := .bare [] }
    else if c = '"' then { p with quote := .unquoted }
    else if c = '\\' then { p with escaped := true }
    else p.add c
  | .unquoted =>
    if c = '$' then { p with mention := .bare [] }
    else if c = '\'' then { p with quote := .single }
    else if c = '"' then { p with quote := .double }
    else if c = '\\' then { p with escaped := true }
    else if c = ' ' || c = '\t' then { p with ended := true }
    else p.add c

/-- Reads one character. After the end only spaces may follow; a comment is cut off before. -/
def step? (value? : String → Option String) (p : Progress) (c : Char) : Option Progress :=
  if p.ended then if c = ' ' || c = '\t' then some p else none
  else if p.escaped then (escape? c).map fun d => { p.add d with escaped := false }
  else match p.mention with
    | .absent => some (p.ordinary c)
    | .bare name =>
      if c.isAlphanum then some { p with mention := .bare (c :: name) }
      else if c = '{' && name.isEmpty then some { p with mention := .braced [] }
      else
        let p := p.substitute value? name
        some (if c = '$' then { p with mention := .bare [] } else p.add c)
    | .braced name =>
      some (if c = '}' then p.substitute value? name else { p with mention := .braced (c :: name) })

def run? (value? : String → Option String) : Progress → List Char → Option Progress
  | p, [] => some p
  | p, c :: rest =>
    if p.ended && c = '#' then some p else (p.step? value? c).bind fun p => run? value? p rest

def result? (value? : String → Option String) (p : Progress) : Option String :=
  match p.quote, p.mention with
  | .unquoted, .absent => some (String.ofList p.value.reverse)
  | .unquoted, .bare name => some (String.ofList (p.substitute value? name).value.reverse)
  | _, _ => none

end Progress

def skipBlank (cs : List Char) : List Char := cs.dropWhile Text.isBlank

/-- A name: letters, digits, underscores and dots, of which the first is no digit and no dot. -/
def name : Text.Scan String
  | [] => none
  | c :: rest =>
    if c.isAlpha || c = '_' then
      let (more, rest) := rest.span fun d => d.isAlphanum || d = '_' || d = '.'
      some (String.ofList (c :: more), skipBlank rest)
    else none

def assignment : Text.Scan String := fun cs => do
  let (first, rest) ← name cs
  match first, exactly '=' rest with
  | _, some ((), rest) => some (first, skipBlank rest)
  | "export", none => do
    let (second, rest) ← name rest
    let ((), rest) ← exactly '=' rest
    return (second, skipBlank rest)
  | _, none => none

def assigned? (environment : List Variable) (cs : List Char) : Option Variable := do
  let (name, rest) ← assignment cs
  if rest.isEmpty || rest.head? == some '#' then return ⟨name, ""⟩
  else
    let value? := Variable.find? environment
    let p ← Progress.initial.run? value? rest
    return ⟨name, ← p.result? value?⟩

/-- Adds the variables of lines to an environment, up to the first line that makes no sense. -/
def extend (environment : List Variable) : List (List Char) → List Variable
  | [] => environment
  | line :: rest =>
    match skipBlank line with
    | [] => extend environment rest
    | '#' :: _ => extend environment rest
    | cs =>
      match assigned? environment cs with
      | none => environment
      | some v =>
        if (Variable.find? environment v.name).isSome then extend environment rest
        else extend (environment ++ [v]) rest

def withoutReturn (line : List Char) : List Char :=
  if line.getLast? = some '\r' then line.dropLast else line

def load (document : String) (environment : List Variable) : List Variable :=
  extend environment ((document.toList.splitOn '\n').map withoutReturn)

end DecryptorNode.Config.VariableFile
