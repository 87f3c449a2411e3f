import DecryptorNode.Config.Toml.Atom
import DecryptorNode.Config.Toml.Texts
import DecryptorNode.Config.Toml.Tree

/-! Documents in TOML: lines of headers and of keys with values. -/
namespace DecryptorNode.Config.Toml

open Text (Scan exactly)

/-- How deep arrays and tables may stand in one another, and the most keys of a path. -/
def depthLimit : Nat := 79

def skipSpace (cs : List Char) : List Char := cs.dropWhile fun c => c = ' ' || c = '\t'

/-- The rest after spaces and a comment, if there is one. A comment goes on to the end of the line
and holds no control characters. -/
def skipComment? (cs : List Char) : Option (List Char) :=
  match skipSpace cs with
  | '#' :: comment =>
    match comment.dropWhile Text.Quoted.isPlain with
    | [] => some []
    | '\n' :: rest => some ('\n' :: rest)
    | _ => none
  | rest => some rest

def skipLines? : (steps : Nat) → List Char → Option (List Char)
  | 0, _ => none
  | steps + 1, cs => do
    match ← skipComment? cs with
    | '\n' :: rest => skipLines? steps rest
    | rest => some rest

def key : Scan String
  | '"' :: rest => Text.Quoted.text rest
  | '\'' :: rest => literal rest
  | cs => do
    let (bare, rest) ← Text.spanSome Text.isKeyPart cs
    return (String.ofList bare, rest)

def keys : (most : Nat) → Scan (List String)
  | 0, _ => none
  | most + 1, cs => do
    let (first, rest) ← key (skipSpace cs)
    match skipSpace rest with
    | '.' :: rest => do
      let (more, rest) ← keys most rest
      return (first :: more, rest)
    | rest => return ([first], rest)

/-- The elements of an array up to its end. A comma may stand after the last one. -/
def elements (element : Scan Value) : (steps : Nat) → Scan (List Value)
  | 0, _ => none
  | steps + 1, cs => do
    match ← skipLines? (cs.length + 1) cs with
    | ']' :: rest => some ([], rest)
    | cs => do
      let (v, rest) ← element cs
      match ← skipLines? (rest.length + 1) rest with
      | ',' :: rest => do
        let (more, rest) ← elements element steps rest
        return (v :: more, rest)
      | ']' :: rest => some ([v], rest)
      | _ => none

def pair (value : Scan Value) : Scan (List String × Value) := fun cs => do
  let (path, rest) ← keys depthLimit cs
  let ((), rest) ← exactly '=' rest
  let (v, rest) ← value (skipSpace rest)
  return ((path, v), rest)

def pairs (value : Scan Value) : (steps : Nat) → Scan (List (List String × Value))
  | 0, _ => none
  | steps + 1, cs => do
    let (first, rest) ← pair value cs
    match skipSpace rest with
    | ',' :: rest => do
      let (more, rest) ← pairs value steps rest
      return (first :: more, rest)
    | '}' :: rest => some ([first], rest)
    | _ => none

def inlineTable (value : Scan Value) : Scan Value := fun cs =>
  match skipSpace cs with
  | '}' :: rest => some (.table [], rest)
  | cs => do
    let (found, rest) ← pairs value (cs.length + 1) cs
    let branches ← found.foldlM (fun branches (path, v) => Branches.assign v path branches) []
    return (.table (Tree.toEntries branches), rest)

def value : (depth : Nat) → Scan Value
  | depth, '[' :: cs =>
    match depth with
    | 0 => none
    | depth + 1 => do
      let (values, rest) ← elements (value depth) (cs.length + 1) cs
      return (.list values, rest)
  | depth, '{' :: cs =>
    match depth with
    | 0 => none
    | depth + 1 => inlineTable (value depth) cs
  | _, cs =>
    match cs.head? with
    | some '"' | some '\'' => do
      let (s, rest) ← text cs
      return (.text s, rest)
    | _ => do
      let (atom, rest) := atomText cs
      return (← atom? atom, rest)

def statement : Scan Statement
  | '[' :: '[' :: cs => do
    let (path, rest) ← keys depthLimit cs
    let ((), rest) ← exactly ']' rest
    let ((), rest) ← exactly ']' rest
    return (.rowHeader path.dropLast (← path.getLast?), rest)
  | '[' :: cs => do
    let (path, rest) ← keys depthLimit cs
    let ((), rest) ← exactly ']' rest
    return (.tableHeader path.dropLast (← path.getLast?), rest)
  | cs => do
    let ((path, v), rest) ← pair (value depthLimit) cs
    return (.pair path v, rest)

def statements? : (steps : Nat) → List Char → Option (List Statement)
  | 0, _ => none
  | steps + 1, cs => do
    match ← skipLines? (cs.length + 1) cs with
    | [] => some []
    | cs => do
      let (s, rest) ← statement cs
      match ← skipComment? rest with
      | [] => some [s]
      | '\n' :: rest => return s :: (← statements? steps rest)
      | _ => none

/-- A carriage return before a line feed belongs to the end of the line. -/
def unifyLineEnds : List Char → List Char
  | [] => []
  | c :: rest =>
    match c, rest with
    | '\r', '\n' :: _ => unifyLineEnds rest
    | _, _ => c :: unifyLineEnds rest

def withoutMark : List Char → List Char
  | c :: rest => if c.toNat = 0xFEFF then rest else c :: rest
  | [] => []

def parse? (document : String) : Option Entries := do
  let cs := unifyLineEnds (withoutMark document.toList)
  let branches ← build [] (← statements? (cs.length + 1) cs) []
  return Tree.toEntries branches

end DecryptorNode.Config.Toml
