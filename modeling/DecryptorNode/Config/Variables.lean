import DecryptorNode.Config.Literal

/-! Settings in environment variables. The name of a variable is a path of keys. -/
namespace DecryptorNode.Config

/-- A variable of the environment. -/
structure Variable where
  name : String
  value : String
  deriving DecidableEq, Repr

namespace Variable

/-- What the names of variables with settings begin with, in any case. -/
def marker : List Char := "shutter_".toList

def withDots : List Char → List Char
  | '_' :: '_' :: rest => '.' :: withDots rest
  | c :: rest => c :: withDots rest
  | [] => []

/-- The keys that a name leads through. Case does not matter. Names with another beginning and
names that leave a key empty hold no settings. -/
def path? (v : Variable) : Option (List String) := do
  let rest ← Text.after? marker ((Text.trim v.name.toList).map Char.toLower)
  let keys := (Text.trim (withDots rest)).splitOn '.'
  if [] ∈ keys then none else some (keys.map String.ofList)

def setting? (v : Variable) : Option Value :=
  v.path?.map fun path =>
    .nested path (Literal.parse (String.ofList (Text.trim v.value.toList)))

/-- The settings of all variables; a later one covers an earlier one. -/
def settings (environment : List Variable) : Value :=
  (environment.filterMap setting?).foldl Value.overlay (.table [])

/-- The variables in a block of text, with a null character after each. -/
def ofBlock (block : String) : List Variable :=
  (block.splitOn "\x00").filterMap fun entry =>
    match entry.toList.span (· ≠ '=') with
    | (name, '=' :: value) => some ⟨String.ofList name, String.ofList value⟩
    | _ => none

def find? (environment : List Variable) (name : String) : Option String :=
  (environment.find? (·.name = name)).map (·.value)

end Variable
end DecryptorNode.Config
