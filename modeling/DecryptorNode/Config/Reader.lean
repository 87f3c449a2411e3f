import DecryptorNode.Config.Value

/-! Reading typed settings out of configuration values. The first thing that is wrong, in the
order of the keys, ends the reading and is reported with the path to it. -/
namespace DecryptorNode.Config

/-- What is wrong with a value. -/
inductive Flaw where
  | message : Flaw
  | invalidType : Flaw
  | invalidValue : Flaw
  | invalidLength : Flaw
  | unknownVariant : String → Flaw
  | unknownField : String → Flaw
  | missingField : String → Flaw
  deriving DecidableEq, Repr

def Flaw.name? : Flaw → Option String
  | .unknownVariant name => some name
  | .unknownField name => some name
  | .missingField name => some name
  | _ => none

/-- A flaw and the keys that lead to it, the outermost first. -/
structure LoadError where
  flaw : Flaw
  path : List String
  deriving DecidableEq, Repr

namespace LoadError

def here (flaw : Flaw) : LoadError := ⟨flaw, []⟩

def under (key : String) (e : LoadError) : LoadError := { e with path := key :: e.path }

def dottedPath (e : LoadError) : String := ".".intercalate e.path

end LoadError

/-- Where a value comes from. A document is exact: arrays that stand for records have all their
fields and no more, and a choice may be written as a table with nothing in it. In layers a
natural number may stand for a choice by its place. -/
inductive Origin where
  | document : Origin
  | layers : Origin
  deriving DecidableEq, Repr

abbrev Reader (α : Type) := Origin → Value → Except LoadError α

namespace Reader
variable {α σ : Type}

def fail (flaw : Flaw) : Except LoadError α := .error (.here flaw)

def under (key : String) : Except LoadError α → Except LoadError α
  | .ok a => .ok a
  | .error e => .error (e.under key)

def flag : Reader Bool
  | _, .flag b => .ok b
  | _, _ => fail .invalidType

def natural (limit : Nat) : Reader Nat
  | _, .natural n => if n ≤ limit then .ok n else fail .invalidValue
  | _, .integer i => if 0 ≤ i ∧ i ≤ limit then .ok i.toNat else fail .invalidValue
  | _, _ => fail .invalidType

def text : Reader String
  | _, .text s => .ok s
  | _, .letter c => .ok (String.singleton c)
  | _, _ => fail .invalidType

def textAs (parse? : String → Option α) : Reader α := fun origin v =>
  match text origin v with
  | .ok s => (parse? s).elim (fail .message) .ok
  | .error e => .error e

def optional (read : Reader α) : Reader (Option α)
  | _, .null => .ok none
  | origin, v => some <$> read origin v

def elements (read : Reader α) (origin : Origin) : (position : Nat) → List Value →
    Except LoadError (List α)
  | _, [] => .ok []
  | i, v :: rest => do
    let a ← under (toString i) (read origin v)
    return a :: (← elements read origin (i + 1) rest)

def list (read : Reader α) : Reader (List α)
  | origin, .list values => elements read origin 0 values
  | _, _ => fail .invalidType

def variant (choices : List (String × α)) (name : String) : Except LoadError α :=
  (Entries.find? name choices).elim (fail (.unknownVariant name)) .ok

def choice (choices : List (String × α)) : Reader α
  | _, .text name => variant choices name
  | .document, .table [(name, .null)] => variant choices name
  | .layers, .table ((name, _) :: _) =>
    under name ((variant choices name).bind fun _ => fail .invalidType)
  | .layers, .natural n =>
    if n < 2 ^ 32 then (choices[n]?).elim (fail .invalidValue) fun c => .ok c.2
    else fail .invalidType
  | _, _ => fail .invalidType

/-- A field of a record: how its value is read into a record, and what holds without one. -/
structure Field (σ : Type) where
  name : String
  read : Origin → Value → σ → Except LoadError σ
  absent : σ → Option σ

namespace Field

def required (name : String) (read : Reader α) (set : α → σ → σ) : Field σ where
  name := name
  read origin v record := (set · record) <$> read origin v
  absent _ := none

def defaulting (name : String) (read : Reader α) (fallback : α) (set : α → σ → σ) : Field σ where
  name := name
  read origin v record := (set · record) <$> read origin v
  absent record := some (set fallback record)

end Field

/-- Reads the entries of a table in the order of their keys. -/
def visit (fields : List (Field σ)) (origin : Origin) : Entries → σ → Except LoadError σ
  | [], record => .ok record
  | (key, v) :: rest, record => do
    let record ← under key (match fields.find? (·.name = key) with
      | some field => field.read origin v record
      | none => fail (.unknownField key))
    visit fields origin rest record

/-- Settles the fields that a table leaves out, in their own order. -/
def complete (entries : Entries) : List (Field σ) → σ → Except LoadError σ
  | [], record => .ok record
  | field :: rest, record =>
    match Entries.find? field.name entries with
    | some _ => complete entries rest record
    | none =>
      match field.absent record with
      | some record => complete entries rest record
      | none => fail (.missingField field.name)

/-- Reads an array whose elements are the fields in their own order. -/
def positional (origin : Origin) : (position : Nat) → List (Field σ) → List Value → σ →
    Except LoadError σ
  | _, [], [], record => .ok record
  | _, [], _ :: _, record =>
    match origin with
    | .document => fail .invalidLength
    | .layers => .ok record
  | _, _ :: _, [], _ => fail .invalidLength
  | i, field :: fields, v :: rest, record => do
    let record ← under (toString i) (field.read origin v record)
    positional origin (i + 1) fields rest record

/-- A record, from a table or an array. Every field is set or the reading fails, so nothing of
the blank record remains. -/
def record (blank : σ) (fields : List (Field σ)) : Reader σ
  | origin, .table entries => do
    let found ← visit fields origin entries blank
    complete entries fields found
  | origin, .list values => positional origin 0 fields values blank
  | _, _ => fail .invalidType

end Reader
end DecryptorNode.Config
