/-! Configuration values and how one layer of them covers another. -/
namespace DecryptorNode.Config

/-- A value before it is known what it stands for. A natural number came without a sign; a table
keeps its keys in order and each once. -/
inductive Value where
  | null : Value
  | flag : Bool → Value
  | natural : Nat → Value
  | integer : Int → Value
  | fraction : Value
  | letter : Char → Value
  | text : String → Value
  | list : List Value → Value
  | table : List (String × Value) → Value
  deriving Inhabited

abbrev Entries := List (String × Value)

namespace Entries
variable {α : Type}

def find? (key : String) : List (String × α) → Option α
  | [] => none
  | (k, v) :: rest => if k = key then some v else find? key rest

/-- Sets the entry of a key, at its place in the order of keys. -/
def put (key : String) (value : α) : List (String × α) → List (String × α)
  | [] => [(key, value)]
  | (k, v) :: rest =>
    if key < k then (key, value) :: (k, v) :: rest
    else if k = key then (key, value) :: rest
    else (k, v) :: put key value rest

/-- The table of entries in any order; of two entries for one key the later one counts. -/
def ofList (entries : List (String × α)) : List (String × α) :=
  entries.foldl (fun table (key, value) => put key value table) []

@[simp] theorem find?_nil (key : String) : find? (α := α) key [] = none := rfl

theorem find?_cons (key k : String) (v : α) (rest : List (String × α)) :
    find? key ((k, v) :: rest) = if k = key then some v else find? key rest := rfl

/-- Setting an entry changes what is found under its key and nothing else. -/
theorem find?_put (key other : String) (value : α) (table : List (String × α)) :
    find? other (put key value table) = if key = other then some value else find? other table := by
  induction table with
  | nil => simp [put, find?]
  | cons entry rest ih =>
    obtain ⟨k, v⟩ := entry
    simp only [put]
    split
    · simp [find?_cons]
    · split
      · next h => subst h; by_cases h : k = other <;> simp [find?_cons, h]
      · next h =>
        simp only [find?_cons, ih]
        by_cases hk : k = other
        · subst hk
          simp only [if_neg (Ne.symm h), if_true]
        · simp only [if_neg hk]

end Entries

namespace Value

mutual
/-- Lays a value over another: a table goes into a table key by key, anything else is replaced
whole. -/
def overlay (lower : Value) : Value → Value
  | .table upper =>
    match lower with
    | .table entries => .table (overlayEntries entries upper)
    | _ => .table upper
  | v => v

def overlayEntries (lower : Entries) : Entries → Entries
  | [] => lower
  | (key, v) :: rest =>
    let covered := match Entries.find? key lower with
      | some old => overlay old v
      | none => v
    overlayEntries (Entries.put key covered lower) rest
end

def at? : List String → Value → Option Value
  | [], v => some v
  | key :: path, .table entries => (Entries.find? key entries).bind (at? path)
  | _ :: _, _ => none

def nested (path : List String) (v : Value) : Value :=
  path.foldr (fun key inner => .table [(key, inner)]) v

end Value
end DecryptorNode.Config
