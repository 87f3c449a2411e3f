/-! Tables: rows under distinct keys, kept in the order of the keys. -/
namespace DecryptorNode.Store

/-- A total order of primary keys. -/
class RowKey (κ : Type) where
  before : κ → κ → Bool

instance : RowKey Int := ⟨fun a b => a < b⟩

instance : RowKey String := ⟨fun a b => a < b⟩

structure Table (κ ρ : Type) where
  rows : List (κ × ρ)

namespace Table
variable {κ ρ : Type} [DecidableEq κ] [RowKey κ]

def empty : Table κ ρ := ⟨[]⟩

def find? (t : Table κ ρ) (key : κ) : Option ρ :=
  (t.rows.find? fun row => row.1 = key).map (·.2)

def contains (t : Table κ ρ) (key : κ) : Bool := (t.find? key).isSome

def putRow (key : κ) (row : ρ) : List (κ × ρ) → List (κ × ρ)
  | [] => [(key, row)]
  | (k, r) :: rest =>
    if key = k then (key, row) :: rest
    else if RowKey.before key k then (key, row) :: (k, r) :: rest
    else (k, r) :: putRow key row rest

def put (t : Table κ ρ) (key : κ) (row : ρ) : Table κ ρ := ⟨putRow key row t.rows⟩

end Table
end DecryptorNode.Store
