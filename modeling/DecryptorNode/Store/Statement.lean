import DecryptorNode.Store.Database

/-! Single statements. A statement that fails changes nothing. -/
namespace DecryptorNode.Store

/-- A state of the database that is being changed. It is doomed if its commit will fail; where
each statement commits by itself, a statement fails instead of dooming it. -/
structure Draft where
  database : Database
  doomed : Bool
  autocommit : Bool

abbrev Statement := StateT Draft (Except StoreError)

namespace Statement

def fail {α : Type} : Statement α := throw (.database none)

def reading (t : TableName) : Statement Tables := do
  let d ← get
  if d.database.canRead t then return d.database.tables else fail

def writing (t : TableName) : Statement Tables := do
  let d ← get
  if d.database.canWrite t then return d.database.tables else fail

def save (tables : Tables) : Statement Unit :=
  modify fun d => { d with database := { d.database with tables := tables } }

/-- Marks a write whose commit fails while commits are failing. -/
def guarded : Statement Unit := do
  let d ← get
  if d.database.faults.failingCommits then
    if d.autocommit then fail else set { d with doomed := true }

end Statement

def signed64 (field : String) (n : Nat) : Except StoreError Int :=
  if n < 2 ^ 63 then .ok n
  else .error (.invalidValue field (toString n ++ " exceeds i64"))

def unsigned (field : String) (n : Int) : Except StoreError Nat :=
  if 0 ≤ n then .ok n.toNat else .error (.invalidValue field "negative value stored")

end DecryptorNode.Store
