import DecryptorNode.Store.KeyperList
import DecryptorNode.Store.Work

/-! Keyper sets by activation block. A set, once stored, is not replaced. -/
namespace DecryptorNode.Store

structure KeyperSet where
  activation : Int
  keypers : List String
  threshold : Int
  deriving DecidableEq, Repr

namespace KeyperSets

def label : String := TableName.keyperSets.label

def keyColumns : String := "keyper_set.activation_block_number"

def read (activation : Int) : Statement (Option KeyperSet) := do
  let tables ← Statement.reading .keyperSets
  return (tables.keyperSets.find? activation).map fun row =>
    ⟨activation, KeyperList.decode row.keypers, row.threshold⟩

def add (set : KeyperSet) : Statement Unit := do
  let tables ← Statement.writing .keyperSets
  if tables.keyperSets.contains set.activation then throw (.database (some keyColumns))
  Statement.save { tables with
    keyperSets := tables.keyperSets.put set.activation
      ⟨KeyperList.encode set.keypers, set.threshold⟩ }

def insert (set : KeyperSet) : Work StoreError Unit :=
  .query label "insert" (fun _ => 1) (add set)

def get (activation : Int) : Work StoreError (Option KeyperSet) :=
  .query label "get" (fun row => if row.isSome then 1 else 0) (read activation)

end KeyperSets
end DecryptorNode.Store
