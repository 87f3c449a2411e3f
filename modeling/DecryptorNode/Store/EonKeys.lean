import DecryptorNode.Store.Work

/-! Public keys of eons, written when keys are generated. -/
namespace DecryptorNode.Store

structure EonKeyEntry where
  eon : Int
  activation : Int
  publicKey : Bytes
  deriving DecidableEq, Repr

namespace EonKeys

def label : String := TableName.eonKeys.label

def read (eon : Int) : Statement (Option EonKeyEntry) := do
  let tables ← Statement.reading .eonKeys
  return (tables.eonKeys.find? eon).map fun row => ⟨eon, row.activation, row.publicKey⟩

def write (entry : EonKeyEntry) : Statement Unit := do
  let tables ← Statement.writing .eonKeys
  Statement.save { tables with
    eonKeys := tables.eonKeys.put entry.eon ⟨entry.activation, entry.publicKey⟩ }

def insert (entry : EonKeyEntry) : Work StoreError Unit :=
  .query label "insert" (fun _ => 1) (write entry)

def get (eon : Int) : Work StoreError (Option EonKeyEntry) :=
  .query label "get" (fun row => if row.isSome then 1 else 0) (read eon)

end EonKeys
end DecryptorNode.Store
