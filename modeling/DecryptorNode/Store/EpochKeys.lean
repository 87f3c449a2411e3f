import DecryptorNode.Store.Work

/-! Released epoch keys by eon and epoch id. The first key of an epoch stays. -/
namespace DecryptorNode.Store

structure EpochKeyEntry where
  eon : Int
  epochId : Bytes
  key : Bytes
  deriving DecidableEq, Repr

namespace EpochKeys

def label : String := TableName.epochKeys.label

def rowKey (eon : Int) (epochId : Bytes) : EpochKey := ⟨eon, Hex.text epochId⟩

def ofRow (key : EpochKey) (value : Bytes) : Except StoreError EpochKeyEntry :=
  match Hex.decode key.epoch.toList with
  | some epochId => .ok ⟨key.eon, epochId, value⟩
  | none => .error (.invalidValue "epoch_id" "not hexadecimal")

def read (eon : Int) (epochId : Bytes) : Statement (Option EpochKeyEntry) := do
  let tables ← Statement.reading .epochKeys
  let key := rowKey eon epochId
  match tables.epochKeys.find? key with
  | none => return none
  | some value => some <$> ofRow key value

def add (entry : EpochKeyEntry) : Statement Bool := do
  let tables ← Statement.writing .epochKeys
  let key := rowKey entry.eon entry.epochId
  if tables.epochKeys.contains key then return false
  else
    Statement.guarded
    Statement.save { tables with epochKeys := tables.epochKeys.put key entry.key }
    return true

def insert (entry : EpochKeyEntry) : Work StoreError Bool :=
  .query label "insert" (fun inserted => if inserted then 1 else 0) (add entry)

def get (eon : Int) (epochId : Bytes) : Work StoreError (Option EpochKeyEntry) :=
  .query label "get" (fun row => if row.isSome then 1 else 0) (read eon epochId)

end EpochKeys
end DecryptorNode.Store
