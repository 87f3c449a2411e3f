import DecryptorNode.Store.Database

/-! The whole content of the store as plain values. -/
namespace DecryptorNode.Store

inductive Column where
  | integer : Int → Column
  | text : String → Column
  | bytes : Bytes → Column
  | flag : Bool → Column
  | missing : Column
  deriving DecidableEq, Repr

def Tables.columns (t : Tables) : TableName → List (List Column)
  | .progress => t.progress.rows.map fun (key, row) =>
    [.integer key, .integer row.block, .integer row.index]
  | .keyperSets => t.keyperSets.rows.map fun (key, row) =>
    [.integer key, .text row.keypers, .integer row.threshold]
  | .setMembers => t.setMembers.rows.map fun (key, address) =>
    [.integer key.activation, .integer key.index, .text address]
  | .identities => t.identities.rows.map fun (address, row) =>
    [.text address, row.publicKey.elim .missing .bytes, row.signature.elim .missing .bytes,
      .flag row.verified]
  | .epochKeys => t.epochKeys.rows.map fun (key, value) =>
    [.integer key.eon, .text key.epoch, .bytes value]
  | .eonKeys => t.eonKeys.rows.map fun (key, row) =>
    [.integer key, .integer row.activation, .bytes row.publicKey]

/-- The tables that hold rows, and those that cannot be read, which have none here. -/
def Database.dump (d : Database) : List (TableName × Option (List (List Column))) :=
  TableName.all.filterMap fun name =>
    if d.canRead name then
      match d.tables.columns name with
      | [] => none
      | rows => some (name, some rows)
    else some (name, none)

end DecryptorNode.Store
