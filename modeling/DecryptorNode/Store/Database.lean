import DecryptorNode.Bytes.Hex
import DecryptorNode.Store.Failure
import DecryptorNode.Store.Table

/-! The tables of the store, and the misbehaviour that a database can be put into. -/
namespace DecryptorNode.Store

inductive TableName where
  | progress : TableName
  | keyperSets : TableName
  | setMembers : TableName
  | identities : TableName
  | epochKeys : TableName
  | eonKeys : TableName
  deriving DecidableEq, Repr

namespace TableName

def label : TableName → String
  | .progress => "event_sync_progress"
  | .keyperSets => "keyper_set"
  | .setMembers => "decryptor_set_member"
  | .identities => "decryptor_identity"
  | .epochKeys => "decryption_key"
  | .eonKeys => "eon_public_key"

def all : List TableName := [progress, keyperSets, setMembers, identities, epochKeys, eonKeys]

def ofLabel? (text : String) : Option TableName := all.find? fun t => t.label == text

end TableName

/-- A stored position, by signed columns. -/
structure ProgressRow where
  block : Int
  index : Int
  deriving DecidableEq, Repr

/-- The keypers' addresses stand in one text. -/
structure KeyperSetRow where
  keypers : String
  threshold : Int
  deriving DecidableEq, Repr

structure MemberKey where
  activation : Int
  index : Int
  deriving DecidableEq, Repr

instance : RowKey MemberKey :=
  ⟨fun a b => a.activation < b.activation ||
    (a.activation == b.activation && a.index < b.index)⟩

/-- What an account registered so far, and whether the two parts verified together. -/
structure IdentityRow where
  publicKey : Option Bytes
  signature : Option Bytes
  verified : Bool
  deriving DecidableEq, Repr

/-- The epoch id is kept as hexadecimal text. -/
structure EpochKey where
  eon : Int
  epoch : String
  deriving DecidableEq, Repr

instance : RowKey EpochKey :=
  ⟨fun a b => a.eon < b.eon || (a.eon == b.eon && a.epoch < b.epoch)⟩

structure EonKeyRow where
  activation : Int
  publicKey : Bytes
  deriving DecidableEq, Repr

structure Tables where
  progress : Table Int ProgressRow
  keyperSets : Table Int KeyperSetRow
  setMembers : Table MemberKey String
  identities : Table String IdentityRow
  epochKeys : Table EpochKey Bytes
  eonKeys : Table Int EonKeyRow

def Tables.empty : Tables := ⟨.empty, .empty, .empty, .empty, .empty, .empty⟩

/-- Which uses of the database fail. Some fail by what they do. Apart from these, a connection that
is used can be lost once it took so many statements: the next one fails, whatever it is, and so does
a commit. -/
structure Faults where
  failingWrites : List TableName
  dropped : List TableName
  failingCommits : Bool
  closed : Bool
  lostAfter : Option Nat
  deriving DecidableEq, Repr

def Faults.none : Faults := ⟨[], [], false, false, .none⟩

structure Database where
  tables : Tables
  faults : Faults

namespace Database

def empty : Database := ⟨.empty, .none⟩

def canRead (d : Database) (t : TableName) : Bool :=
  !d.faults.closed && !d.faults.dropped.contains t

def canWrite (d : Database) (t : TableName) : Bool :=
  d.canRead t && !d.faults.failingWrites.contains t

end Database
end DecryptorNode.Store
