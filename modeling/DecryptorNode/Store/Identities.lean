import DecryptorNode.Store.Work

/-! Registered credentials by account. The two credentials are written independently, and neither
write touches the other or the verified flag. -/
namespace DecryptorNode.Store

structure Identity where
  address : String
  publicKey : Option Bytes
  signature : Option Bytes
  verified : Bool
  deriving DecidableEq, Repr

/-- The two parts of an identity. -/
inductive Credential where
  | publicKey : Credential
  | signature : Credential
  deriving DecidableEq, Repr

namespace Identities

def label : String := TableName.identities.label

def blank : IdentityRow := ⟨none, none, false⟩

def setCredential (credential : Credential) (value : Bytes) (row : IdentityRow) : IdentityRow :=
  match credential with
  | .publicKey => { row with publicKey := some value }
  | .signature => { row with signature := some value }

def read (address : String) : Statement (Option Identity) := do
  let tables ← Statement.reading .identities
  return (tables.identities.find? address).map fun row =>
    ⟨address, row.publicKey, row.signature, row.verified⟩

def write (address : String) (credential : Credential) (value : Bytes) : Statement Unit := do
  let tables ← Statement.writing .identities
  let row := (tables.identities.find? address).getD blank
  Statement.save { tables with
    identities := tables.identities.put address (setCredential credential value row) }

/-- Sets the flag of a row that does not have it; the number of rows changed. Without such a row
nothing is written, and so failing writes do not show. -/
def mark (address : String) : Statement Nat := do
  let tables ← Statement.reading .identities
  match tables.identities.find? address with
  | some row =>
    if row.verified then return 0
    else
      let tables ← Statement.writing .identities
      Statement.save { tables with
        identities := tables.identities.put address { row with verified := true } }
      return 1
  | none => return 0

def get (address : String) : Work StoreError (Option Identity) :=
  .query label "get" (fun row => if row.isSome then 1 else 0) (read address)

def upsertMethod : Credential → String
  | .publicKey => "upsert_bls_public_key"
  | .signature => "upsert_bls_signature"

def upsert (address : String) (credential : Credential) (value : Bytes) : Work StoreError Unit :=
  .query label (upsertMethod credential) (fun _ => 1) (write address credential value)

def markVerified (address : String) : Work StoreError Nat :=
  .query label "mark_signature_verified" id (mark address)

end Identities
end DecryptorNode.Store
