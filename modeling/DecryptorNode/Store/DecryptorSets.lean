import DecryptorNode.Store.Work

/-! Members of decryptor sets, by activation block and index. -/
namespace DecryptorNode.Store

structure SetMember where
  activation : Int
  index : Int
  address : String
  deriving DecidableEq, Repr

namespace DecryptorSets

def label : String := "decryptor_set"

/-- The columns that an insert names when its key is taken. -/
def keyColumns : String :=
  "decryptor_set_member.activation_block_number, decryptor_set_member.index"

def read (activation : Int) : Statement (List SetMember) := do
  let tables ← Statement.reading .setMembers
  let rows := tables.setMembers.rows.filter fun row => row.1.activation = activation
  return rows.map fun (key, address) => ⟨key.activation, key.index, address⟩

def add (member : SetMember) : Statement Unit := do
  let tables ← Statement.writing .setMembers
  let key : MemberKey := ⟨member.activation, member.index⟩
  if tables.setMembers.contains key then throw (.database (some keyColumns))
  Statement.save { tables with setMembers := tables.setMembers.put key member.address }

def insertMember (member : SetMember) : Work StoreError Unit :=
  .query label "insert_member" (fun _ => 1) (add member)

def getMembers (activation : Int) : Work StoreError (List SetMember) :=
  .query label "get_members" List.length (read activation)

end DecryptorSets
end DecryptorNode.Store
