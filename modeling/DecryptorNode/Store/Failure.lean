/-! Failures of the store. -/
namespace DecryptorNode.Store

/-- A failure of the database itself, which may name the columns of a broken key, or a value that
its column cannot hold. -/
inductive StoreError where
  | database : (brokenKey : Option String) → StoreError
  | invalidValue : (field reason : String) → StoreError
  deriving DecidableEq, Repr

/-- The message of a value that does not fit; the database's own texts are not repeated. -/
def StoreError.message : StoreError → String
  | .database _ => "Database"
  | .invalidValue field reason => "Invalid value for " ++ field ++ ": " ++ reason

end DecryptorNode.Store
