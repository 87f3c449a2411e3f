/-! Answers of the chain's server. -/
namespace DecryptorNode.Chain

inductive RpcFailure where
  | response : (code : Int) → (message : String) → RpcFailure
  | transport : String → RpcFailure
  deriving DecidableEq, Repr

def RpcFailure.text : RpcFailure → String
  | .response code message =>
    "server returned an error response: error code " ++ toString code ++ ": " ++ message
  | .transport text => text

/-- An answer, a failure, or nothing ever. -/
inductive Reply (α : Type) where
  | value : α → Reply α
  | failed : RpcFailure → Reply α
  | silent : Reply α

end DecryptorNode.Chain
