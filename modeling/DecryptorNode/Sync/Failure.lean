import DecryptorNode.Chain.Failure
import DecryptorNode.Store.Failure

/-! Why an event could not be applied. -/
namespace DecryptorNode.Sync

inductive SyncError where
  | store : Store.StoreError → SyncError
  | chain : Chain.ChainError → SyncError
  | activationOverflow : Nat → SyncError
  | thresholdOverflow : Nat → SyncError
  | memberIndexOverflow : Nat → SyncError
  | cursorOverflow : (block index : Nat) → SyncError
  | commit : Store.StoreError → SyncError
  deriving DecidableEq

def SyncError.message : SyncError → String
  | .store e => "Repository error: " ++ e.message
  | .chain e => "Blockchain error: " ++ e.message
  | .activationOverflow n =>
    "Activation block " ++ toString n ++ " exceeds the signed 64-bit range"
  | .thresholdOverflow n => "Threshold " ++ toString n ++ " exceeds the signed 32-bit range"
  | .memberIndexOverflow n =>
    "Set of " ++ toString n ++ " members exceeds the signed 32-bit index range"
  | .cursorOverflow block index =>
    "Cursor cannot advance past block " ++ toString block ++ ", log " ++ toString index
  | .commit e => "Failed to commit event transaction: " ++ e.message

/-- The end of an application that does not succeed: a failure, or an answer that never comes. -/
inductive Halt where
  | failed : SyncError → Halt
  | stalled : Halt
  deriving DecidableEq

end DecryptorNode.Sync
