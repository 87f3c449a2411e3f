import DecryptorNode.Chain.Cursor
import DecryptorNode.Chain.Request

/-! What the node does, kept as data: requests to the chain, and the events that are counted. -/
namespace DecryptorNode.Telemetry

/-- A query's rows are missing if it failed. -/
inductive Activity where
  | request : Chain.Request → Activity
  | query : (repository method : String) → (rows : Option Nat) → Activity
  | logBatch : (succeeded : Bool) → (blocks logs : Nat) → Activity
  | addressQuery : Chain.AddressSet → (succeeded : Bool) → Activity
  | finalizedHead : Nat → Activity
  | validated : (topic verdict : String) → Activity
  | handled : (topic : String) → (succeeded : Bool) → Activity
  | applied : (kind : String) → (succeeded : Bool) → Activity
  | advanced : Chain.Cursor → Activity
  | reconciled : (outcome : String) → Activity

def Activity.request? : Activity → Option Chain.Request
  | .request r => some r
  | _ => none

end DecryptorNode.Telemetry
