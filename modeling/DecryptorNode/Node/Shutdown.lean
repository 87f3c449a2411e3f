import DecryptorNode.Sync.Failure

/-! Stopping the node: synchronisation is asked to stop and gets some time for it. -/
namespace DecryptorNode.Node

open Sync (SyncError)

/-- How synchronisation ends after it is asked to, and after how many milliseconds. -/
inductive Ending where
  | finishes : Nat → Except SyncError Unit → Ending
  | breaks : Nat → Ending
  | never : Ending

/-- How long it is waited for, in milliseconds. -/
def patience : Nat := 30000

namespace Ending

def waited : Ending → Nat
  | .finishes after _ => min after patience
  | .breaks after => min after patience
  | .never => patience

/-- What the node stops with. Only a failure in time counts; synchronisation that breaks or takes
too long is given up. -/
def outcome : Ending → Except SyncError Unit
  | .finishes after result => if after < patience then result else .ok ()
  | .breaks _ => .ok ()
  | .never => .ok ()

end Ending
end DecryptorNode.Node
