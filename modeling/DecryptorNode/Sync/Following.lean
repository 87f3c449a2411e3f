import DecryptorNode.Chain.Follower
import DecryptorNode.Sync.Pipeline

/-! Synchronising with the chain: the follower starts at the stored position and feeds the
pipeline. Everything that was delivered is applied before the follower asks for more. -/
namespace DecryptorNode.Sync

open Chain (AddressReader FollowPlan Log Reply Signal)
open Store (Action)

namespace Pipeline

def note (p : Pipeline) (a : Telemetry.Activity) : Pipeline :=
  { p with store := { p.store with activity := a :: p.store.activity } }

/-- Runs along a follower's signals. When they are used up, or no answer comes, the caller's token
fires. -/
def follow (applyUpdate : Chain.Update → Action Halt Chain.Cursor) :
    Pipeline → List Signal → Pipeline
  | p, [] => p.windDown applyUpdate
  | p, signal :: rest =>
    if p.finished then p
    else match signal with
      | .did a => follow applyUpdate (p.note a) rest
      | .deliver u => follow applyUpdate (p.take applyUpdate u) rest
      | .rest => follow applyUpdate p rest
      | .failed e => p.move applyUpdate (.produced (.error e))
      | .silent => p.windDown applyUpdate

end Pipeline

/-- One life of the synchronisation over a store: its result and the store it leaves. -/
def synchronise (plan : FollowPlan) (reader : AddressReader) (heads : List (Reply Nat))
    (logs : List (Reply (List Log))) (s : Store) : Except SyncError Unit × Store :=
  match loadCursor s with
  | (.error e, s) => (.error (.store e), s)
  | (.ok cursor, s) =>
    let p := (Pipeline.start s).follow (apply plan.contracts reader)
      (Chain.follow plan cursor heads logs)
    (p.result, p.store)

end DecryptorNode.Sync
