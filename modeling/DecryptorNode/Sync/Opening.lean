import DecryptorNode.Config.Blockchain
import DecryptorNode.Sync.Following

/-! Setting synchronisation up from the settings of the chain. Items go from one half to the other
through a channel, whose room must be at least one item and cannot be any number. The program breaks
off where a channel is asked for more or less. -/
namespace DecryptorNode.Sync

open Chain (AddressReader Cursor FollowPlan Log Reply)
open Config (Blockchain)

def maxRoom : Nat := Chain.maxWord / 2 ^ 3

/-- A channel, by its room. -/
structure Channel where
  room : Nat
  positive : 0 < room
  bounded : room ≤ maxRoom

/-- Why the program breaks off. -/
inductive Panic where
  | noRoom : Panic
  | tooMuchRoom : Panic
  deriving DecidableEq, Repr

def Panic.message : Panic → String
  | .noRoom => "mpsc bounded channel requires buffer > 0"
  | .tooMuchRoom => "a semaphore may not have more than MAX_PERMITS permits (" ++
      toString maxRoom ++ ")"

def Channel.ofRoom (room : Nat) : Except Panic Channel :=
  if positive : 0 < room then
    if bounded : room ≤ maxRoom then .ok ⟨room, positive, bounded⟩ else .error .tooMuchRoom
  else .error .noRoom

/-- The half that follows the chain, before it runs. The pause is in milliseconds. -/
structure Syncer where
  plan : FollowPlan
  pollInterval : Nat
  start : Cursor
  channel : Channel

namespace Syncer

def ofSettings (b : Blockchain) (start : Cursor) : Except Panic Syncer := do
  return ⟨b.plan, b.pollInterval, start, ← Channel.ofRoom b.eventBuffer⟩

def run (syncer : Syncer) (reader : AddressReader) (heads : List (Reply Nat))
    (logs : List (Reply (List Log))) (s : Store) : Except SyncError Unit × Store :=
  let p := (Pipeline.start s).follow (apply syncer.plan.contracts reader)
    (Chain.follow syncer.plan syncer.start heads logs)
  (p.result, p.store)

end Syncer

/-- One life of the synchronisation with the settings of the chain, unless the program breaks off
in setting it up. -/
def synchroniseAs (b : Blockchain) (reader : AddressReader) (heads : List (Reply Nat))
    (logs : List (Reply (List Log))) (s : Store) : Except Panic (Except SyncError Unit × Store) :=
  match loadCursor s with
  | (.error e, s) => .ok (.error (.store e), s)
  | (.ok cursor, s) => do return (← Syncer.ofSettings b cursor).run reader heads logs s

end DecryptorNode.Sync
