import DecryptorNode.Sync.Pipeline

/-! Pipelines whose source is a given list of items. -/
namespace DecryptorNode.Sync

open Chain (ChainError Cursor Update)
open Store (Action)

/-- What the producing half does: it waits for the token, or it ends at once, before any item is
taken. -/
inductive Producer where
  | waits : Producer
  | ends : Except ChainError Unit → Producer

/-- What happens when the items are used up. -/
inductive FeedEnd where
  | shutdown : FeedEnd
  | closed : FeedEnd
  deriving DecidableEq, Repr

structure Feed where
  updates : List Update
  ending : FeedEnd
  producer : Producer

namespace Feed

/-- Hands items over until the pipeline stops taking them; those left over. -/
def handOver (applyUpdate : Update → Action Halt Cursor) :
    Pipeline → List Update → Pipeline × List Update
  | p, [] => (p, [])
  | p, u :: rest =>
    if p.finished || p.consumer ≠ .waiting then (p, u :: rest)
    else handOver applyUpdate (p.take applyUpdate u) rest

def startProducer (applyUpdate : Update → Action Halt Cursor) (p : Pipeline) :
    Producer → Pipeline
  | .waits => p
  | .ends result => p.move applyUpdate (.produced result)

def finish (applyUpdate : Update → Action Halt Cursor) (p : Pipeline) : FeedEnd → Pipeline
  | .shutdown => p.moves applyUpdate [.shutdown, .received (.error .cancelled)]
  | .closed => p.move applyUpdate (.received (.error .channelClosed))

def run (applyUpdate : Update → Action Halt Cursor) (feed : Feed) (s : Store) :
    Pipeline × List Update :=
  let p := startProducer applyUpdate (.start s) feed.producer
  let (p, left) := handOver applyUpdate p feed.updates
  let p := if p.finished || p.consumer ≠ .waiting then p else finish applyUpdate p feed.ending
  let p := if p.fired then p.move applyUpdate (.produced (.ok ())) else p
  (p, left)

end Feed
end DecryptorNode.Sync
