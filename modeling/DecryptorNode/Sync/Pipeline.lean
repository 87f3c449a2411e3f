import DecryptorNode.Sync.Apply

/-! The two halves of synchronisation: a source that produces items, and a consumer that applies
them one by one. The first failure of either half ends both; a fired token ends them without one.

The order in which things happen is given from outside as a list of moves, and a move that is not
possible changes nothing. -/
namespace DecryptorNode.Sync

open Chain (ChainError Cursor Update)
open Store (Action)

inductive Consumer where
  | waiting : Consumer
  | applying : Update → Consumer
  | ended : Consumer
  deriving DecidableEq

structure Pipeline where
  store : Store
  producing : Bool
  consumer : Consumer
  /-- The token of the two halves. -/
  stopped : Bool
  /-- The token of the caller, which is only ever read. -/
  shutdown : Bool
  outcome : Option (Except SyncError Unit)

/-- What can happen next: the caller's token fires, the source ends, an item or the end of items
reaches the consumer, the item in hand is applied, or its application is dropped. -/
inductive Move where
  | shutdown : Move
  | produced : Except ChainError Unit → Move
  | received : Except ChainError Update → Move
  | settled : Move
  | dropped : Move

namespace Pipeline

def start (store : Store) : Pipeline := ⟨store, true, .waiting, false, false, none⟩

def fired (p : Pipeline) : Bool := p.stopped || p.shutdown

def finished (p : Pipeline) : Bool := p.outcome.isSome

def join (p : Pipeline) : Pipeline :=
  if p.outcome.isNone && !p.producing && p.consumer = .ended then
    { p with outcome := some (.ok ()) }
  else p

def fail (p : Pipeline) (e : SyncError) : Pipeline :=
  { p with stopped := true, outcome := some (.error e) }

def produced (p : Pipeline) (result : Except ChainError Unit) : Pipeline :=
  if p.finished || !p.producing then p
  else match result with
    | .ok () | .error .cancelled => join { p with producing := false }
    | .error e => fail { p with producing := false } (.chain e)

/-- An item that comes when the token has fired is not begun. -/
def received (p : Pipeline) (result : Except ChainError Update) : Pipeline :=
  if p.finished || p.consumer ≠ .waiting then p
  else match result with
    | .ok u =>
      if p.fired then join { p with consumer := .ended } else { p with consumer := .applying u }
    | .error .cancelled => join { p with consumer := .ended }
    | .error e => fail { p with consumer := .ended } (.chain e)

def settled (applyUpdate : Update → Action Halt Cursor) (p : Pipeline) : Pipeline :=
  if p.finished || p.fired then p
  else match p.consumer with
    | .applying u =>
      match applyUpdate u p.store with
      | (.ok _, store) => { p with store := store, consumer := .waiting }
      | (.error (.failed e), store) => fail { p with store := store, consumer := .ended } e
      | (.error .stalled, store) => { p with store := store }
    | _ => p

/-- The store after an item whose application was dropped. The application went as far as its
connection did, and nobody sees what came of it. -/
def abandoned (applyUpdate : Update → Action Halt Cursor) (u : Update) (store : Store) : Store :=
  { store with database := (applyUpdate u store).2.database }

def dropped (applyUpdate : Update → Action Halt Cursor) (p : Pipeline) : Pipeline :=
  match p.consumer with
  | .applying u =>
    if p.finished || p.fired then
      join { p with store := abandoned applyUpdate u p.store, consumer := .ended }
    else p
  | _ => p

def move (applyUpdate : Update → Action Halt Cursor) (p : Pipeline) : Move → Pipeline
  | .shutdown => { p with shutdown := true }
  | .produced result => p.produced result
  | .received result => p.received result
  | .settled => p.settled applyUpdate
  | .dropped => p.dropped applyUpdate

def moves (applyUpdate : Update → Action Halt Cursor) (p : Pipeline) (l : List Move) : Pipeline :=
  l.foldl (move applyUpdate) p

/-- An item that reaches the consumer and is applied before anything else happens. One whose
answer never comes is given up: the caller's token fires. -/
def take (applyUpdate : Update → Action Halt Cursor) (p : Pipeline) (u : Update) : Pipeline :=
  let p := p.moves applyUpdate [.received (.ok u), .settled]
  match p.consumer with
  | .applying _ => p.moves applyUpdate [.shutdown, .dropped]
  | _ => p

/-- The caller's token fires while nothing is being applied, and both halves end. -/
def windDown (applyUpdate : Update → Action Halt Cursor) (p : Pipeline) : Pipeline :=
  p.moves applyUpdate [.shutdown, .produced (.ok ()), .received (.error .cancelled)]

def result (p : Pipeline) : Except SyncError Unit := p.outcome.getD (.ok ())

end Pipeline
end DecryptorNode.Sync
