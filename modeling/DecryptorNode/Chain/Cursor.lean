import DecryptorNode.Chain.Event

/-! Positions in the ordered stream of events, and the items of that stream. -/
namespace DecryptorNode.Chain

/-- The position of the next log to deliver, by block and then by index in the block. -/
structure Cursor where
  block : Nat
  index : Nat
  deriving DecidableEq, Repr

namespace Cursor

def start : Cursor := ⟨0, 0⟩

def compare (a b : Cursor) : Ordering :=
  (Ord.compare a.block b.block).then (Ord.compare a.index b.index)

def before (a b : Cursor) : Bool :=
  a.block < b.block || (a.block == b.block && a.index < b.index)

end Cursor

/-- One item of the stream: an event with its position, or the statement that all events up to
and including a block were delivered. -/
structure Update where
  event : Option ChainEvent
  block : Nat
  index : Nat
  deriving DecidableEq

namespace Update

/-- The statement that a block is complete. -/
def absent (block : Nat) : Update := ⟨none, block, 0⟩

def kind (u : Update) : String := u.event.elim "absent" ChainEvent.kind

def position (u : Update) : Cursor := ⟨u.block, u.index⟩

/-- The position after the item: the next log of the block after an event, the next block after a
complete one. None where the number would pass 64 bits. -/
def nextCursor? (u : Update) : Option Cursor :=
  match u.event with
  | some _ => if u.index < maxWord then some ⟨u.block, u.index + 1⟩ else none
  | none => if u.block < maxWord then some ⟨u.block + 1, 0⟩ else none

end Update
end DecryptorNode.Chain
