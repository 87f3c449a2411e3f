import DecryptorNode.Chain.Cursor

/-! Turning a fetched batch of logs into items of the stream. -/
namespace DecryptorNode.Chain

/-- The position of a log that is to be delivered from a cursor on. Removed logs and earlier ones
are passed over, and every other log must have a position. -/
def Log.place (cursor : Cursor) (log : Log) : Except ChainError (Option (Cursor × Log)) :=
  if log.removed then .ok none
  else match log.block, log.index with
    | none, _ => .error (.incompleteLog log.address .blockNumber)
    | some _, none => .error (.incompleteLog log.address .logIndex)
    | some block, some index =>
      let position : Cursor := ⟨block, index⟩
      if position.before cursor then .ok none else .ok (some (position, log))

def Log.update (contracts : WatchedContracts) (position : Cursor) (log : Log) :
    Except ChainError Update := do
  return ⟨some (← log.event contracts), position.block, position.index⟩

/-- The items of a batch from a cursor on, by position. Logs at one position keep their order. -/
def orderUpdates (contracts : WatchedContracts) (logs : List Log) (cursor : Cursor) :
    Except ChainError (List Update) := do
  let placed ← logs.mapM (Log.place cursor)
  let ordered := (placed.filterMap id).mergeSort fun a b => !b.1.before a.1
  ordered.mapM fun (position, log) => log.update contracts position

end DecryptorNode.Chain
