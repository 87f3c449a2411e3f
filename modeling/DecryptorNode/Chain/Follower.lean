import DecryptorNode.Chain.Batch
import DecryptorNode.Chain.Range
import DecryptorNode.Chain.Rpc
import DecryptorNode.Telemetry.Activity

/-! Following the chain: the head is asked for again and again, and as far as it is final the logs
behind it are fetched and delivered in order. After each range its last block is declared
complete. -/
namespace DecryptorNode.Chain

open Telemetry (Activity)

structure FollowPlan where
  contracts : WatchedContracts
  finalityOffset : Nat
  maxBlocks : Nat
  deriving DecidableEq

/-- What the follower does, one thing after the other. -/
inductive Signal where
  | did : Activity → Signal
  | deliver : Update → Signal
  | rest : Signal
  | failed : ChainError → Signal
  | silent : Signal

def insertSorted {α : Type} (before : α → α → Bool) (a : α) : List α → List α
  | [] => [a]
  | b :: rest => if before b a then b :: insertSorted before a rest else a :: b :: rest

def sortedOnce {α : Type} [DecidableEq α] (before : α → α → Bool) (l : List α) : List α :=
  (l.foldr (insertSorted before) []).eraseDups

def logsRequest (contracts : WatchedContracts) (range : BlockRange) : Request :=
  .logs range.first range.last (sortedOnce Address.lessThan contracts.addresses)
    (sortedOnce Topic.lessThan Signature.all)

/-- The items of a fetched range: its events, and that its last block is complete. -/
def rangeUpdates (contracts : WatchedContracts) (cursor : Cursor) (range : BlockRange)
    (logs : List Log) : Except ChainError (List Update) := do
  return (← orderUpdates contracts logs cursor) ++ [Update.absent range.last]

/-- What is done from a cursor on while the server answers requests for the head and for logs as
given. Heads that are not there end the list; logs that are not there are none. -/
def follow (plan : FollowPlan) : Cursor → List (Reply Nat) → List (Reply (List Log)) → List Signal
  | _, [], _ => []
  | _, .failed e :: _, _ => [.did (.request .head), .failed (.getBlockNumber e.text)]
  | _, .silent :: _, _ => [.did (.request .head), .silent]
  | cursor, .value head :: heads, logs =>
    let finalized := finalized? head plan.finalityOffset
    let seen := .did (.request .head) ::
      finalized.toList.map fun block => .did (.finalizedHead block)
    match nextRange? cursor.block finalized plan.maxBlocks with
    | none => seen ++ .rest :: follow plan cursor heads logs
    | some range =>
      let asked := seen ++ [.did (.request (logsRequest plan.contracts range))]
      match logs.headD (.value []) with
      | .silent => asked ++ [.silent]
      | .failed e =>
        asked ++ [.did (.logBatch false range.size 0), .failed (.getLogs e.text)]
      | .value batch =>
        let fetched := asked ++ [.did (.logBatch true range.size batch.length)]
        match rangeUpdates plan.contracts cursor range batch with
        | .error e => fetched ++ [.failed e]
        | .ok updates =>
          fetched ++ updates.map .deliver
            ++ follow plan ⟨range.last + 1, 0⟩ heads logs.tail

/-- What a reader of the stream saw: the activity until then, the items, and a failure. -/
structure Reading where
  activity : List Activity
  updates : List Update
  failure : Option ChainError

namespace Reading

def nothing : Reading := ⟨[], [], none⟩

/-- Reads the stream until it fails or stops. At most room many items can be delivered if a room
is given, and a rest lasts too long unless it is short. -/
def ofSignals (shortRest : Bool) : (room : Option Nat) → List Signal → Reading
  | _, [] => nothing
  | room, .did a :: rest =>
    let r := ofSignals shortRest room rest
    { r with activity := a :: r.activity }
  | some 0, .deliver _ :: _ => nothing
  | room, .deliver u :: rest =>
    let r := ofSignals shortRest (room.map (· - 1)) rest
    { r with updates := u :: r.updates }
  | room, .rest :: rest => if shortRest then ofSignals shortRest room rest else nothing
  | _, .failed e :: _ => ⟨[], [], some e⟩
  | _, .silent :: _ => nothing

def limited (buffer wanted : Nat) (shortRest : Bool) (signals : List Signal) : Reading :=
  let r := ofSignals shortRest (some (wanted + buffer)) signals
  { r with updates := r.updates.take wanted }

end Reading
end DecryptorNode.Chain
