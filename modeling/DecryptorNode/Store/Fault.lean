import DecryptorNode.Store.Progress
import DecryptorNode.Store.KeyperSets
import DecryptorNode.Store.EpochKeys

/-! Putting the database into a bad state on purpose, and writing columns as they are. None of
this is recorded. -/
namespace DecryptorNode.Store

inductive Fault where
  | failWrites : TableName → Fault
  | allowWrites : TableName → Fault
  | failCommits : Fault
  | allowCommits : Fault
  | dropTable : TableName → Fault
  | close : Fault
  | loseAfter : Option Nat → Fault
  | rawProgress : ProgressRow → Fault
  | rawKeyperSet : Int → KeyperSetRow → Fault
  | rawEpochKey : EpochKey → Bytes → Fault
  deriving DecidableEq, Repr

namespace Fault

def setFaults (f : Faults → Faults) : Statement Unit := do
  let d ← get
  if d.database.faults.closed then Statement.fail
  else set { d with database := { d.database with faults := f d.database.faults } }

def inject : Fault → Statement Unit
  | .failWrites t => do
    discard (Statement.reading t)
    setFaults fun f => { f with failingWrites := t :: f.failingWrites }
  | .allowWrites t => setFaults fun f => { f with failingWrites := f.failingWrites.filter (· ≠ t) }
  | .failCommits => setFaults fun f => { f with failingCommits := true }
  | .allowCommits => setFaults fun f => { f with failingCommits := false }
  | .dropTable t => do
    discard (Statement.reading t)
    setFaults fun f => { f with dropped := t :: f.dropped }
  | .close => modify fun d =>
    { d with database := { d.database with faults := { d.database.faults with closed := true } } }
  | .loseAfter statements => setFaults fun f => { f with lostAfter := statements }
  | .rawProgress row => Progress.write row
  | .rawKeyperSet activation row => do
    let tables ← Statement.writing .keyperSets
    Statement.save { tables with keyperSets := tables.keyperSets.put activation row }
  | .rawEpochKey key value => do
    let tables ← Statement.writing .epochKeys
    Statement.guarded
    Statement.save { tables with epochKeys := tables.epochKeys.put key value }

end Fault
end DecryptorNode.Store
