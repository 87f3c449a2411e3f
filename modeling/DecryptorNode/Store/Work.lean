import DecryptorNode.Store.Statement
import DecryptorNode.Telemetry.Activity

/-! Work on the store: statements in sequence, inside one transaction or each by itself, with a
record of what was done. The record outlives failures and rollbacks. -/
namespace DecryptorNode

open Telemetry (Activity)

/-- The store between uses: its committed state and the activity, the latest first. -/
structure Store where
  database : Store.Database
  activity : List Activity

namespace Store

def empty : Store := ⟨.empty, []⟩

/-- The draft as a lost connection shows it. -/
def Draft.severed (d : Draft) : Draft :=
  { d with database := { d.database with faults := { d.database.faults with closed := true } } }

/-- A draft with the activity so far, the latest first, and the number of statements that its
connection still takes if it will be lost. -/
structure Workspace where
  draft : Draft
  activity : List Activity
  lasts : Option Nat

namespace Workspace

def opened (draft : Draft) (activity : List Activity) : Workspace :=
  ⟨draft, activity, draft.database.faults.lostAfter⟩

def connected (w : Workspace) : Bool := w.lasts.all (0 < ·)

def spent (w : Workspace) : Option Nat := w.lasts.map (· - 1)

/-- A statement, on the connection as it is. Over one that was lost it comes as far as the first
table that it needs. -/
def run {α : Type} (w : Workspace) (s : Statement α) : Except StoreError (α × Draft) :=
  if w.connected then s.run w.draft
  else match s.run w.draft.severed with
    | .error e => .error e
    | .ok _ => .error (.database none)

end Workspace

/-- Work that can fail. A failure keeps what earlier statements wrote; undoing that is the
business of whoever opened the draft. -/
abbrev Work (ε : Type) := ExceptT ε (StateM Workspace)

namespace Work
variable {α ε δ : Type}

def note (a : Activity) : Work ε Unit := modify fun w => { w with activity := a :: w.activity }

def statement (s : Statement α) : Work StoreError α := fun w =>
  match s.run w.draft with
  | .ok (a, d) => (.ok a, { w with draft := d })
  | .error e => (.error e, w)

def query (repository method : String) (rows : α → Nat) (s : Statement α) :
    Work StoreError α := fun w =>
  match w.run s with
  | .ok (a, d) => (.ok a, ⟨d, .query repository method (some (rows a)) :: w.activity, w.spent⟩)
  | .error e => (.error e, { w with activity := .query repository method none :: w.activity })

def mapError (f : ε → δ) (work : Work ε α) : Work δ α := ExceptT.adapt f work

end Work

abbrev Action (ε : Type) := ExceptT ε (StateM Store)

namespace Draft

/-- A draft whose statements commit by themselves. -/
def direct (database : Database) : Draft := ⟨database, false, true⟩

def begin (database : Database) : Except StoreError Draft :=
  if database.faults.closed then .error (.database none) else .ok ⟨database, false, false⟩

end Draft

/-- The state that a commit makes permanent. A commit needs the connection as a statement does. -/
def Workspace.commit (w : Workspace) : Except StoreError Database :=
  if w.draft.doomed || w.draft.database.faults.closed || !w.connected then .error (.database none)
  else .ok w.draft.database

namespace Action
variable {α ε : Type}

def note (a : Activity) : Action ε Unit := modify fun s => { s with activity := a :: s.activity }

def direct (work : Work ε α) : Action ε α := fun s =>
  let (result, w) := work.run (.opened (.direct s.database) s.activity)
  (result, ⟨w.draft.database, w.activity⟩)

/-- Work in one transaction, which is committed if the work succeeds and undone if not. -/
def transaction (onBegin onCommit : StoreError → ε) (work : Work ε α) : Action ε α := fun s =>
  match Draft.begin s.database with
  | .error e => (.error (onBegin e), s)
  | .ok draft =>
    match work.run (.opened draft s.activity) with
    | (.error e, w) => (.error e, { s with activity := w.activity })
    | (.ok a, w) =>
      match w.commit with
      | .ok database => (.ok a, ⟨database, w.activity⟩)
      | .error e => (.error (onCommit e), { s with activity := w.activity })

end Action
end Store
end DecryptorNode
