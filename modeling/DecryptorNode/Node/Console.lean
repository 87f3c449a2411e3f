import DecryptorNode.Store.Dump
import DecryptorNode.Store.Fault
import DecryptorNode.Store.Work

/-! Using the store by hand: at most one transaction is open at a time, and while it is, all work
goes into it. -/
namespace DecryptorNode.Node

open Store (Action Database Draft StoreError Work Workspace)
open Telemetry (Activity)

/-- An open transaction, with the number of statements that its connection still takes if it will
be lost. -/
structure Transaction where
  draft : Draft
  lasts : Option Nat

def Transaction.workspace (t : Transaction) (activity : List Activity) : Workspace :=
  ⟨t.draft, activity, t.lasts⟩

/-- A store, and the open transaction if there is one. -/
structure Console where
  store : Store
  open? : Option Transaction

namespace Console
variable {α ε : Type}

def ofStore (store : Store) : Console := ⟨store, none⟩

def database (c : Console) : Database := c.open?.elim c.store.database (·.draft.database)

/-- Work in the open transaction, or else of statements that commit by themselves. -/
def perform (c : Console) (work : Work ε α) : Except ε α × Console :=
  match c.open? with
  | some transaction =>
    let (result, w) := work.run (transaction.workspace c.store.activity)
    (result, ⟨{ c.store with activity := w.activity }, some ⟨w.draft, w.lasts⟩⟩)
  | none =>
    let (result, store) := (Action.direct work).run c.store
    (result, ofStore store)

/-- An action that opens its own transactions, possible only while none is open. -/
def act (c : Console) (action : StateM Store α) : Option (α × Console) :=
  match c.open? with
  | some _ => none
  | none =>
    let (a, store) := action.run c.store
    some (a, ofStore store)

def begin (c : Console) : Option (Except StoreError Unit × Console) :=
  match c.open? with
  | some _ => none
  | none =>
    match Draft.begin c.store.database with
    | .ok draft => some (.ok (), { c with open? := some ⟨draft, draft.database.faults.lostAfter⟩ })
    | .error e => some (.error e, c)

/-- Ends the open transaction and makes it permanent. A commit that fails undoes it. -/
def commit (c : Console) : Option (Except StoreError Unit × Console) :=
  c.open?.map fun transaction =>
    match (transaction.workspace c.store.activity).commit with
    | .ok database => (.ok (), ofStore { c.store with database := database })
    | .error e => (.error e, ofStore c.store)

def rollback (c : Console) : Option Console := c.open?.map fun _ => ofStore c.store

end Console
end DecryptorNode.Node
