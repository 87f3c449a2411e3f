import DecryptorNode.Config.Value

/-! A TOML document while it is read: which tables may still be added to. -/
namespace DecryptorNode.Config.Toml

/-- How a table came to be: by a header of its own, by a longer header, or by a dotted key. -/
inductive Maker where
  | header : Maker
  | implied : Maker
  | dotted : Maker
  deriving DecidableEq, Repr

/-- A leaf is complete. Of an array of tables only the last row is open. -/
inductive Tree where
  | leaf : Value → Tree
  | table : Maker → List (String × Tree) → Tree
  | rows : List Value → List (String × Tree) → Tree

abbrev Branches := List (String × Tree)

namespace Tree

mutual
def toValue : Tree → Value
  | .leaf v => v
  | .table _ branches => .table (toEntries branches)
  | .rows earlier last => .list (earlier ++ [.table (toEntries last)])

def toEntries : Branches → Entries
  | [] => []
  | (key, t) :: rest => (key, toValue t) :: toEntries rest
end

end Tree

namespace Branches

/-- Changes the table that the keys of a header lead to. Tables on the way are made as needed, and
of an array of tables the last row is meant. -/
def within : List String → (Branches → Option Branches) → Branches → Option Branches
  | [], change, branches => change branches
  | key :: path, change, branches =>
    let grown : Option Tree := match Entries.find? key branches with
      | none => (within path change []).map (Tree.table .implied)
      | some (.table maker inner) => (within path change inner).map (Tree.table maker)
      | some (.rows earlier last) => (within path change last).map (Tree.rows earlier)
      | some (.leaf _) => none
    grown.map fun t => Entries.put key t branches

/-- Opens the table of a header. One that is there must have been implied only. -/
def openTable (path : List String) (key : String) : Branches → Option Branches :=
  within path fun branches =>
    match Entries.find? key branches with
    | none => some (Entries.put key (.table .header []) branches)
    | some (.table .implied inner) => some (Entries.put key (.table .header inner) branches)
    | some _ => none

def openRow (path : List String) (key : String) : Branches → Option Branches :=
  within path fun branches =>
    match Entries.find? key branches with
    | none => some (Entries.put key (.rows [] []) branches)
    | some (.rows earlier last) =>
      let closed := earlier ++ [.table (Tree.toEntries last)]
      some (Entries.put key (.rows closed []) branches)
    | some _ => none

/-- Gives a value to a dotted key. It may lead through tables that have no header of their own,
and the table that it ends in must have been made by dotted keys. -/
def assign (v : Value) : List String → Branches → Option Branches
  | [], _ => none
  | [key], branches =>
    match Entries.find? key branches with
    | none => some (Entries.put key (.leaf v) branches)
    | some _ => none
  | key :: next :: path, branches =>
    let grown : Option Tree := match Entries.find? key branches with
      | none => (assign v (next :: path) []).map (Tree.table .dotted)
      | some (.table .dotted inner) => (assign v (next :: path) inner).map (Tree.table .dotted)
      | some (.table .implied inner) =>
        if path = [] then none else (assign v (next :: path) inner).map (Tree.table .implied)
      | some (.rows earlier last) =>
        if path = [] then none else (assign v (next :: path) last).map (Tree.rows earlier)
      | some (.table .header _) | some (.leaf _) => none
    grown.map fun t => Entries.put key t branches

end Branches

/-- A line of a document that says something. Headers name a table by the keys around it and its
own. -/
inductive Statement where
  | tableHeader : List String → String → Statement
  | rowHeader : List String → String → Statement
  | pair : List String → Value → Statement

/-- Carries out the statements, those after a header in its table. -/
def build : (current : List String) → List Statement → Branches → Option Branches
  | _, [], branches => some branches
  | current, .pair path v :: rest, branches => do
    build current rest (← Branches.within current (Branches.assign v path) branches)
  | _, .tableHeader path key :: rest, branches => do
    build (path ++ [key]) rest (← Branches.openTable path key branches)
  | _, .rowHeader path key :: rest, branches => do
    build (path ++ [key]) rest (← Branches.openRow path key branches)

end DecryptorNode.Config.Toml
