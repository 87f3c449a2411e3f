import DecryptorNode.Bytes.Utf8
import DecryptorNode.Config.Repository
import DecryptorNode.Internet.Url
import DecryptorNode.Store.Work

/-! Databases in files, and connections to them. -/
namespace DecryptorNode.Node

open Store (Action Database StoreError)

/-- Directories, files that hold something else, and databases by their paths. -/
structure Disk where
  isDirectory : String → Bool
  isOther : String → Bool
  databases : List (String × Database)

/-- Where a database is. -/
inductive Place where
  | memory : Place
  | file : String → Place
  | unreachable : Place
  deriving DecidableEq, Repr

/-- The place that a connection goes to. Servers are out of reach. The path of a file may have
bytes written with percent signs; an empty one makes a database that ends with its connection. -/
def Place.ofRepository (r : Config.Repository) : Place :=
  if r.driver ≠ .sqlite then .unreachable
  else if r.database = Config.Repository.memory then .memory
  else if r.database.toList.contains '?' then .unreachable
  else match Utf8.decode? (Internet.Url.percentDecoded r.database.toList) with
    | none => .unreachable
    | some [] => .memory
    | some path => .file (String.ofList path)

namespace Disk

def directoryOf (path : String) : String :=
  match (path.splitOn "/").dropLast with
  | [] => "."
  | [""] => "/"
  | parts => "/".intercalate parts

/-- Opens a database. A file is made if it is not there, but not its directory. -/
def connect (d : Disk) : Place → Except StoreError Database
  | .memory => .ok .empty
  | .unreachable => .error (.database none)
  | .file path =>
    if d.isDirectory path || d.isOther path || !d.isDirectory (directoryOf path) then
      .error (.database none)
    else .ok (((d.databases.find? (·.1 = path)).map (·.2)).getD .empty)

def keep (d : Disk) (database : Database) : Place → Disk
  | .file path => { d with databases := (path, database) :: d.databases.filter (·.1 ≠ path) }
  | .memory | .unreachable => d

def visit {α : Type} (d : Disk) (place : Place) (action : Action StoreError α) :
    Except StoreError α × Disk :=
  match d.connect place with
  | .error e => (.error e, d)
  | .ok database =>
    let (result, store) := action.run ⟨database, []⟩
    (result, d.keep store.database place)

end Disk
end DecryptorNode.Node
