/-! Files by their paths, from a working directory or from the root. No file is known above the
working directory: a loader that goes on to look for a relative path in the directories over it
finds nothing there. -/
namespace DecryptorNode.Config

/-- What is found at a path. -/
inductive FileEntry where
  | document : String → FileEntry
  | directory : FileEntry
  | absent : FileEntry
  deriving DecidableEq, Repr

/-- A place by the names that lead to it from the working directory, or first of all by the
root. -/
abbrev FilePlace := List String

namespace FilePlace

def root : String := "/"

def start (path : String) : FilePlace := if path.toList.head? = some '/' then [root] else []

/-- The place of a path, of whose parts the empty ones and single dots lead nowhere. -/
def ofPath (path : String) : FilePlace :=
  start path ++ (path.splitOn "/").filter fun part => part ≠ "" && part ≠ "."

end FilePlace

/-- Files and what they hold. -/
structure Files where
  entries : List (FilePlace × String)
  deriving DecidableEq, Repr

namespace Files

def ofPaths (files : List (String × String)) : Files :=
  ⟨files.map fun (path, content) => (.ofPath path, content)⟩

def content? (f : Files) (place : FilePlace) : Option String :=
  (f.entries.find? (·.1 = place)).map (·.2)

/-- The working directory, the root, or a directory that a file is in. -/
def isDirectory (f : Files) (place : FilePlace) : Bool :=
  place.isEmpty || place == [FilePlace.root] || f.entries.any fun entry =>
    place.isPrefixOf entry.1 && place.length < entry.1.length

/-- Where a part of a path leads from a directory. Nothing above the start is known. -/
def step (f : Files) (place : FilePlace) (part : String) : Option FilePlace :=
  if !f.isDirectory place then none
  else if part = "" ∨ part = "." then some place
  else if part = ".." then if place.isEmpty then none else some place.dropLast
  else some (place ++ [part])

def find (f : Files) (path : String) : FileEntry :=
  if path = "" then .absent
  else match (path.splitOn "/").foldlM f.step (.start path) with
    | none => .absent
    | some place =>
      if f.isDirectory place then .directory
      else (f.content? place).elim .absent .document

end Files
end DecryptorNode.Config
