import DecryptorNode.Internet.Numeral

/-! Internet addresses of both versions: reading and the usual short text. -/
namespace DecryptorNode.Internet

open Text (Scan exactly)

/-- An address of the older kind, by its four bytes. -/
structure Host4 where
  a : Nat
  b : Nat
  c : Nat
  d : Nat
  deriving DecidableEq, Repr

namespace Host4

def octet : Scan Nat := fun cs =>
  match cs with
  | '0' :: c :: _ => if isDigit 10 c then none else number 10 3 255 cs
  | _ => number 10 3 255 cs

def scan : Scan Host4 := fun cs => do
  let (a, cs) ← octet cs
  let ((), cs) ← exactly '.' cs
  let (b, cs) ← octet cs
  let ((), cs) ← exactly '.' cs
  let (c, cs) ← octet cs
  let ((), cs) ← exactly '.' cs
  let (d, cs) ← octet cs
  return (⟨a, b, c, d⟩, cs)

def text (h : Host4) : String :=
  ".".intercalate ([h.a, h.b, h.c, h.d].map toString)

def groups (h : Host4) : List Nat := [h.a * 256 + h.b, h.c * 256 + h.d]

end Host4

/-- An address of the newer kind, by its eight groups of sixteen bits. -/
structure Host6 where
  groups : List Nat
  deriving DecidableEq, Repr

namespace Host6

/-- Groups up to a number of them, the last two of which may be written as an older address; tells
whether they are. Every group but the first follows a colon. -/
def scanGroups : (room : Nat) → (first : Bool) → List Char → (List Nat × Bool) × List Char
  | 0, _, cs => (([], false), cs)
  | room + 1, first, cs =>
    let after := if first then some ((), cs) else exactly ':' cs
    match after with
    | none => (([], false), cs)
    | some ((), front) =>
      match if 1 ≤ room then Host4.scan front else none with
      | some (h, rest) => ((h.groups, true), rest)
      | none =>
        match number 16 4 0xFFFF front with
        | none => (([], false), cs)
        | some (g, rest) =>
          let ((more, embedded), rest) := scanGroups room false rest
          ((g :: more, embedded), rest)

/-- All eight groups, or fewer around a double colon that stands for at least one zero. -/
def scan : Scan Host6 := fun cs =>
  let ((head, embedded), rest) := scanGroups 8 true cs
  if head.length = 8 then some (⟨head⟩, rest)
  else if embedded then none
  else do
    let ((), rest) ← exactly ':' rest
    let ((), rest) ← exactly ':' rest
    let ((tail, _), rest) := scanGroups (7 - head.length) true rest
    let zeros := List.replicate (8 - head.length - tail.length) 0
    return (⟨head ++ zeros ++ tail⟩, rest)

def mapped? (h : Host6) : Option Host4 :=
  match h.groups with
  | [0, 0, 0, 0, 0, 0xFFFF, g, k] => some ⟨g / 256, g % 256, k / 256, k % 256⟩
  | _ => none

def zerosAt (groups : List Nat) : Nat := (groups.takeWhile (· = 0)).length

/-- The place and length of the first of the longest runs of zeros, from a position on. -/
def longestRun : (position : Nat) → List Nat → Nat × Nat
  | _, [] => (0, 0)
  | i, g :: rest =>
    let here := zerosAt (g :: rest)
    let later := longestRun (i + 1) rest
    if later.2 ≤ here then (i, here) else later

def groupText (g : Nat) : String := String.ofList (Nat.toDigits 16 g)

def joined (groups : List Nat) : String := ":".intercalate (groups.map groupText)

/-- A double colon replaces the longest run of two or more zeros. -/
def text (h : Host6) : String :=
  match h.mapped? with
  | some inner => "::ffff:" ++ inner.text
  | none =>
    let (place, length) := longestRun 0 h.groups
    if 2 ≤ length then
      joined (h.groups.take place) ++ "::" ++ joined (h.groups.drop (place + length))
    else joined h.groups

end Host6
end DecryptorNode.Internet
