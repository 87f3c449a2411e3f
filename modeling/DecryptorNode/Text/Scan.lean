/-! Reading the front of a text. -/
namespace DecryptorNode.Text

/-- A reader of the front of a text, which gives what it found and the rest. -/
abbrev Scan (α : Type) := List Char → Option (α × List Char)

def exactly (c : Char) : Scan Unit
  | d :: rest => if d = c then some ((), rest) else none
  | [] => none

def spanSome (test : Char → Bool) : Scan (List Char) := fun cs =>
  match cs.span test with
  | ([], _) => none
  | found => some found

def after? (word cs : List Char) : Option (List Char) :=
  if word.isPrefixOf cs then some (cs.drop word.length) else none

/-- Whether a minus sign stands in front, and the rest after a sign of either kind. -/
def signed (cs : List Char) : Bool × List Char :=
  match cs with
  | '-' :: rest => (true, rest)
  | '+' :: rest => (false, rest)
  | _ => (false, cs)

def decimal? (cs : List Char) : Option Nat :=
  if cs ≠ [] ∧ cs.all Char.isDigit then
    some (cs.foldl (fun n c => n * 10 + (c.toNat - 48)) 0)
  else none

def isKeyPart (c : Char) : Bool := c.isAlphanum || c = '_' || c = '-'

end DecryptorNode.Text
