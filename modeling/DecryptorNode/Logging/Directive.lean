import DecryptorNode.Text.Blank
import DecryptorNode.Text.Scan

/-! The directives that choose what is logged: a level, a target, a target with a level, or spans of
a target, maybe with fields, and a level. -/
namespace DecryptorNode.Logging

/-- How far a directive has been read, with what the current part holds so far. -/
inductive Stage where
  | start : Stage
  | name : Stage
  | span : Stage
  | field : (empty : Bool) → Stage
  | fieldsDone : Stage
  | spanDone : Stage
  | level : (characters : Nat) → Stage
  deriving DecidableEq, Repr

namespace Stage

def begins (c : Char) : Bool :=
  c.isAlphanum || c = '-' || c = ':' || c = '_' || (0x80 ≤ c.toNat && !Text.isBlank c)

def step? : Stage → Char → Option Stage
  | .start, c => if c = '[' then some .span else if begins c then some .name else none
  | .name, c => some (if c = '=' then .level 0 else if c = '[' then .span else .name)
  | .span, c => some (if c = ']' then .spanDone else if c = '{' then .field true else .span)
  | .field empty, c => if c = '}' then if empty then none else some .fieldsDone
    else some (.field false)
  | .fieldsDone, c => if c = ']' then some .spanDone else none
  | .spanDone, c => if c = '=' then some (.level 0) else none
  | .level n, _ => some (.level (n + 1))

end Stage

def levelNames : List String := ["error", "warn", "info", "debug", "trace", "off"]

/-- Whether a text names a level, in any case or by a number from zero to five. -/
def isLevel (cs : List Char) : Bool :=
  let digits := match cs with
    | '+' :: digits => digits
    | digits => digits
  (Text.decimal? digits).any (· ≤ 5) || String.ofList (cs.map Char.toLower) ∈ levelNames

/-- Whether a directive is well formed. White space around it is passed over, but counts when the
level is looked up: the level is all that stands from its place on, as the directive is written. -/
def isDirective (cs : List Char) : Bool :=
  match (Text.trim cs).foldlM Stage.step? .start with
  | some .name | some .spanDone => true
  | some (.level n) =>
    let level := cs.drop ((Text.trim cs).length - n)
    level = [] || isLevel level
  | _ => false

/-- Whether a text is a list of directives with commas between them. Empty ones do not count. -/
def isFilter (text : String) : Bool :=
  ((text.toList.splitOn ',').filter (· ≠ [])).all isDirective

end DecryptorNode.Logging
