import DecryptorNode.Chain.Address
import DecryptorNode.Config.Value
import DecryptorNode.Text.Blank
import DecryptorNode.Text.Quoted

/-! Values in the texts of environment variables: words for truth values, lists in brackets, tables
in braces, quoted texts and numbers. What is none of these is a text as it stands. -/
namespace DecryptorNode.Config.Literal

open Text (Scan exactly)

def isGap (c : Char) : Bool := c = ' ' || c = '\t' || c = '\n' || c = '\x0C' || c = '\r'

def skipGap (cs : List Char) : List Char := cs.dropWhile isGap

def isMark (c : Char) : Bool := c = ',' || c = '{' || c = '}' || c = '[' || c = ']'

/-- Whether a text is a number with a decimal point, digits on one side of it at least, and maybe
an exponent. -/
def isFraction (cs : List Char) : Bool :=
  let (mantissa, power) := (Text.signed cs).2.span fun c => c ≠ 'e' && c ≠ 'E'
  let (whole, fraction) := mantissa.span (· ≠ '.')
  match fraction with
  | [] => false
  | _ :: places =>
    (whole ++ places) ≠ [] && (whole ++ places).all Char.isDigit &&
      (match power with
        | [] => true
        | _ :: power => (Text.decimal? (Text.signed power).2).isSome)

/-- What a text without quotes stands for. A number has to fit 64 bits. -/
def bare (cs : List Char) : Value :=
  let (negative, digits) := Text.signed cs
  if isFraction cs then .fraction
  else match Text.decimal? digits with
    | some n =>
      if negative then if n ≤ 2 ^ 63 then .integer (-(n : Int)) else .text (String.ofList cs)
      else if n ≤ Chain.maxWord then .natural n else .text (String.ofList cs)
    | none => .text (String.ofList cs)

def key : Scan String
  | '"' :: rest => Text.Quoted.text rest
  | cs => do
    let (name, rest) ← Text.spanSome Text.isKeyPart cs
    return (String.ofList name, rest)

def member (value : Scan Value) : Scan (String × Value) := fun cs => do
  let (name, rest) ← key (skipGap cs)
  let ((), rest) ← exactly '=' (skipGap rest)
  let (v, rest) ← value (skipGap rest)
  return ((name, v), skipGap rest)

/-- Items with commas between them, up to a closing mark, which may also stand where an item
would begin. -/
def items {α : Type} (close : Char) (item : Scan α) : (steps : Nat) → Scan (List α)
  | 0, _ => none
  | steps + 1, cs =>
    match exactly close cs with
    | some ((), rest) => some ([], rest)
    | none => do
      let (a, rest) ← item cs
      match exactly ',' rest with
      | some ((), rest) => do
        let (more, rest) ← items close item steps rest
        return (a :: more, rest)
      | none => do
        let ((), rest) ← exactly close rest
        return ([a], rest)

def front (inner : Scan Value) (cs : List Char) : Option (Value × List Char) :=
  match Text.after? ['t', 'r', 'u', 'e'] cs, Text.after? ['f', 'a', 'l', 's', 'e'] cs with
  | some rest, _ => some (.flag true, rest)
  | none, some rest => some (.flag false, rest)
  | none, none =>
    match cs with
    | '{' :: rest => do
      let (members, rest) ← items '}' (member inner) (rest.length + 1) rest
      return (.table (Entries.ofList members), rest)
    | '[' :: rest => do
      let (values, rest) ← items ']' inner (rest.length + 1) rest
      return (.list values, rest)
    | '"' :: rest => do
      let (s, rest) ← Text.Quoted.text rest
      return (.text s, rest)
    | '\'' :: c :: '\'' :: rest => some (.letter c, rest)
    | '\'' :: _ => none
    | _ =>
      let (found, rest) := cs.span fun c => !isMark c
      some (bare (Text.trim found), rest)

/-- A value with gaps around it, in which values stand in one another to a depth. -/
def value : (depth : Nat) → Scan Value
  | 0, _ => none
  | depth + 1, cs => do
    let (v, rest) ← front (value depth) (skipGap cs)
    return (v, skipGap rest)

/-- The value of a whole text. No value stands deeper than the text is long. -/
def parse (text : String) : Value :=
  let cs := text.toList
  match value (cs.length + 1) cs with
  | some (v, []) => v
  | _ => .text text

end DecryptorNode.Config.Literal
