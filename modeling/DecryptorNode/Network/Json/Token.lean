import DecryptorNode.Bytes.Hex

/-! The tokens of JSON. They can be told apart without knowing where in a value one stands. -/
namespace DecryptorNode.Network.Json

inductive Literal where
  | yes : Literal
  | no : Literal
  | null : Literal
  deriving DecidableEq, Repr

/-- A text token keeps its escapes, which are well formed but may name half a character. An
integer is a number without fraction and exponent, by sign and size. -/
inductive Token where
  | openObject : Token
  | closeObject : Token
  | openArray : Token
  | closeArray : Token
  | comma : Token
  | colon : Token
  | text : Bytes → Token
  | integer : (negative : Bool) → Nat → Token
  | fraction : Token
  | literal : Literal → Token
  deriving DecidableEq, Repr

def isSpace (b : UInt8) : Bool := b == 0x20 || b == 0x09 || b == 0x0A || b == 0x0D

def isDigit (b : UInt8) : Bool := 0x30 ≤ b && b ≤ 0x39

def hexValue? (b : UInt8) : Option Nat := Hex.value? (Char.ofNat b.toNat)

def isHexDigit (b : UInt8) : Bool := (hexValue? b).isSome

def simpleEscapes : List (UInt8 × UInt8) :=
  [(0x22, 0x22), (0x5C, 0x5C), (0x2F, 0x2F), (0x62, 0x08), (0x66, 0x0C), (0x6E, 0x0A),
    (0x72, 0x0D), (0x74, 0x09)]

/-- Continues a text up to its closing quote. The bytes seen so far are in reverse. -/
def scanText (seen : Bytes) : Bytes → Option (Bytes × Bytes)
  | [] => none
  | b :: rest =>
    if b = 0x22 then some (seen.reverse, rest)
    else if b < 0x20 then none
    else if b = 0x5C then
      match rest with
      | [] => none
      | e :: rest =>
        if (simpleEscapes.lookup e).isSome then scanText (e :: b :: seen) rest
        else if e = 0x75 then
          match rest with
          | h₁ :: h₂ :: h₃ :: h₄ :: rest =>
            if isHexDigit h₁ && isHexDigit h₂ && isHexDigit h₃ && isHexDigit h₄ then
              scanText (h₄ :: h₃ :: h₂ :: h₁ :: e :: b :: seen) rest
            else none
          | _ => none
        else none
    else scanText (b :: seen) rest

def decimal (digits : Bytes) : Nat := digits.foldl (fun n b => n * 10 + (b.toNat - 0x30)) 0

def scanDigits (bytes : Bytes) : Option (Bytes × Bytes) :=
  match bytes.span isDigit with
  | ([], _) => none
  | found => some found

def scanFraction : Bytes → Option (Bool × Bytes)
  | b :: rest =>
    if b = 0x2E then (scanDigits rest).map fun (_, rest) => (true, rest)
    else some (false, b :: rest)
  | [] => some (false, [])

def scanExponent : Bytes → Option (Bool × Bytes)
  | b :: rest =>
    if b = 0x65 || b = 0x45 then
      let unsigned := match rest with
        | s :: more => if s = 0x2B || s = 0x2D then more else rest
        | [] => []
      (scanDigits unsigned).map fun (_, rest) => (true, rest)
    else some (false, b :: rest)
  | [] => some (false, [])

def scanNumber (negative : Bool) (bytes : Bytes) : Option (Token × Bytes) := do
  let (whole, rest) ← scanDigits bytes
  if 1 < whole.length && whole.head? == some 0x30 then none
  else
    let (fraction, rest) ← scanFraction rest
    let (exponent, rest) ← scanExponent rest
    return (if fraction || exponent then .fraction else .integer negative (decimal whole), rest)

def marks : List (UInt8 × Token) :=
  [(0x7B, .openObject), (0x7D, .closeObject), (0x5B, .openArray), (0x5D, .closeArray),
    (0x2C, .comma), (0x3A, .colon)]

def words : List (Bytes × Literal) :=
  [([0x74, 0x72, 0x75, 0x65], .yes), ([0x66, 0x61, 0x6C, 0x73, 0x65], .no),
    ([0x6E, 0x75, 0x6C, 0x6C], .null)]

def scanWord (bytes : Bytes) : Option (Token × Bytes) :=
  words.findSome? fun (word, literal) =>
    if word.isPrefixOf bytes then some (.literal literal, bytes.drop word.length) else none

def scanToken (b : UInt8) (rest : Bytes) : Option (Token × Bytes) :=
  match marks.lookup b with
  | some mark => some (mark, rest)
  | none =>
    if b = 0x22 then (scanText [] rest).map fun (text, rest) => (.text text, rest)
    else if b = 0x2D then scanNumber true rest
    else if isDigit b then scanNumber false (b :: rest)
    else scanWord (b :: rest)

/-- At most the given number of steps, each over a space or a token; tokens so far in reverse. -/
def tokensWithin : (steps : Nat) → List Token → Bytes → Option (List Token)
  | _, seen, [] => some seen.reverse
  | 0, _, _ :: _ => none
  | steps + 1, seen, b :: rest =>
    if isSpace b then tokensWithin steps seen rest
    else match scanToken b rest with
      | some (token, rest) => tokensWithin steps (token :: seen) rest
      | none => none

/-- All tokens of a payload. Every step takes a byte, so its length bounds the steps. -/
def tokens? (bytes : Bytes) : Option (List Token) := tokensWithin bytes.length [] bytes

end DecryptorNode.Network.Json
