import DecryptorNode.Bytes.Utf8
import DecryptorNode.Network.Json.Value

/-! Reading texts and numbers out of JSON values. -/
namespace DecryptorNode.Network.Json

def codeUnit? (a b c d : UInt8) : Option Nat := do
  let a ← hexValue? a
  let b ← hexValue? b
  let c ← hexValue? c
  return ((a * 16 + b) * 16 + c) * 16 + (← hexValue? d)

def isHighHalf (unit : Nat) : Bool := 0xD800 ≤ unit && unit < 0xDC00

def isLowHalf (unit : Nat) : Bool := 0xDC00 ≤ unit && unit < 0xE000

/-- Replaces escapes by the bytes of their characters. The two halves of a character must stand
together. -/
def unescape? : Bytes → Option Bytes
  | [] => some []
  | b :: rest =>
    if b ≠ 0x5C then (unescape? rest).map (b :: ·)
    else match rest with
      | e :: rest =>
        if e ≠ 0x75 then do
          let c ← simpleEscapes.lookup e
          return c :: (← unescape? rest)
        else match rest with
          | h₁ :: h₂ :: h₃ :: h₄ :: rest => do
            let unit ← codeUnit? h₁ h₂ h₃ h₄
            if isHighHalf unit then
              match rest with
              | s :: u :: l₁ :: l₂ :: l₃ :: l₄ :: rest => do
                let low ← codeUnit? l₁ l₂ l₃ l₄
                if s = 0x5C ∧ u = 0x75 ∧ isLowHalf low then
                  let n := 0x10000 + (unit - 0xD800) * 0x400 + (low - 0xDC00)
                  return Utf8.encodeNumber n ++ (← unescape? rest)
                else none
              | _ => none
            else if isLowHalf unit then none
            else return Utf8.encodeNumber unit ++ (← unescape? rest)
          | _ => none
      | [] => none

def characters? (raw : Bytes) : Option (List Char) := (unescape? raw).bind Utf8.decode?

namespace Value

def natural? (limit : Nat) : Value → Option Nat
  | .integer false n => if n ≤ limit then some n else none
  | _ => none

/-- An integer of 64 bits with sign. Zero has none. -/
def signed? : Value → Option Int
  | .integer false n => if n < 2 ^ 63 then some (n : Int) else none
  | .integer true n => if 0 < n ∧ n ≤ 2 ^ 63 then some (-(n : Int)) else none
  | _ => none

def characters? : Value → Option (List Char)
  | .text raw => Json.characters? raw
  | _ => none

def hexBytes? (v : Value) : Option Bytes := v.characters?.bind Hex.decode

def namedMembers? (members : List (Bytes × Value)) : Option (List (List Char × Value)) :=
  members.mapM fun (name, v) => (Json.characters? name).map (·, v)

def only? (members : List (List Char × Value)) (name : String) : Option Value :=
  match members.filter (fun m => m.1 == name.toList) with
  | [(_, v)] => some v
  | _ => none

/-- The values of a record: the elements of an array of as many, or in an object the members of
the given names, each there once, beside any others. -/
def record? (names : List String) : Value → Option (List Value)
  | .array values => if values.length = names.length then some values else none
  | .object members => do
    let members ← namedMembers? members
    names.mapM (only? members)
  | _ => none

end Value
end DecryptorNode.Network.Json
