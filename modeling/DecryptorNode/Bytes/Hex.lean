import DecryptorNode.Bytes

/-! Hexadecimal text of byte strings. Writing uses lowercase digits, reading takes both cases. -/
namespace DecryptorNode.Hex

def digit (n : Nat) : Char :=
  if n < 10 then Char.ofNat (48 + n) else Char.ofNat (87 + n)

def value? (c : Char) : Option Nat :=
  if '0' ≤ c ∧ c ≤ '9' then some (c.toNat - 48)
  else if 'a' ≤ c ∧ c ≤ 'f' then some (c.toNat - 87)
  else if 'A' ≤ c ∧ c ≤ 'F' then some (c.toNat - 55)
  else none

def encode : Bytes → List Char
  | [] => []
  | b :: rest => digit (b.toNat / 16) :: digit (b.toNat % 16) :: encode rest

/-- Refuses an odd number of digits and anything that is not a digit. -/
def decode : List Char → Option Bytes
  | [] => some []
  | [_] => none
  | high :: low :: rest => do
    let h ← value? high
    let l ← value? low
    return UInt8.ofNat (16 * h + l) :: (← decode rest)

def text (bytes : Bytes) : String := String.ofList (encode bytes)

/-- The written form with the marker that topics, calls and addresses carry. -/
def marked (bytes : Bytes) : String := "0x" ++ text bytes

end DecryptorNode.Hex
