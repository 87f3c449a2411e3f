import DecryptorNode.Bytes.Hex
import DecryptorNode.Text.Scan

/-! Numbers in the texts of internet addresses. -/
namespace DecryptorNode.Internet

open Text (Scan)

def spelled (base : Nat) (digits : List Char) : Nat :=
  digits.foldl (fun n c => n * base + (Hex.value? c).getD 0) 0

def isDigit (base : Nat) (c : Char) : Bool := (Hex.value? c).any (· < base)

def number (base digits limit : Nat) : Scan Nat := fun cs => do
  let (found, rest) ← Text.spanSome (isDigit base) cs
  let n := spelled base found
  if digits < found.length ∨ limit < n then none else some (n, rest)

end DecryptorNode.Internet
