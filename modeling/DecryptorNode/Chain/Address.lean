import DecryptorNode.Bytes.Hex
import DecryptorNode.Keccak

/-! Account addresses and log topics, with the mixed-case text of addresses whose capitals are a
checksum. -/
namespace DecryptorNode.Chain

def maxWord : Nat := 2 ^ 64 - 1

/-- An address of twenty bytes, kept as the number they spell. -/
structure Address where
  number : Fin (2 ^ 160)
  deriving DecidableEq

namespace Address

def ofNat (n : Nat) : Address := ⟨Fin.ofNat (2 ^ 160) n⟩

def bytes (a : Address) : Bytes := Bytes.ofNat 20 a.number.val

def ofBytes? (bytes : Bytes) : Option Address :=
  if bytes.length = 20 then some (ofNat (Bytes.toNat bytes)) else none

def digits (a : Address) : List Char := Hex.encode a.bytes

/-- Raises the letters whose digit in the digest of the lowercase text is at least eight. -/
def raise (digits mask : List Char) : List Char :=
  List.zipWith (fun c m => if '8' ≤ m then c.toUpper else c) digits mask

def checksummed (a : Address) : List Char :=
  let digits := a.digits
  raise digits (Hex.encode (Keccak.digest (Bytes.ofString (String.ofList digits))))

def text (a : Address) : String := "0x" ++ String.ofList a.checksummed

/-- Reads forty digits in any case after an optional marker. The checksum is not verified. -/
def parse? (text : String) : Option Address :=
  let digits := match text.toList with
    | '0' :: 'x' :: rest => rest
    | '0' :: 'X' :: rest => rest
    | other => other
  (Hex.decode digits).bind ofBytes?

def lessThan (a b : Address) : Bool := a.number.val < b.number.val

end Address

/-- A log topic of thirty-two bytes. -/
structure Topic where
  number : Fin (2 ^ 256)
  deriving DecidableEq

namespace Topic

def ofNat (n : Nat) : Topic := ⟨Fin.ofNat (2 ^ 256) n⟩

def bytes (t : Topic) : Bytes := Bytes.ofNat 32 t.number.val

def ofBytes? (bytes : Bytes) : Option Topic :=
  if bytes.length = 32 then some (ofNat (Bytes.toNat bytes)) else none

def text (t : Topic) : String := Hex.marked t.bytes

def lessThan (a b : Topic) : Bool := a.number.val < b.number.val

end Topic
end DecryptorNode.Chain
