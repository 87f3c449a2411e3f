import DecryptorNode.Chain.Address

/-! The contract data encoding. Values stand in words of 32 bytes; a byte string or a list stands
elsewhere, its place given in the head and its length in front of it. Reading takes the low bits
of a word, and looks at no padding and no trailing bytes. -/
namespace DecryptorNode.Chain.Abi

def wordBytes : Nat := 32

def sliceAt? (data : Bytes) (place length : Nat) : Option Bytes :=
  if place + length ≤ data.length then some ((data.drop place).take length) else none

def wordAt? (data : Bytes) (place : Nat) : Option Nat :=
  (sliceAt? data place wordBytes).map Bytes.toNat

/-- The low 64 bits of the word at a place. -/
def numberAt? (data : Bytes) (place : Nat) : Option Nat :=
  (wordAt? data place).map (· % 2 ^ 64)

def addressAt? (data : Bytes) (place : Nat) : Option Address :=
  (wordAt? data place).map Address.ofNat

/-- A place or a length, which must fit 64 bits. -/
def sizeAt? (data : Bytes) (place : Nat) : Option Nat :=
  (wordAt? data place).filter (· ≤ maxWord)

/-- The byte string whose place the word at the given head place says. -/
def bytesAt? (data : Bytes) (head : Nat) : Option Bytes := do
  let place ← sizeAt? data head
  let length ← sizeAt? data place
  sliceAt? data (place + wordBytes) length

def addressesFrom? (data : Bytes) : (count : Nat) → (place : Nat) → Option (List Address)
  | 0, _ => some []
  | count + 1, place => do
    let first ← addressAt? data place
    return first :: (← addressesFrom? data count (place + wordBytes))

/-- The list of addresses whose place the word at the given head place says. A length with more
words than there are bytes is refused at once. -/
def addressListAt? (data : Bytes) (head : Nat) : Option (List Address) := do
  let place ← sizeAt? data head
  let length ← sizeAt? data place
  if length ≤ data.length then addressesFrom? data length (place + wordBytes) else none

def encodeNumber (n : Nat) : Bytes := Bytes.ofNat wordBytes n

def encodeAddress (a : Address) : Bytes := encodeNumber a.number.val

def padding (length : Nat) : Bytes :=
  List.replicate ((wordBytes - length % wordBytes) % wordBytes) 0

def encodeBytes (bytes : Bytes) : Bytes :=
  encodeNumber bytes.length ++ bytes ++ padding bytes.length

def encodeAddresses (addresses : List Address) : Bytes :=
  encodeNumber addresses.length ++ addresses.flatMap encodeAddress

def encodeAddressList (addresses : List Address) : Bytes :=
  encodeNumber wordBytes ++ encodeAddresses addresses

end DecryptorNode.Chain.Abi
