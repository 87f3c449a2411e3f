import DecryptorNode.Bytes

/-! Text in the variable-length encoding of one to four bytes a character. -/
namespace DecryptorNode.Utf8

def isTail (b : UInt8) : Bool := 0x80 ≤ b && b ≤ 0xBF

def tailBits (b : UInt8) : Nat := b.toNat % 64

/-- The character of a number that is at least the least allowed for its length and is no
surrogate. -/
def charFrom? (least n : Nat) : Option Char :=
  if h : n.isValidChar ∧ least ≤ n then some (Char.ofNatAux n h.1) else none

/-- All characters; refuses overlong forms, surrogates, numbers that are too large and characters
that are cut off. -/
def decode? : Bytes → Option (List Char)
  | [] => some []
  | a :: rest =>
    if a < 0x80 then do
      let c ← charFrom? 0 a.toNat
      return c :: (← decode? rest)
    else if a < 0xE0 then
      match rest with
      | b :: rest =>
        if isTail b then do
          let c ← charFrom? 0x80 ((a.toNat - 0xC0) * 64 + tailBits b)
          return c :: (← decode? rest)
        else none
      | _ => none
    else if a < 0xF0 then
      match rest with
      | b :: c :: rest =>
        if isTail b && isTail c then do
          let c ← charFrom? 0x800 ((a.toNat - 0xE0) * 4096 + tailBits b * 64 + tailBits c)
          return c :: (← decode? rest)
        else none
      | _ => none
    else
      match rest with
      | b :: c :: d :: rest =>
        if a < 0xF8 && isTail b && isTail c && isTail d then do
          let c ← charFrom? 0x10000 ((a.toNat - 0xF0) * 262144 + tailBits b * 4096
            + tailBits c * 64 + tailBits d)
          return c :: (← decode? rest)
        else none
      | _ => none

def encodeNumber (n : Nat) : Bytes :=
  let tail (k : Nat) : UInt8 := UInt8.ofNat (0x80 + k % 64)
  if n < 0x80 then [UInt8.ofNat n]
  else if n < 0x800 then [UInt8.ofNat (0xC0 + n / 64), tail n]
  else if n < 0x10000 then [UInt8.ofNat (0xE0 + n / 4096), tail (n / 64), tail n]
  else [UInt8.ofNat (0xF0 + n / 262144), tail (n / 4096), tail (n / 64), tail n]

end DecryptorNode.Utf8
