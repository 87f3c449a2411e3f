import DecryptorNode.Bytes

/-! The Keccak-256 digest: a sponge of rate 136 bytes over the permutation of 1600 bits, with the
padding that starts with a single one bit. -/
namespace DecryptorNode.Keccak

/-- Twenty-five lanes, lane x + 5 y at column x and row y. -/
abbrev Lanes := Vector UInt64 25

def Lanes.at (a : Lanes) (x y : Nat) : UInt64 :=
  a[x % 5 + 5 * (y % 5)]

def Lanes.build (f : Nat → Nat → UInt64) : Lanes :=
  Vector.ofFn fun i => f (i.val % 5) (i.val / 5)

def rotateLeft (w : UInt64) (n : Nat) : UInt64 :=
  if n % 64 = 0 then w
  else (w <<< UInt64.ofNat (n % 64)) ||| (w >>> UInt64.ofNat (64 - n % 64))

def rotations : Vector Nat 25 := #v[
  0, 1, 62, 28, 27,
  36, 44, 6, 55, 20,
  3, 10, 43, 25, 39,
  41, 45, 15, 21, 8,
  18, 2, 61, 56, 14]

def roundConstants : List UInt64 := [
  0x0000000000000001, 0x0000000000008082, 0x800000000000808A, 0x8000000080008000,
  0x000000000000808B, 0x0000000080000001, 0x8000000080008081, 0x8000000000008009,
  0x000000000000008A, 0x0000000000000088, 0x0000000080008009, 0x000000008000000A,
  0x000000008000808B, 0x800000000000008B, 0x8000000000008089, 0x8000000000008003,
  0x8000000000008002, 0x8000000000000080, 0x000000000000800A, 0x800000008000000A,
  0x8000000080008081, 0x8000000000008080, 0x0000000080000001, 0x8000000080008008]

/-- Adds to every lane the parities of two neighbouring columns. -/
def mixColumns (a : Lanes) : Lanes :=
  let parity : Vector UInt64 5 := Vector.ofFn fun x =>
    a.at x 0 ^^^ a.at x 1 ^^^ a.at x 2 ^^^ a.at x 3 ^^^ a.at x 4
  let effect : Vector UInt64 5 := Vector.ofFn fun x =>
    parity[(x.val + 4) % 5] ^^^ rotateLeft parity[(x.val + 1) % 5] 1
  Lanes.build fun x y => a.at x y ^^^ effect[x % 5]

/-- Rotates the lanes and moves the lane at (x, y) to (y, 2 x + 3 y). -/
def permuteLanes (a : Lanes) : Lanes :=
  Lanes.build fun x y =>
    let column := (x + 3 * y) % 5
    rotateLeft (a.at column x) rotations[column % 5 + 5 * (x % 5)]

/-- Combines every lane with the two lanes after it in its row. -/
def mixRows (a : Lanes) : Lanes :=
  Lanes.build fun x y => a.at x y ^^^ (~~~(a.at (x + 1) y) &&& a.at (x + 2) y)

def round (a : Lanes) (constant : UInt64) : Lanes :=
  let b := mixRows (permuteLanes (mixColumns a))
  b.set 0 (b[0] ^^^ constant)

def permutation (a : Lanes) : Lanes := roundConstants.foldl round a

def rate : Nat := 136

/-- The message followed by a one byte, zeros and a final high bit, up to a multiple of the rate. -/
def pad (message : Bytes) : Bytes :=
  let room := rate - message.length % rate
  if room = 1 then message ++ [0x81]
  else message ++ (0x01 :: List.replicate (room - 2) 0x00) ++ [0x80]

def lanesOf : Bytes → List UInt64
  | a :: b :: c :: d :: e :: f :: g :: h :: rest =>
    UInt64.ofNat (Bytes.toNatLE [a, b, c, d, e, f, g, h]) :: lanesOf rest
  | _ => []

def absorb (a : Lanes) (block : List UInt64) : Lanes :=
  let words := block.toArray
  permutation (Vector.ofFn fun i => a[i] ^^^ words.getD i.val 0)

def absorbAll : (count : Nat) → Lanes → List UInt64 → Lanes
  | 0, a, _ => a
  | n + 1, a, words => absorbAll n (absorb a (words.take 17)) (words.drop 17)

def digest (message : Bytes) : Bytes :=
  let padded := pad message
  let final := absorbAll (padded.length / rate) (Vector.replicate 25 0) (lanesOf padded)
  (final.toList.take 4).flatMap fun w => Bytes.ofNatLE 8 w.toNat

end DecryptorNode.Keccak
