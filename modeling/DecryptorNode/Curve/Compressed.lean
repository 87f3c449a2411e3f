import DecryptorNode.Bytes
import DecryptorNode.Curve.Group

/-! Compressed points: the first coordinate in little-endian bytes, with the choice of the second
coordinate and the mark of infinity in the two bits above the field. Bytes after the encoding are
not looked at. -/
namespace DecryptorNode.Curve

/-- Why bytes are no compressed point. -/
inductive DecodeError where
  | truncated : DecodeError
  | conflictingFlags : DecodeError
  | invalid : DecodeError
  deriving DecidableEq, Repr

def DecodeError.message : DecodeError → String
  | .truncated =>
    "I/O error: Error \x7b kind: UnexpectedEof, message: \"failed to fill whole buffer\" \x7d"
  | .conflictingFlags => "the call expects empty flags"
  | .invalid => "the input buffer contained invalid data"

/-- What the two high bits say: which of the two roots is meant, or infinity. -/
inductive PointFlag where
  | smaller : PointFlag
  | infinity : PointFlag
  | larger : PointFlag
  deriving DecidableEq, Repr

namespace PointFlag

def value : PointFlag → Nat
  | .smaller => 0
  | .infinity => 1
  | .larger => 2

def ofNat? : Nat → Option PointFlag
  | 0 => some .smaller
  | 1 => some .infinity
  | 2 => some .larger
  | _ => none

end PointFlag

def fieldBytes : Nat := 32

def flagWeight : Nat := 2 ^ 254

def readNumber (bytes : Bytes) : Except DecodeError Nat :=
  if bytes.length < fieldBytes then .error .truncated
  else .ok (Bytes.toNatLE (bytes.take fieldBytes))

def fieldOfNat (n : Nat) : Except DecodeError Fp :=
  if h : n < fieldModulus then .ok ⟨n, h⟩ else .error .invalid

def readField (bytes : Bytes) : Except DecodeError Fp := do
  fieldOfNat (← readNumber bytes)

def readFlagged (bytes : Bytes) : Except DecodeError (Fp × PointFlag) := do
  let n ← readNumber bytes
  let some flag := PointFlag.ofNat? (n / flagWeight) | .error .conflictingFlags
  return (← fieldOfNat (n % flagWeight), flag)

def writeField (a : Fp) : Bytes := Bytes.ofNatLE fieldBytes a.val

def writeFlagged (a : Fp) (flag : PointFlag) : Bytes :=
  Bytes.ofNatLE fieldBytes (a.val + flag.value * flagWeight)

namespace G1

def flagOf (y : Fp) : PointFlag := if y.isLarger then .larger else .smaller

def smallerRoot? (x : Fp) : Option Fp :=
  (Fp.sqrt? (rightSide x)).map fun y => if y.isLarger then -y else y

def decode (bytes : Bytes) : Except DecodeError G1 := do
  match ← readFlagged bytes with
  | (_, .infinity) => .ok .infinity
  | (x, flag) =>
    let some y := smallerRoot? x | .error .invalid
    return .affine x (if flag = .larger then -y else y)

def encode : G1 → Bytes
  | .infinity => writeFlagged 0 .infinity
  | .affine x y => writeFlagged x (flagOf y)

end G1

namespace G2

def flagOf (y : Fp2) : PointFlag := if y.isLarger then .larger else .smaller

def smallerRoot? (x : Fp2) : Option Fp2 :=
  (Fp2.sqrt? (rightSide x)).map fun y => if y.isLarger then -y else y

/-- The real part comes first and has no flags; points outside the subgroup are refused. -/
def decode (bytes : Bytes) : Except DecodeError G2 := do
  let re ← readField bytes
  match ← readFlagged (bytes.drop fieldBytes) with
  | (_, .infinity) => .ok .infinity
  | (im, flag) =>
    let x : Fp2 := ⟨re, im⟩
    let some y := smallerRoot? x | .error .invalid
    let point : G2 := .affine x (if flag = .larger then -y else y)
    if inSubgroup point then .ok point else .error .invalid

def encode : G2 → Bytes
  | .infinity => writeField 0 ++ writeFlagged 0 .infinity
  | .affine x y => writeField x.re ++ writeFlagged x.im (flagOf y)

end G2
end DecryptorNode.Curve
