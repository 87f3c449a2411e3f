import DecryptorNode.Curve.Compressed
import DecryptorNode.Keccak

/-! Hashing to the base curve by trial: counters are tried in order until the digest of domain,
counter and message is the first coordinate of a point. -/
namespace DecryptorNode.Curve

def trialCoordinate (domain message : Bytes) (counter : Nat) : Fp :=
  Fin.ofNat fieldModulus (Bytes.toNat (Keccak.digest (domain ++ Bytes.ofNat 4 counter ++ message)))

/-- The point of one trial, with the smaller second coordinate. -/
def trialPoint? (domain message : Bytes) (counter : Nat) : Option G1 :=
  let x := trialCoordinate domain message counter
  (G1.smallerRoot? x).map (Point.affine x)

/-- What the first counter that has a value has, among a number of counters. -/
def firstTrial? {α : Type} (trial? : Nat → Option α) : (trials : Nat) → (counter : Nat) → Option α
  | 0, _ => none
  | trials + 1, counter =>
    match trial? counter with
    | some found => some found
    | none => firstTrial? trial? trials (counter + 1)

def hashToCurve? (domain message : Bytes) : Option G1 :=
  firstTrial? (trialPoint? domain message) (2 ^ 32) 0

/-- The point that a domain and a message hash to; infinity if no counter gives one. -/
def hashToCurve (domain message : Bytes) : G1 :=
  (hashToCurve? domain message).getD .infinity

end DecryptorNode.Curve
