import DecryptorNode.Curve.Point

/-! The two groups of prime order that BN254 pairs: the whole curve over the base field, and a
subgroup of its twist over the quadratic extension. -/
namespace DecryptorNode.Curve

def groupOrder : Nat :=
  21888242871839275222246405745257275088548364400416034343698204186575808495617

/-- Points of the curve y² = x³ + 3. -/
abbrev G1 := Point Fp

/-- Points of the twist y² = x³ + 3 / (9 + i). -/
abbrev G2 := Point Fp2

namespace G1

def constant : Fp := 3

def rightSide (x : Fp) : Fp := x * x * x + constant

end G1

namespace G2

def constant : Fp2 :=
  ⟨19485874751759354771024239261021720505790618469301721065564631296452457478373,
    266929791119991161246907387137283842545076965332900288569378510910307636690⟩

def rightSide (x : Fp2) : Fp2 := x * x * x + constant

def generator : G2 := .affine
  ⟨10857046999023057135944570762232829481370756359578518086990519993285655852781,
    11559732032986387107991004021392285783925812861821192530917403151452391805634⟩
  ⟨8495653923123431417604973247489272438418190587263600148770280649306958101930,
    4082367875863433681332203403145435568316851327593401208105741076214120093531⟩

/-- Whether the group order sends the point to infinity. On the twist this selects the subgroup
that the generator spans. -/
def inSubgroup (p : G2) : Bool := (Point.times groupOrder p).isInfinity

end G2
end DecryptorNode.Curve
