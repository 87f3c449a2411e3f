import DecryptorNode.Curve.Dodecic
import DecryptorNode.Curve.Group

/-! The ate pairing of the two groups: a chain of tangents and chords on the twist, evaluated at
the point of the base curve, and raised to a power that removes the choice of representative. -/
namespace DecryptorNode.Curve

/-- The trace of the curve less one, the length of the chain. -/
def ateLoop : Nat := 147946756881789318990833708069417712966

/-- The line of a slope through (x, y) of the twist, seen on the base curve, at (px, py). -/
def lineAt (slope x y : Fp2) (px py : Fp) : Fp12 :=
  ⟨⟨Fp2.ofBase py, 0, 0⟩, ⟨-(Fp2.scale px slope), slope * x - y, 0⟩⟩

/-- A value of the chain with the multiple of the twist point that it has reached. -/
structure AteChain where
  value : Fp12
  x : Fp2
  y : Fp2

namespace AteChain

def moveTo (c : AteChain) (slope x₂ : Fp2) : Fp2 × Fp2 :=
  let x₃ := slope * slope - c.x - x₂
  (x₃, -(slope * (x₃ - c.x) + c.y))

def double (c : AteChain) (px py : Fp) : AteChain :=
  let slope := Point.tangent c.x c.y
  let (x, y) := c.moveTo slope c.x
  ⟨c.value * c.value * lineAt slope c.x c.y px py, x, y⟩

def increment (c : AteChain) (qx qy : Fp2) (px py : Fp) : AteChain :=
  let slope := Point.chord c.x c.y qx qy
  let (x, y) := c.moveTo slope qx
  ⟨c.value * lineAt slope c.x c.y px py, x, y⟩

/-- One step for each bit below the leading one, from the highest. -/
def run (qx qy : Fp2) (px py : Fp) : (bits : Nat) → AteChain → AteChain
  | 0, c => c
  | bits + 1, c =>
    let c := c.double px py
    run qx qy px py bits (if ateLoop.testBit bits then c.increment qx qy px py else c)

end AteChain

/-- The constant by which raising to the square of the field order scales w. -/
def frobeniusConstant : Fp :=
  21888242871839275220042445260109153167277707414472061641714758635765020556617

/-- The power by the square of the field order. -/
def frobeniusSquare (a : Fp12) : Fp12 :=
  let g := frobeniusConstant
  let g2 := g * g
  let g3 := g2 * g
  ⟨⟨a.c0.c0, Fp2.scale g2 a.c0.c1, Fp2.scale (g2 * g2) a.c0.c2⟩,
    ⟨Fp2.scale g a.c1.c0, Fp2.scale g3 a.c1.c1, Fp2.scale (g3 * g2) a.c1.c2⟩⟩

/-- The part of the final exponent that is left when the cheap factors are split off. -/
def hardExponent : Nat := (fieldModulus ^ 4 - fieldModulus ^ 2 + 1) / groupOrder

/-- The power by (p¹² - 1) / r, with the factor (p⁶ - 1)(p² + 1) done by conjugation. -/
def finalPower (a : Fp12) : Fp12 :=
  let b := a.conjugate * a⁻¹
  power (frobeniusSquare b * b) hardExponent

/-- The pairing; infinity on either side gives one. -/
def pairing : G1 → G2 → Fp12
  | .affine px py, .affine qx qy =>
    finalPower (AteChain.run qx qy px py ateLoop.log2 ⟨1, qx, qy⟩).value
  | _, _ => 1

end DecryptorNode.Curve
