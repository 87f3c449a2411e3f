import DecryptorNode.Curve.Quadratic

/-! The extension of degree twelve in which pairings take their values, as a quadratic extension
of a cubic one: v cubed is the twist constant and w squared is v. -/
namespace DecryptorNode.Curve

/-- The constant 9 + i, neither a square nor a cube. -/
def twistConstant : Fp2 := ⟨9, 1⟩

/-- The element c0 + c1 v + c2 v². -/
structure Fp6 where
  c0 : Fp2
  c1 : Fp2
  c2 : Fp2
  deriving DecidableEq

namespace Fp6

instance : Zero Fp6 := ⟨⟨0, 0, 0⟩⟩
instance : One Fp6 := ⟨⟨1, 0, 0⟩⟩
instance : Add Fp6 := ⟨fun a b => ⟨a.c0 + b.c0, a.c1 + b.c1, a.c2 + b.c2⟩⟩
instance : Sub Fp6 := ⟨fun a b => ⟨a.c0 - b.c0, a.c1 - b.c1, a.c2 - b.c2⟩⟩
instance : Neg Fp6 := ⟨fun a => ⟨-a.c0, -a.c1, -a.c2⟩⟩

/-- The product with the twist constant, 9 a - b and a + 9 b. -/
def twist (a : Fp2) : Fp2 :=
  ⟨9 * a.re - a.im, a.re + 9 * a.im⟩

instance : Mul Fp6 := ⟨fun a b =>
  let t0 := a.c0 * b.c0
  let t1 := a.c1 * b.c1
  let t2 := a.c2 * b.c2
  ⟨t0 + twist ((a.c1 + a.c2) * (b.c1 + b.c2) - t1 - t2),
    (a.c0 + a.c1) * (b.c0 + b.c1) - t0 - t1 + twist t2,
    (a.c0 + a.c2) * (b.c0 + b.c2) - t0 - t2 + t1⟩⟩

def shift (a : Fp6) : Fp6 := ⟨twist a.c2, a.c0, a.c1⟩

def scale (c : Fp2) (a : Fp6) : Fp6 := ⟨c * a.c0, c * a.c1, c * a.c2⟩

/-- The adjugate divided by the norm; zero is sent to zero. -/
def inv (a : Fp6) : Fp6 :=
  let t0 := a.c0 * a.c0 - twist (a.c1 * a.c2)
  let t1 := twist (a.c2 * a.c2) - a.c0 * a.c1
  let t2 := a.c1 * a.c1 - a.c0 * a.c2
  let norm := a.c0 * t0 + twist (a.c2 * t1 + a.c1 * t2)
  scale norm⁻¹ ⟨t0, t1, t2⟩

instance : Inv Fp6 := ⟨inv⟩

end Fp6

/-- The element c0 + c1 w. -/
structure Fp12 where
  c0 : Fp6
  c1 : Fp6
  deriving DecidableEq

namespace Fp12

instance : Zero Fp12 := ⟨⟨0, 0⟩⟩
instance : One Fp12 := ⟨⟨1, 0⟩⟩
instance : Add Fp12 := ⟨fun a b => ⟨a.c0 + b.c0, a.c1 + b.c1⟩⟩
instance : Mul Fp12 := ⟨fun a b =>
  let t0 := a.c0 * b.c0
  let t1 := a.c1 * b.c1
  ⟨t0 + Fp6.shift t1, (a.c0 + a.c1) * (b.c0 + b.c1) - t0 - t1⟩⟩

/-- The power by the sixth power of the field order. -/
def conjugate (a : Fp12) : Fp12 := ⟨a.c0, -a.c1⟩

def inv (a : Fp12) : Fp12 :=
  let n := (a.c0 * a.c0 - Fp6.shift (a.c1 * a.c1))⁻¹
  ⟨a.c0 * n, -(a.c1 * n)⟩

instance : Inv Fp12 := ⟨inv⟩

end Fp12
end DecryptorNode.Curve
