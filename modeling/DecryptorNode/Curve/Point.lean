import DecryptorNode.Curve.Quadratic

/-! Affine points of a curve y² = x³ + b with the chord and tangent law. The constant b does not
enter the law, so the type does not carry it. -/
namespace DecryptorNode.Curve

/-- A point with coordinates, or the neutral point at infinity. -/
inductive Point (F : Type) where
  | infinity : Point F
  | affine : F → F → Point F
  deriving DecidableEq

namespace Point
variable {F : Type} [Add F] [Sub F] [Neg F] [Mul F] [Inv F] [Zero F] [DecidableEq F]

/-- The points whose coordinates satisfy the equation with constant b, and infinity. -/
def OnCurve (b : F) : Point F → Prop
  | .infinity => True
  | .affine x y => y * y = x * x * x + b

instance (b : F) (p : Point F) : Decidable (p.OnCurve b) :=
  match p with
  | .infinity => inferInstanceAs (Decidable True)
  | .affine x y => inferInstanceAs (Decidable (y * y = x * x * x + b))

def isInfinity : Point F → Bool
  | .infinity => true
  | .affine _ _ => false

def neg : Point F → Point F
  | .infinity => .infinity
  | .affine x y => .affine x (-y)

instance : Neg (Point F) := ⟨neg⟩

@[inline] def tangent (x y : F) : F :=
  let s := x * x
  (s + s + s) * (y + y)⁻¹

@[inline] def chord (x₁ y₁ x₂ y₂ : F) : F := (y₁ - y₂) * (x₁ - x₂)⁻¹

/-- The third intersection of the line of a slope through two points, reflected. -/
@[inline] def reflectThird (slope x₁ y₁ x₂ : F) : Point F :=
  let x₃ := slope * slope - x₁ - x₂
  .affine x₃ (-(slope * (x₃ - x₁) + y₁))

@[specialize] def add : Point F → Point F → Point F
  | .infinity, q => q
  | p, .infinity => p
  | .affine x₁ y₁, .affine x₂ y₂ =>
    if x₁ = x₂ then
      if y₁ = -y₂ then .infinity else reflectThird (tangent x₁ y₁) x₁ y₁ x₂
    else reflectThird (chord x₁ y₁ x₂ y₂) x₁ y₁ x₂

instance : Add (Point F) := ⟨add⟩

/-- Double and add over the given number of low bits of the scalar. -/
@[specialize] def timesBits : (bits : Nat) → Nat → Point F → Point F
  | 0, _, _ => .infinity
  | bits + 1, n, p =>
    let rest := timesBits bits (n / 2) (add p p)
    if n % 2 = 1 then add rest p else rest

@[specialize] def times (n : Nat) (p : Point F) : Point F := timesBits (n.log2 + 1) n p

end Point
end DecryptorNode.Curve
