/-! The prime field under the curve BN254, with its inverse and square root. -/
namespace DecryptorNode.Curve

/-- The order of the field, a prime that leaves three when divided by four. -/
def fieldModulus : Nat :=
  21888242871839275222246405745257275088696311157297823662689037894645226208583

instance : @NeZero Nat .ofOfNat0 fieldModulus := ⟨by decide⟩

abbrev Fp := Fin fieldModulus

section Power
variable {F : Type} [Mul F] [One F]

/-- Square and multiply over the given number of low bits of the exponent. -/
@[specialize] def powerBits : (bits : Nat) → F → Nat → F
  | 0, _, _ => 1
  | bits + 1, a, n =>
    let rest := powerBits bits (a * a) (n / 2)
    if n % 2 = 1 then rest * a else rest

@[specialize] def power (a : F) (n : Nat) : F := powerBits (n.log2 + 1) a n

end Power

namespace Fp

def one : Fp := 1

instance : One Fp := ⟨one⟩

/-- The inverse by raising to the order less two; zero is sent to zero. -/
def inv (a : Fp) : Fp := power a (fieldModulus - 2)

instance : Inv Fp := ⟨inv⟩

/-- A square root if there is one. As the order leaves three modulo four, a root of a square is
its power by a quarter of the order plus one. -/
def sqrt? (a : Fp) : Option Fp :=
  let root := power a ((fieldModulus + 1) / 4)
  if root * root = a then some root else none

def isLarger (a : Fp) : Bool := (-a).val < a.val

end Fp
end DecryptorNode.Curve
