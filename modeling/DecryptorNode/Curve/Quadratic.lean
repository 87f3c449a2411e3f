import DecryptorNode.Curve.Field

/-! The quadratic extension of the field by a square root of minus one. -/
namespace DecryptorNode.Curve

/-- The element re + im i with i squared equal to minus one. -/
structure Fp2 where
  re : Fp
  im : Fp
  deriving DecidableEq

namespace Fp2

def ofBase (a : Fp) : Fp2 := ⟨a, 0⟩

instance : Zero Fp2 := ⟨⟨0, 0⟩⟩
instance : One Fp2 := ⟨⟨1, 0⟩⟩
instance : Add Fp2 := ⟨fun a b => ⟨a.re + b.re, a.im + b.im⟩⟩
instance : Sub Fp2 := ⟨fun a b => ⟨a.re - b.re, a.im - b.im⟩⟩
instance : Neg Fp2 := ⟨fun a => ⟨-a.re, -a.im⟩⟩
instance : Mul Fp2 :=
  ⟨fun a b => ⟨a.re * b.re - a.im * b.im, a.re * b.im + a.im * b.re⟩⟩

def scale (c : Fp) (a : Fp2) : Fp2 := ⟨c * a.re, c * a.im⟩

def norm (a : Fp2) : Fp := a.re * a.re + a.im * a.im

/-- The conjugate divided by the norm; zero is sent to zero. -/
def inv (a : Fp2) : Fp2 :=
  let n := (norm a)⁻¹
  ⟨a.re * n, -(a.im * n)⟩

instance : Inv Fp2 := ⟨inv⟩

def half : Fp := (2 : Fp)⁻¹

/-- The candidates for the real part's square: half the sum and half the difference of the real
part and a root of the norm. -/
def rootOfHalf? (re root : Fp) : Option Fp :=
  (Fp.sqrt? ((re + root) * half)).or (Fp.sqrt? ((re - root) * half))

/-- A root before it is checked: of a base element a base or a purely imaginary one, else the
real part from the norm and the imaginary part from the product. -/
def rootCandidate? (a : Fp2) : Option Fp2 :=
  if a.im = 0 then
    ((Fp.sqrt? a.re).map fun x => ⟨x, 0⟩).or ((Fp.sqrt? (-a.re)).map fun x => ⟨0, x⟩)
  else
    (Fp.sqrt? (norm a)).bind fun root =>
      (rootOfHalf? a.re root).map fun x => ⟨x, a.im * (2 * x)⁻¹⟩

def sqrt? (a : Fp2) : Option Fp2 :=
  (rootCandidate? a).filter fun root => root * root = a

/-- Whether the element is the larger one of itself and its negative, comparing imaginary parts
first and real parts where those agree. -/
def isLarger (a : Fp2) : Bool :=
  if a.im = 0 then a.re.isLarger else a.im.isLarger

end Fp2
end DecryptorNode.Curve
