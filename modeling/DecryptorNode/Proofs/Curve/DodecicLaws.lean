import DecryptorNode.Curve.Dodecic
import DecryptorNode.Proofs.Curve.FieldLaws

/-! The products of the extension of degree twelve, which are computed with fewer multiplications
than they have terms, are those of a commutative monoid. -/
namespace DecryptorNode.Curve

namespace Fp6

private theorem ext {a b : Fp6} (c0 : a.c0 = b.c0) (c1 : a.c1 = b.c1) (c2 : a.c2 = b.c2) :
    a = b := by
  cases a
  cases b
  cases c0
  cases c1
  cases c2
  rfl

private theorem twist_eq (a : Fp2) : twist a = twistConstant * a := by
  apply Fp2.ext
  · simp [twist, twistConstant]
  · simp [twist, twistConstant, add_comm]

@[simp] theorem zero_c0 : (0 : Fp6).c0 = 0 := rfl
@[simp] theorem zero_c1 : (0 : Fp6).c1 = 0 := rfl
@[simp] theorem zero_c2 : (0 : Fp6).c2 = 0 := rfl
@[simp] theorem one_c0 : (1 : Fp6).c0 = 1 := rfl
@[simp] theorem one_c1 : (1 : Fp6).c1 = 0 := rfl
@[simp] theorem one_c2 : (1 : Fp6).c2 = 0 := rfl
@[simp] theorem add_c0 (a b : Fp6) : (a + b).c0 = a.c0 + b.c0 := rfl
@[simp] theorem add_c1 (a b : Fp6) : (a + b).c1 = a.c1 + b.c1 := rfl
@[simp] theorem add_c2 (a b : Fp6) : (a + b).c2 = a.c2 + b.c2 := rfl
@[simp] theorem sub_c0 (a b : Fp6) : (a - b).c0 = a.c0 - b.c0 := rfl
@[simp] theorem sub_c1 (a b : Fp6) : (a - b).c1 = a.c1 - b.c1 := rfl
@[simp] theorem sub_c2 (a b : Fp6) : (a - b).c2 = a.c2 - b.c2 := rfl
@[simp] theorem neg_c0 (a : Fp6) : (-a).c0 = -a.c0 := rfl
@[simp] theorem neg_c1 (a : Fp6) : (-a).c1 = -a.c1 := rfl
@[simp] theorem neg_c2 (a : Fp6) : (-a).c2 = -a.c2 := rfl

/-- The product as the sum over all pairs of terms. -/
private theorem mul_eq (a b : Fp6) : a * b =
    ⟨a.c0 * b.c0 + twistConstant * (a.c1 * b.c2 + a.c2 * b.c1),
      a.c0 * b.c1 + a.c1 * b.c0 + twistConstant * (a.c2 * b.c2),
      a.c0 * b.c2 + a.c1 * b.c1 + a.c2 * b.c0⟩ := by
  change (⟨a.c0 * b.c0 + twist ((a.c1 + a.c2) * (b.c1 + b.c2) - a.c1 * b.c1 - a.c2 * b.c2),
    (a.c0 + a.c1) * (b.c0 + b.c1) - a.c0 * b.c0 - a.c1 * b.c1 + twist (a.c2 * b.c2),
    (a.c0 + a.c2) * (b.c0 + b.c2) - a.c0 * b.c0 - a.c2 * b.c2 + a.c1 * b.c1⟩ : Fp6) = _
  rw [twist_eq, twist_eq]
  congr 1 <;> ring

instance : CommRing Fp6 where
  add_assoc a b c := by apply ext <;> simp [add_assoc]
  zero_add a := by apply ext <;> simp
  add_zero a := by apply ext <;> simp
  add_comm a b := by apply ext <;> simp [add_comm]
  left_distrib a b c := by apply ext <;> simp [mul_eq] <;> ring
  right_distrib a b c := by apply ext <;> simp [mul_eq] <;> ring
  zero_mul a := by apply ext <;> simp [mul_eq]
  mul_zero a := by apply ext <;> simp [mul_eq]
  mul_assoc a b c := by apply ext <;> simp [mul_eq] <;> ring
  one_mul a := by apply ext <;> simp [mul_eq]
  mul_one a := by apply ext <;> simp [mul_eq]
  mul_comm a b := by apply ext <;> simp [mul_eq] <;> ring
  neg_add_cancel a := by apply ext <;> simp
  sub_eq_add_neg a b := by apply ext <;> simp [sub_eq_add_neg]
  nsmul := nsmulRec
  zsmul := zsmulRec

def root : Fp6 := ⟨0, 1, 0⟩

private theorem shift_eq (a : Fp6) : shift a = root * a := by
  rw [mul_eq]
  apply ext <;> simp [shift, twist_eq, root]

end Fp6

namespace Fp12

theorem one_eq : (1 : Fp12) = ⟨1, 0⟩ := rfl

/-- The product as the sum over all pairs of terms. -/
private theorem mk_mul_mk (a b c d : Fp6) :
    (⟨a, b⟩ : Fp12) * ⟨c, d⟩ = ⟨a * c + Fp6.root * (b * d), a * d + b * c⟩ := by
  have cross : (a + b) * (c + d) - a * c - b * d = a * d + b * c := by ring
  rw [← Fp6.shift_eq, ← cross]
  rfl

instance : CommMonoid Fp12 where
  mul_assoc := by
    rintro ⟨a, b⟩ ⟨c, d⟩ ⟨e, f⟩
    simp only [mk_mul_mk, mk.injEq]
    constructor <;> ring
  mul_comm := by
    rintro ⟨a, b⟩ ⟨c, d⟩
    simp only [mk_mul_mk, mk.injEq]
    constructor <;> ring
  one_mul := by
    rintro ⟨a, b⟩
    simp only [one_eq, mk_mul_mk, mk.injEq]
    constructor <;> ring
  mul_one := by
    rintro ⟨a, b⟩
    simp only [one_eq, mk_mul_mk, mk.injEq]
    constructor <;> ring

end Fp12
end DecryptorNode.Curve
