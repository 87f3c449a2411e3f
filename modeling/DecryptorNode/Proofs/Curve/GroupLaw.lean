import DecryptorNode.Bytes
import DecryptorNode.Curve.Point
import Mathlib.AlgebraicGeometry.EllipticCurve.Affine.Point
import Mathlib.Tactic.LinearCombination

/-! The chord and tangent law makes the points of a curve y² = x³ + b an abelian group: its points
are those of a Weierstrass curve, coordinate by coordinate, with the same sums and multiples. -/
namespace DecryptorNode.Curve

@[simps] def curve {F : Type} [Field F] (b : F) : WeierstrassCurve.Affine F where
  a₁ := 0
  a₂ := 0
  a₃ := 0
  a₄ := 0
  a₆ := b

/-- Away from characteristic two and three a curve with a constant is smooth. -/
theorem isElliptic_curve {F : Type} [Field F] {b : F} (two : (2 : F) ≠ 0) (three : (3 : F) ≠ 0)
    (nonzero : b ≠ 0) : (curve b).IsElliptic := by
  have discriminant : (curve b).Δ = -(2 ^ 4 * 3 ^ 3 * b ^ 2) := by
    simp only [WeierstrassCurve.Δ, WeierstrassCurve.b₂, WeierstrassCurve.b₄, WeierstrassCurve.b₆,
      WeierstrassCurve.b₈, curve_a₁, curve_a₂, curve_a₃, curve_a₄, curve_a₆]
    ring
  refine ⟨isUnit_iff_ne_zero.mpr ?_⟩
  rw [discriminant]
  exact neg_ne_zero.mpr (mul_ne_zero (mul_ne_zero (pow_ne_zero 4 two) (pow_ne_zero 3 three))
    (pow_ne_zero 2 nonzero))

namespace Point

theorem isInfinity_iff {F : Type} {p : Point F} : p.isInfinity = true ↔ p = .infinity := by
  cases p <;> simp [isInfinity]

section Coordinates
variable {F : Type} [Field F] {b : F}

def ofGroup : (curve b).Point → Point F
  | .zero => .infinity
  | .some x y _ => .affine x y

@[simp] theorem ofGroup_zero : ofGroup (0 : (curve b).Point) = .infinity := rfl

theorem ofGroup_injective : Function.Injective (ofGroup (b := b)) := by
  rintro (_ | ⟨x, y, h⟩) (_ | ⟨x', y', h'⟩) same <;> cases same <;> rfl

theorem ofGroup_eq_infinity_iff {P : (curve b).Point} : ofGroup P = .infinity ↔ P = 0 :=
  ofGroup_injective.eq_iff' ofGroup_zero

theorem equation_iff {x y : F} : (curve b).Equation x y ↔ y * y = x * x * x + b := by
  rw [WeierstrassCurve.Affine.equation_iff]
  simp only [curve_a₁, curve_a₂, curve_a₃, curve_a₄, curve_a₆]
  constructor <;> intro h <;> linear_combination h

private theorem onCurve_ofGroup (P : (curve b).Point) : (ofGroup P).OnCurve b := by
  cases P with
  | zero => trivial
  | some x y h => exact equation_iff.mp h.1

theorem OnCurve.neg {p : Point F} (h : p.OnCurve b) : (-p).OnCurve b := by
  cases p with
  | infinity => trivial
  | affine x y => exact (neg_mul_neg y y).trans h

theorem OnCurve.exists_ofGroup [(curve b).IsElliptic] {p : Point F} (h : p.OnCurve b) :
    ∃ P : (curve b).Point, ofGroup P = p := by
  cases p with
  | infinity => exact ⟨0, rfl⟩
  | affine x y =>
    have smooth := WeierstrassCurve.Affine.equation_iff_nonsingular.mp (equation_iff.mpr h)
    exact ⟨.some x y smooth, rfl⟩

theorem negY_eq (x y : F) : (curve b).negY x y = -y := by
  simp only [WeierstrassCurve.Affine.negY, curve_a₁, curve_a₃]
  ring

private theorem ofGroup_neg (P : (curve b).Point) : ofGroup (-P) = -ofGroup P := by
  cases P with
  | zero => rfl
  | some x y h => exact congrArg (Point.affine x) (negY_eq x y)

/-- The point that the library's law finds by a slope. -/
private theorem reflectThird_eq (slope x₁ y₁ x₂ : F) : reflectThird slope x₁ y₁ x₂ =
    .affine ((curve b).addX x₁ x₂ slope) ((curve b).addY x₁ x₂ y₁ slope) := by
  unfold reflectThird
  simp only [WeierstrassCurve.Affine.addY, WeierstrassCurve.Affine.negAddY, negY_eq,
    WeierstrassCurve.Affine.addX, curve_a₁, curve_a₂]
  congr 1 <;> ring

end Coordinates

section Sums
variable {F : Type} [Field F] [DecidableEq F] {b : F}

private theorem tangent_eq {x y : F} (moving : y ≠ -y) : tangent x y = (curve b).slope x x y y := by
  rw [WeierstrassCurve.Affine.slope_of_Y_ne rfl (by rwa [negY_eq]), negY_eq, tangent,
    sub_neg_eq_add, div_eq_mul_inv]
  simp only [curve_a₁, curve_a₂, curve_a₄]
  ring

private theorem chord_eq {x₁ y₁ x₂ y₂ : F} (apart : x₁ ≠ x₂) :
    chord x₁ y₁ x₂ y₂ = (curve b).slope x₁ x₂ y₁ y₂ := by
  rw [WeierstrassCurve.Affine.slope_of_X_ne apart, chord, div_eq_mul_inv]

private theorem ofGroup_add (P Q : (curve b).Point) : ofGroup (P + Q) = ofGroup P + ofGroup Q := by
  cases P with
  | zero => exact congrArg ofGroup (zero_add Q)
  | some x₁ y₁ h₁ =>
    cases Q with
    | zero => exact congrArg ofGroup (add_zero _)
    | some x₂ y₂ h₂ =>
      change _ = add (.affine x₁ y₁) (.affine x₂ y₂)
      rw [add]
      by_cases above : x₁ = x₂
      · rw [if_pos above]
        by_cases opposite : y₁ = -y₂
        · rw [if_pos opposite, WeierstrassCurve.Affine.Point.add_of_Y_eq above
            (opposite.trans (negY_eq x₂ y₂).symm)]
          rfl
        · have moving : y₁ ≠ (curve b).negY x₂ y₂ := by rwa [negY_eq]
          obtain rfl := WeierstrassCurve.Affine.Y_eq_of_Y_ne h₁.1 h₂.1 above moving
          subst above
          rw [if_neg opposite, WeierstrassCurve.Affine.Point.add_of_Y_ne moving,
            reflectThird_eq (b := b), tangent_eq (b := b) opposite]
          rfl
      · rw [if_neg above, WeierstrassCurve.Affine.Point.add_of_X_ne above,
          reflectThird_eq (b := b), chord_eq (b := b) above]
        rfl

private theorem ofGroup_timesBits (bits : Nat) {n : Nat} (h : n < 2 ^ bits) (P : (curve b).Point) :
    timesBits bits n (ofGroup P) = ofGroup (n • P) := by
  induction bits generalizing n P with
  | zero =>
    obtain rfl : n = 0 := Nat.lt_one_iff.mp h
    rw [zero_nsmul]
    rfl
  | succ bits ih =>
    have half : n / 2 < 2 ^ bits := by
      rw [Nat.pow_succ] at h
      omega
    have double : (n / 2) • (P + P) = (n / 2 * 2) • P := by rw [← two_nsmul, mul_nsmul']
    change (if n % 2 = 1 then timesBits bits (n / 2) (ofGroup P + ofGroup P) + ofGroup P
      else timesBits bits (n / 2) (ofGroup P + ofGroup P)) = _
    rw [← ofGroup_add, ih half, ← ofGroup_add, double, ← succ_nsmul]
    split
    · exact congrArg (fun k => ofGroup (k • P)) (by omega)
    · exact congrArg (fun k => ofGroup (k • P)) (by omega)

theorem times_ofGroup (n : Nat) (P : (curve b).Point) :
    times n (ofGroup P) = ofGroup (n • P) :=
  ofGroup_timesBits _ Nat.lt_log2_self P

theorem times_ofGroup_eq_infinity_iff {n : Nat} {P : (curve b).Point} :
    times n (ofGroup P) = .infinity ↔ n • P = 0 := by
  rw [times_ofGroup, ofGroup_eq_infinity_iff]

variable [(curve b).IsElliptic] {p q : Point F}

theorem OnCurve.add (hp : p.OnCurve b) (hq : q.OnCurve b) : (p + q).OnCurve b := by
  obtain ⟨P, rfl⟩ := hp.exists_ofGroup
  obtain ⟨Q, rfl⟩ := hq.exists_ofGroup
  rw [← ofGroup_add]
  exact onCurve_ofGroup (P + Q)

theorem OnCurve.times (h : p.OnCurve b) (n : Nat) : (Point.times n p).OnCurve b := by
  obtain ⟨P, rfl⟩ := h.exists_ofGroup
  rw [times_ofGroup]
  exact onCurve_ofGroup (n • P)

theorem OnCurve.times_add (h : p.OnCurve b) (m n : Nat) :
    Point.times (m + n) p = Point.times m p + Point.times n p := by
  obtain ⟨P, rfl⟩ := h.exists_ofGroup
  rw [times_ofGroup, times_ofGroup, times_ofGroup, ← ofGroup_add, add_nsmul]

theorem times_zero (p : Point F) : times 0 p = .infinity := rfl

theorem times_one (p : Point F) : times 1 p = p := by
  cases p <;> rfl

theorem OnCurve.times_succ (h : p.OnCurve b) (n : Nat) :
    Point.times (n + 1) p = Point.times n p + p := by
  rw [h.times_add, times_one]

theorem OnCurve.add_neg_eq_infinity_iff (hp : p.OnCurve b) (hq : q.OnCurve b) :
    p + -q = .infinity ↔ p = q := by
  obtain ⟨P, rfl⟩ := hp.exists_ofGroup
  obtain ⟨Q, rfl⟩ := hq.exists_ofGroup
  rw [← ofGroup_neg, ← ofGroup_add, ofGroup_eq_infinity_iff, ← sub_eq_add_neg, sub_eq_zero,
    ofGroup_injective.eq_iff]

end Sums
end Point
end DecryptorNode.Curve
