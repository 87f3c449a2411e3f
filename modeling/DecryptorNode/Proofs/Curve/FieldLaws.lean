import DecryptorNode.Proofs.Curve.CompressedPoints
import Mathlib.Tactic.FieldSimp
import Mathlib.Tactic.LinearCombination

/-! The base field and its quadratic extension are fields with the inverses that are computed, and
the roots that are computed in them are found for every square. -/
namespace DecryptorNode.Curve

/-- A ring whose elements but zero have the given inverses. Its quotients are products with them,
also where there is another division on the type. -/
abbrev fieldOfInv {R : Type} [CommRing R] [Inv R] (distinct : (0 : R) ≠ 1)
    (cancel : ∀ {a : R}, a ≠ 0 → a * a⁻¹ = 1) (zero : (0 : R)⁻¹ = 0) : Field R where
  div a b := a * b⁻¹
  exists_pair_ne := ⟨0, 1, distinct⟩
  mul_inv_cancel _ := cancel
  inv_zero := zero
  nnqsmul := _
  nnqsmul_def _ _ := rfl
  qsmul := _
  qsmul_def _ _ := rfl

namespace Fp

instance : CommRing Fp := Fin.instCommRing fieldModulus

private theorem power_eq (a : Fp) (n : Nat) : power a n = a ^ n := power_eq_pow (M := Fp) a n

private theorem pow_pred_of_ne_zero {a : Fp} (nonzero : a ≠ 0) : a ^ (fieldModulus - 1) = 1 :=
  ZMod.pow_card_sub_one_eq_one (p := fieldModulus) nonzero

private theorem mul_inv_of_ne_zero {a : Fp} (nonzero : a ≠ 0) : a * a⁻¹ = 1 := by
  change a * power a (fieldModulus - 2) = 1
  rw [power_eq, ← pow_succ']
  exact pow_pred_of_ne_zero nonzero

private theorem inv_zero : (0 : Fp)⁻¹ = 0 := by
  change power (0 : Fp) (fieldModulus - 2) = 0
  rw [power_eq]
  exact zero_pow (by decide)

instance : Field Fp := fieldOfInv (by decide) mul_inv_of_ne_zero inv_zero

/-- A quarter of the order plus one takes every square to a root of it. -/
private theorem root_mul_root (x : Fp) :
    (x * x) ^ ((fieldModulus + 1) / 4) * (x * x) ^ ((fieldModulus + 1) / 4) = x * x := by
  rcases eq_or_ne x 0 with rfl | nonzero
  · rw [mul_zero, zero_pow (by decide), mul_zero]
  · rw [← pow_add, ← pow_two, ← pow_mul,
      show 2 * ((fieldModulus + 1) / 4 + (fieldModulus + 1) / 4) = fieldModulus - 1 + 2 by decide,
      pow_add, pow_pred_of_ne_zero nonzero, one_mul]

theorem exists_sqrt? {a x : Fp} (square : x * x = a) : ∃ r, sqrt? a = some r := by
  subst square
  unfold sqrt?
  rw [power_eq]
  exact ⟨_, if_pos (root_mul_root x)⟩

theorem two_ne_zero : (2 : Fp) ≠ 0 := by decide

/-- Minus one is no square, as the order leaves three modulo four. -/
theorem mul_self_ne_neg_one (x : Fp) : x * x ≠ -1 := by
  intro square
  have nonzero : x ≠ 0 := by
    rintro rfl
    exact absurd square (by decide)
  have even : (-1 : Fp) ^ ((fieldModulus - 1) / 2) = 1 := by
    rw [← square, ← pow_two, ← pow_mul]
    exact pow_pred_of_ne_zero nonzero
  rw [Odd.neg_one_pow (by decide)] at even
  exact absurd even (by decide)

end Fp

namespace Fp2
variable {a : Fp2}

theorem ext {a b : Fp2} (re : a.re = b.re) (im : a.im = b.im) : a = b := by
  cases a
  cases b
  cases re
  cases im
  rfl

@[simp] theorem zero_re : (0 : Fp2).re = 0 := rfl
@[simp] theorem zero_im : (0 : Fp2).im = 0 := rfl
@[simp] theorem one_re : (1 : Fp2).re = 1 := rfl
@[simp] theorem one_im : (1 : Fp2).im = 0 := rfl
@[simp] theorem add_re (a b : Fp2) : (a + b).re = a.re + b.re := rfl
@[simp] theorem add_im (a b : Fp2) : (a + b).im = a.im + b.im := rfl
@[simp] theorem sub_re (a b : Fp2) : (a - b).re = a.re - b.re := rfl
@[simp] theorem sub_im (a b : Fp2) : (a - b).im = a.im - b.im := rfl
@[simp] theorem neg_re (a : Fp2) : (-a).re = -a.re := rfl
@[simp] theorem neg_im (a : Fp2) : (-a).im = -a.im := rfl
@[simp] theorem mul_re (a b : Fp2) : (a * b).re = a.re * b.re - a.im * b.im := rfl
@[simp] theorem mul_im (a b : Fp2) : (a * b).im = a.re * b.im + a.im * b.re := rfl
theorem inv_re (a : Fp2) : (a⁻¹).re = a.re * (norm a)⁻¹ := rfl
private theorem inv_im (a : Fp2) : (a⁻¹).im = -(a.im * (norm a)⁻¹) := rfl

instance : CommRing Fp2 where
  add_assoc a b c := by apply ext <;> simp [add_assoc]
  zero_add a := by apply ext <;> simp
  add_zero a := by apply ext <;> simp
  add_comm a b := by apply ext <;> simp [add_comm]
  left_distrib a b c := by apply ext <;> simp <;> ring
  right_distrib a b c := by apply ext <;> simp <;> ring
  zero_mul a := by apply ext <;> simp
  mul_zero a := by apply ext <;> simp
  mul_assoc a b c := by apply ext <;> simp <;> ring
  one_mul a := by apply ext <;> simp
  mul_one a := by apply ext <;> simp
  mul_comm a b := by apply ext <;> simp <;> ring
  neg_add_cancel a := by apply ext <;> simp
  sub_eq_add_neg a b := by apply ext <;> simp [sub_eq_add_neg]
  nsmul := nsmulRec
  zsmul := zsmulRec

/-- A norm is a sum of two squares, which is zero for zero alone. -/
theorem norm_ne_zero (nonzero : a ≠ 0) : norm a ≠ 0 := by
  intro zero
  have split : a.re * a.re = -(a.im * a.im) := eq_neg_of_add_eq_zero_left zero
  rcases eq_or_ne a.im 0 with real | imaginary
  · rw [real, mul_zero, neg_zero] at split
    exact nonzero (ext (mul_self_eq_zero.mp split) real)
  · refine Fp.mul_self_ne_neg_one (a.re * a.im⁻¹) ?_
    rw [mul_mul_mul_comm, split]
    field_simp

private theorem mul_inv_of_ne_zero (nonzero : a ≠ 0) : a * a⁻¹ = 1 := by
  have unit := Fp.mul_inv_of_ne_zero (norm_ne_zero nonzero)
  unfold norm at unit
  apply ext
  · rw [mul_re, inv_re, inv_im, one_re, norm]
    linear_combination unit
  · rw [mul_im, inv_re, inv_im, one_im]
    ring

private theorem inv_zero : (0 : Fp2)⁻¹ = 0 := by
  apply ext <;> simp [inv_re, inv_im]

instance : Field Fp2 := fieldOfInv (by decide) mul_inv_of_ne_zero inv_zero

private theorem two_mul_half : 2 * half = 1 := Fp.mul_inv_of_ne_zero Fp.two_ne_zero

private theorem rootOfHalf?_eq_some {re root x : Fp} (h : rootOfHalf? re root = some x) :
    x * x = (re + root) * half ∨ x * x = (re - root) * half := by
  rw [rootOfHalf?, Option.or_eq_some_iff] at h
  rcases h with plus | ⟨-, minus⟩
  · exact .inl (mul_self_of_sqrt? plus)
  · exact .inr (mul_self_of_sqrt? minus)

private theorem exists_rootOfHalf? {re root x : Fp}
    (square : x * x = (re + root) * half ∨ x * x = (re - root) * half) :
    ∃ y, rootOfHalf? re root = some y := by
  rw [rootOfHalf?, ← Option.isSome_iff_exists, Option.isSome_or, Bool.or_eq_true,
    Option.isSome_iff_exists, Option.isSome_iff_exists]
  exact square.imp Fp.exists_sqrt? Fp.exists_sqrt?

/-- With the square of the real part right, the imaginary part makes up the rest. -/
private theorem mul_self_of_half {s x : Fp} (imaginary : a.im ≠ 0) (root : s * s = norm a)
    (square : x * x = (a.re + s) * half) :
    (⟨x, a.im * (2 * x)⁻¹⟩ : Fp2) * ⟨x, a.im * (2 * x)⁻¹⟩ = a := by
  have double : 2 * (x * x) = a.re + s := by
    rw [square]
    linear_combination (a.re + s) * two_mul_half
  unfold norm at root
  have nonzero : x ≠ 0 := by
    rintro rfl
    refine imaginary (mul_self_eq_zero.mp ?_)
    linear_combination -root - (s - a.re) * double
  have unit := Fp.mul_inv_of_ne_zero (mul_ne_zero Fp.two_ne_zero nonzero)
  generalize (2 * x)⁻¹ = d at unit
  have quarter : (a.re + s) * (d * d) = half := by
    linear_combination half * (2 * x * d + 1) * unit - d * d * double -
      2 * x * x * d * d * two_mul_half
  apply ext
  · rw [mul_re]
    linear_combination square + d * d * root - (s - a.re) * quarter + a.re * two_mul_half
  · rw [mul_im]
    linear_combination a.im * unit

private theorem norm_mul_self (x : Fp2) : norm (x * x) = norm x * norm x := by
  unfold norm
  rw [mul_re, mul_im]
  ring

private theorem re_eq_half_of_mul_self (x : Fp2) : x.re * x.re = ((x * x).re + norm x) * half := by
  unfold norm
  rw [mul_re]
  linear_combination -(x.re * x.re) * two_mul_half

/-- Of a square with an imaginary part the candidate is a root. -/
private theorem candidate_imaginary (x : Fp2) (imaginary : (x * x).im ≠ 0) :
    ∃ r, rootCandidate? (x * x) = some r ∧ r * r = x * x := by
  obtain ⟨s, root⟩ := Fp.exists_sqrt? (norm_mul_self x).symm
  have square := mul_self_of_sqrt? root
  have parts : x.re * x.re = ((x * x).re + s) * half ∨ x.re * x.re = ((x * x).re - s) * half := by
    -- The root of the norm of a square is the norm of the square's root up to its sign.
    rcases mul_self_eq_mul_self_iff.mp (square.trans (norm_mul_self x)) with rfl | rfl
    · exact .inl (re_eq_half_of_mul_self x)
    · rw [sub_neg_eq_add]
      exact .inr (re_eq_half_of_mul_self x)
  obtain ⟨y, half⟩ := exists_rootOfHalf? parts
  refine ⟨⟨y, (x * x).im * (2 * y)⁻¹⟩, ?_, ?_⟩
  · rw [rootCandidate?, if_neg imaginary, root, Option.bind_some, half, Option.map_some]
  · rcases rootOfHalf?_eq_some half with plus | minus
    · exact mul_self_of_half imaginary square plus
    · rw [sub_eq_add_neg] at minus
      exact mul_self_of_half imaginary ((neg_mul_neg s s).trans square) minus

/-- Of a square without an imaginary part one of the two real parts is a square. -/
private theorem candidate_real (x : Fp2) (real : (x * x).im = 0) :
    ∃ r, rootCandidate? (x * x) = some r ∧ r * r = x * x := by
  have axis : x.re = 0 ∨ x.im = 0 := by
    rw [mul_im] at real
    have product : 2 * (x.re * x.im) = 0 := by linear_combination real
    exact mul_eq_zero.mp ((mul_eq_zero.mp product).resolve_left Fp.two_ne_zero)
  rw [rootCandidate?, if_pos real]
  cases found : Fp.sqrt? (x * x).re with
  | some y =>
    refine ⟨⟨y, 0⟩, rfl, ?_⟩
    have square := mul_self_of_sqrt? found
    apply ext
    · rw [mul_re, mul_zero, sub_zero, square]
    · rw [real, mul_im, mul_zero, zero_mul, add_zero]
  | none =>
    have vertical : x.re = 0 := by
      refine axis.resolve_right fun horizontal => ?_
      have square : x.re * x.re = (x * x).re := by
        rw [mul_re, horizontal, mul_zero, sub_zero]
      obtain ⟨y, root⟩ := Fp.exists_sqrt? square
      rw [root] at found
      cases found
    have negative : x.im * x.im = -(x * x).re := by
      rw [mul_re, vertical]
      ring
    obtain ⟨y, root⟩ := Fp.exists_sqrt? negative
    have square := mul_self_of_sqrt? root
    rw [root]
    refine ⟨⟨0, y⟩, rfl, ?_⟩
    apply ext
    · rw [mul_re, square]
      ring
    · rw [real, mul_im, mul_zero, zero_mul, add_zero]

theorem exists_sqrt? {a x : Fp2} (square : x * x = a) : ∃ r, sqrt? a = some r := by
  subst square
  obtain ⟨r, candidate, root⟩ : ∃ r, rootCandidate? (x * x) = some r ∧ r * r = x * x := by
    by_cases real : (x * x).im = 0
    · exact candidate_real x real
    · exact candidate_imaginary x real
  refine ⟨r, ?_⟩
  rw [sqrt?, candidate]
  exact if_pos (decide_eq_true root)

theorem mul_self_of_sqrt? {a r : Fp2} (h : sqrt? a = some r) : r * r = a :=
  of_decide_eq_true (Option.filter_eq_some_iff.mp h).2

/-- Of an element and its negative exactly one is the larger. -/
theorem isLarger_neg {y : Fp2} (nonzero : y ≠ 0) : (-y).isLarger = !y.isLarger := by
  unfold isLarger
  rw [neg_im, neg_re]
  by_cases real : y.im = 0
  · rw [if_pos real, if_pos (neg_eq_zero.mpr real)]
    exact Curve.isLarger_neg fun zero => nonzero (ext zero real)
  · rw [if_neg real, if_neg fun zero => real (neg_eq_zero.mp zero)]
    exact Curve.isLarger_neg real

end Fp2
end DecryptorNode.Curve
