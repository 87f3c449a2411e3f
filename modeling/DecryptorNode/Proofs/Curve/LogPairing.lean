import DecryptorNode.Curve.Pairing
import DecryptorNode.Proofs.Curve.DodecicLaws
import DecryptorNode.Proofs.Curve.Pairings

/-! A pairing of the two groups can be had from any point of the curve and any root of one of the
group order: it raises the root to the product of the two logarithms. -/
namespace DecryptorNode.Curve

section Logarithms
variable {F : Type} [Field F] [DecidableEq F] {b : F} [(curve b).IsElliptic] {base p q : Point F}

/-- A number of copies of the base that make up the point, if there is one. -/
noncomputable def logarithm (base p : Point F) : Nat :=
  Classical.epsilon fun n => Point.times n base = p

private theorem times_logarithm (spanned : ∃ n, Point.times n base = p) :
    Point.times (logarithm base p) base = p := Classical.epsilon_spec spanned

private theorem logarithm_modEq (h : base.HasGroupOrder b) {n : Nat}
    (same : Point.times n base = p) : logarithm base p ≡ n [MOD groupOrder] := by
  rw [← h.times_eq_times_iff, same]
  exact times_logarithm ⟨n, same⟩

private theorem logarithm_infinity (h : base.HasGroupOrder b) :
    logarithm base .infinity ≡ 0 [MOD groupOrder] :=
  logarithm_modEq h (Point.times_zero base)

private theorem logarithm_self (h : base.HasGroupOrder b) :
    logarithm base base ≡ 1 [MOD groupOrder] :=
  logarithm_modEq h (Point.times_one base)

private theorem logarithm_add (h : base.HasGroupOrder b) (spanned : ∃ n, Point.times n base = p)
    (spanned' : ∃ n, Point.times n base = q) :
    logarithm base (p + q) ≡ logarithm base p + logarithm base q [MOD groupOrder] := by
  refine logarithm_modEq h ?_
  rw [h.curved.times_add, times_logarithm spanned, times_logarithm spanned']

end Logarithms

section Pairing
variable {base : G1} {root : Fp12}

/-- The root to the product of the logarithms to the base and to the generator. -/
noncomputable def logPairing (base : G1) (root : Fp12) (p : G1) (q : G2) : Fp12 :=
  root ^ (logarithm base p * logarithm G2.generator q)

theorem logPairing_base (h : base.HasGroupOrder G1.constant) (order : root ^ groupOrder = 1) :
    logPairing base root base G2.generator = root := by
  rw [logPairing, pow_eq_pow_of_modEq ((logarithm_self h).mul
    (logarithm_self G2.hasGroupOrder_generator)) order, mul_one, pow_one]

theorem isPairing_logPairing (h : base.HasGroupOrder G1.constant) (order : root ^ groupOrder = 1)
    (nontrivial : root ≠ 1) : IsPairing (logPairing base root) where
  add_left {p p' q} curved curved' _ := by
    have sum := logarithm_add h (G1.exists_times h curved) (G1.exists_times h curved')
    rw [logPairing, pow_eq_pow_of_modEq (sum.mul_right _) order, Nat.add_mul, pow_add]
    rfl
  add_right {p q q'} _ spanned spanned' := by
    have sum := logarithm_add G2.hasGroupOrder_generator spanned spanned'
    rw [logPairing, pow_eq_pow_of_modEq (sum.mul_left _) order, Nat.mul_add, pow_add]
    rfl
  infinity_left {q} _ := by
    have none := logarithm_infinity h
    rw [logPairing, pow_eq_pow_of_modEq (none.mul_right _) order, Nat.zero_mul, pow_zero]
  infinity_right {p} _ := by
    have none := logarithm_infinity G2.hasGroupOrder_generator
    rw [logPairing, pow_eq_pow_of_modEq (none.mul_left _) order, Nat.mul_zero, pow_zero]
  nondegenerate {p} curved finite := by
    have one := logarithm_self G2.hasGroupOrder_generator
    refine ⟨G2.generator, G2.spanned_generator, fun trivial => finite ?_⟩
    rw [logPairing, pow_eq_pow_of_modEq (one.mul_left _) order, mul_one] at trivial
    have divides : groupOrder ∣ logarithm base p := by
      rw [← orderOf_eq_prime order nontrivial]
      exact orderOf_dvd_of_pow_eq_one trivial
    rw [← times_logarithm (G1.exists_times h curved), h.times_eq_infinity_iff]
    exact divides

end Pairing

section Values

def ateValue : G1 → G2 → Fp12
  | .affine px py, .affine qx qy => (AteChain.run qx qy px py ateLoop.log2 ⟨1, qx, qy⟩).value
  | _, _ => 1

def easyPower (a : Fp12) : Fp12 :=
  frobeniusSquare (a.conjugate * a⁻¹) * (a.conjugate * a⁻¹)

/-- The pairing in the three parts in which it is computed. -/
theorem pairing_eq {p : G1} {q : G2} (finite : p ≠ .infinity) (finite' : q ≠ .infinity) :
    pairing p q = power (easyPower (ateValue p q)) hardExponent := by
  cases p with
  | infinity => exact absurd rfl finite
  | affine px py =>
    cases q with
    | infinity => exact absurd rfl finite'
    | affine qx qy =>
      unfold pairing ateValue
      dsimp only
      generalize (AteChain.run qx qy px py ateLoop.log2 ⟨1, qx, qy⟩).value = a
      unfold finalPower easyPower
      rfl

end Values
end DecryptorNode.Curve
