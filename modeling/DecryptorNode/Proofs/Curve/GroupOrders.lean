import DecryptorNode.Proofs.Curve.FieldLaws
import DecryptorNode.Proofs.Curve.GroupLaw
import Mathlib.GroupTheory.SpecificGroups.Cyclic

/-! The two groups have the prime order that is claimed for them: it is the number of the points of
the curve, and the order of the generator of the twist's subgroup. -/
namespace DecryptorNode.Curve

def orderChain : { chain : List Lucas // Lucas.Chain smallPrimes chain } :=
  ⟨[⟨3690, 2, [(2, 1), (3, 2), (5, 1), (41, 1)]⟩,
    ⟨4998, 3, [(2, 1), (3, 1), (7, 2), (17, 1)]⟩,
    ⟨20962, 2, [(2, 1), (47, 1), (223, 1)]⟩,
    ⟨41926, 5, [(2, 1), (20963, 1)]⟩,
    ⟨93000, 14, [(2, 3), (3, 1), (5, 3), (31, 1)]⟩,
    ⟨237072, 15, [(2, 4), (3, 1), (11, 1), (449, 1)]⟩,
    ⟨1593226, 2, [(2, 1), (19, 1), (41927, 1)]⟩,
    ⟨405928798, 22, [(2, 1), (11, 1), (3691, 1), (4999, 1)]⟩,
    ⟨639533338, 2, [(2, 1), (229, 1), (853, 1), (1637, 1)]⟩,
    ⟨12048837556, 2, [(2, 2), (7, 2), (661, 1), (93001, 1)]⟩,
    ⟨5156902474396, 2, [(2, 2), (107, 1), (12048837557, 1)]⟩,
    ⟨1670836401704628, 2, [(2, 2), (3, 4), (5156902474397, 1)]⟩,
    ⟨65865678001877902, 5, [(2, 1), (83, 1), (379, 1), (1637, 1), (639533339, 1)]⟩,
    ⟨13818364434197438864469338080, 3,
      [(2, 5), (5, 1), (823, 1), (1593227, 1), (65865678001877903, 1)]⟩,
    ⟨groupOrder - 1, 5,
      [(2, 28), (3, 2), (13, 1), (29, 1), (983, 1), (11003, 1), (237073, 1), (405928799, 1),
        (1670836401704629, 1), (13818364434197438864469338081, 1)]⟩],
    by decide +kernel⟩

private theorem prime_groupOrder : groupOrder.Prime :=
  orderChain.property.prime prime_of_mem_smallPrimes ⟨groupOrder - 1, 5, _⟩
    (List.mem_of_getLast? rfl)

instance : Fact groupOrder.Prime := ⟨prime_groupOrder⟩

instance : (curve G1.constant).IsElliptic :=
  isElliptic_curve Fp.two_ne_zero (by decide) (by decide)

instance : (curve G2.constant).IsElliptic :=
  isElliptic_curve (by decide) (by decide) (by decide)

/-- Points of the curve with constant b, other than infinity, that the group order sends there. -/
structure Point.HasGroupOrder {F : Type} [Field F] [DecidableEq F] (b : F) (p : Point F) :
    Prop where
  curved : p.OnCurve b
  finite : p ≠ .infinity
  order : Point.times groupOrder p = .infinity

namespace Point.HasGroupOrder
variable {F : Type} [Field F] [DecidableEq F] {b : F}

private theorem addOrderOf_eq {P : (curve b).Point} (h : (ofGroup P).HasGroupOrder b) :
    addOrderOf P = groupOrder :=
  addOrderOf_eq_prime (times_ofGroup_eq_infinity_iff.mp h.order)
    (ofGroup_eq_infinity_iff.ne.mp h.finite)

variable [(curve b).IsElliptic] {p : Point F} {m n : Nat}

/-- As the order is prime, multiples agree exactly where their factors leave the same rest. -/
theorem times_eq_times_iff (h : p.HasGroupOrder b) :
    times m p = times n p ↔ m ≡ n [MOD groupOrder] := by
  obtain ⟨P, rfl⟩ := h.curved.exists_ofGroup
  rw [times_ofGroup, times_ofGroup, ofGroup_injective.eq_iff, nsmul_eq_nsmul_iff_modEq,
    h.addOrderOf_eq]

theorem times_eq_infinity_iff (h : p.HasGroupOrder b) :
    times n p = .infinity ↔ groupOrder ∣ n := by
  rw [← times_zero p, h.times_eq_times_iff, Nat.modEq_zero_iff_dvd]

/-- The multiples by a number between zero and the order are points of that order too. -/
theorem times (h : p.HasGroupOrder b) (positive : 0 < n) (bounded : n < groupOrder) :
    (Point.times n p).HasGroupOrder b where
  curved := h.curved.times n
  finite := by
    rw [Ne, h.times_eq_infinity_iff]
    exact Nat.not_dvd_of_pos_of_lt positive bounded
  order := by
    obtain ⟨P, rfl⟩ := h.curved.exists_ofGroup
    have zero : groupOrder • P = 0 := times_ofGroup_eq_infinity_iff.mp h.order
    rw [times_ofGroup n, times_ofGroup_eq_infinity_iff, nsmul_left_comm, zero, nsmul_zero]

end Point.HasGroupOrder

namespace G1

def coordinates : (curve constant).Point → Option (Fp × Bool)
  | .zero => none
  | .some x y _ => some (x, y.isLarger)

private theorem ne_zero_of_equation {x y : Fp} (h : (curve constant).Equation x y) : y ≠ 0 := by
  rintro rfl
  refine rightSide_ne_zero x ?_
  rw [rightSide, ← Point.equation_iff.mp h, mul_zero]

private theorem coordinates_injective : Function.Injective coordinates := by
  rintro (_ | ⟨x, y, h⟩) (_ | ⟨x', y', h'⟩) same
  · rfl
  · cases same
  · cases same
  · obtain ⟨rfl, larger⟩ := Prod.mk.inj (Option.some.inj same)
    have squares : y * y = y' * y' :=
      (Point.equation_iff.mp h.1).trans (Point.equation_iff.mp h'.1).symm
    rcases mul_self_eq_mul_self_iff.mp squares with rfl | rfl
    · rfl
    · rw [isLarger_neg (ne_zero_of_equation h'.1)] at larger
      exact absurd larger (by simp)

instance : Finite (curve constant).Point := Finite.of_injective coordinates coordinates_injective

private theorem card_le : Nat.card (curve constant).Point ≤ fieldModulus * 2 + 1 := by
  have bound := Nat.card_le_card_of_injective coordinates coordinates_injective
  rwa [Finite.card_option, Nat.card_prod, Nat.card_fin, Nat.card_eq_fintype_card (α := Bool),
    Fintype.card_bool] at bound

/-- No point is its own opposite but the neutral one, so their number is odd. -/
private theorem eq_zero_of_add_self {P : (curve constant).Point} (h : P + P = 0) : P = 0 := by
  have opposite := eq_neg_of_add_eq_zero_left h
  cases P with
  | zero => rfl
  | some x y curved =>
    rw [WeierstrassCurve.Affine.Point.neg_some] at opposite
    injection opposite with _ same
    rw [Point.negY_eq] at same
    have zero : 2 * y = 0 := by linear_combination same
    exact absurd ((mul_eq_zero.mp zero).resolve_left Fp.two_ne_zero)
      (ne_zero_of_equation curved.1)

theorem hasGroupOrder_one_two : (.affine 1 2 : G1).HasGroupOrder constant where
  curved := by decide
  finite := by simp
  order := by decide +kernel

private theorem not_two_dvd_card : ¬ 2 ∣ Nat.card (curve constant).Point := by
  intro even
  obtain ⟨P, order⟩ := exists_prime_addOrderOf_dvd_card' 2 even
  have double : P + P = 0 := by rw [← two_nsmul, ← order, addOrderOf_nsmul_eq_zero]
  rw [eq_zero_of_add_self double, addOrderOf_zero] at order
  cases order

/-- The number of points is a multiple of the order of one of them, and too small and of the
wrong parity for any multiple but the first. -/
theorem card_eq : Nat.card (curve constant).Point = groupOrder := by
  obtain ⟨P, same⟩ := hasGroupOrder_one_two.curved.exists_ofGroup
  have order : addOrderOf P = groupOrder :=
    Point.HasGroupOrder.addOrderOf_eq (same ▸ hasGroupOrder_one_two)
  obtain ⟨k, multiple⟩ : groupOrder ∣ Nat.card (curve constant).Point :=
    order ▸ addOrderOf_dvd_natCard P
  have positive : 0 < Nat.card (curve constant).Point := Nat.card_pos
  have bound := card_le
  have odd := not_two_dvd_card
  rw [multiple] at positive bound odd ⊢
  match k with
  | 0 => exact absurd positive (Nat.lt_irrefl 0)
  | 1 => exact Nat.mul_one groupOrder
  | 2 => exact absurd (Nat.dvd_mul_left 2 groupOrder) odd
  | k + 3 =>
    exfalso
    unfold groupOrder fieldModulus at bound
    omega

theorem hasGroupOrder {p : G1} (curved : p.OnCurve constant) (finite : p ≠ .infinity) :
    p.HasGroupOrder constant where
  curved := curved
  finite := finite
  order := by
    obtain ⟨P, rfl⟩ := curved.exists_ofGroup
    rw [Point.times_ofGroup_eq_infinity_iff, ← card_eq, card_nsmul_eq_zero']

/-- Every point but infinity spans the curve. -/
theorem exists_times {base p : G1} (h : base.HasGroupOrder constant)
    (curved : p.OnCurve constant) : ∃ n, Point.times n base = p := by
  obtain ⟨B, rfl⟩ := h.curved.exists_ofGroup
  obtain ⟨P, rfl⟩ := curved.exists_ofGroup
  obtain ⟨n, same⟩ : P ∈ AddSubmonoid.multiples B :=
    mem_multiples_of_prime_card card_eq (Point.ofGroup_eq_infinity_iff.ne.mp h.finite)
  exact ⟨n, by rw [Point.times_ofGroup]; exact congrArg Point.ofGroup same⟩

end G1

namespace G2

def subgroupGenerator : { p : G2 // inSubgroup p = true } := ⟨generator, by decide +kernel⟩

theorem inSubgroup_iff {p : G2} : inSubgroup p = true ↔ Point.times groupOrder p = .infinity :=
  Point.isInfinity_iff

theorem hasGroupOrder_generator : generator.HasGroupOrder constant where
  curved := by decide +kernel
  finite := by simp [generator]
  order := inSubgroup_iff.mp subgroupGenerator.property

end G2
end DecryptorNode.Curve
