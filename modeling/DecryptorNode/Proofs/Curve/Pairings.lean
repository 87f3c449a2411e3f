import DecryptorNode.Curve.Dodecic
import DecryptorNode.Proofs.Curve.GroupOrders

/-! What a pairing of the two groups is, and what it tells of a point of the curve: two points that
pair alike with the generator are one point. -/
namespace DecryptorNode.Curve

/-- The points of the twist that the generator spans. -/
def G2.Spanned (q : G2) : Prop := ∃ n, Point.times n generator = q

theorem G2.spanned_generator : Spanned generator := ⟨1, Point.times_one generator⟩

private theorem G2.spanned_times (n : Nat) : Spanned (Point.times n generator) := ⟨n, rfl⟩

/-- A bilinear map from the curve and the span of the generator that is trivial on no point of the
curve but infinity. -/
structure IsPairing (pairing : G1 → G2 → Fp12) : Prop where
  add_left : ∀ {p p' : G1} {q : G2}, p.OnCurve G1.constant → p'.OnCurve G1.constant →
    q.Spanned → pairing (p + p') q = pairing p q * pairing p' q
  add_right : ∀ {p : G1} {q q' : G2}, p.OnCurve G1.constant → q.Spanned → q'.Spanned →
    pairing p (q + q') = pairing p q * pairing p q'
  infinity_left : ∀ {q : G2}, q.Spanned → pairing .infinity q = 1
  infinity_right : ∀ {p : G1}, p.OnCurve G1.constant → pairing p .infinity = 1
  nondegenerate : ∀ {p : G1}, p.OnCurve G1.constant → p ≠ .infinity →
    ∃ q, G2.Spanned q ∧ pairing p q ≠ 1

namespace IsPairing
variable {pairing : G1 → G2 → Fp12} {p p' : G1}

/-- A factor moves from one side to the other. -/
theorem times_left (h : IsPairing pairing) (curved : p.OnCurve G1.constant) (n : Nat) :
    pairing (Point.times n p) G2.generator = pairing p (Point.times n G2.generator) := by
  induction n with
  | zero =>
    rw [Point.times_zero, Point.times_zero, h.infinity_left G2.spanned_generator,
      h.infinity_right curved]
  | succ n ih =>
    rw [curved.times_succ, G2.hasGroupOrder_generator.curved.times_succ,
      h.add_left (curved.times n) curved G2.spanned_generator, ih,
      h.add_right curved (G2.spanned_times n) G2.spanned_generator]

private theorem pairing_times_of_trivial (h : IsPairing pairing) (curved : p.OnCurve G1.constant)
    (trivial : pairing p G2.generator = 1) (n : Nat) :
    pairing p (Point.times n G2.generator) = 1 := by
  induction n with
  | zero => rw [Point.times_zero, h.infinity_right curved]
  | succ n ih =>
    rw [G2.hasGroupOrder_generator.curved.times_succ,
      h.add_right curved (G2.spanned_times n) G2.spanned_generator, ih, trivial]
    rfl

private theorem eq_infinity_of_trivial (h : IsPairing pairing) (curved : p.OnCurve G1.constant)
    (trivial : pairing p G2.generator = 1) : p = .infinity := by
  by_contra finite
  obtain ⟨_, ⟨n, rfl⟩, apart⟩ := h.nondegenerate curved finite
  exact apart (h.pairing_times_of_trivial curved trivial n)

/-- The difference of two points that pair alike with the generator is infinity. -/
theorem injective (h : IsPairing pairing) (curved : p.OnCurve G1.constant)
    (curved' : p'.OnCurve G1.constant)
    (same : pairing p G2.generator = pairing p' G2.generator) : p = p' := by
  refine (curved.add_neg_eq_infinity_iff curved').mp ?_
  have opposite : p' + -p' = .infinity := (curved'.add_neg_eq_infinity_iff curved').mpr rfl
  refine h.eq_infinity_of_trivial (curved.add curved'.neg) ?_
  calc pairing (p + -p') G2.generator
      = pairing p G2.generator * pairing (-p') G2.generator :=
        h.add_left curved curved'.neg G2.spanned_generator
    _ = pairing p' G2.generator * pairing (-p') G2.generator := by rw [same]
    _ = pairing (p' + -p') G2.generator :=
        (h.add_left curved' curved'.neg G2.spanned_generator).symm
    _ = 1 := by rw [opposite, h.infinity_left G2.spanned_generator]

/-- The equation that is checked holds of one point alone: the multiple of the other point by the
factor in the key. -/
theorem check_iff (h : IsPairing pairing) (curved : p.OnCurve G1.constant)
    (curved' : p'.OnCurve G1.constant) (n : Nat) :
    pairing p G2.generator = pairing p' (Point.times n G2.generator) ↔ p = Point.times n p' := by
  rw [← h.times_left curved' n]
  exact ⟨h.injective curved (curved'.times n), fun same => by rw [same]⟩

end IsPairing
end DecryptorNode.Curve
