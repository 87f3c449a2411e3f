import DecryptorNode.Proofs.Curve.GroupOrders

/-! The points of either group but infinity are read back from their compressed form, and what is
hashed to is one of them. -/
namespace DecryptorNode.Curve

/-- Of the two roots of a square the flag picks the one that it was made from. -/
private theorem root_of_flag {F : Type} [Field F] {larger : F → Bool}
    (opposite : ∀ {y : F}, y ≠ 0 → larger (-y) = !larger y) {y z : F} (squares : z * z = y * y) :
    (if larger y = true then -(if larger z = true then -z else z)
      else (if larger z = true then -z else z)) = y := by
  rcases mul_self_eq_mul_self_iff.mp squares with rfl | rfl
  · cases larger z <;> simp
  · rcases eq_or_ne y 0 with rfl | nonzero
    · simp
    · rw [opposite nonzero]
      cases larger y <;> simp

namespace G1
variable {x y : Fp}

theorem exists_smallerRoot? (curved : y * y = rightSide x) :
    ∃ r, smallerRoot? x = some r ∧ (y = r ∨ y = -r) := by
  obtain ⟨z, root⟩ := Fp.exists_sqrt? curved
  have chosen := root_of_flag isLarger_neg ((mul_self_of_sqrt? root).trans curved.symm)
  refine ⟨if z.isLarger then -z else z, by rw [smallerRoot?, root]; rfl, ?_⟩
  split at chosen
  · exact .inr chosen.symm
  · exact .inl chosen.symm

theorem decode_encode_of_hasGroupOrder {p : G1} (h : p.HasGroupOrder constant) :
    decode (encode p) = .ok p := by
  cases p with
  | infinity => exact absurd rfl h.finite
  | affine x y =>
    exact decode_eq_affine_iff.mpr ⟨exists_smallerRoot? h.curved,
      List.take_of_length_le (length_encode _).le⟩

end G1

namespace G2
variable {x y : Fp2}

private theorem flagOf_eq_larger_iff : flagOf y = .larger ↔ y.isLarger = true := by
  unfold flagOf
  cases y.isLarger <;> simp

private theorem exists_smallerRoot? (curved : y * y = rightSide x) :
    ∃ r, smallerRoot? x = some r ∧ (if flagOf y = .larger then -r else r) = y := by
  obtain ⟨z, root⟩ := Fp2.exists_sqrt? curved
  have chosen := root_of_flag Fp2.isLarger_neg ((Fp2.mul_self_of_sqrt? root).trans curved.symm)
  refine ⟨if z.isLarger then -z else z, by rw [smallerRoot?, root]; rfl, ?_⟩
  simp only [flagOf_eq_larger_iff]
  exact chosen

theorem decode_encode_of_hasGroupOrder {p : G2} (h : p.HasGroupOrder constant) :
    decode (encode p) = .ok p := by
  cases p with
  | infinity => exact absurd rfl h.finite
  | affine x y =>
    obtain ⟨r, root, chosen⟩ := exists_smallerRoot? h.curved
    exact decode_encode root chosen (inSubgroup_iff.mpr h.order)

end G2

/-- What is hashed to is a point of the curve. -/
theorem hasGroupOrder_hashToCurve {domain message : Bytes}
    (finite : hashToCurve domain message ≠ .infinity) :
    (hashToCurve domain message).HasGroupOrder G1.constant := by
  obtain ⟨x, r, same, root⟩ := exists_hashToCurve finite
  rw [same]
  exact G1.hasGroupOrder (G1.smallerRoot?_eq_some root).1 (by simp)

end DecryptorNode.Curve
