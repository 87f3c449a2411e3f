import DecryptorNode.Proofs.Curve.RoundTrips

/-! Which bytes decode to which point. The finite points that are read are those of the group
order, each from the bytes that begin with its encoding. A point read with a wrong sign would be
written with another flag, unless its second coordinate is zero; no point of odd order has that. -/
namespace DecryptorNode.Curve

/-- A point with second coordinate zero is its own opposite, and has order two. -/
private theorem Point.HasGroupOrder.snd_ne_zero {F : Type} [Field F] [DecidableEq F] {b x y : F}
    [(curve b).IsElliptic] (h : (Point.affine x y).HasGroupOrder b) : y ≠ 0 := by
  rintro rfl
  have double : Point.times 2 (.affine x (0 : F)) = .infinity := by
    rw [h.curved.times_succ 1, times_one]
    change Point.add _ _ = _
    simp [Point.add]
  have divides := h.times_eq_infinity_iff.mp double
  exact absurd divides (by decide)

/-- Either root has the same square. -/
private theorem mul_self_ite_neg {F : Type} [Field F] (c : Prop) [Decidable c] (r : F) :
    (if c then -r else r) * (if c then -r else r) = r * r := by
  split <;> simp

namespace G1
variable {bytes : Bytes}

/-- The finite points that are read are those of the curve, each from its encoding. -/
theorem decode_finite_iff {p : G1} : (decode bytes = .ok p ∧ p ≠ .infinity) ↔
    p.HasGroupOrder constant ∧ bytes.take fieldBytes = encode p := by
  constructor
  · rintro ⟨read, finite⟩
    exact ⟨hasGroupOrder (onCurve_of_decode read) finite, take_of_decode read finite⟩
  · rintro ⟨order, leading⟩
    refine ⟨?_, order.finite⟩
    cases p with
    | infinity => exact absurd rfl order.finite
    | affine x y => exact decode_eq_affine_iff.mpr ⟨exists_smallerRoot? order.curved, leading⟩

/-- Beside the mark of infinity any coordinate may stand. -/
theorem decode_eq_infinity_iff : decode bytes = .ok .infinity ↔
    ∃ x, bytes.take fieldBytes = writeFlagged x .infinity := by
  simp only [← readFlagged_eq_ok, decode]
  constructor
  · intro h
    rcases read : readFlagged bytes with _ | ⟨x, flag⟩
    · rw [read] at h
      cases h
    · cases flag with
      | infinity => exact ⟨x, rfl⟩
      | smaller | larger =>
        rw [read] at h
        cases root : smallerRoot? x <;> simp [bind, Except.bind, root, pure, Except.pure] at h
  · rintro ⟨x, read⟩
    rw [read]
    rfl

end G1

/-- Only the first bytes of a field element are looked at. -/
private theorem readNumber_take {bytes : Bytes} {n : Nat} (enough : fieldBytes ≤ n) :
    readNumber (bytes.take n) = readNumber bytes := by
  have short : (bytes.take n).length < fieldBytes ↔ bytes.length < fieldBytes := by
    rw [List.length_take]
    omega
  simp only [readNumber, short, List.take_take, Nat.min_eq_left enough]

namespace G2
variable {bytes : Bytes}

theorem length_encode (p : G2) : (encode p).length = fieldBytes + fieldBytes := by
  cases p <;> simp [encode, writeField, writeFlagged, Bytes.length_ofNatLE]

private theorem decode_take : decode (bytes.take (fieldBytes + fieldBytes)) = decode bytes := by
  have real : readField (bytes.take (fieldBytes + fieldBytes)) = readField bytes := by
    simp only [readField, readNumber_take (Nat.le_add_left fieldBytes fieldBytes)]
  have imaginary : readFlagged ((bytes.take (fieldBytes + fieldBytes)).drop fieldBytes) =
      readFlagged (bytes.drop fieldBytes) := by
    simp only [readFlagged, List.drop_take, Nat.add_sub_cancel, readNumber_take le_rfl]
  unfold decode
  rw [real, imaginary]

/-- The roots of an accepted point are found on either side of zero, as the flag has it. -/
private theorem flagOf_root {x r : Fp2} {flag : PointFlag} (root : smallerRoot? x = some r)
    (nonzero : r ≠ 0) (finite : flag ≠ .infinity) :
    flagOf (if flag = .larger then -r else r) = flag := by
  have smaller : r.isLarger = false := by
    obtain ⟨z, -, rfl⟩ := Option.map_eq_some_iff.mp root
    cases larger : z.isLarger with
    | false => rwa [if_neg Bool.false_ne_true]
    | true =>
      rw [larger, if_pos rfl, neg_ne_zero] at nonzero
      rw [if_pos rfl, Fp2.isLarger_neg nonzero, larger]
      rfl
  cases flag with
  | infinity => exact absurd rfl finite
  | smaller => simp [flagOf, smaller]
  | larger => simp [flagOf, Fp2.isLarger_neg nonzero, smaller]

private theorem mul_self_of_smallerRoot? {x r : Fp2} (root : smallerRoot? x = some r) :
    r * r = rightSide x := by
  obtain ⟨z, found, rfl⟩ := Option.map_eq_some_iff.mp root
  rw [mul_self_ite_neg, Fp2.mul_self_of_sqrt? found]

/-- What there is to an encoding that a point is read from. -/
private theorem decode_eq_affine {x y : Fp2} (h : decode bytes = .ok (.affine x y)) :
    inSubgroup (.affine x y) = true ∧ readField bytes = .ok x.re ∧
    ∃ r flag, smallerRoot? x = some r ∧ flag ≠ .infinity ∧
      (if flag = .larger then -r else r) = y ∧
      readFlagged (bytes.drop fieldBytes) = .ok (x.im, flag) := by
  obtain ⟨re, real, h⟩ := bind_eq_ok.mp h
  obtain ⟨⟨im, flag⟩, imaginary, h⟩ := bind_eq_ok.mp h
  -- As in `decode_encode`, for the kernel the two functions are variables.
  revert h
  generalize smallerRoot? = roots
  generalize inSubgroup = members
  revert roots members
  refine id ?_
  intro roots members h
  split at h
  · cases h
  · rename_i im' flag' finite same
    cases same
    dsimp only at h
    split at h
    · rename_i r root
      by_cases member :
          members (.affine ⟨re, im⟩ (if flag = .larger then -r else r)) = true
      · rw [if_pos member] at h
        cases h
        exact ⟨member, real, r, flag, root, fun h => finite h, rfl, imaginary⟩
      · rw [if_neg member] at h
        cases h
    · cases h

/-- The finite points that are read are those of the subgroup, each from its encoding. -/
theorem decode_finite_iff {p : G2} : (decode bytes = .ok p ∧ p ≠ .infinity) ↔
    p.HasGroupOrder constant ∧ bytes.take (fieldBytes + fieldBytes) = encode p := by
  constructor
  · rintro ⟨read, finite⟩
    cases p with
    | infinity => exact absurd rfl finite
    | affine x y =>
      obtain ⟨member, real, r, flag, root, visible, rfl, imaginary⟩ := decode_eq_affine read
      have order : (Point.affine x _).HasGroupOrder constant :=
        ⟨(mul_self_ite_neg _ r).trans (mul_self_of_smallerRoot? root), finite,
          inSubgroup_iff.mp member⟩
      have nonzero : r ≠ 0 := by
        rintro rfl
        exact order.snd_ne_zero (by simp)
      refine ⟨order, ?_⟩
      rw [encode, flagOf_root root nonzero visible, ← readField_eq_ok.mp real,
        ← readFlagged_eq_ok.mp imaginary, List.take_add]
  · rintro ⟨order, leading⟩
    refine ⟨?_, order.finite⟩
    rw [← decode_take, leading, decode_encode_of_hasGroupOrder order]

end G2
end DecryptorNode.Curve
