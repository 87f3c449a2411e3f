import DecryptorNode.Curve.HashToCurve
import DecryptorNode.Proofs.Bytes.Encodings
import DecryptorNode.Proofs.Curve.FieldPrime

/-! A compressed point is read from the first bytes alone, and there is one way only to write them:
what decodes to a point with coordinates begins with that point's encoding. -/
namespace DecryptorNode.Curve

private theorem readNumber_eq_ok {bytes : Bytes} {n : Nat} : readNumber bytes = .ok n ↔
    (bytes.take fieldBytes).length = fieldBytes ∧ Bytes.toNatLE (bytes.take fieldBytes) = n := by
  unfold readNumber
  rw [List.length_take]
  by_cases short : bytes.length < fieldBytes
  · rw [if_pos short]
    exact ⟨fun h => (by cases h), fun h => absurd h.1 (by omega)⟩
  · rw [if_neg short, Except.ok.injEq]
    exact (and_iff_right (by omega)).symm

private theorem fieldOfNat_eq_ok {n : Nat} {a : Fp} : fieldOfNat n = .ok a ↔ n = a.val := by
  unfold fieldOfNat
  split
  · rw [Except.ok.injEq, Fin.ext_iff]
  · rename_i large
    refine ⟨fun h => (by cases h), ?_⟩
    rintro rfl
    exact absurd a.isLt large

private theorem ofNat?_eq_some {n : Nat} {flag : PointFlag} :
    PointFlag.ofNat? n = some flag ↔ n = flag.value := by
  unfold PointFlag.ofNat?
  split <;> cases flag <;> simp_all [PointFlag.value]

private theorem field_lt_flagWeight (a : Fp) : a.val < flagWeight :=
  a.isLt.trans (by decide)

private theorem flagged_lt (a : Fp) (flag : PointFlag) :
    a.val + flag.value * flagWeight < 256 ^ fieldBytes := by
  have small := field_lt_flagWeight a
  have room : 4 * flagWeight = 256 ^ fieldBytes := by decide
  cases flag <;> simp only [PointFlag.value] <;> omega

/-- A field element is read from its own written form and from nothing else. -/
theorem readField_eq_ok {bytes : Bytes} {a : Fp} :
    readField bytes = .ok a ↔ bytes.take fieldBytes = writeField a := by
  have fits : a.val < 256 ^ fieldBytes :=
    (flagged_lt a .smaller).trans_eq' (by simp [PointFlag.value])
  rw [writeField, Bytes.eq_ofNatLE_iff fits, readField, bind_eq_ok]
  simp only [readNumber_eq_ok, fieldOfNat_eq_ok]
  constructor
  · rintro ⟨n, ⟨long, rfl⟩, same⟩
    exact ⟨long, same⟩
  · rintro ⟨long, same⟩
    exact ⟨_, ⟨long, rfl⟩, same⟩

private theorem div_mod_flagWeight {n : Nat} {a : Fp} {flag : PointFlag} :
    n / flagWeight = flag.value ∧ n % flagWeight = a.val ↔
      n = a.val + flag.value * flagWeight := by
  have small := field_lt_flagWeight a
  rw [Nat.div_mod_unique (by decide), Nat.mul_comm flagWeight]
  exact ⟨fun h => h.1.symm, fun h => ⟨h.symm, small⟩⟩

/-- A field element with its flag is read from its own written form and from nothing else. -/
theorem readFlagged_eq_ok {bytes : Bytes} {a : Fp} {flag : PointFlag} :
    readFlagged bytes = .ok (a, flag) ↔ bytes.take fieldBytes = writeFlagged a flag := by
  rw [writeFlagged, Bytes.eq_ofNatLE_iff (flagged_lt a flag), ← div_mod_flagWeight,
    ← ofNat?_eq_some, ← fieldOfNat_eq_ok, readFlagged, bind_eq_ok]
  simp only [readNumber_eq_ok]
  constructor
  · rintro ⟨n, ⟨long, rfl⟩, h⟩
    split at h
    · rename_i flag' found
      obtain ⟨a', read, same⟩ := bind_eq_ok.mp h
      cases same
      exact ⟨long, found, read⟩
    · cases h
  · rintro ⟨long, found, read⟩
    refine ⟨_, ⟨long, rfl⟩, ?_⟩
    rw [found]
    exact bind_eq_ok.mpr ⟨a, read, rfl⟩

theorem mul_self_of_sqrt? {a r : Fp} (h : Fp.sqrt? a = some r) : r * r = a := by
  unfold Fp.sqrt? at h
  dsimp only at h
  obtain ⟨square, found⟩ := Option.ite_none_right_eq_some.mp h
  rw [← Option.some.inj found]
  exact square

/-- Of a residue and its negative exactly one is the larger. -/
theorem isLarger_neg {y : Fp} (nonzero : y ≠ 0) : (-y).isLarger = !y.isLarger := by
  have positive : 0 < y.val := Nat.pos_of_ne_zero fun zero => nonzero (Fin.ext zero)
  have opposite : (-y).val = fieldModulus - y.val := by
    rw [Fin.val_neg, if_neg nonzero]
  have odd : fieldModulus % 2 = 1 := by decide
  have bound := y.isLt
  unfold Fp.isLarger
  rw [neg_neg, opposite, ← decide_not, decide_eq_decide]
  omega

namespace G1
variable {bytes : Bytes} {x y r : Fp}

/-- The root that is found is one of two different roots, and the smaller. -/
theorem smallerRoot?_eq_some (h : smallerRoot? x = some r) :
    r * r = rightSide x ∧ r ≠ 0 ∧ r.isLarger = false := by
  obtain ⟨z, root, h⟩ := Option.map_eq_some_iff.mp h
  have square := mul_self_of_sqrt? root
  have nonzero : z ≠ 0 := by
    rintro rfl
    exact rightSide_ne_zero x (square.symm.trans (Fin.zero_mul _))
  split at h
  · rename_i larger
    subst h
    refine ⟨?_, neg_ne_zero.mpr nonzero, ?_⟩
    · rw [neg_mul_neg]
      exact square
    · rw [isLarger_neg nonzero, larger]
      rfl
  · rename_i smaller
    subst h
    exact ⟨square, nonzero, Bool.eq_false_iff.mpr smaller⟩

private theorem flagOf_root (h : smallerRoot? x = some r) :
    flagOf r = .smaller ∧ flagOf (-r) = .larger := by
  obtain ⟨-, nonzero, smaller⟩ := smallerRoot?_eq_some h
  unfold flagOf
  rw [isLarger_neg nonzero, smaller]
  exact ⟨rfl, rfl⟩

/-- A point with coordinates is read from its own encoding and from nothing else. -/
theorem decode_eq_affine_iff : decode bytes = .ok (.affine x y) ↔
    (∃ r, smallerRoot? x = some r ∧ (y = r ∨ y = -r)) ∧
      bytes.take fieldBytes = encode (.affine x y) := by
  rw [encode, ← readFlagged_eq_ok, decode, bind_eq_ok]
  constructor
  · rintro ⟨⟨x', flag⟩, read, h⟩
    split at h
    · cases h
    · rename_i a flag' finite same
      cases same
      split at h
      · rename_i r root
        cases h
        obtain ⟨here, there⟩ := flagOf_root root
        refine ⟨⟨r, root, ?_⟩, ?_⟩
        · exact (ite_eq_or_eq _ _ _).symm
        · cases flag with
          | infinity => exact absurd rfl finite
          | smaller => rwa [if_neg (by decide), here]
          | larger => rwa [if_pos rfl, there]
      · cases h
  · rintro ⟨⟨r, root, rfl | rfl⟩, read⟩
    · rw [(flagOf_root root).1] at read
      refine ⟨_, read, ?_⟩
      dsimp only
      rw [root]
      rfl
    · rw [(flagOf_root root).2] at read
      refine ⟨_, read, ?_⟩
      dsimp only
      rw [root]
      rfl

theorem length_encode (p : G1) : (encode p).length = fieldBytes := by
  cases p <;> exact Bytes.length_ofNatLE _ _

/-- What decodes to a point with coordinates begins with the encoding of that point. -/
theorem take_of_decode {p : G1} (h : decode bytes = .ok p) (finite : p ≠ .infinity) :
    bytes.take fieldBytes = encode p := by
  cases p with
  | infinity => exact absurd rfl finite
  | affine x y => exact (decode_eq_affine_iff.mp h).2

theorem onCurve_of_decode {p : G1} (h : decode bytes = .ok p) : p.OnCurve constant := by
  cases p with
  | infinity => trivial
  | affine x y =>
    obtain ⟨⟨r, root, rfl | rfl⟩, -⟩ := decode_eq_affine_iff.mp h
    · exact (smallerRoot?_eq_some root).1
    · exact (neg_mul_neg r r).trans (smallerRoot?_eq_some root).1

/-- The point of a root that is found is read back, whatever stands after its encoding. -/
theorem decode_encode (root : smallerRoot? x = some r) (more : Bytes) :
    decode (encode (.affine x r) ++ more) = .ok (.affine x r) :=
  decode_eq_affine_iff.mpr ⟨⟨r, root, .inl rfl⟩, List.take_left' (length_encode _)⟩

end G1

namespace G2

/-- A point of the subgroup over a coordinate that has a root is read back. -/
theorem decode_encode {x y r : Fp2} (root : smallerRoot? x = some r)
    (chosen : (if flagOf y = .larger then -r else r) = y)
    (member : inSubgroup (.affine x y) = true) :
    decode (encode (.affine x y)) = .ok (.affine x y) := by
  have long : (writeField x.re).length = fieldBytes := Bytes.length_ofNatLE _ _
  have real : readField (encode (.affine x y)) = .ok x.re :=
    readField_eq_ok.mpr (List.take_left' long)
  have imaginary : readFlagged ((encode (.affine x y)).drop fieldBytes) = .ok (x.im, flagOf y) := by
    refine readFlagged_eq_ok.mpr ?_
    rw [encode, List.drop_left' long]
    exact List.take_of_length_le (Bytes.length_ofNatLE _ _).le
  rw [decode]
  refine bind_eq_ok.mpr ⟨_, real, bind_eq_ok.mpr ⟨_, imaginary, ?_⟩⟩
  -- Behind the identity the two functions stay variables for the kernel, which would compute them.
  revert root member
  generalize smallerRoot? = roots
  generalize inSubgroup = members
  revert roots members
  refine id ?_
  intro roots members root member
  have finite : flagOf y ≠ .infinity := by
    unfold flagOf
    split <;> exact fun h => by cases h
  cases flag : flagOf y with
  | infinity => exact absurd flag finite
  | smaller =>
    rw [flag] at chosen
    simp only [root, chosen, member, if_true]
  | larger =>
    rw [flag, if_pos rfl] at chosen
    simp only [root, chosen, member, if_true]

end G2

section Trials
variable {domain message : Bytes}

private theorem exists_of_firstTrial? {α : Type} {trial? : Nat → Option α} {trials counter : Nat}
    {a : α} (h : firstTrial? trial? trials counter = some a) : ∃ c, trial? c = some a := by
  induction trials generalizing counter with
  | zero => cases h
  | succ trials ih =>
    rw [firstTrial?] at h
    split at h
    · rename_i found
      exact ⟨counter, found.trans h⟩
    · exact ih h

private theorem trialPoint?_eq_some {counter : Nat} {p : G1}
    (h : trialPoint? domain message counter = some p) :
    ∃ x r, p = .affine x r ∧ G1.smallerRoot? x = some r := by
  rw [trialPoint?] at h
  obtain ⟨r, root, same⟩ := Option.map_eq_some_iff.mp h
  exact ⟨_, r, same.symm, root⟩

theorem hashToCurve?_of_ne_infinity (finite : hashToCurve domain message ≠ .infinity) :
    hashToCurve? domain message = some (hashToCurve domain message) := by
  unfold hashToCurve at finite ⊢
  cases found : hashToCurve? domain message with
  | none =>
    rw [found] at finite
    exact absurd rfl finite
  | some p => rfl

/-- The second coordinate of a point that something hashes to is the smaller one over the first. -/
theorem exists_hashToCurve (finite : hashToCurve domain message ≠ .infinity) :
    ∃ x r, hashToCurve domain message = .affine x r ∧ G1.smallerRoot? x = some r := by
  obtain ⟨_, trial⟩ := exists_of_firstTrial? (hashToCurve?_of_ne_infinity finite)
  exact trialPoint?_eq_some trial

/-- A point that something hashes to is read back, whatever stands after its encoding. -/
theorem decode_encode_hashToCurve (finite : hashToCurve domain message ≠ .infinity)
    (more : Bytes) :
    G1.decode (G1.encode (hashToCurve domain message) ++ more) =
      .ok (hashToCurve domain message) := by
  obtain ⟨x, r, same, root⟩ := exists_hashToCurve finite
  rw [same]
  exact G1.decode_encode root more

theorem hashToCurve_ne_infinity (h : (trialPoint? domain message 0).isSome) :
    hashToCurve domain message ≠ .infinity := by
  obtain ⟨p, found⟩ := Option.isSome_iff_exists.mp h
  obtain ⟨x, r, rfl, -⟩ := trialPoint?_eq_some found
  have first : hashToCurve? domain message = some (.affine x r) := by
    rw [hashToCurve?, show (2 : Nat) ^ 32 = 4294967295 + 1 from rfl, firstTrial?, found]
  rw [hashToCurve, first]
  exact fun h => by cases h

end Trials
end DecryptorNode.Curve
