import DecryptorNode.Proofs.Curve.RoundTrips

/-! The search for a point over the digest of a message. It finds the point of the first counter
whose digest is a coordinate of the curve, and it fails only if no counter has one. -/
namespace DecryptorNode.Curve

section Search
variable {α : Type} {trial? : Nat → Option α} {trials counter : Nat}

private theorem firstTrial?_eq_findSome? :
    firstTrial? trial? trials counter = (List.range' counter trials).findSome? trial? := by
  induction trials generalizing counter with
  | zero => rfl
  | succ trials ih =>
    rw [firstTrial?, List.range'_succ, List.findSome?_cons, ih]
    rfl

/-- The counter that is found has a value, and no counter before it has one. -/
private theorem firstTrial?_eq_some {a : α} : firstTrial? trial? trials counter = some a ↔
    ∃ k, counter ≤ k ∧ k < counter + trials ∧ trial? k = some a ∧
      ∀ j, counter ≤ j → j < k → trial? j = none := by
  rw [firstTrial?_eq_findSome?, List.findSome?_eq_some_iff]
  constructor
  · rintro ⟨before, k, after, split, found, nothing⟩
    obtain ⟨n, few, rfl, rest⟩ := List.range'_eq_append_iff.mp split
    rw [Nat.mul_one] at rest
    obtain ⟨rfl, room, -⟩ := List.range'_eq_cons_iff.mp rest.symm
    exact ⟨counter + n, by omega, by omega, found,
      fun j low high => nothing j (List.mem_range'_1.mpr ⟨low, high⟩)⟩
  · rintro ⟨k, low, high, found, nothing⟩
    obtain ⟨n, rfl⟩ := Nat.exists_eq_add_of_le low
    have split : List.range' counter trials = List.range' counter n ++
        (counter + n) :: List.range' (counter + n + 1) (trials - n - 1) := by
      rw [← List.range'_succ, List.range'_append_1]
      congr 1
      omega
    refine ⟨_, _, _, split, found, fun j mem => ?_⟩
    obtain ⟨low, high⟩ := List.mem_range'_1.mp mem
    exact nothing j low high

private theorem firstTrial?_eq_none : firstTrial? trial? trials counter = none ↔
    ∀ k, counter ≤ k → k < counter + trials → trial? k = none := by
  rw [firstTrial?_eq_findSome?, List.findSome?_eq_none_iff]
  simp only [List.mem_range'_1, and_imp]

end Search

def trialInput (domain message : Bytes) (counter : Nat) : Bytes :=
  domain ++ Bytes.ofNat 4 counter ++ message

private theorem val_trialCoordinate (domain message : Bytes) (counter : Nat) :
    (trialCoordinate domain message counter).val =
      Bytes.toNat (Keccak.digest (trialInput domain message counter)) % fieldModulus := rfl

/-- The coordinates that belong to a counter: the digest modulo the order of the field, and the
smaller of the two second coordinates over it. The digests of the counters before it are first
coordinates of no point. -/
structure FirstPoint (domain message : Bytes) (counter : Nat) (x y : Fp) : Prop where
  counted : counter < 2 ^ 32
  coordinate : x.val =
    Bytes.toNat (Keccak.digest (trialInput domain message counter)) % fieldModulus
  curved : y * y = x * x * x + 3
  roots : ∀ z : Fp, z * z = x * x * x + 3 → z = y ∨ z = -y
  smaller : y.val < (-y).val
  earlier : ∀ k < counter, ∀ x' y' : Fp,
    x'.val = Bytes.toNat (Keccak.digest (trialInput domain message k)) % fieldModulus →
      y' * y' ≠ x' * x' * x' + 3

section Points
variable {domain message : Bytes} {counter : Nat} {x y : Fp}

private theorem G1.smallerRoot?_eq_some_iff : smallerRoot? x = some y ↔
    y * y = x * x * x + 3 ∧ y.val < (-y).val := by
  constructor
  · intro root
    obtain ⟨curved, nonzero, smaller⟩ := smallerRoot?_eq_some root
    have larger : (-y).isLarger = true := by rw [isLarger_neg nonzero, smaller, Bool.not_false]
    rw [Fp.isLarger, neg_neg, decide_eq_true_eq] at larger
    exact ⟨curved, larger⟩
  · rintro ⟨curved, less⟩
    obtain ⟨r, root, rfl | rfl⟩ := exists_smallerRoot? curved
    · exact root
    · obtain ⟨-, -, smaller⟩ := smallerRoot?_eq_some root
      rw [neg_neg] at less
      rw [Fp.isLarger, decide_eq_false_iff_not] at smaller
      exact absurd less smaller

private theorem trialPoint?_eq_some_iff {p : G1} : trialPoint? domain message counter = some p ↔
    ∃ y, p = .affine (trialCoordinate domain message counter) y ∧
      G1.smallerRoot? (trialCoordinate domain message counter) = some y := by
  rw [trialPoint?, Option.map_eq_some_iff]
  exact exists_congr fun y => and_comm.trans (and_congr_left' eq_comm)

private theorem trialPoint?_eq_none_iff : trialPoint? domain message counter = none ↔
    ∀ y, y * y ≠ G1.rightSide (trialCoordinate domain message counter) := by
  rw [trialPoint?, Option.map_eq_none_iff]
  constructor
  · intro none y curved
    obtain ⟨r, root, -⟩ := G1.exists_smallerRoot? curved
    rw [none] at root
    cases root
  · intro h
    cases root : G1.smallerRoot? (trialCoordinate domain message counter) with
    | none => rfl
    | some y => exact absurd (G1.smallerRoot?_eq_some root).1 (h y)

/-- What a message hashes to is the point of the first counter that has one. -/
theorem hashToCurve?_eq_some_iff {p : G1} : hashToCurve? domain message = some p ↔
    ∃ counter x y, p = .affine x y ∧ FirstPoint domain message counter x y := by
  rw [hashToCurve?, firstTrial?_eq_some]
  simp only [Nat.zero_le, true_and, Nat.zero_add, forall_const, trialPoint?_eq_some_iff,
    trialPoint?_eq_none_iff, G1.smallerRoot?_eq_some_iff]
  constructor
  · rintro ⟨counter, counted, ⟨y, rfl, curved, smaller⟩, before⟩
    refine ⟨counter, _, y, rfl, counted, rfl, curved, fun z square => ?_, smaller,
      fun k early x' y' coordinate => ?_⟩
    · exact mul_self_eq_mul_self_iff.mp (square.trans curved.symm)
    · rw [Fin.ext (coordinate.trans (val_trialCoordinate domain message k).symm)]
      exact before k early y'
  · rintro ⟨counter, x, y, rfl, first⟩
    have same : x = trialCoordinate domain message counter := Fin.ext first.coordinate
    subst same
    exact ⟨counter, first.counted, ⟨y, rfl, first.curved, first.smaller⟩,
      fun k early y' => first.earlier k early _ y' rfl⟩

/-- A message hashes to a point if any counter has one. -/
theorem isSome_hashToCurve?_iff : (hashToCurve? domain message).isSome ↔
    ∃ counter < 2 ^ 32, ∃ x y : Fp,
      x.val = Bytes.toNat (Keccak.digest (trialInput domain message counter)) % fieldModulus ∧
      y * y = x * x * x + 3 := by
  rw [Option.isSome_iff_ne_none, ne_eq, hashToCurve?, firstTrial?_eq_none]
  simp only [Nat.zero_le, forall_const, Nat.zero_add, trialPoint?_eq_none_iff]
  push Not
  refine exists_congr fun counter => and_congr_right fun _ => ?_
  constructor
  · rintro ⟨y, curved⟩
    exact ⟨_, y, rfl, curved⟩
  · rintro ⟨x, y, coordinate, curved⟩
    have same : x = trialCoordinate domain message counter := Fin.ext coordinate
    subst same
    exact ⟨y, curved⟩

end Points
end DecryptorNode.Curve
