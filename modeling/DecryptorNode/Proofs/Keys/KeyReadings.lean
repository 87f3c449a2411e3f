import DecryptorNode.Keys.Epoch
import DecryptorNode.Keys.Signature
import DecryptorNode.Proofs.Curve.RoundTrips

/-! Which bytes are read as which key: a secret from any number that the group order does not
divide, a point from whatever decodes to it, and the public key of a secret from what it is
written as. -/
namespace DecryptorNode.Keys
open Curve (G1 G2 groupOrder)

section Secrets
variable {bytes : Bytes}

theorem SecretKey.ofBytes_eq_error_iff :
    ofBytes bytes = .error .zeroScalar ↔ groupOrder ∣ Bytes.toNat bytes := by
  rw [Nat.dvd_iff_mod_eq_zero]
  unfold ofBytes
  dsimp only
  split
  · rename_i positive
    exact ⟨fun h => (by cases h), fun zero => absurd zero positive.ne'⟩
  · rename_i zero
    exact ⟨fun _ => Nat.eq_zero_of_not_pos zero, fun _ => rfl⟩

theorem SecretKey.exists_ofBytes (secret : ¬ groupOrder ∣ Bytes.toNat bytes) :
    ∃ key, ofBytes bytes = .ok key ∧ key.scalar = Bytes.toNat bytes % groupOrder := by
  have positive := Nat.pos_of_ne_zero fun zero => secret (Nat.dvd_of_mod_eq_zero zero)
  unfold ofBytes
  exact ⟨_, dif_pos positive, rfl⟩

variable (secret : SecretKey)

theorem SecretKey.hasGroupOrder_publicPoint :
    secret.publicPoint.HasGroupOrder G2.constant :=
  G2.hasGroupOrder_generator.times secret.positive secret.bounded

theorem SecretKey.decode_publicPoint :
    G2.decode (G2.encode secret.publicPoint) = .ok secret.publicPoint :=
  G2.decode_encode_of_hasGroupOrder secret.hasGroupOrder_publicPoint

end Secrets

theorem hasGroupOrder_messagePoint {message : Bytes} (finite : messagePoint message ≠ .infinity) :
    (messagePoint message).HasGroupOrder G1.constant :=
  Curve.hasGroupOrder_hashToCurve finite

theorem EpochId.hasGroupOrder_point {epoch : EpochId} (finite : epoch.point ≠ .infinity) :
    epoch.point.HasGroupOrder G1.constant :=
  Curve.hasGroupOrder_hashToCurve finite

section Readings
variable {bytes : Bytes}

/-- The reading that all kinds share which must not be the neutral point. -/
private theorem finite_eq_ok {α F : Type} (make : Curve.Point F → α) (injective : make.Injective)
    {kind : PointKind} {x : Except Curve.DecodeError (Curve.Point F)} {p : Curve.Point F} :
    (do return make (← nonIdentity kind (← named kind x))) = Except.ok (make p) ↔
      x = .ok p ∧ p ≠ .infinity := by
  cases x with
  | error reason => exact ⟨fun h => (by cases h), fun h => (by cases h.1)⟩
  | ok q =>
    cases q with
    | infinity =>
      refine ⟨fun h => (by cases h), fun ⟨h, finite⟩ => ?_⟩
      cases h
      exact absurd rfl finite
    | affine a b =>
      constructor
      · intro h
        cases injective (Except.ok.inj h)
        exact ⟨rfl, fun h => by cases h⟩
      · rintro ⟨h, -⟩
        cases h
        rfl

theorem BlsPublicKey.ofBytes_eq_ok {key : BlsPublicKey} :
    ofBytes bytes = .ok key ↔ G2.decode bytes = .ok key.point ∧ key.point ≠ .infinity :=
  finite_eq_ok mk fun _ _ => mk.inj

theorem EonPublicKey.ofBytes_eq_ok {key : EonPublicKey} :
    ofBytes bytes = .ok key ↔ G2.decode bytes = .ok key.point ∧ key.point ≠ .infinity :=
  finite_eq_ok mk fun _ _ => mk.inj

theorem BlsSignature.ofBytes_eq_ok {signature : BlsSignature} : ofBytes bytes = .ok signature ↔
    G1.decode bytes = .ok signature.point ∧ signature.point ≠ .infinity :=
  finite_eq_ok mk fun _ _ => mk.inj

theorem EpochSecretKey.ofBytes_eq_ok {key : EpochSecretKey} :
    ofBytes bytes = .ok key ↔ G1.decode bytes = .ok key.point := by
  unfold ofBytes
  cases G1.decode bytes with
  | error reason => exact ⟨fun h => (by cases h), fun h => (by cases h)⟩
  | ok p =>
    constructor
    · intro h
      cases h
      rfl
    · intro h
      cases h
      rfl

end Readings

end DecryptorNode.Keys
