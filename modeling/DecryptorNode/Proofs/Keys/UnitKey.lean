import DecryptorNode.Proofs.Keys.KeyReadings

/-! The keys of the secret one. The public key is the generator, and what is signed or released
with it is the hashed point itself, so the two pairings that a check compares are one and the same.
-/
namespace DecryptorNode.Keys
open Curve (G1 G2)

def SecretKey.one : SecretKey := ⟨1, by decide, by decide⟩

private theorem publicPoint_one :
    SecretKey.one.publicPoint = G2.generator := Curve.Point.times_one _

def unitKey : Bytes := (EonPublicKey.ofSecret .one).toBytes

private theorem unitKey_eq : unitKey = G2.encode G2.generator := congrArg G2.encode publicPoint_one

theorem eonKey_unitKey : EonPublicKey.ofBytes unitKey = .ok ⟨G2.generator⟩ := by
  have order := G2.hasGroupOrder_generator
  rw [unitKey_eq, EonPublicKey.ofBytes_eq_ok]
  exact ⟨G2.decode_encode_of_hasGroupOrder order, order.finite⟩

private theorem blsKey_unitKey : BlsPublicKey.ofBytes unitKey = .ok ⟨G2.generator⟩ := by
  have order := G2.hasGroupOrder_generator
  rw [unitKey_eq, BlsPublicKey.ofBytes_eq_ok]
  exact ⟨G2.decode_encode_of_hasGroupOrder order, order.finite⟩

section Epochs
variable {epoch : EpochId}

def unitRelease (epoch : EpochId) : Bytes := (EpochSecretKey.release .one epoch).toBytes

theorem unitRelease_eq : unitRelease epoch = G1.encode epoch.point := by
  simp only [unitRelease, EpochSecretKey.toBytes, EpochSecretKey.release, SecretKey.one,
    Curve.Point.times_one]

/-- What stands after a released key is not looked at. -/
theorem ofBytes_unitRelease (finite : epoch.point ≠ .infinity) (more : Bytes) :
    EpochSecretKey.ofBytes (unitRelease epoch ++ more) = .ok ⟨epoch.point⟩ := by
  rw [unitRelease_eq, EpochSecretKey.ofBytes, EpochId.point,
    Curve.decode_encode_hashToCurve finite]
  rfl

theorem verify_unitRelease (finite : epoch.point ≠ .infinity) :
    EpochSecretKey.verify ⟨epoch.point⟩ ⟨G2.generator⟩ epoch = true := by
  unfold EpochSecretKey.verify EpochSecretKey.verifyBy
  generalize epoch.point = point at finite
  cases point with
  | infinity => exact absurd rfl finite
  | affine x y => simp only [Curve.Point.isInfinity, decide_true, Bool.not_false, Bool.and_self]

end Epochs

section Messages
variable {message : Bytes}

def unitSignature (message : Bytes) : Bytes := (BlsSignature.sign .one message).toBytes

private theorem unitSignature_eq : unitSignature message = G1.encode (messagePoint message) := by
  simp only [unitSignature, BlsSignature.toBytes, BlsSignature.sign, SecretKey.one,
    Curve.Point.times_one]

private theorem ofBytes_unitSignature (finite : messagePoint message ≠ .infinity) :
    BlsSignature.ofBytes (unitSignature message) = .ok ⟨messagePoint message⟩ := by
  have read := G1.decode_encode_of_hasGroupOrder (hasGroupOrder_messagePoint finite)
  rw [unitSignature_eq, BlsSignature.ofBytes_eq_ok]
  dsimp only
  exact ⟨read, finite⟩

theorem verifySignature_unit (finite : messagePoint message ≠ .infinity) :
    verifySignature unitKey (unitSignature message) message = true := by
  rw [verifySignature, verifySignatureBy, blsKey_unitKey, ofBytes_unitSignature finite]
  simp only [BlsPublicKey.verifyBy, decide_true]

end Messages
end DecryptorNode.Keys
