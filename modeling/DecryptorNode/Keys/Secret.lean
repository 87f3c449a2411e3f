import DecryptorNode.Keys.Error

/-! Secret scalars. Both kinds of secret key are one: a non-zero residue modulo the group order. -/
namespace DecryptorNode.Keys

structure SecretKey where
  scalar : Nat
  positive : 0 < scalar
  bounded : scalar < Curve.groupOrder

namespace SecretKey

/-- Reads any number of bytes as one big-endian number modulo the group order. -/
def ofBytes (bytes : Bytes) : Except KeyError SecretKey :=
  let n := Bytes.toNat bytes % Curve.groupOrder
  if h : 0 < n then .ok ⟨n, h, Nat.mod_lt _ (by decide)⟩ else .error .zeroScalar

def publicPoint (secret : SecretKey) : Curve.G2 :=
  Curve.Point.times secret.scalar Curve.G2.generator

end SecretKey
end DecryptorNode.Keys
