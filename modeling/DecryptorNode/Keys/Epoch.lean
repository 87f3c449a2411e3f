import DecryptorNode.Curve.HashToCurve
import DecryptorNode.Curve.Pairing
import DecryptorNode.Keys.Secret

/-! Eon keys and the epoch secret keys that they release. -/
namespace DecryptorNode.Keys

def epochDomain : Bytes := Bytes.ofString "SHUTTER_EPOCH_ID_BN254G1_KECCAK256"

/-- An epoch id is a string of 32 bytes. -/
structure EpochId where
  bytes : Bytes
  length_eq : bytes.length = 32

namespace EpochId

/-- The number in the last eight bytes, zeros before it. -/
def ofNat (value : Nat) : EpochId := ⟨Bytes.ofNat 32 (value % 2 ^ 64), Bytes.length_ofNat _ _⟩

def ofBytes (bytes : Bytes) : Except KeyError EpochId :=
  if h : bytes.length = 32 then .ok ⟨bytes, h⟩ else .error (.epochIdLength bytes.length)

def point (epoch : EpochId) : Curve.G1 := Curve.hashToCurve epochDomain epoch.bytes

end EpochId

structure EonPublicKey where
  point : Curve.G2
  deriving DecidableEq

namespace EonPublicKey

def ofBytes (bytes : Bytes) : Except KeyError EonPublicKey := do
  let point ← named .eonPublicKey (Curve.G2.decode bytes)
  return ⟨← nonIdentity .eonPublicKey point⟩

def toBytes (key : EonPublicKey) : Bytes := Curve.G2.encode key.point

def ofSecret (secret : SecretKey) : EonPublicKey := ⟨secret.publicPoint⟩

end EonPublicKey

/-- A released key. It may be the neutral point, which verifies for no epoch. -/
structure EpochSecretKey where
  point : Curve.G1
  deriving DecidableEq

namespace EpochSecretKey

def ofBytes (bytes : Bytes) : Except KeyError EpochSecretKey := do
  return ⟨← named .epochSecretKey (Curve.G1.decode bytes)⟩

def toBytes (key : EpochSecretKey) : Bytes := Curve.G1.encode key.point

def release (secret : SecretKey) (epoch : EpochId) : EpochSecretKey :=
  ⟨Curve.Point.times secret.scalar epoch.point⟩

/-- Whether the key pairs with the generator as the epoch pairs with the eon's public key. -/
def verifyBy (pairing : Curve.G1 → Curve.G2 → Curve.Fp12) (key : EpochSecretKey)
    (eon : EonPublicKey) (epoch : EpochId) : Bool :=
  !key.point.isInfinity &&
    decide (pairing key.point Curve.G2.generator = pairing epoch.point eon.point)

def verify (key : EpochSecretKey) (eon : EonPublicKey) (epoch : EpochId) : Bool :=
  key.verifyBy Curve.pairing eon epoch

end EpochSecretKey
end DecryptorNode.Keys
