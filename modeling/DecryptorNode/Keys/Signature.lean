import DecryptorNode.Curve.HashToCurve
import DecryptorNode.Curve.Pairing
import DecryptorNode.Keys.Secret

/-! Signatures: the secret multiple of a message's curve point, checked by comparing pairings. -/
namespace DecryptorNode.Keys

def signatureDomain : Bytes := Bytes.ofString "SHUTTER_BLS_SIG_BN254G1_KECCAK256"

def messagePoint (message : Bytes) : Curve.G1 := Curve.hashToCurve signatureDomain message

structure BlsPublicKey where
  point : Curve.G2
  deriving DecidableEq

structure BlsSignature where
  point : Curve.G1
  deriving DecidableEq

namespace BlsPublicKey

def ofBytes (bytes : Bytes) : Except KeyError BlsPublicKey := do
  let point ← named .blsPublicKey (Curve.G2.decode bytes)
  return ⟨← nonIdentity .blsPublicKey point⟩

def toBytes (key : BlsPublicKey) : Bytes := Curve.G2.encode key.point

def ofSecret (secret : SecretKey) : BlsPublicKey := ⟨secret.publicPoint⟩

def verifyBy (pairing : Curve.G1 → Curve.G2 → Curve.Fp12) (key : BlsPublicKey) (message : Bytes)
    (signature : BlsSignature) : Bool :=
  pairing signature.point Curve.G2.generator = pairing (messagePoint message) key.point

def verify (key : BlsPublicKey) (message : Bytes) (signature : BlsSignature) : Bool :=
  key.verifyBy Curve.pairing message signature

end BlsPublicKey

namespace BlsSignature

def ofBytes (bytes : Bytes) : Except KeyError BlsSignature := do
  let point ← named .blsSignature (Curve.G1.decode bytes)
  return ⟨← nonIdentity .blsSignature point⟩

def toBytes (signature : BlsSignature) : Bytes := Curve.G1.encode signature.point

def sign (secret : SecretKey) (message : Bytes) : BlsSignature :=
  ⟨Curve.Point.times secret.scalar (messagePoint message)⟩

end BlsSignature

/-- The check on encoded values. What does not decode does not verify. -/
def verifySignatureBy (pairing : Curve.G1 → Curve.G2 → Curve.Fp12)
    (publicKey signature message : Bytes) : Bool :=
  match BlsPublicKey.ofBytes publicKey, BlsSignature.ofBytes signature with
  | .ok key, .ok signature => key.verifyBy pairing message signature
  | _, _ => false

def verifySignature (publicKey signature message : Bytes) : Bool :=
  verifySignatureBy Curve.pairing publicKey signature message

end DecryptorNode.Keys
