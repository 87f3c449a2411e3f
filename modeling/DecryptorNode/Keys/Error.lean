import DecryptorNode.Curve.Compressed

/-! What can be wrong with keys, signatures and epoch ids. -/
namespace DecryptorNode.Keys

/-- The values that travel as compressed points. -/
inductive PointKind where
  | blsPublicKey : PointKind
  | blsSignature : PointKind
  | eonPublicKey : PointKind
  | epochSecretKey : PointKind
  deriving DecidableEq, Repr

def PointKind.label : PointKind → String
  | .blsPublicKey => "BLS public key"
  | .blsSignature => "BLS signature"
  | .eonPublicKey => "eon public key"
  | .epochSecretKey => "epoch secret key"

inductive KeyError where
  | invalidEncoding : PointKind → Curve.DecodeError → KeyError
  | identityPoint : PointKind → KeyError
  | zeroScalar : KeyError
  | epochIdLength : Nat → KeyError
  deriving DecidableEq, Repr

def KeyError.message : KeyError → String
  | .invalidEncoding kind reason => "Invalid " ++ kind.label ++ " encoding: " ++ reason.message
  | .identityPoint kind => kind.label ++ " must not be the identity element"
  | .zeroScalar => "Secret key must not be zero"
  | .epochIdLength actual => "Epoch id must be 32 bytes, got " ++ toString actual

def named {α : Type} (kind : PointKind) : Except Curve.DecodeError α → Except KeyError α
  | .ok a => .ok a
  | .error reason => .error (.invalidEncoding kind reason)

def nonIdentity {F : Type} (kind : PointKind) (point : Curve.Point F) :
    Except KeyError (Curve.Point F) :=
  match point with
  | .infinity => .error (.identityPoint kind)
  | .affine x y => .ok (.affine x y)

end DecryptorNode.Keys
