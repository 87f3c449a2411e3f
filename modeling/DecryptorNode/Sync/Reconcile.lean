import DecryptorNode.Keys.Signature
import DecryptorNode.Store.Identities

/-! Checking an account's registered signature against its registered key. -/
namespace DecryptorNode.Sync

open Store (Work StoreError Identity)

inductive ReconcileOutcome where
  | alreadyVerified : ReconcileOutcome
  | incomplete : ReconcileOutcome
  | invalid : ReconcileOutcome
  | verified : ReconcileOutcome
  deriving DecidableEq, Repr

def ReconcileOutcome.label : ReconcileOutcome → String
  | .alreadyVerified => "already_verified"
  | .incomplete => "incomplete"
  | .invalid => "invalid"
  | .verified => "verified"

/-- What a stored identity says about an account: the signature is over the account's bytes, and
an empty credential counts as missing. -/
def judge (account : Chain.Address) : Option Identity → ReconcileOutcome
  | none => .incomplete
  | some identity =>
    if identity.verified then .alreadyVerified
    else match identity.publicKey, identity.signature with
      | some key, some signature =>
        if key.isEmpty || signature.isEmpty then .incomplete
        else if Keys.verifySignature key signature account.bytes then .verified
        else .invalid
      | _, _ => .incomplete

/-- Judges an account's identity, and marks it if it verifies now. -/
def reconcile (account : Chain.Address) : Work StoreError ReconcileOutcome := do
  let identity ← Store.Identities.get account.text
  let outcome := judge account identity
  if outcome = .verified then discard (Store.Identities.markVerified account.text)
  Work.note (.reconciled outcome.label)
  return outcome

end DecryptorNode.Sync
