import DecryptorNode.Keys.Epoch
import DecryptorNode.Network.Router
import DecryptorNode.Store.EonKeys
import DecryptorNode.Store.EpochKeys

/-! The handler of decryption keys: a key is accepted if it is for this instance and fits the
stored public key of its eon, and the first accepted key of an epoch is stored. -/
namespace DecryptorNode.Network.KeyHandler

open Store (Action StoreError)

def checkAgainst (key : Keys.EpochSecretKey) (epoch : Keys.EpochId) :
    Except StoreError (Option Store.EonKeyEntry) → Verdict
  | .error _ => .ignore
  | .ok none => .reject
  | .ok (some entry) =>
    match Keys.EonPublicKey.ofBytes entry.publicKey with
    | .error _ => .reject
    | .ok eon => if key.verify eon epoch then .accept else .reject

/-- The parts of a message that can be checked without the store. -/
def wellFormed? (instanceId : Nat) (m : DecryptionKey) :
    Option (Keys.EpochSecretKey × Keys.EpochId) :=
  if m.instanceId ≠ instanceId ∨ m.eon < 0 then none
  else match Keys.EpochId.ofBytes m.epochId, Keys.EpochSecretKey.ofBytes m.key with
    | .ok epoch, .ok key => some (key, epoch)
    | _, _ => none

/-- A message is ignored, rather than rejected, only if the eon's key could not be looked up. -/
def validate (instanceId : Nat) (m : DecryptionKey) : StateM Store Verdict := do
  match wellFormed? instanceId m with
  | none => return .reject
  | some (key, epoch) =>
    let looked ← (Action.direct (Store.EonKeys.get m.eon)).run
    return checkAgainst key epoch looked

/-- Stores the key unless its epoch has one. Nothing is published. -/
def handle (m : DecryptionKey) : Handling (List Outbound) :=
  let failed (_ : StoreError) : NetworkError := .handler DecryptionKey.topic
  Action.transaction failed failed do
    discard ((Store.EpochKeys.insert ⟨m.eon, m.epochId, m.key⟩).mapError failed)
    return []

end DecryptorNode.Network.KeyHandler

namespace DecryptorNode.Network

def keyHandler (instanceId : Nat) : Handler DecryptionKey where
  topic := DecryptionKey.topic
  decode? := DecryptionKey.decode?
  validate := KeyHandler.validate instanceId
  handle := KeyHandler.handle

def nodeRouter (instanceId : Nat) : Router := Router.empty.register (keyHandler instanceId)

end DecryptorNode.Network
