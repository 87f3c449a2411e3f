import DecryptorNode.Chain.AddressReader
import DecryptorNode.Store.DecryptorSets
import DecryptorNode.Store.KeyperSets
import DecryptorNode.Store.Progress
import DecryptorNode.Sync.Failure
import DecryptorNode.Sync.Reconcile

/-! Applying the items of the event stream, one transaction each. What an event changes and the
new position become permanent together. -/
namespace DecryptorNode.Sync

open Chain (Address AddressReader AddressSet ChainEvent Cursor Update)
open Store (Action Credential StoreError Work)

def stored {α : Type} (work : Work StoreError α) : Work Halt α :=
  work.mapError fun e => .failed (.store e)

def refuse {α : Type} (e : SyncError) : Work Halt α := throw (.failed e)

def activationNumber (n : Nat) : Work Halt Int :=
  if n < 2 ^ 63 then pure (n : Int) else refuse (.activationOverflow n)

def thresholdNumber (n : Nat) : Work Halt Int :=
  if n < 2 ^ 31 then pure (n : Int) else refuse (.thresholdOverflow n)

def readAddresses (reader : AddressReader) (set : AddressSet) (index : Nat) :
    Work Halt (List Address) := do
  let answer := reader set index
  answer.activity.forM Work.note
  match answer.reply with
  | .addresses addresses => return addresses
  | .failed e => refuse (.chain e)
  | .stalled => throw .stalled

def recordKeyperSet (reader : AddressReader) (config : Chain.KeyperConfig) : Work Halt Unit := do
  let activation ← activationNumber config.activation
  let threshold ← thresholdNumber config.threshold
  let keypers ← readAddresses reader .keypers config.index
  stored (Store.KeyperSets.insert ⟨activation, keypers.map Address.text, threshold⟩)

def recordMembers (activation : Int) (size : Nat) : (position : Nat) → List Address →
    Work Halt Unit
  | _, [] => pure ()
  | position, address :: rest => do
    if 2 ^ 31 ≤ position then refuse (.memberIndexOverflow size)
    stored (Store.DecryptorSets.insertMember ⟨activation, (position : Int), address.text⟩)
    recordMembers activation size (position + 1) rest

/-- Stores one member for each address of the decryptor set that a configuration names. -/
def recordDecryptorSet (reader : AddressReader) (config : Chain.DecryptorConfig) :
    Work Halt Unit := do
  let activation ← activationNumber config.activation
  let members ← readAddresses reader .decryptors config.index
  recordMembers activation members.length 0 members

/-- Stores a credential and checks the account's identity again. -/
def recordCredential (credential : Credential) (registration : Chain.Registration) :
    Work Halt ReconcileOutcome := do
  stored (Store.Identities.upsert registration.account.text credential registration.data)
  stored (reconcile registration.account)

/-- Which credential a registry records. Where both registries are one contract it records
signatures. -/
def credentialOf? (contracts : Chain.WatchedContracts) (registry : Address) : Option Credential :=
  if registry = contracts.signatureRegistry then some .signature
  else if registry = contracts.publicKeyRegistry then some .publicKey
  else none

/-- What an event changes. Unknown events and other registries change nothing. -/
def recordEvent (contracts : Chain.WatchedContracts) (reader : AddressReader) :
    ChainEvent → Work Halt Unit
  | .keyperConfig config => recordKeyperSet reader config
  | .decryptorConfig config => recordDecryptorSet reader config
  | .registered registration =>
    match credentialOf? contracts registration.registry with
    | some credential => discard (recordCredential credential registration)
    | none => pure ()
  | .unknown _ _ => pure ()

/-- The work of one item: the event's changes, then the position after it. -/
def recordUpdate (contracts : Chain.WatchedContracts) (reader : AddressReader) (update : Update) :
    Work Halt Cursor := do
  update.event.forM (recordEvent contracts reader)
  match update.nextCursor? with
  | none => refuse (.cursorOverflow update.block update.index)
  | some cursor =>
    stored (Store.Progress.update cursor)
    return cursor

/-- Applies one item in a transaction of its own and counts the result. One whose answer never
comes is undone and not counted. -/
def apply (contracts : Chain.WatchedContracts) (reader : AddressReader) (update : Update) :
    Action Halt Cursor := fun s =>
  let begun (e : StoreError) : Halt := .failed (.store e)
  let committed (e : StoreError) : Halt := .failed (.commit e)
  match Action.transaction begun committed (recordUpdate contracts reader update) s with
  | (.ok cursor, s) =>
    (.ok cursor, { s with
      activity := .advanced cursor :: .applied update.kind true :: s.activity })
  | (.error (.failed e), s) =>
    (.error (.failed e), { s with activity := .applied update.kind false :: s.activity })
  | (.error .stalled, s) => (.error .stalled, s)

/-- The stored position without a record; the start if nothing is stored. -/
def loadCursor : Action StoreError Cursor := do
  return (← Action.direct Store.Progress.get).getD .start

end DecryptorNode.Sync
