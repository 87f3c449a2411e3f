import DecryptorNode.Proofs.Store.WorkRuns
import DecryptorNode.Sync.Apply

/-! What the application of an item is put together from. A property of work that its parts have and
that goes over to work put together is one of the whole, so that nobody has to go through the
handlers again. -/
namespace DecryptorNode.Sync
open Chain (Address AddressReader AddressSet ChainEvent Update)
open Store (Work)

def consulted? : ChainEvent → Option (AddressSet × Nat)
  | .keyperConfig config => some (.keypers, config.index)
  | .decryptorConfig config => some (.decryptors, config.index)
  | .registered _ => none
  | .unknown _ _ => none

/-- A property that work put together has from its parts, and that every part of an application has
but the reading of a list. -/
structure Modular (P : ∀ {α : Type}, Work Halt α → Prop) : Prop where
  pure : ∀ {α : Type} (a : α), P (pure a : Work Halt α)
  refuse : ∀ {α : Type} (e : SyncError), P (refuse e : Work Halt α)
  bind : ∀ {α β : Type} {x : Work Halt α} {k : α → Work Halt β}, P x → (∀ a, P (k a)) → P (x >>= k)
  keyperSet : ∀ set, P (stored (Store.KeyperSets.insert set))
  member : ∀ m, P (stored (Store.DecryptorSets.insertMember m))
  credential : ∀ account credential data,
    P (stored (Store.Identities.upsert account credential data))
  check : ∀ account, P (stored (reconcile account))
  position : ∀ cursor, P (stored (Store.Progress.update cursor))

namespace Modular
variable {P : ∀ {α : Type}, Work Halt α → Prop} {contracts : Chain.WatchedContracts}
  {reader : AddressReader}

private theorem activationNumber (h : Modular P) (n : Nat) : P (activationNumber n) := by
  unfold Sync.activationNumber
  split
  · exact h.pure _
  · exact h.refuse _

private theorem thresholdNumber (h : Modular P) (n : Nat) : P (thresholdNumber n) := by
  unfold Sync.thresholdNumber
  split
  · exact h.pure _
  · exact h.refuse _

private theorem recordMembers (h : Modular P) (activation : Int) (size position : Nat)
    (l : List Address) : P (recordMembers activation size position l) := by
  induction l generalizing position with
  | nil => exact h.pure ()
  | cons a rest ih =>
    unfold Sync.recordMembers
    dsimp only
    split
    · exact h.bind (h.refuse _) fun _ => h.bind (h.member _) fun _ => ih _
    · exact h.bind (h.member _) fun _ => ih _

private theorem recordEvent (h : Modular P) {event : ChainEvent}
    (reads : ∀ list ∈ consulted? event, P (readAddresses reader list.1 list.2)) :
    P (recordEvent contracts reader event) := by
  cases event with
  | keyperConfig config =>
    have read := reads _ rfl
    exact h.bind (h.activationNumber _) fun _ => h.bind (h.thresholdNumber _) fun _ =>
      h.bind read fun _ => h.keyperSet _
  | decryptorConfig config =>
    have read := reads _ rfl
    exact h.bind (h.activationNumber _) fun _ => h.bind read fun _ => h.recordMembers _ _ _ _
  | registered registration =>
    unfold Sync.recordEvent
    dsimp only
    split
    · exact h.bind (h.bind (h.credential _ _ _) fun _ => h.check _) fun _ => h.pure _
    · exact h.pure ()
  | unknown contract topic => exact h.pure ()

theorem recordUpdate (h : Modular P) {update : Update}
    (reads : ∀ list ∈ update.event.bind consulted?, P (readAddresses reader list.1 list.2)) :
    P (recordUpdate contracts reader update) := by
  have event : P (update.event.forM (Sync.recordEvent contracts reader)) := by
    cases carried : update.event with
    | none => exact h.pure _
    | some event =>
      rw [carried] at reads
      exact h.recordEvent reads
  refine h.bind event fun _ => ?_
  cases update.nextCursor? with
  | none => exact h.refuse _
  | some cursor => exact h.bind (h.position cursor) fun _ => h.pure _

end Modular
end DecryptorNode.Sync
