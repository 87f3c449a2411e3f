import DecryptorNode.Proofs.Network.KeyConfinement
import DecryptorNode.Proofs.Sync.AtomicApplication

/-! A node has two ways in: items of the event stream are applied, and messages of other nodes are
processed. Neither touches what the other reads, so the order in which the two take turns decides
nothing. -/
namespace DecryptorNode
open Store (OnKeys OnRecords Tables Work)

namespace Sync
variable (keys : Tables) (contracts : Chain.WatchedContracts) (reader : Chain.AddressReader)

private theorem apart_readAddresses (set : Chain.AddressSet) (index : Nat) :
    (readAddresses reader set index).Apart (Tables.join · keys) := by
  apply Work.Apart.bind (.forM .note)
  intro _
  cases (reader set index).reply with
  | addresses l => exact .pure l
  | failed e => exact .throw _
  | stalled => exact .throw _

private theorem apart_reconcile (account : Chain.Address) :
    (reconcile account).Apart (Tables.join · keys) := by
  apply Work.Apart.bind (Store.Identities.apart_get _)
  intro identity
  dsimp only
  split
  · exact .bind (Store.Identities.apart_markVerified _).discard fun _ =>
      .bind (.note _) fun _ => .pure _
  · exact .bind (.note _) fun _ => .pure _

private theorem apart_recordUpdate (update : Chain.Update) :
    (recordUpdate contracts reader update).Apart (Tables.join · keys) := by
  have modular : Modular (Work.Apart (Tables.join · keys)) :=
    { pure := .pure
      refuse := fun _ => .throw _
      bind := .bind
      keyperSet := fun _ => (Store.KeyperSets.apart_insert _).mapError _
      member := fun _ => (Store.DecryptorSets.apart_insertMember _).mapError _
      credential := fun _ _ _ => (Store.Identities.apart_upsert _ _ _).mapError _
      check := fun _ => (apart_reconcile keys _).mapError _
      position := fun _ => (Store.Progress.apart_update _).mapError _ }
  exact modular.recordUpdate fun _ _ => apart_readAddresses keys reader _ _

private theorem onRecords_attempt (update : Chain.Update) :
    OnRecords (attempt contracts reader update) := by
  constructor
  · intro keys
    exact .transaction (apart_recordUpdate keys contracts reader update)
  · intro s
    have same : (apply contracts reader update s).2.database =
        (attempt contracts reader update s).2.database := by rw [apply_eq]
    rw [← same]
    rcases ran : apply contracts reader update s with ⟨e | cursor, s'⟩
    · exact congrArg Store.Database.faults (database_of_apply_error ran)
    · exact (applied_of_apply ran).1.faults

/-- Applying an item neither reads nor writes keys, whether it succeeds or not. -/
theorem onRecords_apply (update : Chain.Update) : OnRecords (apply contracts reader update) := by
  have recorded := (onRecords_attempt contracts reader update).recording (entries update)
  rwa [← funext (apply_eq contracts reader update)] at recorded

end Sync

namespace Node
open Network (NetworkError Outbound Verdict nodeRouter)
open Sync (Halt)
variable (contracts : Chain.WatchedContracts) (reader : Chain.AddressReader) (instanceId : Nat)

/-- An item of the event stream, or a message under its topic. -/
abbrev Task := Chain.Update ⊕ String × Bytes

def process (call : String × Bytes) :
    Store → Except NetworkError (Verdict × List Outbound) × Store :=
  (nodeRouter instanceId).process call.1 call.2

def perform : Task → Store →
    (Except Halt Chain.Cursor ⊕ Except NetworkError (Verdict × List Outbound)) × Store :=
  Store.either (Sync.apply contracts reader) (process instanceId)

/-- An item and a message have the results that each has alone, whichever comes first, and they
leave the same database and the same records, though not in the same order. So of any tasks, in
whatever order they come, the items have the results that they have without the messages and the
messages those that they have without the items; and the database that is left has what follows the
chain from the items alone and the keys from the messages alone. -/
theorem paths_independent (s : Store) :
    (∀ update call,
      let applied := Sync.apply contracts reader update s
      let processed := process instanceId call s
      let itemFirst := process instanceId call applied.2
      let messageFirst := Sync.apply contracts reader update processed.2
      itemFirst.1 = processed.1 ∧ messageFirst.1 = applied.1 ∧
        itemFirst.2.database = messageFirst.2.database ∧
        itemFirst.2.activity.Perm messageFirst.2.activity) ∧
    ∀ tasks : List Task,
      let whole := Store.inTurn (perform contracts reader instanceId) tasks s
      let items := Store.inTurn (Sync.apply contracts reader) (tasks.filterMap Sum.getLeft?) s
      let messages := Store.inTurn (process instanceId) (tasks.filterMap Sum.getRight?) s
      whole.1.filterMap Sum.getLeft? = items.1 ∧ whole.1.filterMap Sum.getRight? = messages.1 ∧
        whole.2.database =
          ⟨items.2.database.tables.join messages.2.database.tables, s.database.faults⟩ := by
  have items (update : Chain.Update) := Sync.onRecords_apply contracts reader update
  have messages (call : String × Bytes) : OnKeys (process instanceId call) :=
    Network.onKeys_process instanceId call.1 call.2
  constructor
  · intro update call
    dsimp only
    rw [Store.keys_after_records (items update) (messages call),
      Store.records_after_keys (items update) (messages call)]
    exact ⟨rfl, rfl, rfl, List.perm_append_comm_assoc _ _ _⟩
  · intro tasks
    exact Store.inTurn_either items messages tasks s

end Node
end DecryptorNode
