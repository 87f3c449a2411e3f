import DecryptorNode.Proofs.Store.Cutoffs
import DecryptorNode.Proofs.Sync.ApplicationParts
import DecryptorNode.Proofs.Sync.HandlerEffects
import DecryptorNode.Sync.Pipeline

/-! One item, one transaction: to apply an item moves the stored position past it together with
what its event says, and an application that fails leaves no trace in the database. -/
namespace DecryptorNode.Sync
open Chain (Address AddressReader AddressSet ChainEvent Cursor Update)
open Store (Action ChainTables Credential Database IdentityRow MemberKey Table Tables Work
  Workspace)

/-- What an item makes of the tables that mirror the chain: its event is recorded in them. -/
def recordedItem (contracts : Chain.WatchedContracts)
    (lists : AddressSet → Nat → Option (List Address)) (update : Update) (t : ChainTables) :
    Option ChainTables :=
  match update.event with
  | none => some t
  | some event => recorded contracts lists event t

/-- The difference that an applied item makes to a database. -/
structure Applied (contracts : Chain.WatchedContracts)
    (lists : AddressSet → Nat → Option (List Address)) (update : Update) (cursor : Cursor)
    (before after : Database) : Prop where
  next : update.nextCursor? = some cursor
  fits : cursor.block < 2 ^ 63 ∧ cursor.index < 2 ^ 63
  recorded : recordedItem contracts lists update before.tables.chain = some after.tables.chain
  tables : after.tables = { before.tables.withChain after.tables.chain with
    progress := before.tables.progress.put Store.Progress.rowId ⟨cursor.block, cursor.index⟩ }
  faults : after.faults = before.faults

theorem records_item (contracts : Chain.WatchedContracts) (reader : AddressReader)
    (update : Update) :
    Records (update.event.forM (recordEvent contracts reader))
      (recordedItem contracts (readable reader) update) := by
  unfold recordedItem
  cases update.event with
  | none => exact records_nothing
  | some event => exact records_event contracts reader event

private theorem exec_recordUpdate {contracts : Chain.WatchedContracts} {reader : AddressReader}
    {update : Update} {cursor : Cursor} {w w' : Workspace}
    (open' : w.draft.autocommit = false)
    (h : (recordUpdate contracts reader update).exec w = (.ok cursor, w')) :
    Applied contracts (readable reader) update cursor w.draft.database w'.draft.database ∧
      w.connected = true ∧ w.draft.database.canWrite .progress = true := by
  obtain ⟨_, u, recording, h⟩ := Work.exec_bind_eq_ok.mp h
  obtain ⟨⟨c, value, draft⟩, earlier⟩ :=
    (records_item contracts reader update).sound _ _ _ recording
  cases next : update.nextCursor? with
  | none =>
    rw [next] at h
    cases h
  | some following =>
    rw [next] at h
    obtain ⟨_, v, moved, returned⟩ := Work.exec_bind_eq_ok.mp h
    cases returned
    rw [stored, Work.exec_mapError_eq_ok,
      Store.Progress.exec_update_eq_ok (by rw [draft]; exact open'),
      Workspace.tables, draft] at moved
    obtain ⟨block, index, connected, permitted, rfl⟩ := moved
    exact ⟨⟨next, ⟨block, index⟩, value, rfl, rfl⟩, earlier connected, permitted⟩

/-- In a sound transaction an item is recorded if its event can be and the position after it
fits. -/
private theorem exec_recordUpdate_of_sound {contracts : Chain.WatchedContracts}
    {reader : AddressReader} {update : Update} {cursor : Cursor} {w : Workspace} {c : ChainTables}
    (open' : w.draft.autocommit = false) (sound : w.Sound)
    (value : recordedItem contracts (readable reader) update w.tables.chain = some c)
    (next : update.nextCursor? = some cursor)
    (fits : cursor.block < 2 ^ 63 ∧ cursor.index < 2 ^ 63) :
    ∃ w', (recordUpdate contracts reader update).exec w = (.ok cursor, w') ∧
      w'.draft.doomed = w.draft.doomed ∧ w'.Sound := by
  obtain ⟨_, u, recording, draft, lasting⟩ :=
    (records_item contracts reader update).complete w c sound value
  have sound' : u.Sound := sound.later draft lasting
  obtain ⟨v, moved, doomed, sound''⟩ : ∃ v, (Store.Progress.update cursor).exec u = (.ok (), v) ∧
      v.draft.doomed = w.draft.doomed ∧ v.Sound := by
    have unshared : u.draft.autocommit = false := by
      rw [draft]
      exact open'
    refine ⟨_, (Store.Progress.exec_update_eq_ok unshared).mpr
      ⟨fits.1, fits.2, sound'.connected, sound'.draft.canWrite _, rfl⟩, ?_,
      sound'.draft, sound'.spent⟩
    change (u.draft.doomed || u.draft.database.faults.failingCommits) = _
    rw [sound'.draft.commits, draft]
    exact Bool.or_false _
  refine ⟨v, Work.exec_bind_eq_ok.mpr ⟨_, u, recording, ?_⟩, doomed, sound''⟩
  rw [next]
  exact Work.exec_bind_eq_ok.mpr ⟨(), v, Work.exec_mapError_eq_ok.mpr moved, rfl⟩

def attempt (contracts : Chain.WatchedContracts) (reader : AddressReader) (update : Update) :
    Action Halt Cursor :=
  Action.transaction (fun e => .failed (.store e)) (fun e => .failed (.commit e))
    (recordUpdate contracts reader update)

def entries (update : Update) : Except Halt Cursor → List Telemetry.Activity
  | .ok cursor => [.advanced cursor, .applied update.kind true]
  | .error (.failed _) => [.applied update.kind false]
  | .error .stalled => []

/-- An application is its transaction with a record of what came of it. -/
theorem apply_eq (contracts : Chain.WatchedContracts) (reader : AddressReader) (update : Update)
    (s : Store) : apply contracts reader update s =
      ((attempt contracts reader update s).1, { (attempt contracts reader update s).2 with
        activity := entries update (attempt contracts reader update s).1 ++
          (attempt contracts reader update s).2.activity }) := by
  unfold apply
  dsimp only
  split
  all_goals
    rename_i ran
    rw [show attempt contracts reader update s = _ from ran]
    rfl

theorem attempt_of_apply {contracts : Chain.WatchedContracts} {reader : AddressReader}
    {update : Update} {result : Except Halt Cursor} {s s' : Store}
    (h : apply contracts reader update s = (result, s')) :
    ∃ left, attempt contracts reader update s = (result, left) ∧ left.database = s'.database := by
  rw [apply_eq] at h
  cases h
  exact ⟨_, rfl, rfl⟩

theorem applied_of_apply {contracts : Chain.WatchedContracts} {reader : AddressReader}
    {update : Update} {cursor : Cursor} {s s' : Store}
    (h : apply contracts reader update s = (.ok cursor, s')) :
    Applied contracts (readable reader) update cursor s.database s'.database ∧
      s.database.answers .progress = true := by
  obtain ⟨left, committed, same⟩ := attempt_of_apply h
  obtain ⟨-, w, ran, -, -, -, rfl⟩ := Action.transaction_eq_ok.mp committed
  obtain ⟨applied, connected, permitted⟩ := exec_recordUpdate rfl ran
  rw [← same]
  exact ⟨applied, Database.answers_iff.mpr ⟨connected, Database.canRead_of_canWrite permitted⟩⟩

theorem database_of_apply_error {contracts : Chain.WatchedContracts} {reader : AddressReader}
    {update : Update} {e : Halt} {s s' : Store}
    (h : apply contracts reader update s = (.error e, s')) : s'.database = s.database := by
  obtain ⟨left, undone, same⟩ := attempt_of_apply h
  rw [← same]
  exact Action.database_of_transaction_error undone

/-- On a database that does not misbehave an item is applied if, and only if, its event can be
recorded and the position after it fits the table of positions. -/
theorem applies_iff (contracts : Chain.WatchedContracts) (reader : AddressReader)
    (update : Update) (s : Store) :
    (∃ cursor s', apply contracts reader update (s.withFaults .none) = (.ok cursor, s')) ↔
      (recordedItem contracts (readable reader) update s.database.tables.chain).isSome ∧
      ∃ cursor, update.nextCursor? = some cursor ∧
        cursor.block < 2 ^ 63 ∧ cursor.index < 2 ^ 63 := by
  constructor
  · rintro ⟨cursor, s', ran⟩
    obtain ⟨applied, -⟩ := applied_of_apply ran
    exact ⟨Option.isSome_of_eq_some applied.recorded, cursor, applied.next, applied.fits⟩
  · rintro ⟨value, cursor, next, fits⟩
    obtain ⟨c, value⟩ := Option.isSome_iff_exists.mp value
    obtain ⟨w, ran, doomed, sound⟩ := exec_recordUpdate_of_sound
      (w := .opened ⟨(s.withFaults .none).database, false, false⟩ s.activity)
      rfl ⟨rfl, rfl⟩ value next fits
    obtain ⟨u, committed⟩ : ∃ u,
        attempt contracts reader update (s.withFaults .none) = (.ok cursor, u) :=
      ⟨_, Action.transaction_eq_ok.mpr
        ⟨rfl, w, ran, doomed, sound.draft.unclosed, sound.connected, rfl⟩⟩
    rw [apply_eq, committed]
    exact ⟨cursor, _, rfl⟩

/-- Keys of epochs are no business of the event stream. -/
theorem epochKeys_of_apply (contracts : Chain.WatchedContracts) (reader : AddressReader)
    (update : Update) (s : Store) :
    (apply contracts reader update s).2.database.tables.epochKeys =
      s.database.tables.epochKeys := by
  cases ran : apply contracts reader update s with
  | mk result s' =>
    cases result with
    | error e => exact congrArg (fun d => d.tables.epochKeys) (database_of_apply_error ran)
    | ok cursor => exact (congrArg Tables.epochKeys (applied_of_apply ran).1.tables).trans rfl

/-- The position that is loaded is the one held, or the start. -/
theorem loadCursor_eq_ok {s s' : Store} {cursor : Cursor} :
    loadCursor s = (.ok cursor, s') ↔ s.database.answers .progress = true ∧
      ∃ position, Store.Progress.held s.database.tables = .ok position ∧
        cursor = position.getD .start ∧ s' = ⟨s.database, .query Store.Progress.label "get"
          (some (if position.isSome then 1 else 0)) :: s.activity⟩ := by
  rw [loadCursor, Action.bind_eq_ok]
  constructor
  · rintro ⟨position, u, got, returned⟩
    obtain ⟨w, read, rfl⟩ := Action.direct_eq_iff.mp got
    obtain ⟨connected, permitted, found, rfl⟩ := Store.Progress.exec_get_eq_ok.mp read
    cases returned
    exact ⟨Database.answers_iff.mpr ⟨connected, permitted⟩, position, found, rfl, rfl⟩
  · rintro ⟨answers, position, found, rfl, rfl⟩
    obtain ⟨connected, permitted⟩ := Database.answers_iff.mp answers
    have got := (Store.Progress.exec_get_eq_ok (w := .opened (.direct s.database) s.activity)).mpr
      ⟨connected, permitted, found, rfl⟩
    exact ⟨position, _, Action.direct_eq_iff.mpr ⟨_, got, rfl⟩, rfl⟩

theorem database_of_loadCursor {s s' : Store} {result : Except Store.StoreError Cursor}
    (h : loadCursor s = (result, s')) : s'.database = s.database := by
  cases result with
  | ok cursor =>
    obtain ⟨-, -, -, -, rfl⟩ := loadCursor_eq_ok.mp h
    rfl
  | error e =>
    rw [loadCursor, Action.bind_apply] at h
    split at h
    · cases h
    · rename_i failed
      cases h
      obtain ⟨w, ran, rfl⟩ := Action.direct_eq_iff.mp failed
      exact congrArg Store.Draft.database (Work.draft_of_query_error ran)

private theorem Applied.loadCursor {contracts : Chain.WatchedContracts}
    {lists : AddressSet → Nat → Option (List Address)} {update : Update} {cursor : Cursor}
    {before : Database} {s : Store}
    (h : Applied contracts lists update cursor before s.database)
    (answers : before.answers .progress = true) :
    ∃ s', Sync.loadCursor s = (.ok cursor, s') := by
  refine ⟨_, loadCursor_eq_ok.mpr ⟨?_, some cursor, ?_, rfl, rfl⟩⟩
  · rw [Database.answers, Database.canRead, h.faults]
    exact answers
  · rw [h.tables]
    exact Store.Progress.held_put

private theorem steady_reconcile (account : Address) : (reconcile account).Steady := by
  apply Work.Steady.bind (Store.Identities.steady_get _)
  intro identity
  dsimp only
  split
  · exact .bind (Store.Identities.steady_markVerified _).discard fun _ =>
      .bind (.note _) fun _ => .pure _
  · exact .bind (.note _) fun _ => .pure _

private theorem steady_recordUpdate (contracts : Chain.WatchedContracts) (reader : AddressReader)
    (update : Update) : (recordUpdate contracts reader update).Steady := by
  have modular : Modular Work.Steady :=
    { pure := .pure
      refuse := fun _ => .throw _
      bind := .bind
      keyperSet := fun _ => (Store.KeyperSets.steady_insert _).mapError _
      member := fun _ => (Store.DecryptorSets.steady_insertMember _).mapError _
      credential := fun _ _ _ => (Store.Identities.steady_upsert _ _ _).mapError _
      check := fun _ => (steady_reconcile _).mapError _
      position := fun _ => (Store.Progress.steady_update _).mapError _ }
  refine modular.recordUpdate fun list _ => .bind (.forM .note) fun _ => ?_
  cases (reader list.1 list.2).reply with
  | addresses l => exact .pure l
  | failed e => exact .throw _
  | stalled => exact .throw _

/-- An application that is cut off after any of its statements has done nothing, or all of it. -/
theorem database_of_apply_cutAfter (contracts : Chain.WatchedContracts) (reader : AddressReader)
    (update : Update) (statements : Nat) (s : Store) :
    let left := ((apply contracts reader update).cutAfter statements s).2.database
    left = s.database ∨
      ∃ cursor s', apply contracts reader update s = (.ok cursor, s') ∧ left = s'.database := by
  have same : ((apply contracts reader update).cutAfter statements s).2.database =
      ((attempt contracts reader update).cutAfter statements s).2.database := by
    unfold Action.cutAfter
    dsimp only
    rw [apply_eq]
    rfl
  intro left
  rcases Store.database_of_cutAfter (steady_recordUpdate contracts reader update) statements s with
    unchanged | ⟨cursor, after, ran, cut⟩
  · exact .inl (same.trans unchanged)
  · have applied := apply_eq contracts reader update s
    rw [show attempt contracts reader update s = _ from ran] at applied
    exact .inr ⟨cursor, _, applied, same.trans (congrArg (fun r => r.2.database) cut)⟩

namespace Pipeline

theorem join_frame (p : Pipeline) : p.join.store = p.store ∧ p.join.consumer = p.consumer := by
  unfold join
  split <;> exact ⟨rfl, rfl⟩

private theorem database_of_dropped (applyUpdate : Update → Action Halt Cursor) (p : Pipeline)
    {update : Update} (held : p.consumer = .applying update) :
    (p.dropped applyUpdate).store.database = p.store.database ∨
      (p.dropped applyUpdate).store.database = (applyUpdate update p.store).2.database := by
  unfold dropped
  rw [held]
  dsimp only
  split
  · rw [(join_frame _).1]
    exact .inr rfl
  · exact .inl rfl

end Pipeline

def credentialIn (row : IdentityRow) : Credential → Option Bytes
  | .publicKey => row.publicKey
  | .signature => row.signature

/-- The tables hold what an event says. Of a registration nothing is left to be checked. -/
def Holds (contracts : Chain.WatchedContracts)
    (lists : AddressSet → Nat → Option (List Address)) (t : ChainTables) : ChainEvent → Prop
  | .keyperConfig config => ∃ keypers, lists .keypers config.index = some keypers ∧
      t.keyperSets.find? config.activation =
        some ⟨Store.KeyperList.encode (keypers.map Address.text), config.threshold⟩
  | .decryptorConfig config => ∃ members, lists .decryptors config.index = some members ∧
      ∀ (position : Nat) (a : Address), members[position]? = some a →
        t.setMembers.find? ⟨config.activation, position⟩ = some a.text
  | .registered registration =>
    ∀ credential ∈ credentialOf? contracts registration.registry,
      ∃ row, t.identities.find? registration.account.text = some row ∧
        credentialIn row credential = some registration.data ∧
        standing registration.account t.identities ≠ .verified
  | .unknown _ _ => True

/-- The members that are put are found afterwards, each under its position, and the rows that were
there stay. -/
theorem find?_putMembers_eq_some_iff {activation : Int} {position : Nat} {l : List Address}
    {t t' : Table MemberKey String} (h : putMembers activation position l t = some t')
    {key : MemberKey} {text : String} :
    t'.find? key = some text ↔ t.find? key = some text ∨ ∃ offset a, l[offset]? = some a ∧
      key = ⟨activation, ((position + offset : Nat) : Int)⟩ ∧ text = a.text := by
  induction l generalizing position t with
  | nil =>
    cases h
    simp
  | cons a rest ih =>
    obtain ⟨⟨-, free⟩, h⟩ := Option.ite_none_right_eq_some.mp h
    rw [ih h, Table.find?_put]
    constructor
    · rintro (found | ⟨offset, b, found, rfl, rfl⟩)
      · split at found
        · rename_i same
          cases found
          exact .inr ⟨0, a, rfl, same.symm, rfl⟩
        · exact .inl found
      · exact .inr ⟨offset + 1, b, found, by rw [Nat.add_right_comm, Nat.add_assoc], rfl⟩
    · rintro (found | ⟨offset, b, found, rfl, rfl⟩)
      · left
        have other : (⟨activation, position⟩ : MemberKey) ≠ key := by
          rintro rfl
          rw [free] at found
          cases found
        rw [if_neg other, found]
      · cases offset with
        | zero =>
          cases found
          exact .inl (if_pos rfl)
        | succ n => exact .inr ⟨n, b, found, by rw [Nat.add_right_comm, Nat.add_assoc], rfl⟩

/-- Once it was checked, an account has nothing left to be verified. -/
theorem standing_reconciled (account : Address) (t : Table String IdentityRow) :
    standing account (reconciled account t) ≠ .verified := by
  by_cases verified : standing account t = .verified
  · obtain ⟨row, found, -⟩ := row_of_standing_verified verified
    rw [reconciled_of_verified found verified, standing, Table.find?_put_self]
    exact fun contra => by cases contra
  · rw [reconciled_of_not_verified verified]
    exact verified

private theorem find?_reconciled (account : Address) {t : Table String IdentityRow}
    {row : IdentityRow} (found : t.find? account.text = some row) :
    ∃ flag, (reconciled account t).find? account.text = some { row with verified := flag } := by
  by_cases verified : standing account t = .verified
  · exact ⟨true, by rw [reconciled_of_verified found verified, Table.find?_put_self]⟩
  · exact ⟨row.verified, by rw [reconciled_of_not_verified verified, found]⟩

theorem holds_of_recorded {contracts : Chain.WatchedContracts}
    {lists : AddressSet → Nat → Option (List Address)} {event : ChainEvent} {t t' : ChainTables}
    (h : recorded contracts lists event t = some t') : Holds contracts lists t' event := by
  cases event with
  | keyperConfig config =>
    obtain ⟨keypers, read, h⟩ := Option.bind_eq_some_iff.mp h
    obtain ⟨-, h⟩ := Option.ite_none_right_eq_some.mp h
    cases h
    exact ⟨keypers, read, Table.find?_put_self _ _ _⟩
  | decryptorConfig config =>
    obtain ⟨members, read, h⟩ := Option.bind_eq_some_iff.mp h
    obtain ⟨-, h⟩ := Option.ite_none_right_eq_some.mp h
    obtain ⟨m, put, rfl⟩ := Option.map_eq_some_iff.mp h
    refine ⟨members, read, fun position a found => ?_⟩
    exact (find?_putMembers_eq_some_iff put).mpr
      (.inr ⟨position, a, found, by rw [Nat.zero_add], rfl⟩)
  | registered registration =>
    intro credential chosen
    simp only [recorded, Option.mem_def.mp chosen] at h
    cases h
    obtain ⟨flag, found⟩ := find?_reconciled registration.account
      (Table.find?_put_self t.identities registration.account.text
        (Store.Identities.setCredential credential registration.data
          ((t.identities.find? registration.account.text).getD Store.Identities.blank)))
    refine ⟨_, found, ?_, standing_reconciled _ _⟩
    cases credential <;> rfl
  | unknown contract topic => trivial

/-- Applying an item either moves the stored position to the one after the item, with all that the
event says in the tables and no other table touched, or it leaves the database as it was. An
application that is dropped after any number of its statements has done exactly the one or exactly
the other. While the database does not misbehave, nothing but the event and the position can keep it
from the first. -/
theorem apply_atomic (contracts : Chain.WatchedContracts) (reader : AddressReader)
    (update : Update) (s : Store) (p : Pipeline) (statements : Nat) :
    (match apply contracts reader update s with
      | (.ok cursor, s') => update.nextCursor? = some cursor ∧
          (∃ loaded, loadCursor s' = (.ok cursor, loaded)) ∧
          (∀ event ∈ update.event,
            Holds contracts (readable reader) s'.database.tables.chain event) ∧
          Applied contracts (readable reader) update cursor s.database s'.database
      | (.error _, s') => s'.database = s.database) ∧
    (let left := (Pipeline.dropped (fun u => (apply contracts reader u).cutAfter statements)
        { p with store := s, consumer := .applying update }).store.database
     left = s.database ∨
        ∃ cursor s', apply contracts reader update s = (.ok cursor, s') ∧ left = s'.database) ∧
    ((∃ cursor s', apply contracts reader update (s.withFaults .none) = (.ok cursor, s')) ↔
      (recordedItem contracts (readable reader) update s.database.tables.chain).isSome ∧
      ∃ cursor, update.nextCursor? = some cursor ∧
        cursor.block < 2 ^ 63 ∧ cursor.index < 2 ^ 63) := by
  refine ⟨?_, ?_, applies_iff contracts reader update s⟩
  · split
    · rename_i cursor s' ran
      obtain ⟨applied, permitted⟩ := applied_of_apply ran
      refine ⟨applied.next, applied.loadCursor permitted, fun event present => ?_, applied⟩
      have recording := applied.recorded
      rw [recordedItem, Option.mem_def.mp present] at recording
      exact holds_of_recorded recording
    · rename_i e s' ran
      exact database_of_apply_error ran
  · rcases Pipeline.database_of_dropped (fun u => (apply contracts reader u).cutAfter statements)
      { p with store := s, consumer := .applying update } rfl with unchanged | cut
    · exact .inl unchanged
    · dsimp only
      rw [cut]
      exact database_of_apply_cutAfter contracts reader update statements s

end DecryptorNode.Sync
