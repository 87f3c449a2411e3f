import DecryptorNode.Node.Console
import DecryptorNode.Proofs.Store.PositionTable
import DecryptorNode.Proofs.Sync.AtomicApplication

/-! The stored position in every store that the node can come to. Whatever is done with the store,
in transactions or out of them, it holds at most one position, and one that can be read. -/
namespace DecryptorNode.Node
open Chain (Cursor)
open Store (Action Database Draft Faults StoreError TableName Work Workspace)
open Store.Progress (Sole Storable exec_get_of_legible exec_update_of_not_storable
  exec_update_of_storable rowId)

/-- The queries of the store. -/
inductive Query where
  | position : Query
  | setPosition : Cursor → Query
  | keyperSet : (activation : Int) → Query
  | addKeyperSet : Store.KeyperSet → Query
  | setMembers : (activation : Int) → Query
  | addSetMember : Store.SetMember → Query
  | identity : (address : String) → Query
  | setCredential : (address : String) → Store.Credential → Bytes → Query
  | markVerified : (address : String) → Query
  | epochKey : (eon : Int) → (epochId : Bytes) → Query
  | addEpochKey : Store.EpochKeyEntry → Query
  | eonKey : (eon : Int) → Query
  | setEonKey : Store.EonKeyEntry → Query

def Query.work : Query → Work StoreError Unit
  | .position => discard Store.Progress.get
  | .setPosition cursor => Store.Progress.update cursor
  | .keyperSet activation => discard (Store.KeyperSets.get activation)
  | .addKeyperSet set => Store.KeyperSets.insert set
  | .setMembers activation => discard (Store.DecryptorSets.getMembers activation)
  | .addSetMember member => Store.DecryptorSets.insertMember member
  | .identity address => discard (Store.Identities.get address)
  | .setCredential address credential value => Store.Identities.upsert address credential value
  | .markVerified address => discard (Store.Identities.markVerified address)
  | .epochKey eon epochId => discard (Store.EpochKeys.get eon epochId)
  | .addEpochKey entry => discard (Store.EpochKeys.insert entry)
  | .eonKey eon => discard (Store.EonKeys.get eon)
  | .setEonKey entry => Store.EonKeys.insert entry

def Query.table : Query → TableName
  | .position | .setPosition _ => .progress
  | .keyperSet _ | .addKeyperSet _ => .keyperSets
  | .setMembers _ | .addSetMember _ => .setMembers
  | .identity _ | .setCredential .. | .markVerified _ => .identities
  | .epochKey .. | .addEpochKey _ => .epochKeys
  | .eonKey _ | .setEonKey _ => .eonKeys

theorem Query.on_table (q : Query) : q.work.On q.table := by
  cases q with
  | position => exact Store.Progress.on_get.discard
  | setPosition cursor => exact Store.Progress.on_update cursor
  | keyperSet activation => exact (Store.KeyperSets.on_get activation).discard
  | addKeyperSet set => exact Store.KeyperSets.on_insert set
  | setMembers activation => exact (Store.DecryptorSets.on_getMembers activation).discard
  | addSetMember member => exact Store.DecryptorSets.on_insertMember member
  | identity address => exact (Store.Identities.on_get address).discard
  | setCredential address credential value =>
    exact Store.Identities.on_upsert address credential value
  | markVerified address => exact (Store.Identities.on_markVerified address).discard
  | epochKey eon epochId => exact (Store.EpochKeys.on_get eon epochId).discard
  | addEpochKey entry => exact (Store.EpochKeys.on_insert entry).discard
  | eonKey eon => exact (Store.EonKeys.on_get eon).discard
  | setEonKey entry => exact Store.EonKeys.on_insert entry

private theorem Query.keepsLegible (q : Query) : q.work.KeepsLegible := by
  by_cases own : q.table = .progress
  · cases q with
    | position => exact Store.Progress.keepsLegible_get.discard
    | setPosition cursor => exact Store.Progress.keepsLegible_update cursor
    | _ => cases own
  · exact q.on_table.keepsLegible own

/-- What is done with a store: a query, in the open transaction if there is one; an item of the
event stream is applied, or the position is loaded; a transaction is opened or ended; the database
begins to misbehave or ends it. -/
inductive Use where
  | queried : Query → Use
  | applied : Chain.WatchedContracts → Chain.AddressReader → Chain.Update → Use
  | loaded : Use
  | begun : Use
  | committed : Use
  | rolledBack : Use
  | disturbed : Faults → Use

namespace Console

def withFaults (c : Console) (faults : Faults) : Console where
  store := c.store.withFaults faults
  open? := c.open?.map fun t =>
    ⟨{ t.draft with database := { t.draft.database with faults := faults } }, faults.lostAfter⟩

/-- What is left of a use. One that is not possible changes nothing. -/
def use (c : Console) : Use → Console
  | .queried q => (c.perform q.work).2
  | .applied contracts reader update =>
    ((c.act (Sync.apply contracts reader update)).map (·.2)).getD c
  | .loaded => ((c.act Sync.loadCursor).map (·.2)).getD c
  | .begun => (c.begin.map (·.2)).getD c
  | .committed => (c.commit.map (·.2)).getD c
  | .rolledBack => c.rollback.getD c
  | .disturbed faults => c.withFaults faults

def run (c : Console) (uses : List Use) : Console := uses.foldl use c

def Reached (c : Console) : Prop := ∃ uses, (ofStore .empty).run uses = c

def settled (c : Console) : Store := (c.commit.map (·.2.store)).getD c.store

def workspace (c : Console) : Workspace :=
  match c.open? with
  | some transaction => transaction.workspace c.store.activity
  | none => .opened (.direct c.store.database) c.store.activity

/-- The console once work has left this workspace. Only an open transaction keeps what was written
from being permanent. -/
def resumed (c : Console) (w : Workspace) : Console :=
  match c.open? with
  | some _ => ⟨{ c.store with activity := w.activity }, some ⟨w.draft, w.lasts⟩⟩
  | none => ofStore ⟨w.draft.database, w.activity⟩

/-- The database does not misbehave, and did not while the transaction has been open. -/
structure Working (c : Console) : Prop where
  sound : c.workspace.Sound
  undoomed : c.workspace.draft.doomed = false

/-- Both what is permanent and what the open transaction sees hold a position that can be read, if
they hold one. -/
structure Legible (c : Console) : Prop where
  store : Store.Progress.Legible c.store.database.tables.progress
  draft : Store.Progress.Legible c.database.tables.progress

variable {c : Console} {α ε : Type} {work : Work ε α} {cursor : Cursor}

theorem perform_eq (c : Console) (work : Work ε α) :
    c.perform work = ((work.exec c.workspace).1, c.resumed (work.exec c.workspace).2) := by
  obtain ⟨store, draft⟩ := c
  cases draft <;> rfl

private theorem database_workspace (c : Console) : c.workspace.draft.database = c.database := by
  obtain ⟨store, draft⟩ := c
  cases draft <;> rfl

theorem tables_workspace (c : Console) : c.workspace.tables = c.database.tables :=
  congrArg Database.tables c.database_workspace

theorem tables_resumed (c : Console) (w : Workspace) :
    (c.resumed w).database.tables = w.tables := by
  obtain ⟨store, draft⟩ := c
  cases draft <;> rfl

private theorem store_resumed (c : Console) (w : Workspace) :
    (c.resumed w).store.database = c.store.database ∨
      (c.resumed w).store.database.tables = w.tables := by
  obtain ⟨store, draft⟩ := c
  cases draft with
  | none => exact .inr rfl
  | some d => exact .inl rfl

theorem working_ofStore {s : Store} (sound : s.database.faults = .none) : (ofStore s).Working :=
  ⟨Workspace.sound_opened (d := .direct s.database) sound _, rfl⟩

theorem working_resumed (c : Console) {w : Workspace} (sound : w.Sound)
    (undoomed : w.draft.doomed = false) : (c.resumed w).Working := by
  obtain ⟨store, draft⟩ := c
  cases draft with
  | none => exact working_ofStore sound.draft
  | some t => exact ⟨sound, undoomed⟩

private theorem Legible.workspace (h : c.Legible) :
    Store.Progress.Legible c.workspace.tables.progress := by
  rw [tables_workspace]
  exact h.draft

private theorem Legible.perform (h : c.Legible) (keeps : work.KeepsLegible) :
    (c.perform work).2.Legible := by
  rw [perform_eq]
  have kept := keeps c.workspace h.workspace
  refine ⟨?_, by rw [tables_resumed]; exact kept⟩
  rcases store_resumed c (work.exec c.workspace).2 with same | new
  · rw [same]
    exact h.store
  · rw [new]
    exact kept

private theorem legible_ofStore {s : Store}
    (h : Store.Progress.Legible s.database.tables.progress) : (ofStore s).Legible := ⟨h, h⟩

private theorem legible_apply {contracts : Chain.WatchedContracts} {reader : Chain.AddressReader}
    {update : Chain.Update} {s : Store} (h : Store.Progress.Legible s.database.tables.progress) :
    Store.Progress.Legible
      (Sync.apply contracts reader update s).2.database.tables.progress := by
  rcases ran : Sync.apply contracts reader update s with ⟨e | cursor, s'⟩
  · rw [Sync.database_of_apply_error ran]
    exact h
  · obtain ⟨applied, -⟩ := Sync.applied_of_apply ran
    rw [applied.tables]
    exact h.put applied.fits

private theorem legible_loadCursor {s : Store}
    (h : Store.Progress.Legible s.database.tables.progress) :
    Store.Progress.Legible (Sync.loadCursor s).2.database.tables.progress := by
  rcases ran : Sync.loadCursor s with ⟨result, s'⟩
  rw [Sync.database_of_loadCursor ran]
  exact h

/-- No use writes a position that cannot be read, or a second one. -/
theorem Legible.use (h : c.Legible) (u : Use) : (c.use u).Legible := by
  obtain ⟨store, draft⟩ := c
  cases u with
  | queried q => exact h.perform q.keepsLegible
  | applied contracts reader update =>
    cases draft with
    | none => exact legible_ofStore (legible_apply h.store)
    | some d => exact h
  | loaded =>
    cases draft with
    | none => exact legible_ofStore (legible_loadCursor h.store)
    | some d => exact h
  | begun =>
    cases draft with
    | none =>
      unfold Console.use begin
      dsimp only
      cases opened : Draft.begin store.database with
      | error e => exact h
      | ok d =>
        obtain ⟨-, rfl⟩ := Store.Draft.begin_eq_ok.mp opened
        exact ⟨h.store, h.store⟩
    | some d => exact h
  | committed =>
    cases draft with
    | none => exact h
    | some d =>
      unfold Console.use commit
      rw [Option.map_some]
      dsimp only
      cases ended : (d.workspace store.activity).commit with
      | error e => exact legible_ofStore h.store
      | ok database =>
        obtain ⟨-, -, -, rfl⟩ := Workspace.commit_eq_ok.mp ended
        exact legible_ofStore h.draft
  | rolledBack =>
    cases draft with
    | none => exact h
    | some d => exact legible_ofStore h.store
  | disturbed faults =>
    cases draft with
    | none => exact ⟨h.store, h.draft⟩
    | some d => exact ⟨h.store, h.draft⟩

private theorem Legible.run (h : c.Legible) (uses : List Use) : (c.run uses).Legible := by
  induction uses generalizing c with
  | nil => exact h
  | cons u rest ih => exact ih (h.use u)

private theorem legible_empty : (ofStore .empty).Legible := legible_ofStore (.inl rfl)

/-- The position that a legible console shows is no value that cannot be read. -/
private theorem Legible.get (h : c.Legible) (field reason : String) :
    (c.perform Store.Progress.get).1 ≠ .error (.invalidValue field reason) := by
  rw [perform_eq]
  rcases exec_get_of_legible h.workspace with ⟨position, got⟩ | failed
  · rw [got]
    exact nofun
  · rw [failed]
    exact nofun

private theorem loadCursor_of_legible {s : Store}
    (h : Store.Progress.Legible s.database.tables.progress)
    (field reason : String) : (Sync.loadCursor s).1 ≠ .error (.invalidValue field reason) := by
  have got := (legible_ofStore h).get field reason
  intro failed
  rw [Sync.loadCursor, Store.Action.bind_apply] at failed
  change (Action.direct Store.Progress.get s).1 ≠ _ at got
  rcases ran : Action.direct Store.Progress.get s with ⟨e | position, s'⟩
  · rw [ran] at failed got
    cases failed
    exact got rfl
  · rw [ran] at failed
    cases failed

/-- What is seen on a console that works becomes permanent with the next commit. -/
private theorem Working.settled (h : c.Working) : c.settled.database = c.database := by
  obtain ⟨store, draft⟩ := c
  cases draft with
  | none => rfl
  | some t =>
    have sound : (t.workspace store.activity).Sound := h.sound
    unfold Console.settled commit
    rw [Option.map_some]
    dsimp only
    rw [sound.commit_eq h.undoomed]
    rfl

/-- On a console that works, a position that fits is written over the one before. -/
private theorem Working.perform_update (h : c.Working) (fits : Storable cursor) :
    ∃ c', c.perform (Store.Progress.update cursor) = (.ok (), c') ∧ c'.Working ∧
      c'.database.tables = { c.database.tables with
        progress := c.database.tables.progress.put rowId ⟨cursor.block, cursor.index⟩ } := by
  rw [perform_eq, exec_update_of_storable h.sound fits]
  refine ⟨_, rfl, ?_, ?_⟩
  · exact c.working_resumed ⟨h.sound.draft, h.sound.spent⟩ h.undoomed
  · rw [tables_resumed, ← tables_workspace]
    rfl

/-- A position that does not fit is refused, whatever the database does, and nothing is written. -/
private theorem perform_update_of_not_storable (unfit : ¬ Storable cursor) :
    (∃ field reason, (c.perform (Store.Progress.update cursor)).1 =
      .error (.invalidValue field reason)) ∧
    (c.perform (Store.Progress.update cursor)).2.database = c.database ∧
    (c.perform (Store.Progress.update cursor)).2.store.database = c.store.database := by
  obtain ⟨field, reason, refused⟩ := exec_update_of_not_storable (w := c.workspace) unfit
  rw [perform_eq, refused]
  refine ⟨⟨field, reason, rfl⟩, ?_⟩
  obtain ⟨store, draft⟩ := c
  cases draft <;> exact ⟨rfl, rfl⟩

/-- The position that has been written is the one that is read. -/
private theorem Working.get_of_put (h : c.Working) {tables : Store.Tables}
    (written : c.database.tables = { tables with
      progress := tables.progress.put rowId ⟨cursor.block, cursor.index⟩ }) :
    (c.perform Store.Progress.get).1 = .ok (some cursor) ∧
      (Sync.loadCursor c.settled).1 = .ok cursor := by
  have held : Store.Progress.held c.database.tables = .ok (some cursor) := by
    rw [written]
    exact Store.Progress.held_put
  constructor
  · have got := (Store.Progress.exec_get_eq_ok (w := c.workspace)).mpr
      ⟨h.sound.connected, h.sound.draft.canRead _, by rw [tables_workspace]; exact held, rfl⟩
    rw [perform_eq, got]
  · have answers : c.settled.database.answers .progress = true := by
      rw [h.settled, ← database_workspace]
      exact (Workspace.sound_opened h.sound.draft []).answers _
    have loaded := Sync.loadCursor_eq_ok.mpr
      ⟨answers, some cursor, by rw [h.settled]; exact held, rfl, rfl⟩
    rw [loaded]
    rfl

private theorem perform_update_eq_ok_iff (h : c.Working) :
    (c.perform (Store.Progress.update cursor)).1 = .ok () ↔ Storable cursor := by
  by_cases fits : Storable cursor
  · obtain ⟨c', written, -⟩ := h.perform_update fits
    exact ⟨fun _ => fits, fun _ => by rw [written]⟩
  · obtain ⟨⟨field, reason, refused⟩, -⟩ := perform_update_of_not_storable (c := c) fits
    rw [refused]
    exact ⟨nofun, fun fitting => absurd fitting fits⟩

private theorem Reached.legible (h : c.Reached) : c.Legible := by
  obtain ⟨uses, rfl⟩ := h
  exact legible_empty.run uses

/-- A position is stored if it fits the signed columns, and it is read as it was stored, from the
only row of its table. One that does not fit is refused and changes nothing. So whatever has been
done with a store that was empty, reading its position never meets a value that is none. -/
theorem stored_position_faithful :
    (∀ (c : Console) (cursor : Cursor), c.Working →
      ((c.perform (Store.Progress.update cursor)).1 = .ok () ↔ Storable cursor) ∧
      (Storable cursor → ∃ c', c.perform (Store.Progress.update cursor) = (.ok (), c') ∧
        (c'.perform Store.Progress.get).1 = .ok (some cursor) ∧
        (Sync.loadCursor c'.settled).1 = .ok cursor ∧
        (Sole c.database.tables.progress →
          c'.database.tables.progress.rows = [(rowId, ⟨cursor.block, cursor.index⟩)]))) ∧
    (∀ (c : Console) (cursor : Cursor), ¬ Storable cursor →
      (∃ field reason, (c.perform (Store.Progress.update cursor)).1 =
        .error (.invalidValue field reason)) ∧
      (c.perform (Store.Progress.update cursor)).2.database = c.database ∧
      (c.perform (Store.Progress.update cursor)).2.store.database = c.store.database) ∧
    ∀ c : Console, c.Reached →
      Sole c.database.tables.progress ∧ Sole c.store.database.tables.progress ∧
      ∀ field reason,
        (c.perform Store.Progress.get).1 ≠ .error (.invalidValue field reason) ∧
        (Sync.loadCursor c.store).1 ≠ .error (.invalidValue field reason) := by
  refine ⟨fun c cursor working => ⟨perform_update_eq_ok_iff working, fun fits => ?_⟩,
    fun c cursor unfit => perform_update_of_not_storable unfit, fun c reached => ?_⟩
  · obtain ⟨c', written, still, tables⟩ := working.perform_update fits
    obtain ⟨got, loaded⟩ := still.get_of_put tables
    refine ⟨c', written, got, loaded, fun sole => ?_⟩
    rw [tables]
    exact sole.rows_put _
  · have legible := reached.legible
    exact ⟨legible.draft.sole, legible.store.sole, fun field reason =>
      ⟨legible.get field reason, loadCursor_of_legible legible.store field reason⟩⟩

/-- The greatest position that fits, and one past it, in a transaction on an empty store. -/
theorem greatest_position_stored :
    ∃ c : Console, (ofStore .empty).run [.begun] = c ∧ c.Working ∧
      (∃ c', c.perform (Store.Progress.update ⟨2 ^ 63 - 1, 2 ^ 63 - 1⟩) = (.ok (), c') ∧
        (Sync.loadCursor c'.settled).1 = .ok ⟨2 ^ 63 - 1, 2 ^ 63 - 1⟩ ∧
        c'.database.tables.progress.rows = [(rowId, ⟨2 ^ 63 - 1, 2 ^ 63 - 1⟩)]) ∧
      ∃ field reason, (c.perform (Store.Progress.update ⟨0, 2 ^ 63⟩)).1 =
        .error (.invalidValue field reason) := by
  obtain ⟨stored, refused, reached⟩ := stored_position_faithful
  have working : ((ofStore .empty).run [.begun]).Working := ⟨⟨rfl, rfl⟩, rfl⟩
  refine ⟨_, rfl, working, ?_, (refused _ _ (by decide)).1⟩
  obtain ⟨c', written, -, loaded, rows⟩ :=
    (stored _ ⟨2 ^ 63 - 1, 2 ^ 63 - 1⟩ working).2 (by decide)
  exact ⟨c', written, loaded, rows (reached _ ⟨[.begun], rfl⟩).1⟩

end Console
end DecryptorNode.Node
