import DecryptorNode.Proofs.Node.PathIndependence
import DecryptorNode.Proofs.Node.PositionHistory
import DecryptorNode.Proofs.Store.KeyTable

/-! Which key is kept for an epoch. On a database that does not misbehave the first key that is
brought for an epoch stays, whatever else is done with the store. What the table holds besides never
keeps a key from being read. -/
namespace DecryptorNode.Node
open Store (Draft EpochKey EpochKeyEntry Table TableName Work)
open Store.EpochKeys (first? held row)

def Use.key? : Use → Option EpochKeyEntry
  | .queried (.addEpochKey entry) => some entry
  | _ => none

/-- A use that takes nothing back and does not make the database misbehave. -/
def Use.Lasting : Use → Prop
  | .rolledBack | .disturbed _ => False
  | _ => True

def keysOf (uses : List Use) : List EpochKeyEntry := uses.filterMap Use.key?

private theorem keysOf_cons (u : Use) (rest : List Use) :
    keysOf (u :: rest) = u.key?.toList ++ keysOf rest := by
  unfold keysOf
  rw [List.filterMap_cons]
  cases u.key? <;> rfl

namespace Console
variable {c : Console} {α ε : Type} {work : Work ε α} {name : TableName}

def epochKeys (c : Console) : Table EpochKey Bytes := c.database.tables.epochKeys

private theorem Working.perform (h : c.Working) (on : work.On name) :
    (c.perform work).2.Working := by
  have changed := on.draft c.workspace
  rw [perform_eq]
  exact c.working_resumed ⟨changed.sound h.sound.draft, on.lasting _ h.sound.lasting⟩
    ((changed.doomed_of_sound h.sound.draft).trans h.undoomed)

private theorem epochKeys_perform (c : Console) (work : Work ε α) :
    (c.perform work).2.epochKeys = (work.exec c.workspace).2.tables.epochKeys := by
  rw [perform_eq, epochKeys, tables_resumed]

private theorem epochKeys_perform_of_ne (c : Console) (on : work.On name)
    (other : name ≠ .epochKeys) : (c.perform work).2.epochKeys = c.epochKeys := by
  have same := (on.draft c.workspace).others .epochKeys other.symm
  rw [epochKeys_perform, epochKeys, ← tables_workspace]
  exact same

/-- A query writes at most the key that it brings. -/
theorem Working.epochKeys_queried (h : c.Working) (q : Query) :
    (c.perform q.work).2.epochKeys =
      c.epochKeys.putAll ((Use.queried q).key?.toList.map row) := by
  cases q with
  | epochKey eon epochId =>
    rw [epochKeys_perform, Query.work, Work.exec_discard_snd, epochKeys, ← tables_workspace]
    exact congrArg (fun d : Draft => d.tables.epochKeys)
      (Work.draft_of_read (Store.EpochKeys.run_read eon epochId) c.workspace)
  | addEpochKey entry =>
    obtain ⟨w, added, draft⟩ := Store.EpochKeys.exec_insert_of_sound entry h.sound
    rw [epochKeys_perform, Query.work, Work.exec_discard_snd, epochKeys, ← tables_workspace, added]
    exact congrArg (fun d : Draft => d.tables.epochKeys) draft
  | _ => exact c.epochKeys_perform_of_ne (Query.on_table _) fun same => by cases same

/-- A lasting use writes at most the key that it brings, and the database goes on working. -/
theorem Working.use (h : c.Working) {u : Use} (lasting : u.Lasting) :
    (c.use u).Working ∧ (c.use u).epochKeys = c.epochKeys.putAll (u.key?.toList.map row) := by
  cases u with
  | queried q => exact ⟨h.perform q.on_table, h.epochKeys_queried q⟩
  | applied contracts reader update =>
    obtain ⟨store, draft⟩ := c
    cases draft with
    | none =>
      have faults := (Sync.onRecords_apply contracts reader update).faults store
      exact ⟨working_ofStore (faults.trans h.sound.draft),
        Sync.epochKeys_of_apply contracts reader update store⟩
    | some d => exact ⟨h, rfl⟩
  | loaded =>
    obtain ⟨store, draft⟩ := c
    cases draft with
    | none =>
      have same : (Sync.loadCursor store).2.database = store.database :=
        Sync.database_of_loadCursor rfl
      exact ⟨working_ofStore ((congrArg _ same).trans h.sound.draft),
        congrArg (fun d => d.tables.epochKeys) same⟩
    | some d => exact ⟨h, rfl⟩
  | begun =>
    obtain ⟨store, draft⟩ := c
    cases draft with
    | none =>
      have sound : Draft.Sound ⟨store.database, false, false⟩ := h.sound.draft
      have unclosed : store.database.faults.closed = false := sound.unclosed
      have opened := Draft.begin_eq_ok.mpr ⟨unclosed, rfl⟩
      unfold Console.use begin
      dsimp only
      rw [opened]
      exact ⟨⟨Store.Workspace.sound_opened sound _, rfl⟩, rfl⟩
    | some d => exact ⟨h, rfl⟩
  | committed =>
    obtain ⟨store, draft⟩ := c
    cases draft with
    | none => exact ⟨h, rfl⟩
    | some t =>
      have sound : (t.workspace store.activity).Sound := h.sound
      unfold Console.use commit
      rw [Option.map_some]
      dsimp only
      rw [sound.commit_eq h.undoomed]
      exact ⟨working_ofStore sound.draft, rfl⟩
  | rolledBack => exact lasting.elim
  | disturbed faults => exact lasting.elim

/-- After a run the table holds what it held, and of each other epoch the first key that came. -/
theorem Working.run {uses : List Use} (h : c.Working) (lasting : ∀ u ∈ uses, u.Lasting) :
    (c.run uses).Working ∧ (c.run uses).epochKeys = c.epochKeys.putAll ((keysOf uses).map row) := by
  induction uses generalizing c with
  | nil => exact ⟨h, rfl⟩
  | cons u rest ih =>
    obtain ⟨here, later⟩ := List.forall_mem_cons.mp lasting
    obtain ⟨still, written⟩ := h.use here
    obtain ⟨working, all⟩ := ih still later
    refine ⟨working, ?_⟩
    change ((c.use u).run rest).epochKeys = _
    rw [all, written, keysOf_cons, List.map_append, Table.putAll_append]

private theorem held_of_run {uses : List Use} (h : c.Working) (bare : c.epochKeys.rows = [])
    (lasting : ∀ u ∈ uses, u.Lasting) (eon : Int) (epochId : Bytes) :
    held (c.run uses).epochKeys eon epochId = first? (keysOf uses) eon epochId := by
  have vacant : held c.epochKeys eon epochId = none := by simp [held, Table.find?, bare]
  rw [(h.run lasting).2, Store.EpochKeys.held_putAll, vacant, Option.none_or]

private theorem perform_get (c : Console) (eon : Int) (epochId : Bytes) :
    (c.perform (Store.EpochKeys.get eon epochId)).1 =
      if c.workspace.answers .epochKeys then .ok (held c.epochKeys eon epochId)
      else .error (.database none) := by
  rw [perform_eq, Store.EpochKeys.exec_get, tables_workspace]
  rfl

private theorem Working.perform_insert (h : c.Working) (entry : EpochKeyEntry) :
    (c.perform (Store.EpochKeys.insert entry)).1 =
      .ok (held c.epochKeys entry.eon entry.epochId).isNone := by
  obtain ⟨w, added, -⟩ := Store.EpochKeys.exec_insert_of_sound entry h.sound
  rw [perform_eq, added, epochKeys, ← tables_workspace]

/-- Start without keys on a database that does not misbehave, and do anything that takes nothing
back. Then the query for an epoch gives the first key that was brought for it, the same eon and
epoch id to the last byte, or none if there was none. A key that is brought next is answered by
whether it is the first for its epoch. Whatever the table holds, a query that can read it succeeds;
it never meets an epoch id that is none, and an entry that it gives is for the epoch asked for. -/
theorem first_key_stays :
    (∀ (c : Console) (uses : List Use), c.Working → c.epochKeys.rows = [] →
      (∀ u ∈ uses, u.Lasting) →
      (∀ eon epochId, ((c.run uses).perform (Store.EpochKeys.get eon epochId)).1 =
        .ok (first? (keysOf uses) eon epochId)) ∧
      ∀ entry, ((c.run uses).perform (Store.EpochKeys.insert entry)).1 =
        .ok (first? (keysOf uses) entry.eon entry.epochId).isNone) ∧
    ∀ (c : Console) (eon : Int) (epochId : Bytes),
      (c.workspace.answers .epochKeys = true →
        ∃ found, (c.perform (Store.EpochKeys.get eon epochId)).1 = .ok found) ∧
      (∀ field reason,
        (c.perform (Store.EpochKeys.get eon epochId)).1 ≠ .error (.invalidValue field reason)) ∧
      ∀ entry, (c.perform (Store.EpochKeys.get eon epochId)).1 = .ok (some entry) →
        entry.eon = eon ∧ entry.epochId = epochId := by
  constructor
  · intro c uses working bare lasting
    have still := (working.run lasting).1
    constructor
    · intro eon epochId
      rw [perform_get, if_pos (still.sound.answers _), held_of_run working bare lasting]
    · intro entry
      rw [still.perform_insert, held_of_run working bare lasting]
  · intro c eon epochId
    rw [perform_get]
    refine ⟨fun readable => ⟨_, if_pos readable⟩, fun field reason failed => ?_,
      fun entry got => ?_⟩
    · split at failed <;> cases failed
    · split at got
      · obtain ⟨key, -, rfl⟩ := Option.map_eq_some_iff.mp (Except.ok.inj got)
        exact ⟨rfl, rfl⟩
      · cases got

/-- Two keys for one epoch, the first of them in a transaction, and one for the same epoch id of
another eon; and a table with texts that are no epoch ids. -/
theorem first_key_stays_of_two :
    let kept : EpochKeyEntry := ⟨7, [0xee], [1]⟩
    let late : EpochKeyEntry := ⟨7, [0xee], [2]⟩
    let apart : EpochKeyEntry := ⟨8, [0xee], [3]⟩
    let bring (entry : EpochKeyEntry) : Use := .queried (.addEpochKey entry)
    let c := (ofStore .empty).run [.begun, bring kept, .committed, bring apart]
    let spoilt := ofStore ⟨⟨{ Store.Tables.empty with
      epochKeys := ⟨[(⟨7, "EE"⟩, [4]), (⟨7, "zz"⟩, [5])]⟩ }, .none⟩, []⟩
    (c.perform (Store.EpochKeys.insert late)).1 = .ok false ∧
    (c.perform (Store.EpochKeys.get 7 [0xee])).1 = .ok (some kept) ∧
    (c.perform (Store.EpochKeys.get 7 [0xee, 0])).1 = .ok none ∧
    kept.epochId = [0xee] ∧
    ∃ found, (spoilt.perform (Store.EpochKeys.get 7 [0xee])).1 = .ok found := by
  intro kept late apart bring c spoilt
  obtain ⟨stays, reads⟩ := first_key_stays
  have lasting : ∀ u ∈ [.begun, bring kept, .committed, bring apart], u.Lasting := by
    simp [bring, Use.Lasting]
  obtain ⟨gets, inserts⟩ := stays (ofStore .empty) _ (working_ofStore rfl) rfl lasting
  have got : (c.perform (Store.EpochKeys.get 7 [0xee])).1 = .ok (some kept) := gets 7 [0xee]
  exact ⟨inserts late, got, gets 7 [0xee, 0], ((reads c 7 [0xee]).2.2 kept got).2,
    (reads spoilt 7 [0xee]).1 rfl⟩

end Console
end DecryptorNode.Node
