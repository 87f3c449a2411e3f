import DecryptorNode.Proofs.Bytes.Encodings
import DecryptorNode.Proofs.Store.TableRows
import DecryptorNode.Proofs.Store.WorkRuns
import DecryptorNode.Store.DecryptorSets
import DecryptorNode.Store.EonKeys
import DecryptorNode.Store.EpochKeys
import DecryptorNode.Store.Identities
import DecryptorNode.Store.KeyperSets
import DecryptorNode.Store.Progress

/-! What each query does: when it succeeds, and which rows it leaves. -/
namespace DecryptorNode.Store

namespace KeyperSets

theorem run_add (set : KeyperSet) (d : Draft) : (add set).run d =
    if d.database.canWrite .keyperSets then
      if d.tables.keyperSets.contains set.activation then .error (.database (some keyColumns))
      else .ok ((), d.saved { d.tables with
        keyperSets := d.tables.keyperSets.put set.activation
          ⟨KeyperList.encode set.keypers, set.threshold⟩ })
    else .error (.database none) := by
  rw [add, Statement.run_bind_writing]
  congr 1
  split <;> rfl

theorem run_read (activation : Int) (d : Draft) : (read activation).run d =
    if d.database.canRead .keyperSets then
      (Except.ok ((d.tables.keyperSets.find? activation).map fun row =>
        ⟨activation, KeyperList.decode row.keypers, row.threshold⟩)).map fun set => (set, d)
    else .error (.database none) := by
  rw [read, Statement.run_bind_reading]
  rfl

theorem exec_get_eq_ok {activation : Int} {w w' : Workspace} {set : Option KeyperSet} :
    (get activation).exec w = (.ok set, w') ↔
      w.connected = true ∧ w.draft.database.canRead .keyperSets = true ∧
      (w.tables.keyperSets.find? activation).map (fun row =>
        ⟨activation, KeyperList.decode row.keypers, row.threshold⟩) = set ∧
      w' = ⟨w.draft, .query label "get" (some (if set.isSome then 1 else 0)) :: w.activity,
        w.spent⟩ := by
  rw [get, Work.exec_read_eq_ok (run_read activation w.draft), Except.ok.injEq]
  rfl

theorem exec_insert_eq_ok {set : KeyperSet} {w w' : Workspace} :
    (insert set).exec w = (.ok (), w') ↔
      w.connected = true ∧ w.draft.database.canWrite .keyperSets = true ∧
      w.tables.keyperSets.find? set.activation = none ∧
      w' = ⟨w.draft.saved { w.tables with
          keyperSets := w.tables.keyperSets.put set.activation
            ⟨KeyperList.encode set.keypers, set.threshold⟩ },
        .query label "insert" (some 1) :: w.activity, w.spent⟩ := by
  rw [insert, Work.exec_add_eq_ok (run_add set w.draft), Table.contains_eq_false_iff]
  rfl

end KeyperSets

namespace DecryptorSets

theorem run_add (member : SetMember) (d : Draft) : (add member).run d =
    if d.database.canWrite .setMembers then
      if d.tables.setMembers.contains ⟨member.activation, member.index⟩ then
        .error (.database (some keyColumns))
      else .ok ((), d.saved { d.tables with
        setMembers := d.tables.setMembers.put ⟨member.activation, member.index⟩ member.address })
    else .error (.database none) := by
  rw [add, Statement.run_bind_writing]
  congr 1
  dsimp only
  split <;> rfl

theorem run_read (activation : Int) (d : Draft) : (read activation).run d =
    if d.database.canRead .setMembers then
      (Except.ok ((d.tables.setMembers.rows.filter fun row =>
        row.1.activation = activation).map fun row =>
          (⟨row.1.activation, row.1.index, row.2⟩ : SetMember))).map fun members => (members, d)
    else .error (.database none) := by
  rw [read, Statement.run_bind_reading]
  rfl

theorem exec_getMembers_eq_ok {activation : Int} {w w' : Workspace} {members : List SetMember} :
    (getMembers activation).exec w = (.ok members, w') ↔
      w.connected = true ∧ w.draft.database.canRead .setMembers = true ∧
      ((w.tables.setMembers.rows.filter fun row => row.1.activation = activation).map fun row =>
        (⟨row.1.activation, row.1.index, row.2⟩ : SetMember)) = members ∧
      w' = ⟨w.draft, .query label "get_members" (some members.length) :: w.activity,
        w.spent⟩ := by
  rw [getMembers, Work.exec_read_eq_ok (run_read activation w.draft), Except.ok.injEq]
  rfl

theorem exec_insertMember_eq_ok {member : SetMember} {w w' : Workspace} :
    (insertMember member).exec w = (.ok (), w') ↔
      w.connected = true ∧ w.draft.database.canWrite .setMembers = true ∧
      w.tables.setMembers.find? ⟨member.activation, member.index⟩ = none ∧
      w' = ⟨w.draft.saved { w.tables with
          setMembers := w.tables.setMembers.put ⟨member.activation, member.index⟩ member.address },
        .query label "insert_member" (some 1) :: w.activity, w.spent⟩ := by
  rw [insertMember, Work.exec_add_eq_ok (run_add member w.draft), Table.contains_eq_false_iff]
  rfl

end DecryptorSets

namespace Identities

theorem run_read (address : String) (d : Draft) : (read address).run d =
    if d.database.canRead .identities then
      (Except.ok ((d.tables.identities.find? address).map fun row =>
        ⟨address, row.publicKey, row.signature, row.verified⟩)).map fun identity => (identity, d)
    else .error (.database none) := by
  rw [read, Statement.run_bind_reading]
  rfl

theorem run_write (address : String) (credential : Credential) (value : Bytes) (d : Draft) :
    (write address credential value).run d =
    if d.database.canWrite .identities then
      .ok ((), d.saved { d.tables with
        identities := d.tables.identities.put address (setCredential credential value
          ((d.tables.identities.find? address).getD blank)) })
    else .error (.database none) := by
  rw [write, Statement.run_bind_writing]
  rfl

theorem run_mark (address : String) (d : Draft) : (mark address).run d =
    if d.database.canRead .identities then
      match d.tables.identities.find? address with
      | some row =>
        if row.verified then .ok (0, d)
        else if d.database.canWrite .identities then
          .ok (1, d.saved { d.tables with
            identities := d.tables.identities.put address { row with verified := true } })
        else .error (.database none)
      | none => .ok (0, d)
    else .error (.database none) := by
  rw [mark, Statement.run_bind_reading]
  congr 1
  cases d.tables.identities.find? address with
  | none => rfl
  | some row =>
    dsimp only
    split
    · rfl
    · rw [Statement.run_bind_writing]
      rfl

theorem exec_get_eq_ok {address : String} {w w' : Workspace} {identity : Option Identity} :
    (get address).exec w = (.ok identity, w') ↔
      w.connected = true ∧ w.draft.database.canRead .identities = true ∧
      (w.tables.identities.find? address).map (fun row =>
        ⟨address, row.publicKey, row.signature, row.verified⟩) = identity ∧
      w' = ⟨w.draft,
        .query label "get" (some (if identity.isSome then 1 else 0)) :: w.activity, w.spent⟩ := by
  rw [get, Work.exec_read_eq_ok (run_read address w.draft), Except.ok.injEq]
  rfl

theorem exec_upsert_eq_ok {address : String} {credential : Credential} {value : Bytes}
    {w w' : Workspace} :
    (upsert address credential value).exec w = (.ok (), w') ↔
      w.connected = true ∧ w.draft.database.canWrite .identities = true ∧
      w' = ⟨w.draft.saved { w.tables with
          identities := w.tables.identities.put address (setCredential credential value
            ((w.tables.identities.find? address).getD blank)) },
        .query label (upsertMethod credential) (some 1) :: w.activity, w.spent⟩ := by
  rw [upsert, Work.exec_write_eq_ok (run_write address credential value w.draft)]
  rfl

/-- Marking a row that does not have the flag. -/
theorem exec_markVerified_eq_ok {address : String} {row : IdentityRow} {w w' : Workspace} {n : Nat}
    (found : w.tables.identities.find? address = some row) (unverified : row.verified = false) :
    (markVerified address).exec w = (.ok n, w') ↔
      w.connected = true ∧ w.draft.database.canWrite .identities = true ∧ n = 1 ∧
      w' = ⟨w.draft.saved { w.tables with
          identities := w.tables.identities.put address { row with verified := true } },
        .query label "mark_signature_verified" (some 1) :: w.activity, w.spent⟩ := by
  rw [Workspace.tables] at found
  rw [markVerified, Work.exec_query_eq_ok, run_mark, found, Workspace.tables]
  refine and_congr_right fun _ => ?_
  by_cases permitted : w.draft.database.canWrite .identities = true
  · have readable := Database.canRead_of_canWrite permitted
    simp only [readable, permitted, unverified, ↓reduceIte, Except.ok.injEq, Prod.mk.injEq,
      true_and, Bool.false_eq_true]
    constructor
    · rintro ⟨d, ⟨rfl, rfl⟩, rfl⟩
      exact ⟨rfl, rfl⟩
    · rintro ⟨rfl, rfl⟩
      exact ⟨_, ⟨rfl, rfl⟩, rfl⟩
  · simp [permitted, unverified]

end Identities

namespace Progress

private theorem run_write (row : ProgressRow) (d : Draft) (h : d.autocommit = false) :
    (write row).run d =
    if d.database.canWrite .progress then
      .ok ((), { d.saved { d.tables with progress := d.tables.progress.put rowId row } with
        doomed := d.doomed || d.database.faults.failingCommits })
    else .error (.database none) := by
  obtain ⟨database, doomed, autocommit⟩ := d
  subst h
  rw [write, Statement.run_bind_writing]
  congr 1
  rw [StateT.run_bind, Statement.run_guarded]
  cases database.faults.failingCommits
  · rw [Bool.or_false]
    rfl
  · rw [Bool.or_true]
    rfl

theorem toRow_eq_ok {cursor : Chain.Cursor} {row : ProgressRow} : toRow cursor = .ok row ↔
    cursor.block < 2 ^ 63 ∧ cursor.index < 2 ^ 63 ∧ row = ⟨cursor.block, cursor.index⟩ := by
  unfold toRow signed64
  split
  · split
    · rename_i hb hi
      change Except.ok _ = Except.ok row ↔ _
      simp only [Except.ok.injEq, hb, hi, true_and]
      exact eq_comm
    · rename_i hb hi
      simp only [hi, false_and, and_false, iff_false]
      rintro ⟨⟩
  · rename_i hb
    simp only [hb, false_and, iff_false]
    rintro ⟨⟩

/-- Inside a transaction a position is written if it fits and the table takes writes. While commits
fail, the transaction is doomed by it. -/
theorem exec_update_eq_ok {cursor : Chain.Cursor} {w w' : Workspace}
    (h : w.draft.autocommit = false) :
    (update cursor).exec w = (.ok (), w') ↔
      cursor.block < 2 ^ 63 ∧ cursor.index < 2 ^ 63 ∧ w.connected = true ∧
      w.draft.database.canWrite .progress = true ∧
      w' = ⟨{ w.draft.saved { w.tables with
          progress := w.tables.progress.put rowId ⟨cursor.block, cursor.index⟩ } with
          doomed := w.draft.doomed || w.draft.database.faults.failingCommits },
        .query label "update" (some 1) :: w.activity, w.spent⟩ := by
  rw [update, Work.exec_query_eq_ok, Workspace.tables]
  cases fits : toRow cursor with
  | error e =>
    have unfit : ¬ (cursor.block < 2 ^ 63 ∧ cursor.index < 2 ^ 63) := fun hb => by
      rw [toRow_eq_ok.mpr ⟨hb.1, hb.2, rfl⟩] at fits
      cases fits
    constructor
    · rintro ⟨-, d, ran, -⟩
      change (Except.error e : Except StoreError (Unit × Draft)) = _ at ran
      cases ran
    · rintro ⟨hb, hi, -⟩
      exact absurd ⟨hb, hi⟩ unfit
  | ok row =>
    obtain ⟨hb, hi, rfl⟩ := toRow_eq_ok.mp fits
    rw [and_iff_right hb, and_iff_right hi]
    refine and_congr_right fun _ => ?_
    change (∃ d, (write ⟨cursor.block, cursor.index⟩).run w.draft = _ ∧ _) ↔ _
    rw [run_write _ _ h]
    by_cases permitted : w.draft.database.canWrite .progress = true <;> simp [permitted]

/-- What is stored is read back as it was. -/
theorem ofRow_cast (cursor : Chain.Cursor) : ofRow ⟨cursor.block, cursor.index⟩ = .ok cursor := by
  simp only [ofRow, unsigned, Int.natCast_nonneg, ↓reduceIte, Int.toNat_natCast]
  rfl

def held (t : Tables) : Except StoreError (Option Chain.Cursor) :=
  match t.progress.find? rowId with
  | none => .ok none
  | some row => (ofRow row).map some

theorem held_put {cursor : Chain.Cursor} {t : Tables} :
    held { t with progress := t.progress.put rowId ⟨cursor.block, cursor.index⟩ } =
      .ok (some cursor) := by
  unfold held
  rw [Table.find?_put_self]
  dsimp only
  rw [ofRow_cast]
  rfl

theorem run_read (d : Draft) : read.run d =
    if d.database.canRead .progress then (held d.tables).map fun cursor => (cursor, d)
    else .error (.database none) := by
  rw [read, Statement.run_bind_reading, held]
  congr 1
  cases d.tables.progress.find? rowId with
  | none => rfl
  | some row =>
    dsimp only
    cases ofRow row <;> rfl

theorem exec_get_eq_ok {cursor : Option Chain.Cursor} {w w' : Workspace} :
    get.exec w = (.ok cursor, w') ↔
      w.connected = true ∧ w.draft.database.canRead .progress = true ∧ held w.tables = .ok cursor ∧
      w' = ⟨w.draft, .query label "get" (some (if cursor.isSome then 1 else 0)) :: w.activity,
        w.spent⟩ := by
  rw [get, Work.exec_read_eq_ok (run_read w.draft)]
  rfl

end Progress

namespace EpochKeys

private theorem run_add (entry : EpochKeyEntry) (d : Draft) (h : d.autocommit = false) :
    (add entry).run d =
    if d.database.canWrite .epochKeys then
      if d.tables.epochKeys.contains (rowKey entry.eon entry.epochId) then .ok (false, d)
      else .ok (true, { d.saved { d.tables with
          epochKeys := d.tables.epochKeys.put (rowKey entry.eon entry.epochId) entry.key } with
        doomed := d.doomed || d.database.faults.failingCommits })
    else .error (.database none) := by
  obtain ⟨database, doomed, autocommit⟩ := d
  subst h
  rw [add, Statement.run_bind_writing]
  congr 1
  dsimp only
  split
  · rfl
  · rw [StateT.run_bind, Statement.run_guarded]
    cases database.faults.failingCommits
    · rw [Bool.or_false]
      rfl
    · rw [Bool.or_true]
      rfl

/-- The epoch id that a row was looked for by is the one that is read from it. -/
private theorem ofRow_rowKey (eon : Int) (epochId value : Bytes) :
    ofRow (rowKey eon epochId) value = .ok ⟨eon, epochId, value⟩ := by
  rw [ofRow, rowKey, Hex.text, String.toList_ofList, Hex.decode_encode]

/-- Rows are found by the text that is written for an epoch id, so that the texts of other rows do
not matter, whether they can be read or not. -/
theorem run_read (eon : Int) (epochId : Bytes) (d : Draft) : (read eon epochId).run d =
    if d.database.canRead .epochKeys then
      (Except.ok ((d.tables.epochKeys.find? (rowKey eon epochId)).map fun value =>
        (⟨eon, epochId, value⟩ : EpochKeyEntry))).map fun found => (found, d)
    else .error (.database none) := by
  rw [read, Statement.run_bind_reading]
  congr 1
  dsimp only
  cases d.tables.epochKeys.find? (rowKey eon epochId) with
  | none => rfl
  | some value =>
    dsimp only
    rw [ofRow_rowKey]
    rfl

/-- Inside a transaction a key is written if its epoch has none. While commits fail, the transaction
is doomed by it. -/
theorem draft_of_insert {entry : EpochKeyEntry} {w w' : Workspace} {inserted : Bool}
    (h : w.draft.autocommit = false) (ran : (insert entry).exec w = (.ok inserted, w')) :
    w.connected = true ∧ w.draft.database.canWrite .epochKeys = true ∧ w'.lasts = w.spent ∧
    w'.draft =
      if w.tables.epochKeys.contains (rowKey entry.eon entry.epochId) then w.draft
      else { w.draft.saved { w.tables with
          epochKeys := w.tables.epochKeys.put (rowKey entry.eon entry.epochId) entry.key } with
        doomed := w.draft.doomed || w.draft.database.faults.failingCommits } := by
  rw [insert, Work.exec_query_eq_ok, run_add entry w.draft h] at ran
  obtain ⟨connected, d, ran, rfl⟩ := ran
  rw [Workspace.tables]
  split at ran
  · rename_i writable
    refine ⟨connected, writable, rfl, ?_⟩
    split at ran
    · rename_i present
      cases ran
      exact (if_pos present).symm
    · rename_i absent
      cases ran
      exact (if_neg absent).symm
  · cases ran

/-- A key that is inserted is a new row, or its epoch has one, and the other tables stay. -/
theorem exec_insert_eq_ok {entry : EpochKeyEntry} {w w' : Workspace} {inserted : Bool}
    (h : w.draft.autocommit = false) (ran : (insert entry).exec w = (.ok inserted, w')) :
    ((∃ key, w.tables.epochKeys.find? (rowKey entry.eon entry.epochId) = some key) ∧
      w'.tables = w.tables) ∨
    (w.tables.epochKeys.find? (rowKey entry.eon entry.epochId) = none ∧
      w'.tables = { w.tables with
        epochKeys := w.tables.epochKeys.put (rowKey entry.eon entry.epochId) entry.key }) := by
  have left := (draft_of_insert h ran).2.2.2
  split at left
  · rename_i present
    exact .inl ⟨Option.isSome_iff_exists.mp present, congrArg Draft.tables left⟩
  · rename_i absent
    exact .inr ⟨(Table.contains_eq_false_iff _ _).mp (Bool.not_eq_true _ ▸ absent),
      congrArg Draft.tables left⟩

/-- Where keys can be written and commits do not fail, a key is inserted or there is one already. -/
theorem exec_insert_of_writable {entry : EpochKeyEntry} {w : Workspace}
    (h : w.draft.autocommit = false) (connected : w.connected = true)
    (writable : w.draft.database.canWrite .epochKeys = true)
    (lasting : w.draft.database.faults.failingCommits = false) :
    ∃ inserted w', (insert entry).exec w = (.ok inserted, w') ∧ w'.lasts = w.spent ∧
      w'.draft.doomed = w.draft.doomed ∧ w'.draft.database.faults = w.draft.database.faults := by
  have added := run_add entry w.draft h
  rw [if_pos writable] at added
  by_cases present : w.draft.tables.epochKeys.contains (rowKey entry.eon entry.epochId) = true
  · rw [if_pos present] at added
    exact ⟨false, _, Work.exec_query_eq_ok.mpr ⟨connected, _, added, rfl⟩, rfl, rfl, rfl⟩
  · rw [if_neg present] at added
    refine ⟨true, _, Work.exec_query_eq_ok.mpr ⟨connected, _, added, rfl⟩, rfl, ?_, rfl⟩
    change (w.draft.doomed || w.draft.database.faults.failingCommits) = _
    rw [lasting]
    exact Bool.or_false _

end EpochKeys

namespace EonKeys

theorem run_read (eon : Int) (d : Draft) : (read eon).run d =
    if d.database.canRead .eonKeys then
      (Except.ok ((d.tables.eonKeys.find? eon).map fun row =>
        ⟨eon, row.activation, row.publicKey⟩)).map fun found => (found, d)
    else .error (.database none) := by
  rw [read, Statement.run_bind_reading]
  rfl

theorem run_write (entry : EonKeyEntry) (d : Draft) : (write entry).run d =
    if d.database.canWrite .eonKeys then
      .ok ((), d.saved { d.tables with
        eonKeys := d.tables.eonKeys.put entry.eon ⟨entry.activation, entry.publicKey⟩ })
    else .error (.database none) := by
  rw [write, Statement.run_bind_writing]
  rfl

theorem exec_get_eq_ok {eon : Int} {w w' : Workspace} {found : Option EonKeyEntry} :
    (get eon).exec w = (.ok found, w') ↔
      w.connected = true ∧ w.draft.database.canRead .eonKeys = true ∧
      (w.tables.eonKeys.find? eon).map (fun row => ⟨eon, row.activation, row.publicKey⟩) = found ∧
      w' = ⟨w.draft, .query label "get" (some (if found.isSome then 1 else 0)) :: w.activity,
        w.spent⟩ := by
  rw [get, Work.exec_read_eq_ok (run_read eon w.draft), Except.ok.injEq]
  rfl

private theorem exec_insert_eq_ok {entry : EonKeyEntry} {w w' : Workspace} :
    (insert entry).exec w = (.ok (), w') ↔
      w.connected = true ∧ w.draft.database.canWrite .eonKeys = true ∧
      w' = ⟨w.draft.saved { w.tables with
          eonKeys := w.tables.eonKeys.put entry.eon ⟨entry.activation, entry.publicKey⟩ },
        .query label "insert" (some 1) :: w.activity, w.spent⟩ := by
  rw [insert, Work.exec_write_eq_ok (run_write entry w.draft)]
  rfl

theorem database_of_get {eon : Int} {s s' : Store} {found : Except StoreError (Option EonKeyEntry)}
    (h : Action.direct (get eon) s = (found, s')) : s'.database = s.database := by
  obtain ⟨w, ran, rfl⟩ := Action.direct_eq_iff.mp h
  cases found with
  | error e => exact congrArg Draft.database (Work.draft_of_query_error ran)
  | ok found =>
    obtain ⟨-, -, -, rfl⟩ := exec_get_eq_ok.mp ran
    rfl

theorem epochKeys_of_insert {entry : EonKeyEntry} {s s' : Store} {result : Except StoreError Unit}
    (h : Action.direct (insert entry) s = (result, s')) :
    s'.database.tables.epochKeys = s.database.tables.epochKeys := by
  obtain ⟨w, ran, rfl⟩ := Action.direct_eq_iff.mp h
  cases result with
  | error e => exact congrArg (fun d => d.database.tables.epochKeys) (Work.draft_of_query_error ran)
  | ok u =>
    obtain ⟨-, -, rfl⟩ := exec_insert_eq_ok.mp ran
    rfl

end EonKeys

end DecryptorNode.Store
