import DecryptorNode.Proofs.Store.FirstRows
import DecryptorNode.Proofs.Store.QueryScope

/-! The table of epoch keys. A key is written unless its epoch has one, and what is read for an
epoch is the key in its row. Epochs are told apart by the texts of their ids, and a text that is no
epoch id is never looked for. -/
namespace DecryptorNode.Store.EpochKeys
variable {eon eon' : Int} {epochId epochId' : Bytes} {entry : EpochKeyEntry} {w : Workspace}

private theorem rowKey_inj :
    rowKey eon epochId = rowKey eon' epochId' ↔ eon = eon' ∧ epochId = epochId' := by
  rw [rowKey, rowKey, EpochKey.mk.injEq]
  exact and_congr_right fun _ => ⟨Hex.text_injective, congrArg Hex.text⟩

def held (t : Table EpochKey Bytes) (eon : Int) (epochId : Bytes) : Option EpochKeyEntry :=
  (t.find? (rowKey eon epochId)).map fun key => ⟨eon, epochId, key⟩

private theorem isNone_held (t : Table EpochKey Bytes) (eon : Int) (epochId : Bytes) :
    (held t eon epochId).isNone = !t.contains (rowKey eon epochId) := by
  rw [held, Option.isNone_map, Table.contains, Option.not_isSome]

def row (entry : EpochKeyEntry) : EpochKey × Bytes :=
  (rowKey entry.eon entry.epochId, entry.key)

/-- The first key for an epoch among some that come one after the other. -/
def first? (entries : List EpochKeyEntry) (eon : Int) (epochId : Bytes) : Option EpochKeyEntry :=
  entries.find? fun entry => entry.eon = eon ∧ entry.epochId = epochId

private theorem held_rows (entries : List EpochKeyEntry) (eon : Int) (epochId : Bytes) :
    held ⟨entries.map row⟩ eon epochId = first? entries eon epochId := by
  induction entries with
  | nil => rfl
  | cons entry rest ih =>
    unfold held at ih ⊢
    rw [List.map_cons, row, Table.find?_cons, first?]
    by_cases same : entry.eon = eon ∧ entry.epochId = epochId
    · obtain ⟨rfl, rfl⟩ := same
      rw [if_pos rfl, List.find?_cons_of_pos (by simp)]
      rfl
    · rw [if_neg (mt rowKey_inj.mp same), List.find?_cons_of_neg (by simpa using same), ih]
      rfl

/-- A table to which keys are brought holds for each epoch the key that it had, or else the first
one that came. -/
theorem held_putAll (t : Table EpochKey Bytes) (entries : List EpochKeyEntry) (eon : Int)
    (epochId : Bytes) : held (t.putAll (entries.map row)) eon epochId =
      (held t eon epochId).or (first? entries eon epochId) := by
  rw [← held_rows, held, Table.find?_putAll, Option.map_or]
  rfl

/-- The query for a key fails only if the table cannot be read. -/
theorem exec_get (eon : Int) (epochId : Bytes) (w : Workspace) : ((get eon epochId).exec w).1 =
    if w.answers .epochKeys then .ok (held w.tables.epochKeys eon epochId)
    else .error (.database none) := by
  rw [get, Work.exec_query, Workspace.run_of_read (run_read eon epochId)]
  cases w.answers .epochKeys <;> rfl

/-- On a database that does not misbehave a key is written if its epoch has none, and the answer
says whether it was. -/
theorem run_add_of_sound (entry : EpochKeyEntry) {d : Draft} (sound : d.Sound) :
    (add entry).run d = .ok ((held d.tables.epochKeys entry.eon entry.epochId).isNone,
      d.saved { d.tables with
        epochKeys := d.tables.epochKeys.putNew (row entry).1 (row entry).2 }) := by
  rw [add, Statement.run_bind_writing, if_pos (sound.canWrite _), isNone_held, row, Table.putNew]
  dsimp only
  cases d.tables.epochKeys.contains (rowKey entry.eon entry.epochId) with
  | true => rfl
  | false =>
    rw [if_neg Bool.false_ne_true, if_neg Bool.false_ne_true, StateT.run_bind,
      Statement.run_guarded_of_sound sound]
    rfl

theorem exec_insert_of_sound (entry : EpochKeyEntry) (sound : w.Sound) :
    ∃ w', (insert entry).exec w =
        (.ok (held w.tables.epochKeys entry.eon entry.epochId).isNone, w') ∧
      w'.draft = w.draft.saved { w.tables with
        epochKeys := w.tables.epochKeys.putNew (row entry).1 (row entry).2 } :=
  ⟨_, Work.exec_query_eq_ok.mpr ⟨sound.connected, _, run_add_of_sound entry sound.draft, rfl⟩, rfl⟩

end DecryptorNode.Store.EpochKeys
