import DecryptorNode.Proofs.Store.QueryScope

/-! The table of positions. Only positions that fit are written to it, all of them under one key, so
that there is at most one row, and it can be read back. No other query touches the table. -/
namespace DecryptorNode.Store
open Chain (Cursor)

namespace Progress

/-- A position that the signed columns can hold. -/
def Storable (cursor : Cursor) : Prop := cursor.block < 2 ^ 63 ∧ cursor.index < 2 ^ 63

instance (cursor : Cursor) : Decidable (Storable cursor) := inferInstanceAs (Decidable (_ ∧ _))

/-- No row but the one of the position. -/
def Sole (t : Table Int ProgressRow) : Prop := t.rows.length ≤ 1 ∧ ∀ row ∈ t.rows, row.1 = rowId

/-- The table holds no row, or only that of a position which fits. -/
def Legible (t : Table Int ProgressRow) : Prop :=
  t.rows = [] ∨ ∃ cursor : Cursor, Storable cursor ∧
    t.rows = [(rowId, ⟨cursor.block, cursor.index⟩)]

variable {t : Table Int ProgressRow} {cursor : Cursor}

theorem Sole.rows_put (h : Sole t) (row : ProgressRow) :
    (t.put rowId row).rows = [(rowId, row)] := by
  obtain ⟨rows⟩ := t
  obtain ⟨few, named⟩ := h
  match rows with
  | [] => rfl
  | [entry] =>
    have same : entry.1 = rowId := named entry List.mem_cons_self
    change Table.putRow rowId row [(entry.1, entry.2)] = _
    rw [same, Table.putRow, if_pos rfl]
  | first :: second :: rest => simp at few

theorem Legible.sole (h : Legible t) : Sole t := by
  rcases h with bare | ⟨cursor, -, one⟩
  · simp [Sole, bare]
  · simp [Sole, one]

theorem Legible.put (h : Legible t) (fits : Storable cursor) :
    Legible (t.put rowId ⟨cursor.block, cursor.index⟩) :=
  .inr ⟨cursor, fits, h.sole.rows_put _⟩

/-- What a legible table holds can be read. -/
private theorem Legible.held {tables : Tables} (h : Legible tables.progress) :
    ∃ position, held tables = .ok position := by
  unfold Progress.held
  rcases h with bare | ⟨cursor, -, one⟩
  · exact ⟨none, by simp [Table.find?, bare]⟩
  · refine ⟨some cursor, ?_⟩
    have found : tables.progress.find? rowId = some ⟨cursor.block, cursor.index⟩ := by
      simp [Table.find?, one]
    rw [found]
    dsimp only
    rw [ofRow_cast]
    rfl

private theorem toRow_of_storable (fits : Storable cursor) :
    toRow cursor = .ok ⟨cursor.block, cursor.index⟩ := toRow_eq_ok.mpr ⟨fits.1, fits.2, rfl⟩

private theorem toRow_of_not_storable (unfit : ¬ Storable cursor) :
    ∃ field reason, toRow cursor = .error (.invalidValue field reason) := by
  unfold toRow signed64
  by_cases block : cursor.block < 2 ^ 63
  · have index : ¬ cursor.index < 2 ^ 63 := fun index => unfit ⟨block, index⟩
    rw [if_pos block, if_neg index]
    exact ⟨_, _, rfl⟩
  · rw [if_neg block]
    exact ⟨_, _, rfl⟩

/-- A write that succeeds has put its row, whether or not it commits by itself. -/
private theorem tables_of_write {row : ProgressRow} {d d' : Draft}
    (h : (write row).run d = .ok ((), d')) :
    d'.tables = { d.tables with progress := d.tables.progress.put rowId row } := by
  rw [write, Statement.run_bind_writing] at h
  split at h
  · rw [StateT.run_bind, Statement.run_guarded] at h
    split at h
    · split at h
      · cases h
      · cases h
        rfl
    · cases h
      rfl
  · cases h

private theorem run_write_of_sound (row : ProgressRow) {d : Draft} (sound : d.Sound) :
    (write row).run d =
      .ok ((), d.saved { d.tables with progress := d.tables.progress.put rowId row }) := by
  rw [write, Statement.run_bind_writing, if_pos (sound.canWrite _), StateT.run_bind,
    Statement.run_guarded_of_sound sound]
  rfl

/-- On a database that does not misbehave a position is stored if it fits. -/
theorem exec_update_of_storable {w : Workspace} (sound : w.Sound) (fits : Storable cursor) :
    (update cursor).exec w =
      (.ok (), ⟨w.draft.saved { w.tables with
          progress := w.tables.progress.put rowId ⟨cursor.block, cursor.index⟩ },
        .query label "update" (some 1) :: w.activity, w.spent⟩) := by
  rw [update, toRow_of_storable fits]
  refine Work.exec_query_eq_ok.mpr ⟨sound.connected, _, ?_, rfl⟩
  exact run_write_of_sound _ sound.draft

/-- Whatever the database is like, a position that does not fit is refused. -/
theorem exec_update_of_not_storable {w : Workspace} (unfit : ¬ Storable cursor) :
    ∃ field reason, (update cursor).exec w = (.error (.invalidValue field reason),
      { w with activity := .query label "update" none :: w.activity }) := by
  obtain ⟨field, reason, refused⟩ := toRow_of_not_storable unfit
  refine ⟨field, reason, ?_⟩
  rw [update, refused, Work.exec_query, Workspace.run]
  cases w.connected <;> rfl

/-- Reading the position fails on a legible table only if it cannot be read at all. -/
theorem exec_get_of_legible {w : Workspace} (h : Legible w.tables.progress) :
    (∃ position, (get.exec w).1 = .ok position) ∨ (get.exec w).1 = .error (.database none) := by
  obtain ⟨position, held⟩ := h.held
  rw [Workspace.tables] at held
  rw [get, Work.exec_query, Workspace.run_of_read run_read, held]
  cases w.answers .progress with
  | true => exact .inl ⟨position, rfl⟩
  | false => exact .inr rfl

end Progress

def Work.KeepsLegible {α ε : Type} (work : Work ε α) : Prop :=
  ∀ w, Progress.Legible w.tables.progress → Progress.Legible (work.exec w).2.tables.progress

namespace Work
variable {α ε : Type} {repository method : String} {rows : α → Nat} {s : Statement α}

private theorem KeepsLegible.query (h : ∀ d a d', s.run d = .ok (a, d') →
    Progress.Legible d.tables.progress → Progress.Legible d'.tables.progress) :
    (Work.query repository method rows s).KeepsLegible := by
  intro w legible
  rcases draft_of_query w with same | ⟨a, ran⟩
  · rw [Workspace.tables, same]
    exact legible
  · exact h w.draft a _ ran legible

/-- Work on another table leaves the position alone. -/
theorem On.keepsLegible {name : TableName} {work : Work ε α} (h : work.On name)
    (other : name ≠ .progress) : work.KeepsLegible := by
  intro w legible
  have same : (work.exec w).2.tables.progress = w.tables.progress :=
    (h.draft w).others .progress other.symm
  rw [same]
  exact legible

theorem KeepsLegible.discard {work : Work ε α} (h : work.KeepsLegible) :
    (discard work).KeepsLegible := by
  intro w legible
  rw [exec_discard_snd]
  exact h w legible

end Work

theorem Progress.keepsLegible_get : get.KeepsLegible := by
  intro w legible
  have same : (get.exec w).2.tables = w.tables :=
    congrArg Draft.tables (Work.draft_of_read run_read w)
  rw [same]
  exact legible

theorem Progress.keepsLegible_update (cursor : Cursor) : (update cursor).KeepsLegible := by
  refine .query fun d a d' ran legible => ?_
  by_cases fits : Storable cursor
  · rw [toRow_of_storable fits] at ran
    rw [tables_of_write (by exact ran)]
    exact legible.put fits
  · obtain ⟨field, reason, refused⟩ := toRow_of_not_storable fits
    rw [refused] at ran
    cases ran

end DecryptorNode.Store
