import DecryptorNode.Proofs.Store.QueryLaws

/-! Uses of the store whose connection is lost on the way. As long as it lasts, work does what it
does on a connection that lasts longer. So a transaction that is cut off after any of its
statements, its commit being the last, leaves the database as it was or as the whole of it does. -/
namespace DecryptorNode.Store

def Database.losing (d : Database) (lost : Option Nat) : Database :=
  { d with faults := { d.faults with lostAfter := lost } }

def Draft.losing (d : Draft) (lost : Option Nat) : Draft :=
  { d with database := d.database.losing lost }

def losing (s : Store) (lost : Option Nat) : Store := { s with database := s.database.losing lost }

/-- An action whose connection is lost after so many statements, if it is not lost before. -/
def Action.cutAfter {α ε : Type} (statements : Nat) (action : Action ε α) : Action ε α := fun s =>
  let lost := s.database.faults.lostAfter
  let (result, left) := action (s.losing (some (lost.elim statements (min statements))))
  (result, left.losing lost)

/-- A connection is lost later than another, if at all. -/
def Outlasts (later sooner : Option Nat) : Prop :=
  ∀ n, later = some n → ∃ m, sooner = some m ∧ m ≤ n

private theorem outlasts_cut (lost : Option Nat) (statements : Nat) :
    Outlasts lost (some (lost.elim statements (min statements))) := by
  rintro n rfl
  exact ⟨_, rfl, Nat.min_le_right _ _⟩

namespace Statement
variable {α β : Type}

/-- A statement that does not see how long its connection lasts. -/
def Blind (s : Statement α) : Prop :=
  ∀ d lost, s.run (d.losing lost) = (s.run d).map fun p => (p.1, p.2.losing lost)

private theorem Blind.pure (a : α) : Blind (pure a : Statement α) := fun _ _ => rfl

private theorem Blind.throw (e : StoreError) : Blind (throw e : Statement α) := fun _ _ => rfl

private theorem Blind.bind {s : Statement α} {k : α → Statement β} (h : s.Blind)
    (hk : ∀ a, (k a).Blind) : Blind (s >>= k) := by
  intro d lost
  rw [StateT.run_bind, StateT.run_bind, h d lost]
  cases s.run d with
  | error e => rfl
  | ok p => exact hk p.1 p.2 lost

private theorem blind_reading (t : TableName) : Blind (reading t) := by
  intro d lost
  rw [← bind_pure (reading t), run_bind_reading, run_bind_reading]
  change (if d.database.canRead t then _ else _) = _
  split <;> rfl

private theorem blind_writing (t : TableName) : Blind (writing t) := by
  intro d lost
  rw [← bind_pure (writing t), run_bind_writing, run_bind_writing]
  change (if d.database.canWrite t then _ else _) = _
  split <;> rfl

private theorem blind_save (tables : Tables) : Blind (save tables) := fun _ _ => rfl

private theorem blind_guarded : Blind guarded := by
  intro d lost
  rw [run_guarded, run_guarded]
  change (if d.database.faults.failingCommits then if d.autocommit then _ else _ else _) = _
  split
  · split <;> rfl
  · rfl

end Statement

def Workspace.losing (w : Workspace) (lasts lost : Option Nat) : Workspace :=
  ⟨w.draft.losing lost, w.activity, lasts⟩

private theorem Outlasts.connected {w : Workspace} {later lost : Option Nat}
    (outlasts : Outlasts later w.lasts) (h : w.connected = true) :
    (w.losing later lost).connected = true := by
  cases later with
  | none => rfl
  | some k =>
    obtain ⟨m, sooner, le⟩ := outlasts k rfl
    rw [Workspace.connected, sooner, Option.all_some, decide_eq_true_iff] at h
    exact decide_eq_true (Nat.lt_of_lt_of_le h le)

namespace Work
variable {α β ε δ : Type}

/-- Work that succeeds alike on every connection that is lost later. -/
def Steady (work : Work ε α) : Prop :=
  ∀ w w' a later lost, work.exec w = (.ok a, w') → Outlasts later w.lasts →
    ∃ left, Outlasts left w'.lasts ∧
      work.exec (w.losing later lost) = (.ok a, w'.losing left lost)

theorem Steady.pure (a : α) : Steady (pure a : Work ε α) := by
  intro w w' b later lost ran outlasts
  cases ran
  exact ⟨later, outlasts, rfl⟩

theorem Steady.throw (e : ε) : Steady (throw e : Work ε α) := by
  intro w w' a later lost ran
  cases ran

theorem Steady.note (a : Telemetry.Activity) : Steady (note a : Work ε Unit) := by
  intro w w' b later lost ran outlasts
  cases ran
  exact ⟨later, outlasts, rfl⟩

theorem Steady.bind {x : Work ε α} {k : α → Work ε β} (hx : x.Steady) (hk : ∀ a, (k a).Steady) :
    Steady (x >>= k) := by
  intro w w' b later lost ran outlasts
  obtain ⟨a, u, first, second⟩ := exec_bind_eq_ok.mp ran
  obtain ⟨between, outlasts, first⟩ := hx w u a later lost first outlasts
  obtain ⟨left, outlasts, second⟩ := hk a u w' b between lost second outlasts
  exact ⟨left, outlasts, exec_bind_eq_ok.mpr ⟨a, _, first, second⟩⟩

theorem Steady.discard {x : Work ε α} (hx : x.Steady) : Steady (discard x) :=
  hx.bind fun _ => .pure ()

theorem Steady.mapError {x : Work ε α} (hx : x.Steady) (f : ε → δ) : (x.mapError f).Steady := by
  intro w w' a later lost ran outlasts
  obtain ⟨left, outlasts, ran⟩ := hx w w' a later lost (exec_mapError_eq_ok.mp ran) outlasts
  exact ⟨left, outlasts, exec_mapError_eq_ok.mpr ran⟩

theorem Steady.forM {l : List α} {k : α → Work ε PUnit} (hk : ∀ a, (k a).Steady) :
    (l.forM k).Steady := by
  induction l with
  | nil => exact .pure _
  | cons a rest ih => exact (hk a).bind fun _ => ih

private theorem Steady.query {repository method : String} {rows : α → Nat} {s : Statement α}
    (hs : s.Blind) : (query repository method rows s).Steady := by
  intro w w' a later lost ran outlasts
  obtain ⟨connected, d, written, rfl⟩ := exec_query_eq_ok.mp ran
  have again : s.run (w.losing later lost).draft = .ok (a, d.losing lost) := by
    refine (hs w.draft lost).trans ?_
    rw [written]
    rfl
  refine ⟨(w.losing later lost).spent, ?_, exec_query_eq_ok.mpr ⟨?_, _, again, rfl⟩⟩
  · intro n left
    obtain ⟨k, later', rfl⟩ := Option.map_eq_some_iff.mp left
    obtain ⟨m, sooner, le⟩ := outlasts k later'
    exact ⟨m - 1, by rw [Workspace.spent, sooner]; rfl, Nat.sub_le_sub_right le 1⟩
  · exact outlasts.connected connected

end Work

section Queries
open Statement

theorem KeyperSets.steady_insert (set : KeyperSet) : (insert set).Steady :=
  .query (.bind (blind_writing _) fun _ => by
    split
    · exact .bind (.throw _) fun _ => blind_save _
    · exact .bind (.pure _) fun _ => blind_save _)

theorem DecryptorSets.steady_insertMember (member : SetMember) : (insertMember member).Steady :=
  .query (.bind (blind_writing _) fun _ => by
    dsimp only
    split
    · exact .bind (.throw _) fun _ => blind_save _
    · exact .bind (.pure _) fun _ => blind_save _)

theorem Identities.steady_get (address : String) : (get address).Steady :=
  .query (.bind (blind_reading _) fun _ => .pure _)

theorem Identities.steady_upsert (address : String) (credential : Credential) (value : Bytes) :
    (upsert address credential value).Steady :=
  .query (.bind (blind_writing _) fun _ => blind_save _)

theorem Identities.steady_markVerified (address : String) : (markVerified address).Steady :=
  .query (.bind (blind_reading _) fun _ => by
    split
    · split
      · exact .pure _
      · exact .bind (blind_writing _) fun _ => .bind (blind_save _) fun _ => .pure _
    · exact .pure _)

theorem Progress.steady_update (cursor : Chain.Cursor) : (update cursor).Steady := by
  have written (row : ProgressRow) : (write row).Blind :=
    .bind (blind_writing _) fun _ => .bind blind_guarded fun _ => blind_save _
  refine .query ?_
  cases toRow cursor with
  | error e => exact .throw e
  | ok row => exact .bind (.pure row) written

end Queries

/-- A transaction that was cut off left the database alone, or it was cut off after its commit. -/
theorem database_of_cutAfter {α ε : Type} {onBegin onCommit : StoreError → ε} {work : Work ε α}
    (steady : work.Steady) (statements : Nat) (s : Store) :
    let action := Action.transaction onBegin onCommit work
    (action.cutAfter statements s).2.database = s.database ∨
      ∃ a left, action s = (.ok a, left) ∧
        action.cutAfter statements s = (.ok a, left) := by
  intro action
  let lost := s.database.faults.lostAfter
  let sooner := some (lost.elim statements (min statements))
  have cut : action.cutAfter statements s =
    ((action (s.losing sooner)).1, (action (s.losing sooner)).2.losing lost) := rfl
  rw [cut]
  cases ran : action (s.losing sooner) with
  | mk result left =>
    cases result with
    | error e =>
      have same : left.database = s.database.losing sooner :=
        Action.database_of_transaction_error ran
      left
      change left.database.losing lost = s.database
      rw [same]
      rfl
    | ok a =>
      obtain ⟨unclosed, w, worked, undoomed, still, connected, rfl⟩ :=
        Action.transaction_eq_ok.mp ran
      obtain ⟨lasts, outlasts, again⟩ :=
        steady _ _ _ lost lost worked (outlasts_cut lost statements)
      refine .inr ⟨a, _, Action.transaction_eq_ok.mpr
        ⟨unclosed, w.losing lasts lost, again, undoomed, still, outlasts.connected connected, rfl⟩,
        rfl⟩

end DecryptorNode.Store
