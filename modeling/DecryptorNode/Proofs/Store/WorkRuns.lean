import DecryptorNode.Store.Work

/-! How work on the store runs: one law for each way of putting work together. A law of success says
exactly when the work succeeds and what it leaves. -/
namespace DecryptorNode.Store

namespace Draft

def tables (d : Draft) : Tables := d.database.tables

def saved (d : Draft) (t : Tables) : Draft := { d with database := { d.database with tables := t } }

/-- A draft of a database that does not misbehave. -/
def Sound (d : Draft) : Prop := d.database.faults = .none

theorem Sound.canRead {d : Draft} (h : d.Sound) (name : TableName) :
    d.database.canRead name = true := by
  rw [Database.canRead, h]
  rfl

theorem Sound.canWrite {d : Draft} (h : d.Sound) (name : TableName) :
    d.database.canWrite name = true := by
  rw [Database.canWrite, h.canRead name, h]
  rfl

private theorem Sound.saved {d : Draft} (h : d.Sound) (t : Tables) : (d.saved t).Sound := h

theorem Sound.commits {d : Draft} (h : d.Sound) : d.database.faults.failingCommits = false := by
  rw [show d.database.faults = .none from h]
  rfl

theorem Sound.unclosed {d : Draft} (h : d.Sound) : d.database.faults.closed = false := by
  rw [show d.database.faults = .none from h]
  rfl

theorem begin_eq_ok {database : Database} {d : Draft} :
    Draft.begin database = .ok d ↔
      database.faults.closed = false ∧ d = ⟨database, false, false⟩ := by
  unfold Draft.begin
  cases database.faults.closed <;> simp [eq_comm]

end Draft

/-- Whether a connection can take so many statements and one thing more. -/
def Faults.outlives (f : Faults) (statements : Nat) : Bool := f.lostAfter.all (statements < ·)

theorem Faults.outlives_zero {f : Faults} {n : Nat} (h : f.outlives n = true) :
    f.outlives 0 = true := by
  unfold outlives at h ⊢
  cases lost : f.lostAfter with
  | none => rfl
  | some m =>
    rw [lost, Option.all_some, decide_eq_true_iff] at h
    rw [Option.all_some, decide_eq_true_iff]
    omega

def Database.answers (d : Database) (name : TableName) : Bool :=
  d.canRead name && d.faults.outlives 0

theorem Database.answers_iff {d : Database} {name : TableName} :
    d.answers name = true ↔ d.faults.outlives 0 = true ∧ d.canRead name = true := by
  rw [answers, Bool.and_eq_true, and_comm]

namespace Workspace
variable {w : Workspace}

/-- A sound draft on a connection that is not lost. -/
structure Sound (w : Workspace) : Prop where
  draft : w.draft.Sound
  lasting : w.lasts = none

theorem sound_opened {d : Draft} (sound : d.Sound) (activity : List Telemetry.Activity) :
    (opened d activity).Sound := by
  refine ⟨sound, ?_⟩
  rw [opened, show d.database.faults = .none from sound]
  rfl

theorem Sound.connected (h : w.Sound) : w.connected = true := by
  rw [Workspace.connected, h.lasting]
  rfl

theorem Sound.spent (h : w.Sound) : w.spent = none := by
  rw [Workspace.spent, h.lasting]
  rfl

theorem Sound.later {w' : Workspace} {t : Tables} (h : w.Sound) (draft : w'.draft = w.draft.saved t)
    (lasting : w'.lasts = none) : w'.Sound :=
  ⟨draft ▸ h.draft.saved t, lasting⟩

/-- What comes after the first statement on a connection is the second thing that it takes. -/
theorem connected_of_first {draft : Draft} {activity : List Telemetry.Activity}
    (first : w.lasts = (opened draft activity).spent) :
    w.connected = draft.database.faults.outlives 1 := by
  rw [connected, first, Workspace.spent, opened, Faults.outlives]
  cases draft.database.faults.lostAfter with
  | none => rfl
  | some n =>
    rw [Option.map_some, Option.all_some, Option.all_some, decide_eq_decide]
    omega

theorem commit_eq_ok {database : Database} : w.commit = .ok database ↔
    w.draft.doomed = false ∧ w.draft.database.faults.closed = false ∧ w.connected = true ∧
      database = w.draft.database := by
  unfold commit
  cases w.draft.doomed <;> cases w.draft.database.faults.closed <;> cases w.connected <;>
    simp [eq_comm]

theorem Sound.commit_eq (h : w.Sound) (undoomed : w.draft.doomed = false) :
    w.commit = .ok w.draft.database :=
  commit_eq_ok.mpr ⟨undoomed, h.draft.unclosed, h.connected, rfl⟩

private theorem run_eq_ok {α : Type} {s : Statement α} {a : α} {d : Draft} :
    w.run s = .ok (a, d) ↔ w.connected = true ∧ s.run w.draft = .ok (a, d) := by
  unfold run
  cases w.connected with
  | true => simp
  | false => cases s.run w.draft.severed <;> simp

def answers (w : Workspace) (name : TableName) : Bool :=
  w.draft.database.canRead name && w.connected

theorem Sound.answers (h : w.Sound) (name : TableName) : w.answers name = true := by
  rw [Workspace.answers, h.draft.canRead, h.connected]
  rfl

/-- A statement that reads a table sees no more of a lost connection than that it cannot. -/
theorem run_of_read {α : Type} {s : Statement α} {name : TableName}
    {found : Draft → Except StoreError α}
    (h : ∀ d, s.run d = if d.database.canRead name then (found d).map fun a => (a, d)
      else .error (.database none)) :
    w.run s = if w.answers name then (found w.draft).map fun a => (a, w.draft)
      else .error (.database none) := by
  have closed : w.draft.severed.database.canRead name = false := rfl
  rw [run, h, h, closed, answers]
  cases w.connected <;> cases w.draft.database.canRead name <;> rfl

end Workspace

def Workspace.tables (w : Workspace) : Tables := w.draft.tables

theorem Database.canRead_of_canWrite {d : Database} {name : TableName}
    (h : d.canWrite name = true) : d.canRead name = true := by
  simp only [canWrite, Bool.and_eq_true] at h
  exact h.1

namespace Statement
variable {α : Type}

theorem run_bind_reading (t : TableName) (f : Tables → Statement α) (d : Draft) :
    (reading t >>= f).run d =
      if d.database.canRead t then (f d.tables).run d else .error (.database none) := by
  simp only [reading, fail, StateT.run_bind, StateT.run_get, pure_bind]
  split <;> rfl

theorem run_bind_writing (t : TableName) (f : Tables → Statement α) (d : Draft) :
    (writing t >>= f).run d =
      if d.database.canWrite t then (f d.tables).run d else .error (.database none) := by
  simp only [writing, fail, StateT.run_bind, StateT.run_get, pure_bind]
  split <;> rfl

theorem run_guarded (d : Draft) : guarded.run d =
    if d.database.faults.failingCommits then
      if d.autocommit then .error (.database none) else .ok ((), { d with doomed := true })
    else .ok ((), d) := by
  simp only [guarded, fail, StateT.run_bind, StateT.run_get, pure_bind]
  split
  · split <;> rfl
  · rfl

theorem run_guarded_of_sound {d : Draft} (sound : d.Sound) : guarded.run d = .ok ((), d) := by
  rw [run_guarded, sound.commits]
  rfl

end Statement

section Sequence
variable {σ α β ε : Type} {x : ExceptT ε (StateM σ) α} {f : α → ExceptT ε (StateM σ) β}

private theorem run_bind_of_ok {s u : σ} {a : α} (h : x.run s = (.ok a, u)) :
    (x >>= f).run s = (f a).run u := by
  change (match x.run s with
    | (r, u) => (ExceptT.bindCont f r : StateM σ (Except ε β)) u) = _
  rw [h]
  rfl

private theorem run_bind_of_error {s u : σ} {e : ε} (h : x.run s = (.error e, u)) :
    (x >>= f).run s = (.error e, u) := by
  change (match x.run s with
    | (r, u) => (ExceptT.bindCont f r : StateM σ (Except ε β)) u) = _
  rw [h]
  rfl

private theorem run_bind_eq_ok {s s' : σ} {b : β} :
    (x >>= f).run s = (.ok b, s') ↔ ∃ a u, x.run s = (.ok a, u) ∧ (f a).run u = (.ok b, s') := by
  constructor
  · intro h
    rcases hx : x.run s with ⟨e | a, u⟩
    · rw [run_bind_of_error hx] at h
      cases h
    · rw [run_bind_of_ok hx] at h
      exact ⟨a, u, rfl, h⟩
  · rintro ⟨a, u, hx, h⟩
    rw [run_bind_of_ok hx]
    exact h

end Sequence

namespace Work
variable {α β ε δ : Type}

def exec (work : Work ε α) (w : Workspace) : Except ε α × Workspace := work.run w

@[simp] theorem exec_pure (a : α) (w : Workspace) : (pure a : Work ε α).exec w = (.ok a, w) := rfl

@[simp] theorem exec_throw (e : ε) (w : Workspace) :
    (throw e : Work ε α).exec w = (.error e, w) := rfl

@[simp] theorem exec_note (a : Telemetry.Activity) (w : Workspace) :
    (note a : Work ε Unit).exec w = (.ok (), { w with activity := a :: w.activity }) := rfl

theorem exec_bind (x : Work ε α) (f : α → Work ε β) (w : Workspace) :
    (x >>= f).exec w = match x.exec w with
      | (.ok a, w') => (f a).exec w'
      | (.error e, w') => (.error e, w') := by
  rcases h : x.exec w with ⟨e | a, u⟩
  · exact run_bind_of_error h
  · exact run_bind_of_ok h

theorem exec_bind_eq_ok {x : Work ε α} {f : α → Work ε β} {w w' : Workspace} {b : β} :
    (x >>= f).exec w = (.ok b, w') ↔
      ∃ a u, x.exec w = (.ok a, u) ∧ (f a).exec u = (.ok b, w') :=
  run_bind_eq_ok

theorem exec_mapError_eq_ok {f : ε → δ} {x : Work ε α} {w w' : Workspace} {a : α} :
    (x.mapError f).exec w = (.ok a, w') ↔ x.exec w = (.ok a, w') := by
  have h : (x.mapError f).exec w = ((x.exec w).1.mapError f, (x.exec w).2) := rfl
  rw [h]
  rcases x.exec w with ⟨outcome, u⟩
  cases outcome with
  | error e =>
    change (Except.error (f e), u) = _ ↔ _
    simp
  | ok b =>
    change (Except.ok b, u) = _ ↔ _
    simp

/-- Not to look at a result changes nothing in what is left. -/
theorem exec_discard_snd (x : Work ε α) (w : Workspace) :
    ((discard x).exec w).2 = (x.exec w).2 := by
  change ((x >>= fun _ => pure ()).exec w).2 = _
  rw [exec_bind]
  rcases x.exec w with ⟨_ | _, u⟩ <;> rfl

theorem exec_discard_eq_ok {x : Work ε α} {w w' : Workspace} {u : PUnit} :
    (discard x).exec w = (.ok u, w') ↔ ∃ a, x.exec w = (.ok a, w') := by
  have h : (discard x).exec w = (x >>= fun _ => pure ()).exec w := rfl
  rw [h, exec_bind_eq_ok]
  simp

theorem exec_query (repository method : String) (rows : α → Nat) (s : Statement α)
    (w : Workspace) :
    (query repository method rows s).exec w = match w.run s with
      | .ok (a, d) =>
        (.ok a, ⟨d, .query repository method (some (rows a)) :: w.activity, w.spent⟩)
      | .error e =>
        (.error e, { w with activity := .query repository method none :: w.activity }) := rfl

theorem exec_query_eq_ok {repository method : String} {rows : α → Nat} {s : Statement α}
    {w w' : Workspace} {a : α} :
    (query repository method rows s).exec w = (.ok a, w') ↔ w.connected = true ∧
      ∃ d, s.run w.draft = .ok (a, d) ∧
        w' = ⟨d, .query repository method (some (rows a)) :: w.activity, w.spent⟩ := by
  rw [exec_query, ← exists_and_left]
  simp only [← and_assoc, ← Workspace.run_eq_ok]
  cases w.run s with
  | error e => simp
  | ok p =>
    obtain ⟨b, d⟩ := p
    simp only [Prod.mk.injEq, Except.ok.injEq]
    constructor
    · rintro ⟨rfl, rfl⟩
      exact ⟨d, ⟨rfl, rfl⟩, rfl⟩
    · rintro ⟨d', ⟨rfl, rfl⟩, rfl⟩
      exact ⟨rfl, rfl⟩

section Queries
variable {repository method : String} {w w' : Workspace} {permitted : Bool} {e : StoreError}

/-- A query that reads, if it is permitted. -/
theorem exec_read_eq_ok {rows : α → Nat} {s : Statement α} {found : Except StoreError α} {a : α}
    (h : s.run w.draft = if permitted then found.map fun a => (a, w.draft) else .error e) :
    (query repository method rows s).exec w = (.ok a, w') ↔ w.connected = true ∧
      permitted = true ∧ found = .ok a ∧
      w' = ⟨w.draft, .query repository method (some (rows a)) :: w.activity, w.spent⟩ := by
  rw [exec_query_eq_ok, h]
  refine and_congr_right fun _ => ?_
  cases permitted with
  | false => simp
  | true =>
    cases found with
    | error e => simp [Except.map]
    | ok b =>
      simp only [↓reduceIte, Except.map, Except.ok.injEq, Prod.mk.injEq, true_and]
      constructor
      · rintro ⟨d, ⟨rfl, rfl⟩, rfl⟩
        exact ⟨rfl, rfl⟩
      · rintro ⟨rfl, rfl⟩
        exact ⟨_, ⟨rfl, rfl⟩, rfl⟩

/-- A query that writes, if it is permitted and nothing is in its way. -/
theorem exec_add_eq_ok {rows : Unit → Nat} {s : Statement Unit} {d : Draft} {present : Bool}
    {taken : StoreError}
    (h : s.run w.draft =
      if permitted then if present then .error taken else .ok ((), d) else .error e) :
    (query repository method rows s).exec w = (.ok (), w') ↔ w.connected = true ∧
      permitted = true ∧ present = false ∧
      w' = ⟨d, .query repository method (some (rows ())) :: w.activity, w.spent⟩ := by
  rw [exec_query_eq_ok, h]
  cases permitted <;> cases present <;> simp

theorem exec_write_eq_ok {rows : Unit → Nat} {s : Statement Unit} {d : Draft}
    (h : s.run w.draft = if permitted then .ok ((), d) else .error e) :
    (query repository method rows s).exec w = (.ok (), w') ↔ w.connected = true ∧
      permitted = true ∧
      w' = ⟨d, .query repository method (some (rows ())) :: w.activity, w.spent⟩ := by
  rw [exec_query_eq_ok, h]
  cases permitted <;> simp

end Queries

/-- A query leaves the draft alone, or it does what its statement does. -/
theorem draft_of_query {repository method : String} {rows : α → Nat} {s : Statement α}
    (w : Workspace) : ((query repository method rows s).exec w).2.draft = w.draft ∨
      ∃ a, s.run w.draft = .ok (a, ((query repository method rows s).exec w).2.draft) := by
  rw [exec_query]
  cases ran : w.run s with
  | error e => exact .inl rfl
  | ok p => exact .inr ⟨p.1, (Workspace.run_eq_ok.mp ran).2⟩

theorem draft_of_query_error {repository method : String} {rows : α → Nat} {s : Statement α}
    {w w' : Workspace} {e : StoreError}
    (h : (query repository method rows s).exec w = (.error e, w')) : w'.draft = w.draft := by
  rw [exec_query] at h
  split at h <;> cases h
  rfl

end Work

def withFaults (s : Store) (faults : Faults) : Store :=
  { s with database := { s.database with faults := faults } }

namespace Action
variable {α β ε : Type}

theorem bind_apply (x : Action ε α) (f : α → Action ε β) (s : Store) :
    (x >>= f) s = match x s with
      | (.ok a, s') => f a s'
      | (.error e, s') => (.error e, s') := by
  rcases h : x s with ⟨e | a, u⟩
  · exact run_bind_of_error h
  · exact run_bind_of_ok h

theorem bind_eq_ok {x : Action ε α} {f : α → Action ε β} {s s' : Store} {b : β} :
    (x >>= f) s = (.ok b, s') ↔ ∃ a u, x s = (.ok a, u) ∧ f a u = (.ok b, s') :=
  run_bind_eq_ok

theorem direct_eq_iff {work : Work ε α} {s s' : Store} {result : Except ε α} :
    direct work s = (result, s') ↔
      ∃ w, work.exec (.opened (.direct s.database) s.activity) = (result, w) ∧
        s' = ⟨w.draft.database, w.activity⟩ := by
  rcases ran : work.exec (.opened (.direct s.database) s.activity) with ⟨r, w⟩
  have h : direct work s = (r, ⟨w.draft.database, w.activity⟩) := by
    change (match work.exec (.opened (.direct s.database) s.activity) with
      | (result, w) => (result, (⟨w.draft.database, w.activity⟩ : Store))) = _
    rw [ran]
  rw [h]
  constructor
  · intro same
    cases same
    exact ⟨w, rfl, rfl⟩
  · rintro ⟨w', same, rfl⟩
    cases same
    rfl

/-- Whatever the work is and wherever in it the failure comes, a transaction that fails leaves the
database as it was. -/
theorem database_of_transaction_error {onBegin onCommit : StoreError → ε} {work : Work ε α}
    {s s' : Store} {e : ε} (h : transaction onBegin onCommit work s = (.error e, s')) :
    s'.database = s.database := by
  unfold transaction at h
  split at h
  · cases h
    rfl
  · split at h
    · cases h
      rfl
    · split at h
      · cases h
      · cases h
        rfl

theorem transaction_of_unclosed {onBegin onCommit : StoreError → ε} {work : Work ε α} {s : Store}
    (unclosed : s.database.faults.closed = false) : transaction onBegin onCommit work s =
      match work.exec (.opened ⟨s.database, false, false⟩ s.activity) with
      | (.error e, w) => (.error e, { s with activity := w.activity })
      | (.ok a, w) =>
        match w.commit with
        | .ok database => (.ok a, ⟨database, w.activity⟩)
        | .error e => (.error (onCommit e), { s with activity := w.activity }) := by
  unfold transaction
  rw [Draft.begin_eq_ok.mpr ⟨unclosed, rfl⟩]
  rfl

/-- A transaction succeeds if it can be opened, its work succeeds and nothing keeps it from being
committed. Then what its work wrote is permanent. -/
theorem transaction_eq_ok {onBegin onCommit : StoreError → ε} {work : Work ε α} {s s' : Store}
    {a : α} : transaction onBegin onCommit work s = (.ok a, s') ↔
      s.database.faults.closed = false ∧
      ∃ w, work.exec (.opened ⟨s.database, false, false⟩ s.activity) = (.ok a, w) ∧
        w.draft.doomed = false ∧ w.draft.database.faults.closed = false ∧ w.connected = true ∧
        s' = ⟨w.draft.database, w.activity⟩ := by
  cases unclosed : s.database.faults.closed with
  | true =>
    refine iff_of_false (fun h => ?_) fun h => by cases h.1
    unfold transaction Draft.begin at h
    rw [unclosed] at h
    cases h
  | false =>
    rw [transaction_of_unclosed unclosed, and_iff_right rfl]
    constructor
    · intro h
      split at h
      · cases h
      · rename_i b w ran
        split at h
        · rename_i database committed
          obtain ⟨undoomed, still, connected, rfl⟩ := Workspace.commit_eq_ok.mp committed
          cases h
          exact ⟨w, ran, undoomed, still, connected, rfl⟩
        · cases h
    · rintro ⟨w, ran, undoomed, still, connected, rfl⟩
      rw [ran]
      dsimp only
      rw [Workspace.commit_eq_ok.mpr ⟨undoomed, still, connected, rfl⟩]

end Action

end DecryptorNode.Store
