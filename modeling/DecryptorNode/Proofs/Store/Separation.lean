import DecryptorNode.Proofs.Store.QueryLaws

/-! The store has two sides: the tables that follow the chain, and the keys. Work on one side gives
the same result and makes the same changes whatever the other side holds, so two actions on
different sides can change places. -/
namespace DecryptorNode.Store
open Telemetry (Activity)

/-- What follows the chain in the first tables, with the keys of the second. -/
def Tables.join (records keys : Tables) : Tables :=
  { records with epochKeys := keys.epochKeys, eonKeys := keys.eonKeys }

def Draft.amid (f : Tables → Tables) (d : Draft) : Draft := d.saved (f d.tables)

def Workspace.amid (f : Tables → Tables) (past : List Activity) (w : Workspace) : Workspace :=
  { w with draft := w.draft.amid f, activity := w.activity ++ past }

def amid (f : Tables → Tables) (past : List Activity) (s : Store) : Store :=
  ⟨{ s.database with tables := f s.database.tables }, s.activity ++ past⟩

/-- A statement that runs alike before and after a change to tables, and keeps the change. -/
def Statement.Apart {α : Type} (f : Tables → Tables) (s : Statement α) : Prop :=
  ∀ d, s.run (d.amid f) = (s.run d).map fun p => (p.1, p.2.amid f)

def Work.Apart {α ε : Type} (f : Tables → Tables) (work : Work ε α) : Prop :=
  ∀ past w, work.exec (w.amid f past) = ((work.exec w).1, (work.exec w).2.amid f past)

def Apart {α : Type} (f : Tables → Tables) (action : Store → α × Store) : Prop :=
  ∀ past s, action (s.amid f past) = ((action s).1, (action s).2.amid f past)

namespace Work
variable {α β ε δ : Type} {f : Tables → Tables}

theorem Apart.pure (a : α) : Apart f (pure a : Work ε α) := fun _ _ => rfl

theorem Apart.throw (e : ε) : Apart f (throw e : Work ε α) := fun _ _ => rfl

theorem Apart.note (a : Activity) : Apart f (note a : Work ε Unit) := fun _ _ => rfl

theorem Apart.bind {x : Work ε α} {k : α → Work ε β} (hx : Apart f x)
    (hk : ∀ a, Apart f (k a)) : Apart f (x >>= k) := by
  intro past w
  have first := hx past w
  rw [exec_bind, exec_bind, first]
  rcases x.exec w with ⟨e | a, u⟩
  · rfl
  · exact hk a past u

theorem Apart.discard {x : Work ε α} (hx : Apart f x) : Apart f (discard x) :=
  hx.bind fun _ => .pure ()

theorem Apart.mapError {x : Work ε α} (hx : Apart f x) (g : ε → δ) : Apart f (x.mapError g) := by
  intro past w
  have inner := hx past w
  change ((x.exec (w.amid f past)).1.mapError g, (x.exec (w.amid f past)).2) = _
  rw [inner]
  rfl

theorem Apart.forM {l : List α} {k : α → Work ε PUnit} (hk : ∀ a, Apart f (k a)) :
    Apart f (l.forM k) := by
  induction l with
  | nil => exact .pure _
  | cons a rest ih => exact (hk a).bind fun _ => ih

private theorem Apart.query {repository method : String} {rows : α → Nat} {s : Statement α}
    (hs : s.Apart f) : Apart f (query repository method rows s) := by
  intro past w
  have same : (w.amid f past).run s = (w.run s).map fun p => (p.1, p.2.amid f) := by
    have severed : s.run (w.amid f past).draft.severed = _ := hs w.draft.severed
    have kept : (w.amid f past).connected = w.connected := rfl
    rw [Workspace.run, Workspace.run, kept]
    cases w.connected with
    | true => exact hs w.draft
    | false =>
      rw [severed]
      cases s.run w.draft.severed <;> rfl
  rw [exec_query, exec_query, same]
  cases w.run s with
  | error e => rfl
  | ok p => rfl

end Work

namespace Apart
variable {α β ε : Type} {f : Tables → Tables}

private theorem commit_amid (w : Workspace) (past : List Activity) : (w.amid f past).commit =
    w.commit.map fun d => { d with tables := f d.tables } := by
  change (if w.draft.doomed || w.draft.database.faults.closed || !w.connected then _ else _) = _
  unfold Workspace.commit
  split <;> rfl

theorem transaction {onBegin onCommit : StoreError → ε} {work : Work ε α} (h : work.Apart f) :
    Apart f (Action.transaction onBegin onCommit work) := by
  intro past s
  cases unclosed : s.database.faults.closed with
  | true => simp [Action.transaction, Draft.begin, Store.amid, unclosed]
  | false =>
    have ran : work.exec (.opened ⟨(s.amid f past).database, false, false⟩
        (s.amid f past).activity) = _ := h past (.opened ⟨s.database, false, false⟩ s.activity)
    rw [Action.transaction_of_unclosed unclosed,
      Action.transaction_of_unclosed (s := s.amid f past) unclosed, ran]
    rcases work.exec (.opened ⟨s.database, false, false⟩ s.activity) with ⟨e | a, w⟩
    · rfl
    · dsimp only
      rw [commit_amid]
      cases w.commit <;> rfl

theorem direct {work : Work ε α} (h : work.Apart f) : Apart f (Action.direct work) := by
  intro past s
  have shape (t : Store) : Action.direct work t =
      ((work.exec (.opened (.direct t.database) t.activity)).1,
        ⟨(work.exec (.opened (.direct t.database) t.activity)).2.draft.database,
          (work.exec (.opened (.direct t.database) t.activity)).2.activity⟩) := rfl
  have ran : work.exec (.opened (.direct (s.amid f past).database) (s.amid f past).activity) = _ :=
    h past (.opened (.direct s.database) s.activity)
  rw [shape, shape, ran]
  rfl

end Apart

section Queries
variable {keys records : Tables} {ε : Type}

theorem KeyperSets.apart_insert (set : KeyperSet) : (insert set).Apart (Tables.join · keys) := by
  apply Work.Apart.query
  intro d
  rw [run_add, run_add]
  change (if d.database.canWrite .keyperSets then
    if d.tables.keyperSets.contains set.activation then _ else _ else _) = _
  split
  · split <;> rfl
  · rfl

theorem DecryptorSets.apart_insertMember (member : SetMember) :
    (insertMember member).Apart (Tables.join · keys) := by
  apply Work.Apart.query
  intro d
  rw [run_add, run_add]
  change (if d.database.canWrite .setMembers then
    if d.tables.setMembers.contains ⟨member.activation, member.index⟩ then _ else _ else _) = _
  split
  · split <;> rfl
  · rfl

theorem Identities.apart_get (address : String) : (get address).Apart (Tables.join · keys) := by
  apply Work.Apart.query
  intro d
  rw [run_read, run_read]
  change (if d.database.canRead .identities then _ else _) = _
  split <;> rfl

theorem Identities.apart_upsert (address : String) (credential : Credential) (value : Bytes) :
    (upsert address credential value).Apart (Tables.join · keys) := by
  apply Work.Apart.query
  intro d
  rw [run_write, run_write]
  change (if d.database.canWrite .identities then _ else _) = _
  split <;> rfl

theorem Identities.apart_markVerified (address : String) :
    (markVerified address).Apart (Tables.join · keys) := by
  apply Work.Apart.query
  intro d
  have same : (d.amid (Tables.join · keys)).tables.identities = d.tables.identities := rfl
  rw [run_mark, run_mark, same]
  change (if d.database.canRead .identities then _ else _) = _
  split
  · cases d.tables.identities.find? address with
    | none => rfl
    | some row =>
      cases unverified : row.verified with
      | true => simp [unverified, Except.map]
      | false =>
        simp only [unverified, Bool.false_eq_true, ↓reduceIte]
        change (if d.database.canWrite .identities then _ else _) = _
        split <;> rfl
  · rfl

/-- A statement whose commit may fail marks the draft and then does what it does in any case. -/
private theorem run_guarded_amid {α : Type} {f : Tables → Tables} {k k' : Statement α}
    (h : ∀ d, k'.run (d.amid f) = (k.run d).map fun p => (p.1, p.2.amid f)) (d : Draft) :
    (Statement.guarded >>= fun _ => k').run (d.amid f) =
      ((Statement.guarded >>= fun _ => k).run d).map fun p => (p.1, p.2.amid f) := by
  rw [StateT.run_bind, StateT.run_bind, Statement.run_guarded, Statement.run_guarded]
  change (if d.database.faults.failingCommits then if d.autocommit then _ else _ else _) >>= _ = _
  split
  · split
    · rfl
    · exact h { d with doomed := true }
  · exact h d

theorem Progress.apart_update (cursor : Chain.Cursor) :
    (update cursor).Apart (Tables.join · keys) := by
  apply Work.Apart.query
  intro d
  cases toRow cursor with
  | error e => rfl
  | ok row =>
    change (write row).run _ = ((write row).run d).map _
    rw [write, Statement.run_bind_writing, Statement.run_bind_writing]
    change (if d.database.canWrite .progress then _ else _) = _
    split
    · exact run_guarded_amid (fun _ => rfl) d
    · rfl

theorem EonKeys.apart_get (eon : Int) : (get eon).Apart (Tables.join records) := by
  apply Work.Apart.query
  intro d
  rw [run_read, run_read]
  change (if d.database.canRead .eonKeys then _ else _) = _
  split <;> rfl

theorem EpochKeys.apart_insert (entry : EpochKeyEntry) :
    (insert entry).Apart (Tables.join records) := by
  apply Work.Apart.query
  intro d
  rw [add, Statement.run_bind_writing, Statement.run_bind_writing]
  have same : (d.amid (Tables.join records)).tables.epochKeys = d.tables.epochKeys := rfl
  change (if d.database.canWrite .epochKeys then _ else _) = _
  split
  · dsimp only
    rw [same]
    split
    · rfl
    · exact run_guarded_amid (fun _ => rfl) d
  · rfl

end Queries

/-- An action that runs alike whatever the tables hold that are not its own. -/
structure Confined {α : Type} (others : Tables → Tables → Tables) (action : Store → α × Store) :
    Prop where
  apart : ∀ t, Apart (others t) action
  faults : ∀ s, (action s).2.database.faults = s.database.faults

/-- An action on what follows the chain. It neither reads nor writes keys. -/
abbrev OnRecords {α : Type} (action : Store → α × Store) : Prop :=
  Confined (fun keys t => t.join keys) action

/-- An action on keys. It neither reads nor writes what follows the chain. -/
abbrev OnKeys {α : Type} (action : Store → α × Store) : Prop :=
  Confined (fun records t => records.join t) action

namespace Confined
variable {α β τ : Type} {others : Tables → Tables → Tables} {action : Store → α × Store}

theorem pure (a : α) : Confined others fun s => (a, s) := ⟨fun _ _ _ => rfl, fun _ => rfl⟩

/-- What happens next may depend on the result of what happened before. -/
theorem andThen (h : Confined others action) {next : α → Store → β × Store}
    (hn : ∀ a, Confined others (next a)) :
    Confined others fun s => next (action s).1 (action s).2 where
  apart t past s := by
    dsimp only
    rw [h.apart t past s]
    exact (hn (action s).1).apart t past (action s).2
  faults s := ((hn (action s).1).faults (action s).2).trans (h.faults s)

/-- To record what came of an action is no more than the action. -/
theorem recording (h : Confined others action) (entries : α → List Activity) :
    Confined others fun s => ((action s).1,
      { (action s).2 with activity := entries (action s).1 ++ (action s).2.activity }) := by
  have entered (a : α) :
      Confined others fun s => (a, (⟨s.database, entries a ++ s.activity⟩ : Store)) := by
    constructor
    · intro t past s
      simp [Store.amid]
    · exact fun _ => rfl
  exact h.andThen entered

end Confined

/-- The store with nothing recorded. -/
def bare (s : Store) : Store := ⟨s.database, []⟩

def inTurn {τ α : Type} (act : τ → Store → α × Store) : List τ → Store → List α × Store
  | [], s => ([], s)
  | t :: rest, s =>
    let after := inTurn act rest (act t s).2
    ((act t s).1 :: after.1, after.2)

def either {σ τ α β : Type} (left : σ → Store → α × Store) (right : τ → Store → β × Store) :
    σ ⊕ τ → Store → (α ⊕ β) × Store
  | .inl t, s => (.inl (left t s).1, (left t s).2)
  | .inr t, s => (.inr (right t s).1, (right t s).2)

private theorem Confined.inTurn {τ α : Type} {others : Tables → Tables → Tables}
    {act : τ → Store → α × Store} (h : ∀ t, Confined others (act t)) (tasks : List τ) :
    Confined others (inTurn act tasks) := by
  induction tasks with
  | nil => exact .pure []
  | cons t rest ih => exact (h t).andThen fun a => ih.andThen fun rest => .pure (a :: rest)

section Sides
variable {α β σ τ : Type} {x : Store → α × Store} {y : Store → β × Store}

private theorem OnRecords.run (h : OnRecords x) (s : Store) (keys : Tables) (past : List Activity) :
    x ⟨⟨s.database.tables.join keys, s.database.faults⟩, past⟩ =
      ((x s.bare).1, ⟨⟨(x s.bare).2.database.tables.join keys, s.database.faults⟩,
        (x s.bare).2.activity ++ past⟩) := by
  have ran := h.apart keys past s.bare
  have faults : (x s.bare).2.database.faults = s.database.faults := h.faults s.bare
  change x ⟨⟨s.database.tables.join keys, s.database.faults⟩, past⟩ = _ at ran
  rw [ran, Store.amid, ← faults]

private theorem OnKeys.run (h : OnKeys y) (s : Store) (records : Tables) (past : List Activity) :
    y ⟨⟨records.join s.database.tables, s.database.faults⟩, past⟩ =
      ((y s.bare).1, ⟨⟨records.join (y s.bare).2.database.tables, s.database.faults⟩,
        (y s.bare).2.activity ++ past⟩) := by
  have ran := h.apart records past s.bare
  have faults : (y s.bare).2.database.faults = s.database.faults := h.faults s.bare
  change y ⟨⟨records.join s.database.tables, s.database.faults⟩, past⟩ = _ at ran
  rw [ran, Store.amid, ← faults]

/-- What an action on records leaves, by what it does where nothing was recorded. -/
theorem OnRecords.eq (h : OnRecords x) (s : Store) :
    x s = ((x s.bare).1, ⟨⟨(x s.bare).2.database.tables.join s.database.tables, s.database.faults⟩,
      (x s.bare).2.activity ++ s.activity⟩) :=
  OnRecords.run h s s.database.tables s.activity

theorem OnKeys.eq (h : OnKeys y) (s : Store) :
    y s = ((y s.bare).1, ⟨⟨s.database.tables.join (y s.bare).2.database.tables, s.database.faults⟩,
      (y s.bare).2.activity ++ s.activity⟩) :=
  OnKeys.run h s s.database.tables s.activity

/-- Actions on different sides, the one on records first: each does what it does alone. -/
theorem keys_after_records (hx : OnRecords x) (hy : OnKeys y) (s : Store) :
    y (x s).2 = ((y s).1, ⟨⟨(x s).2.database.tables.join (y s).2.database.tables,
      s.database.faults⟩, (y s.bare).2.activity ++ ((x s.bare).2.activity ++ s.activity)⟩) := by
  rw [OnRecords.eq hx s, OnKeys.eq hy s]
  exact OnKeys.run hy s (x s.bare).2.database.tables ((x s.bare).2.activity ++ s.activity)

/-- The same in the other order. -/
theorem records_after_keys (hx : OnRecords x) (hy : OnKeys y) (s : Store) :
    x (y s).2 = ((x s).1, ⟨⟨(x s).2.database.tables.join (y s).2.database.tables,
      s.database.faults⟩, (x s.bare).2.activity ++ ((y s.bare).2.activity ++ s.activity)⟩) := by
  rw [OnRecords.eq hx s, OnKeys.eq hy s]
  exact OnRecords.run hx s (y s.bare).2.database.tables ((y s.bare).2.activity ++ s.activity)

/-- Actions on the two sides, in whatever order they come, give the results and leave the tables
that those on each side give and leave alone. -/
theorem inTurn_either {left : σ → Store → α × Store} {right : τ → Store → β × Store}
    (hl : ∀ t, OnRecords (left t)) (hr : ∀ t, OnKeys (right t)) (tasks : List (σ ⊕ τ))
    (s : Store) :
    let whole := inTurn (either left right) tasks s
    let lefts := inTurn left (tasks.filterMap Sum.getLeft?) s
    let rights := inTurn right (tasks.filterMap Sum.getRight?) s
    whole.1.filterMap Sum.getLeft? = lefts.1 ∧ whole.1.filterMap Sum.getRight? = rights.1 ∧
      whole.2.database =
        ⟨lefts.2.database.tables.join rights.2.database.tables, s.database.faults⟩ := by
  induction tasks generalizing s with
  | nil => exact ⟨rfl, rfl, rfl⟩
  | cons task rest ih =>
    cases task with
    | inl t =>
      obtain ⟨lefts, rights, database⟩ := ih (left t s).2
      have alone := keys_after_records (hl t) (.inTurn hr (rest.filterMap Sum.getRight?)) s
      have faults := (hl t).faults s
      simp only [inTurn, either, List.filterMap_cons, Sum.getLeft?, Sum.getRight?]
      refine ⟨congrArg _ lefts, ?_, ?_⟩
      · rw [rights, alone]
      · rw [database, alone, faults]
        rfl
    | inr t =>
      obtain ⟨lefts, rights, database⟩ := ih (right t s).2
      have alone := records_after_keys (.inTurn hl (rest.filterMap Sum.getLeft?)) (hr t) s
      have faults := (hr t).faults s
      simp only [inTurn, either, List.filterMap_cons, Sum.getLeft?, Sum.getRight?]
      refine ⟨?_, congrArg _ rights, ?_⟩
      · rw [lefts, alone]
      · rw [database, alone, faults]
        rfl

end Sides
end DecryptorNode.Store
