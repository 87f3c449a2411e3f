import DecryptorNode.Proofs.Store.QueryLaws

/-! Every query belongs to one table. Whatever comes of it, the other tables stay as they are, the
database behaves as before, and an open transaction is doomed only while commits are failing. -/
namespace DecryptorNode.Store

abbrev TableName.Content : TableName → Type
  | .progress => Table Int ProgressRow
  | .keyperSets => Table Int KeyperSetRow
  | .setMembers => Table MemberKey String
  | .identities => Table String IdentityRow
  | .epochKeys => Table EpochKey Bytes
  | .eonKeys => Table Int EonKeyRow

namespace Tables

def content (t : Tables) : (name : TableName) → name.Content
  | .progress => t.progress
  | .keyperSets => t.keyperSets
  | .setMembers => t.setMembers
  | .identities => t.identities
  | .epochKeys => t.epochKeys
  | .eonKeys => t.eonKeys

def withContent (t : Tables) : (name : TableName) → name.Content → Tables
  | .progress, c => { t with progress := c }
  | .keyperSets, c => { t with keyperSets := c }
  | .setMembers, c => { t with setMembers := c }
  | .identities, c => { t with identities := c }
  | .epochKeys, c => { t with epochKeys := c }
  | .eonKeys, c => { t with eonKeys := c }

private theorem content_withContent_of_ne (t : Tables) {name other : TableName} (c : name.Content)
    (h : other ≠ name) : (t.withContent name c).content other = t.content other := by
  cases name <;> cases other <;> first | contradiction | rfl

end Tables

/-- What a draft can become through a query on one table. -/
structure Draft.ChangedIn (name : TableName) (d d' : Draft) : Prop where
  others : ∀ other ≠ name, d'.tables.content other = d.tables.content other
  faults : d'.database.faults = d.database.faults
  doomed : d.database.faults.failingCommits = false → d'.doomed = d.doomed

def Statement.On {α : Type} (name : TableName) (s : Statement α) : Prop :=
  ∀ d a d', s.run d = .ok (a, d') → d.ChangedIn name d'

/-- Work on one table. It does not make its connection one that is lost. -/
structure Work.On {α ε : Type} (name : TableName) (work : Work ε α) : Prop where
  draft : ∀ w : Workspace, w.draft.ChangedIn name (work.exec w).2.draft
  lasting : ∀ w : Workspace, w.lasts = none → (work.exec w).2.lasts = none

namespace Draft.ChangedIn
variable {name : TableName} {d d' : Draft}

private theorem refl (d : Draft) : d.ChangedIn name d := ⟨fun _ _ => rfl, rfl, fun _ => rfl⟩

private theorem saved (name : TableName) (d : Draft) (c : name.Content) :
    d.ChangedIn name (d.saved (d.tables.withContent name c)) where
  others _ ne := d.tables.content_withContent_of_ne c ne
  faults := rfl
  doomed _ := rfl

theorem sound (h : d.ChangedIn name d') (sound : d.Sound) : d'.Sound := h.faults.trans sound

/-- Without faults nothing dooms a transaction. -/
theorem doomed_of_sound (h : d.ChangedIn name d') (sound : d.Sound) : d'.doomed = d.doomed :=
  h.doomed sound.commits

end Draft.ChangedIn

/-- A write whose commit may fail changes what the write changes. -/
private theorem Statement.changedIn_of_guarded {α : Type} (name : TableName) {c : name.Content}
    {next : Statement α} {d d' : Draft} {a b : α}
    (saves : ∀ d₁ : Draft, next.run d₁ = .ok (a, d₁.saved (d.tables.withContent name c)))
    (ran : (guarded >>= fun _ => next).run d = .ok (b, d')) : d.ChangedIn name d' := by
  -- While commits fail, a statement that commits by itself is refused, and a transaction goes on
  -- although it is doomed.
  rw [StateT.run_bind, run_guarded] at ran
  split at ran
  · rename_i failing
    split at ran
    · cases ran
    · cases (saves _).symm.trans ran
      exact ⟨(Draft.ChangedIn.saved name d c).others, rfl, fun lasting => by
        rw [lasting] at failing
        cases failing⟩
  · cases (saves _).symm.trans ran
    exact .saved name d c

namespace Work
variable {α ε : Type} {name : TableName} {repository method : String} {rows : α → Nat}
  {s : Statement α}

private theorem lasts_of_query {w : Workspace} (lasting : w.lasts = none) :
    ((Work.query repository method rows s).exec w).2.lasts = none := by
  rw [exec_query]
  cases w.run s with
  | error e => exact lasting
  | ok p =>
    change w.spent = none
    rw [Workspace.spent, lasting]
    rfl

private theorem On.query (h : s.On name) : (Work.query repository method rows s).On name where
  draft w := by
    rcases draft_of_query w with same | ⟨a, ran⟩
    · rw [same]
      exact .refl _
    · exact h w.draft a _ ran
  lasting _ := lasts_of_query

section Reads
variable {found : Draft → Except StoreError α} {permitted : Draft → Bool} {e : StoreError}
  (h : ∀ d, s.run d = if permitted d then (found d).map fun a => (a, d) else .error e)
include h

/-- A query that reads changes nothing. -/
theorem draft_of_read (w : Workspace) :
    ((Work.query repository method rows s).exec w).2.draft = w.draft := by
  rcases draft_of_query w with same | ⟨a, ran⟩
  · exact same
  · rw [h] at ran
    split at ran
    · cases got : found w.draft with
      | error e =>
        rw [got] at ran
        cases ran
      | ok b =>
        rw [got] at ran
        exact (congrArg Prod.snd (Except.ok.inj ran)).symm
    · cases ran

private theorem On.read : (Work.query repository method rows s).On name where
  draft w := by
    rw [draft_of_read h w]
    exact .refl _
  lasting _ := lasts_of_query

end Reads

theorem On.discard {work : Work ε α} (h : work.On name) : (discard work).On name where
  draft w := by
    rw [exec_discard_snd]
    exact h.draft w
  lasting w := by
    rw [exec_discard_snd]
    exact h.lasting w

end Work

section Queries
open Statement (changedIn_of_guarded)

theorem Progress.on_get : get.On .progress := .read run_read

theorem Progress.on_update (cursor : Chain.Cursor) : (update cursor).On .progress := by
  refine .query fun d a d' ran => ?_
  cases fits : toRow cursor with
  | error e =>
    rw [fits] at ran
    cases ran
  | ok row =>
    rw [fits] at ran
    change (write row).run d = _ at ran
    rw [write, Statement.run_bind_writing] at ran
    split at ran
    · exact changedIn_of_guarded .progress (fun _ => rfl) ran
    · cases ran

theorem KeyperSets.on_get (activation : Int) : (get activation).On .keyperSets :=
  .read (run_read activation)

theorem KeyperSets.on_insert (set : KeyperSet) : (insert set).On .keyperSets := by
  refine .query fun d a d' ran => ?_
  rw [run_add] at ran
  split at ran
  · split at ran
    · cases ran
    · cases ran
      exact .saved .keyperSets d _
  · cases ran

theorem DecryptorSets.on_getMembers (activation : Int) : (getMembers activation).On .setMembers :=
  .read (run_read activation)

theorem DecryptorSets.on_insertMember (member : SetMember) :
    (insertMember member).On .setMembers := by
  refine .query fun d a d' ran => ?_
  rw [run_add] at ran
  split at ran
  · split at ran
    · cases ran
    · cases ran
      exact .saved .setMembers d _
  · cases ran

theorem Identities.on_get (address : String) : (get address).On .identities :=
  .read (run_read address)

theorem Identities.on_upsert (address : String) (credential : Credential) (value : Bytes) :
    (upsert address credential value).On .identities := by
  refine .query fun d a d' ran => ?_
  rw [run_write] at ran
  split at ran
  · cases ran
    exact .saved .identities d _
  · cases ran

theorem Identities.on_markVerified (address : String) : (markVerified address).On .identities := by
  refine .query fun d a d' ran => ?_
  rw [run_mark] at ran
  split at ran
  · split at ran
    · split at ran
      · cases ran
        exact .refl d
      · split at ran
        · cases ran
          exact .saved .identities d _
        · cases ran
    · cases ran
      exact .refl d
  · cases ran

theorem EpochKeys.on_get (eon : Int) (epochId : Bytes) : (get eon epochId).On .epochKeys :=
  .read (run_read eon epochId)

theorem EpochKeys.on_insert (entry : EpochKeyEntry) : (insert entry).On .epochKeys := by
  refine .query fun d a d' ran => ?_
  rw [add, Statement.run_bind_writing] at ran
  split at ran
  · dsimp only at ran
    split at ran
    · cases ran
      exact .refl d
    · exact changedIn_of_guarded .epochKeys (fun _ => rfl) ran
  · cases ran

theorem EonKeys.on_get (eon : Int) : (get eon).On .eonKeys := .read (run_read eon)

theorem EonKeys.on_insert (entry : EonKeyEntry) : (insert entry).On .eonKeys := by
  refine .query fun d a d' ran => ?_
  rw [run_write] at ran
  split at ran
  · cases ran
    exact .saved .eonKeys d _
  · cases ran

end Queries
end DecryptorNode.Store
