import DecryptorNode.Proofs.Sync.CallRuns

/-! Calls come to an end. All that can keep one from it is an address list that is asked for and
never read. -/
namespace DecryptorNode.Sync
open Chain (AddressReader AddressSet Update)
open Store (Action Work)

variable {α β : Type} {reader : AddressReader}

/-- Work that comes to an end. -/
def Settles (work : Work Halt α) : Prop := ∀ w, (work.exec w).1 ≠ .error .stalled

private theorem settles_pure (a : α) : Settles (pure a) := by
  intro w stalled
  cases stalled

private theorem settles_refuse (e : SyncError) : Settles (refuse e : Work Halt α) := by
  intro w stalled
  cases stalled

private theorem Settles.bind {work : Work Halt α} {next : α → Work Halt β} (h : Settles work)
    (h' : ∀ a, Settles (next a)) : Settles (work >>= next) := by
  intro w
  rw [Work.exec_bind]
  rcases ran : work.exec w with ⟨e | a, u⟩
  · intro stalled
    apply h w
    rw [ran]
    cases stalled
    rfl
  · exact h' a u

private theorem settles_stored (work : Work Store.StoreError α) : Settles (stored work) := by
  intro w
  have translated : (stored work).exec w =
      ((work.exec w).1.mapError fun e => .failed (.store e), (work.exec w).2) := rfl
  rw [translated]
  rcases (work.exec w).1 with e | a <;> intro stalled <;> cases stalled

/-- Reading a list ends if there is an answer. -/
private theorem settles_readAddresses {set : AddressSet} {index : Nat}
    (answers : (reader set index).reply ≠ .stalled) :
    Settles (readAddresses reader set index) := by
  refine .bind (fun w => ?_) fun _ => ?_
  · rw [exec_notes]
    intro stalled
    cases stalled
  · cases reply : (reader set index).reply with
    | addresses l => exact settles_pure l
    | failed e => exact settles_refuse _
    | stalled => exact absurd reply answers

private theorem settles_recordUpdate {contracts : Chain.WatchedContracts} {update : Update}
    (answers : ∀ list ∈ update.event.bind consulted?, (reader list.1 list.2).reply ≠ .stalled) :
    Settles (recordUpdate contracts reader update) := by
  have modular : Modular Settles :=
    { pure := settles_pure
      refuse := settles_refuse
      bind := .bind
      keyperSet := fun _ => settles_stored _
      member := fun _ => settles_stored _
      credential := fun _ _ _ => settles_stored _
      check := fun _ => settles_stored _
      position := fun _ => settles_stored _ }
  exact modular.recordUpdate fun list asked => settles_readAddresses (answers list asked)

/-- A transaction fails as its work does, or at its ends. -/
theorem transaction_eq_error {onBegin onCommit : Store.StoreError → Halt} {work : Work Halt α}
    {s s' : Store} {e : Halt}
    (h : Action.transaction onBegin onCommit work s = (.error e, s')) :
    (∃ w w', work.exec w = (.error e, w')) ∨ ∃ cause, e = onBegin cause ∨ e = onCommit cause := by
  unfold Action.transaction at h
  split at h
  · cases h
    exact .inr ⟨_, .inl rfl⟩
  · split at h
    · rename_i ran
      cases h
      exact .inl ⟨_, _, ran⟩
    · split at h
      · cases h
      · cases h
        exact .inr ⟨_, .inr rfl⟩

/-- A call that does not end waits for the list that its event refers to. -/
theorem stalled_of_outcome {contracts : Chain.WatchedContracts} {c : Call} {s s' : Store}
    (h : c.outcome contracts s = (.error .stalled, s')) :
    ∃ list ∈ c.update.event.bind consulted?, (c.reader list.1 list.2).reply = .stalled := by
  apply Classical.byContradiction
  intro none
  have answers : ∀ list ∈ c.update.event.bind consulted?,
      (c.reader list.1 list.2).reply ≠ .stalled := by
    intro list asked stalled
    exact none ⟨list, asked, stalled⟩
  obtain ⟨left, undone, -⟩ := attempt_of_apply h
  rcases transaction_eq_error undone with ⟨w, w', ran⟩ | ⟨cause, begun | committed⟩
  · apply settles_recordUpdate answers w
    rw [ran]
  · cases begun
  · cases committed

end DecryptorNode.Sync
