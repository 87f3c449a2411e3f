import DecryptorNode.Proofs.Sync.Replay

/-! Calls of the applier one after the other, each with a reader and a database that misbehaves in
ways of its own. What the tables that mirror the chain hold after them is the work of the calls that
succeeded. -/
namespace DecryptorNode.Sync
open Chain (Address AddressReader AddressSet ChainEvent Cursor Update)
open Store (ChainTables Faults IdentityRow Table)

/-- One call: the item to apply, and what the chain and the database are like at the time. -/
structure Call where
  update : Update
  reader : AddressReader
  faults : Faults

variable (contracts : Chain.WatchedContracts)

def Call.outcome (c : Call) (s : Store) : Except Halt Cursor × Store :=
  apply contracts c.reader c.update (s.withFaults c.faults)

/-- The store after some calls, which succeed or fail. -/
def called (s : Store) (calls : List Call) : Store :=
  calls.foldl (fun s c => (c.outcome contracts s).2) s

def landed : Store → List Call → List Update
  | _, [] => []
  | s, c :: rest =>
    match c.outcome contracts s with
    | (.ok _, s') => c.update :: landed s' rest
    | (.error _, s') => landed s' rest

/-- What an item makes of the identities. Only registrations with the two registries count. -/
def enrolled (t : Table String IdentityRow) (update : Update) : Table String IdentityRow :=
  match update.event with
  | some (.registered registration) =>
    match credentialOf? contracts registration.registry with
    | some credential => registered credential registration t
    | none => t
  | _ => t

variable {contracts} {s : Store} {calls more : List Call} {c : Call}

theorem called_append : called contracts s (calls ++ more) =
    called contracts (called contracts s calls) more := List.foldl_append

theorem landed_append : landed contracts s (calls ++ more) =
    landed contracts s calls ++ landed contracts (called contracts s calls) more := by
  induction calls generalizing s with
  | nil => rfl
  | cons c rest ih =>
    simp only [List.cons_append, landed, called, List.foldl_cons]
    split <;> rename_i ran
    · rw [ih, ran]
      rfl
    · rw [ih, ran]
      rfl

/-- A call that succeeds records its item in the tables that mirror the chain. -/
theorem recorded_of_outcome {cursor : Cursor} {s' : Store}
    (h : c.outcome contracts s = (.ok cursor, s')) :
    recordedItem contracts (readable c.reader) c.update s.database.tables.chain =
      some s'.database.tables.chain :=
  (applied_of_apply h).1.recorded

/-- A call that fails leaves the tables as they were. -/
theorem tables_of_outcome_error {e : Halt} {s' : Store}
    (h : c.outcome contracts s = (.error e, s')) : s'.database.tables = s.database.tables := by
  have same : s'.database = (s.withFaults c.faults).database := database_of_apply_error h
  rw [same]
  rfl

private theorem enrolled_of_recordedItem {lists : AddressSet → Nat → Option (List Address)}
    {update : Update} {t t' : ChainTables}
    (h : recordedItem contracts lists update t = some t') :
    t'.identities = enrolled contracts t.identities update := by
  unfold recordedItem at h
  unfold enrolled
  cases event : update.event with
  | none =>
    rw [event] at h
    cases h
    rfl
  | some e =>
    rw [event] at h
    cases e with
    | keyperConfig config =>
      obtain ⟨l, -, h⟩ := Option.bind_eq_some_iff.mp h
      obtain ⟨-, h⟩ := Option.ite_none_right_eq_some.mp h
      cases h
      rfl
    | decryptorConfig config =>
      obtain ⟨l, -, h⟩ := Option.bind_eq_some_iff.mp h
      obtain ⟨-, h⟩ := Option.ite_none_right_eq_some.mp h
      obtain ⟨rows, -, rfl⟩ := Option.map_eq_some_iff.mp h
      rfl
    | registered registration =>
      simp only [recorded] at h
      dsimp only
      cases chosen : credentialOf? contracts registration.registry with
      | none =>
        rw [chosen] at h
        cases h
        rfl
      | some credential =>
        rw [chosen] at h
        cases h
        rfl
    | unknown contract topic =>
      cases h
      rfl

private theorem identities_of_outcome {cursor : Cursor} {s' : Store}
    (h : c.outcome contracts s = (.ok cursor, s')) : s'.database.tables.identities =
      enrolled contracts s.database.tables.identities c.update :=
  enrolled_of_recordedItem (recorded_of_outcome h)

/-- The identities after some calls are what the items make of them that landed. -/
theorem identities_called : (called contracts s calls).database.tables.identities =
    (landed contracts s calls).foldl (enrolled contracts) s.database.tables.identities := by
  induction calls generalizing s with
  | nil => rfl
  | cons c rest ih =>
    change (called contracts (c.outcome contracts s).2 rest).database.tables.identities = _
    rw [ih, landed]
    split <;> rename_i ran
    · rw [ran, List.foldl_cons, ← identities_of_outcome ran]
    · rw [ran, tables_of_outcome_error ran]

section Sound
variable {reader : AddressReader} {us : List Update} {u : Update}

def soundCalls (reader : AddressReader) (us : List Update) : List Call :=
  us.map fun u => ⟨u, reader, .none⟩

/-- There is a position after the item, and the table of positions has room for it. -/
def Fits (u : Update) : Prop :=
  ∃ cursor, u.nextCursor? = some cursor ∧ cursor.block < 2 ^ 63 ∧ cursor.index < 2 ^ 63

theorem fits_event (event : ChainEvent) {block index : Nat} (early : block < 2 ^ 63)
    (few : index + 1 < 2 ^ 63) : Fits ⟨some event, block, index⟩ := by
  have room : index < Chain.maxWord := by
    unfold Chain.maxWord
    omega
  exact ⟨⟨block, index + 1⟩, if_pos room, early, few⟩

/-- A call lands if its event can be recorded and its position fits. -/
theorem lands_iff :
    (∃ cursor s', (Call.mk u reader .none).outcome contracts s = (.ok cursor, s')) ↔
      (recordedItem contracts (readable reader) u s.database.tables.chain).isSome ∧ Fits u :=
  applies_iff contracts reader u s

private theorem length_landed_le : (landed contracts s calls).length ≤ calls.length := by
  induction calls generalizing s with
  | nil => exact Nat.le_refl 0
  | cons c rest ih =>
    rw [landed]
    split
    · exact Nat.succ_le_succ ih
    · exact Nat.le_succ_of_le ih

private theorem landed_soundCalls_cons {rest : List Update} :
    landed contracts s (soundCalls reader (u :: rest)) = u :: rest ↔
      ∃ cursor s', (Call.mk u reader .none).outcome contracts s = (.ok cursor, s') ∧
        landed contracts s' (soundCalls reader rest) = rest := by
  change landed contracts s (⟨u, reader, .none⟩ :: soundCalls reader rest) = u :: rest ↔ _
  rw [landed]
  rcases ran : (Call.mk u reader .none).outcome contracts s with ⟨e | cursor, s'⟩
  · have short : (landed contracts s' (soundCalls reader rest)).length ≤ rest.length :=
      Nat.le_trans length_landed_le (Nat.le_of_eq (List.length_map _))
    constructor
    · intro all
      exact absurd (congrArg List.length all) (Nat.ne_of_lt (Nat.lt_succ_of_le short))
    · rintro ⟨cursor, left, landing, -⟩
      cases landing
  · constructor
    · intro all
      exact ⟨cursor, s', rfl, (List.cons.inj all).2⟩
    · rintro ⟨cursor, left, landing, others⟩
      cases landing
      exact congrArg (u :: ·) others

/-- All items land if, and only if, they can be recorded one after the other and their positions
fit. -/
theorem landed_soundCalls_iff : landed contracts s (soundCalls reader us) = us ↔
    (recordedAll contracts (readable reader) us s.database.tables.chain).isSome ∧
      ∀ u ∈ us, Fits u := by
  induction us generalizing s with
  | nil => exact ⟨fun _ => ⟨rfl, fun u mem => by cases mem⟩, fun _ => rfl⟩
  | cons u rest ih =>
    rw [landed_soundCalls_cons, List.forall_mem_cons, recordedAll]
    constructor
    · rintro ⟨cursor, s', ran, others⟩
      obtain ⟨possible, fits⟩ := lands_iff.mp ⟨cursor, s', ran⟩
      rw [recorded_of_outcome ran, Option.bind_some]
      exact ⟨(ih.mp others).1, fits, (ih.mp others).2⟩
    · rintro ⟨value, fits, later⟩
      obtain ⟨last, value⟩ := Option.isSome_iff_exists.mp value
      obtain ⟨t, possible, value⟩ := Option.bind_eq_some_iff.mp value
      obtain ⟨cursor, s', ran⟩ := lands_iff.mpr
        ⟨Option.isSome_of_eq_some possible, fits⟩
      have same : t = s'.database.tables.chain :=
        Option.some.inj (possible.symm.trans (recorded_of_outcome ran))
      refine ⟨cursor, s', ran, ih.mpr ⟨?_, later⟩⟩
      rw [← same, value]
      rfl

/-- Where all items land the tables hold what recording them gives. -/
theorem chain_of_landed (all : landed contracts s (soundCalls reader us) = us) :
    recordedAll contracts (readable reader) us s.database.tables.chain =
      some (called contracts s (soundCalls reader us)).database.tables.chain := by
  induction us generalizing s with
  | nil => rfl
  | cons u rest ih =>
    obtain ⟨cursor, s', ran, others⟩ := landed_soundCalls_cons.mp all
    rw [recordedAll, recorded_of_outcome ran, Option.bind_some]
    change _ = some (called contracts ((Call.mk u reader .none).outcome contracts s).2
      (soundCalls reader rest)).database.tables.chain
    rw [ih others, ran]

/-- A registration can always be recorded. -/
theorem landed_registrations (each : ∀ u ∈ us, Fits u ∧ ∃ r, u.event = some (.registered r)) :
    landed contracts s (soundCalls reader us) = us := by
  refine landed_soundCalls_iff.mpr ⟨?_, fun u mem => (each u mem).1⟩
  generalize s.database.tables.chain = t
  induction us generalizing t with
  | nil => rfl
  | cons u rest ih =>
    obtain ⟨⟨-, r, carries⟩, others⟩ := List.forall_mem_cons.mp each
    have possible : ∃ t', recordedItem contracts (readable reader) u t = some t' := by
      rw [recordedItem, carries]
      dsimp only [recorded]
      split
      · exact ⟨_, rfl⟩
      · exact ⟨_, rfl⟩
    obtain ⟨t', recording⟩ := possible
    rw [recordedAll, recording, Option.bind_some]
    exact ih others t'

end Sound
end DecryptorNode.Sync
