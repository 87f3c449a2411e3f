import DecryptorNode.Proofs.Sync.Endings
import DecryptorNode.Proofs.Sync.IdentityHistory

/-! Applied configuration only grows. Rows of keyper sets and of decryptor sets stay as they were
written, flags of identities are not lowered, and the members of an activation block stand at the
positions from zero on, all of them written by one event. -/
namespace DecryptorNode.Sync
open Chain (Address AddressReader AddressSet ChainEvent Cursor DecryptorConfig Update)
open Store (ChainTables IdentityRow MemberKey Table)

/-- Rows of configurations stay, identities stay, and a flag that is up stays up. -/
structure Grows (t t' : ChainTables) : Prop where
  keyperSets : t.keyperSets.rows.Sublist t'.keyperSets.rows
  setMembers : t.setMembers.rows.Sublist t'.setMembers.rows
  identities : ∀ account row, t.identities.find? account = some row →
    ∃ row', t'.identities.find? account = some row' ∧
      (row.verified = true → row'.verified = true)

/-- Rows are in order, and no number in them is negative. -/
structure WellFormed (t : ChainTables) : Prop where
  keyperOrder : t.keyperSets.Ordered
  memberOrder : t.setMembers.Ordered
  keyperSigns : ∀ entry ∈ t.keyperSets.rows, 0 ≤ entry.1 ∧ 0 ≤ entry.2.threshold
  memberSigns : ∀ entry ∈ t.setMembers.rows, 0 ≤ entry.1.activation ∧ 0 ≤ entry.1.index

def seated (activation : Int) (t : Table MemberKey String) : List (MemberKey × String) :=
  t.rows.filter fun row => row.1.activation = activation

def seats (activation : Int) (members : List Address) : List (MemberKey × String) :=
  members.mapIdx fun position a => (⟨activation, position⟩, a.text)

section Growth
variable {contracts : Chain.WatchedContracts} {t t' t'' : ChainTables} {update : Update}
  {lists : AddressSet → Nat → Option (List Address)}

private theorem Grows.refl (t : ChainTables) : Grows t t where
  keyperSets := List.Sublist.refl _
  setMembers := List.Sublist.refl _
  identities := by
    intro account row found
    exact ⟨row, found, id⟩

private theorem Grows.trans (h : Grows t t') (h' : Grows t' t'') : Grows t t'' where
  keyperSets := h.keyperSets.trans h'.keyperSets
  setMembers := h.setMembers.trans h'.setMembers
  identities := by
    intro account row found
    obtain ⟨row', found', kept⟩ := h.identities account row found
    obtain ⟨row'', found'', kept'⟩ := h'.identities account row' found'
    exact ⟨row'', found'', fun verified => kept' (kept verified)⟩

/-- A row under a new key leaves the other rows in their order. -/
private theorem sublist_put {κ ρ : Type} [DecidableEq κ] [Store.RowKey κ] {t : Table κ ρ} {key : κ}
    (row : ρ) (free : t.find? key = none) : t.rows.Sublist (t.put key row).rows := by
  obtain ⟨front, back, rows, put⟩ := Table.rows_put_of_find?_eq_none t key row free
  rw [rows, put]
  exact (List.Sublist.refl front).append (List.sublist_cons_self _ _)

variable {activation : Int} {position : Nat} {members : List Address}
  {m m' : Table MemberKey String}

private theorem sublist_putMembers (h : putMembers activation position members m = some m') :
    m.rows.Sublist m'.rows := by
  induction members generalizing position m with
  | nil =>
    cases h
    exact List.Sublist.refl _
  | cons a rest ih =>
    obtain ⟨⟨-, free⟩, h⟩ := Option.ite_none_right_eq_some.mp h
    exact (sublist_put a.text free).trans (ih h)

private theorem ordered_putMembers (ordered : m.Ordered)
    (h : putMembers activation position members m = some m') : m'.Ordered := by
  induction members generalizing position m with
  | nil =>
    cases h
    exact ordered
  | cons a rest ih =>
    obtain ⟨-, h⟩ := Option.ite_none_right_eq_some.mp h
    exact ih (ordered.put _ _) h

/-- No registration takes a row away or lowers its flag. -/
private theorem find?_registered_grows {credential : Store.Credential} {r : Chain.Registration}
    {identities : Table String IdentityRow} {account : String} {row : IdentityRow}
    (found : identities.find? account = some row) :
    ∃ row', (registered credential r identities).find? account = some row' ∧
      (row.verified = true → row'.verified = true) := by
  by_cases mine : account = r.account.text
  · subst mine
    have kept : (Store.Identities.setCredential credential r.data row).verified = row.verified := by
      cases credential <;> rfl
    refine ⟨_, find?_registered_text, fun verified => ?_⟩
    simp [settled, found, kept, verified]
  · exact ⟨row, (find?_registered_of_ne mine).trans found, id⟩

private theorem grows_of_recordedItem (h : recordedItem contracts lists update t = some t') :
    Grows t t' := by
  unfold recordedItem at h
  split at h
  · cases h
    exact Grows.refl t
  · rename_i event _
    cases event with
    | keyperConfig config =>
      obtain ⟨keypers, -, h⟩ := Option.bind_eq_some_iff.mp h
      obtain ⟨⟨-, -, free⟩, h⟩ := Option.ite_none_right_eq_some.mp h
      cases h
      exact { Grows.refl t with keyperSets := sublist_put _ free }
    | decryptorConfig config =>
      obtain ⟨members, -, h⟩ := Option.bind_eq_some_iff.mp h
      obtain ⟨-, h⟩ := Option.ite_none_right_eq_some.mp h
      obtain ⟨rows, put, rfl⟩ := Option.map_eq_some_iff.mp h
      exact { Grows.refl t with setMembers := sublist_putMembers put }
    | registered r =>
      dsimp only [recorded] at h
      split at h
      · cases h
        exact { Grows.refl t with identities := fun _ _ => find?_registered_grows }
      · cases h
        exact Grows.refl t
    | unknown contract topic =>
      cases h
      exact Grows.refl t

end Growth

section Members
variable {activation other : Int} {members : List Address} {m m' : Table MemberKey String}

private theorem mem_seats {key : MemberKey} {text : String} :
    (key, text) ∈ seats activation members ↔
    ∃ (position : Nat) (a : Address), members[position]? = some a ∧
      key = ⟨activation, position⟩ ∧ text = a.text := by
  simp only [seats, List.mem_mapIdx, Prod.mk.injEq]
  constructor
  · rintro ⟨position, early, rfl, rfl⟩
    exact ⟨position, members[position], List.getElem?_eq_getElem early, rfl, rfl⟩
  · rintro ⟨position, a, found, rfl, rfl⟩
    obtain ⟨early, rfl⟩ := List.getElem?_eq_some_iff.mp found
    exact ⟨position, early, rfl, rfl⟩

private theorem ordered_seats : (Table.mk (seats activation members)).Ordered := by
  change (seats activation members).Pairwise _
  rw [List.pairwise_iff_getElem]
  intro i j hi hj less
  simp only [seats, List.getElem_mapIdx, Store.RowKey.before]
  simpa using less

/-- The indices of members are the numbers from zero on. -/
private theorem index_seats : (seats activation members).map (fun row => row.1.index) =
    (List.range members.length).map Int.ofNat := by
  apply List.ext_getElem
  · simp [seats]
  · intro i hi hi'
    simp [seats]

private theorem mem_putMembers (ordered : m.Ordered)
    (h : putMembers activation 0 members m = some m') {entry : MemberKey × String} :
    entry ∈ m'.rows ↔ entry ∈ m.rows ∨ entry ∈ seats activation members := by
  obtain ⟨key, text⟩ := entry
  rw [← (ordered_putMembers ordered h).find?_eq_some_iff, ← ordered.find?_eq_some_iff, mem_seats,
    find?_putMembers_eq_some_iff h]
  simp only [Nat.zero_add]

theorem mem_seated {entry : MemberKey × String} :
    entry ∈ seated activation m ↔ entry ∈ m.rows ∧ entry.1.activation = activation := by
  simp [seated]

private theorem ordered_seated (ordered : m.Ordered) : (Table.mk (seated activation m)).Ordered :=
  List.Pairwise.filter _ ordered

/-- Rows in order are told by what is among them. -/
private theorem seated_ext {rows : List (MemberKey × String)} (ordered : m.Ordered)
    (ordered' : (Table.mk rows).Ordered)
    (same : ∀ entry, entry ∈ seated activation m ↔ entry ∈ rows) :
    seated activation m = rows := by
  have tables : Table.mk (seated activation m) = Table.mk rows := by
    apply (ordered_seated ordered).ext ordered'
    intro key text
    rw [(ordered_seated ordered).find?_eq_some_iff, ordered'.find?_eq_some_iff]
    exact same (key, text)
  exact congrArg Table.rows tables

/-- Members that are put for one activation block are nothing to the others. -/
private theorem seated_putMembers_of_ne (ordered : m.Ordered) (different : other ≠ activation)
    (h : putMembers activation 0 members m = some m') : seated other m' = seated other m := by
  refine seated_ext (ordered_putMembers ordered h) (ordered_seated ordered) ?_
  intro entry
  rw [mem_seated, mem_seated, mem_putMembers ordered h]
  constructor
  · rintro ⟨old | new, here⟩
    · exact ⟨old, here⟩
    · obtain ⟨position, a, -, same, -⟩ := mem_seats.mp new
      rw [same] at here
      exact absurd here.symm different
  · rintro ⟨old, here⟩
    exact ⟨.inl old, here⟩

/-- An activation block that had no members has those that are put. -/
private theorem seated_putMembers_of_nil (ordered : m.Ordered) (vacant : seated activation m = [])
    (h : putMembers activation 0 members m = some m') :
    seated activation m' = seats activation members := by
  refine seated_ext (ordered_putMembers ordered h) ordered_seats ?_
  intro entry
  rw [mem_seated, mem_putMembers ordered h]
  constructor
  · rintro ⟨old | new, here⟩
    · have present : entry ∈ seated activation m := mem_seated.mpr ⟨old, here⟩
      rw [vacant] at present
      cases present
    · exact new
  · intro new
    obtain ⟨position, a, -, same, -⟩ := mem_seats.mp new
    exact ⟨.inr new, by rw [same]⟩

/-- Members can be put only where there are none, as the first seat would be taken. -/
private theorem seated_eq_nil_of_putMembers {a : Address} {rest l : List Address}
    (ordered : m.Ordered) (seating : seated activation m = seats activation l)
    (h : putMembers activation 0 (a :: rest) m = some m') : seated activation m = [] := by
  cases l with
  | nil => exact seating
  | cons first others =>
    obtain ⟨⟨-, free⟩, -⟩ := Option.ite_none_right_eq_some.mp h
    have taken : (⟨activation, ((0 : Nat) : Int)⟩, first.text) ∈ seated activation m := by
      rw [seating]
      exact mem_seats.mpr ⟨0, first, rfl, rfl, rfl⟩
    rw [ordered.find?_eq_some_iff.mpr (mem_seated.mp taken).1] at free
    cases free

end Members

section Shape
variable {contracts : Chain.WatchedContracts} {t t' : ChainTables} {update : Update}
  {lists : AddressSet → Nat → Option (List Address)}

private theorem wellFormed_empty : WellFormed emptyChain where
  keyperOrder := Table.ordered_empty
  memberOrder := Table.ordered_empty
  keyperSigns := by
    intro entry present
    cases present
  memberSigns := by
    intro entry present
    cases present

private theorem WellFormed.recordedItem (h : WellFormed t)
    (recording : recordedItem contracts lists update t = some t') : WellFormed t' := by
  unfold Sync.recordedItem at recording
  split at recording
  · cases recording
    exact h
  · rename_i event _
    cases event with
    | keyperConfig config =>
      obtain ⟨keypers, -, recording⟩ := Option.bind_eq_some_iff.mp recording
      obtain ⟨-, recording⟩ := Option.ite_none_right_eq_some.mp recording
      cases recording
      refine { h with keyperOrder := h.keyperOrder.put _ _, keyperSigns := ?_ }
      intro entry present
      rcases Table.mem_putRow present with rfl | old
      · simp
      · exact h.keyperSigns entry old
    | decryptorConfig config =>
      obtain ⟨members, -, recording⟩ := Option.bind_eq_some_iff.mp recording
      obtain ⟨-, recording⟩ := Option.ite_none_right_eq_some.mp recording
      obtain ⟨rows, put, rfl⟩ := Option.map_eq_some_iff.mp recording
      refine { h with memberOrder := ordered_putMembers h.memberOrder put, memberSigns := ?_ }
      intro entry present
      rcases (mem_putMembers h.memberOrder put).mp present with old | new
      · exact h.memberSigns entry old
      · obtain ⟨position, a, -, same, -⟩ := mem_seats.mp new
        rw [same]
        simp
    | registered r =>
      dsimp only [recorded] at recording
      split at recording
      · cases recording
        exact { h with }
      · cases recording
        exact h
    | unknown contract topic =>
      cases recording
      exact h

/-- An activation block has one keyper set at most. -/
theorem recorded_keyperConfig_of_mem {config : Chain.KeyperConfig}
    (ordered : t.keyperSets.Ordered)
    (present : (config.activation : Int) ∈ t.keyperSets.rows.map (·.1)) :
    recorded contracts lists (.keyperConfig config) t = none := by
  obtain ⟨⟨key, row⟩, stored, rfl⟩ := List.mem_map.mp present
  have found : t.keyperSets.find? config.activation = some row :=
    ordered.find?_eq_some_iff.mpr stored
  rw [recorded]
  cases lists .keypers config.index with
  | none => rfl
  | some keypers =>
    rw [Option.bind_some, found]
    simp

/-- An activation block that has members gets no others. -/
theorem recorded_decryptorConfig_of_seated {config : DecryptorConfig} {members : List Address}
    (ordered : t.setMembers.Ordered)
    (seating : seated config.activation t.setMembers = seats config.activation members)
    (taken : seated config.activation t.setMembers ≠ [])
    (nonempty : lists .decryptors config.index ≠ some []) :
    recorded contracts lists (.decryptorConfig config) t = none := by
  rw [recorded]
  cases read : lists .decryptors config.index with
  | none => rfl
  | some l =>
    cases l with
    | nil => exact absurd read nonempty
    | cons a rest =>
      have impossible : putMembers config.activation 0 (a :: rest) t.setMembers = none := by
        cases put : putMembers config.activation 0 (a :: rest) t.setMembers with
        | none => rfl
        | some rows => exact absurd (seated_eq_nil_of_putMembers ordered seating put) taken
      rw [Option.bind_some, impossible]
      simp

end Shape

variable (contracts : Chain.WatchedContracts)

/-- A call fails and changes nothing. Only a list that is never read keeps it from failing. -/
structure Refused (c : Call) (s : Store) : Prop where
  fails : ∃ e, (c.outcome contracts s).1 = .error e ∧ (e = .stalled →
    ∃ list ∈ c.update.event.bind consulted?, (c.reader list.1 list.2).reply = .stalled)
  unchanged : (c.outcome contracts s).2.database = (s.withFaults c.faults).database

/-- The members of an activation block are those of one event, applied by one of some calls. -/
structure Seating (calls : List Call) (activation : Int) (members : List Address) : Prop where
  rows : seated activation (called contracts .empty calls).database.tables.setMembers =
    seats activation members
  origin : members ≠ [] → ∃ before c after config cursor, calls = before ++ c :: after ∧
    (c.outcome contracts (called contracts .empty before)).1 = .ok cursor ∧
    c.update.event = some (.decryptorConfig config) ∧ (config.activation : Int) = activation ∧
    readable c.reader .decryptors config.index = some members

variable {contracts} {s : Store} {calls : List Call} {c : Call} {activation : Int}
  {config : DecryptorConfig} {members : List Address}

/-- A call fails if its event cannot be recorded. -/
private theorem refused_of_recordedItem
    (impossible : recordedItem contracts (readable c.reader) c.update s.database.tables.chain =
      none) : Refused contracts c s := by
  rcases ran : c.outcome contracts s with ⟨e | cursor, s'⟩
  · refine ⟨⟨e, by rw [ran], ?_⟩, ?_⟩
    · rintro rfl
      exact stalled_of_outcome ran
    · rw [ran]
      exact database_of_apply_error ran
  · have recording := recorded_of_outcome ran
    rw [impossible] at recording
    cases recording

/-- A call records its item, or it leaves the tables that mirror the chain as they were. -/
theorem chain_of_outcome (contracts : Chain.WatchedContracts) (c : Call) (s : Store) :
    (∃ cursor, (c.outcome contracts s).1 = .ok cursor ∧
      recordedItem contracts (readable c.reader) c.update s.database.tables.chain =
        some (c.outcome contracts s).2.database.tables.chain) ∨
    (c.outcome contracts s).2.database.tables.chain = s.database.tables.chain := by
  rcases ran : c.outcome contracts s with ⟨e | cursor, s'⟩
  · right
    rw [tables_of_outcome_error ran]
  · exact .inl ⟨cursor, rfl, recorded_of_outcome ran⟩

private theorem grows_called (calls : List Call) (s : Store) :
    Grows s.database.tables.chain (called contracts s calls).database.tables.chain := by
  induction calls generalizing s with
  | nil => exact Grows.refl _
  | cons c rest ih =>
    have later := ih (c.outcome contracts s).2
    rcases chain_of_outcome contracts c s with ⟨cursor, -, recording⟩ | same
    · exact (grows_of_recordedItem recording).trans later
    · rw [same] at later
      exact later

private theorem wellFormed_called (calls : List Call) :
    WellFormed (called contracts .empty calls).database.tables.chain := by
  induction calls using List.reverseRecOn with
  | nil => exact wellFormed_empty
  | append_singleton calls c ih =>
    rw [called_append]
    rcases chain_of_outcome contracts c (called contracts .empty calls) with
      ⟨cursor, -, recording⟩ | same
    · exact ih.recordedItem recording
    · change WellFormed (c.outcome contracts _).2.database.tables.chain
      rw [same]
      exact ih

/-- Calls after it take no set away from the event it came from. -/
private theorem Seating.concat (h : Seating contracts calls activation members)
    (same : seated activation
        (called contracts .empty (calls ++ [c])).database.tables.setMembers =
      seated activation (called contracts .empty calls).database.tables.setMembers) :
    Seating contracts (calls ++ [c]) activation members where
  rows := same.trans h.rows
  origin := by
    intro some
    obtain ⟨before, d, after, config, cursor, rfl, origin⟩ := h.origin some
    exact ⟨before, d, after ++ [c], config, cursor, by simp, origin⟩

/-- A decryptor set that is applied is that of its activation block, unless it is empty. -/
private theorem Seating.applied {cursor : Cursor} (h : Seating contracts calls activation members)
    (landing : (c.outcome contracts (called contracts .empty calls)).1 = .ok cursor)
    (carries : c.update.event = some (.decryptorConfig config))
    (recording : recordedItem contracts (readable c.reader) c.update
        (called contracts .empty calls).database.tables.chain =
      some (called contracts .empty (calls ++ [c])).database.tables.chain) :
    ∃ members, Seating contracts (calls ++ [c]) activation members := by
  have ordered : (called contracts .empty calls).database.tables.setMembers.Ordered :=
    (wellFormed_called calls).memberOrder
  rw [recordedItem, carries] at recording
  obtain ⟨l, read, recording⟩ := Option.bind_eq_some_iff.mp recording
  obtain ⟨-, recording⟩ := Option.ite_none_right_eq_some.mp recording
  obtain ⟨rows, put, stored⟩ := Option.map_eq_some_iff.mp recording
  obtain rfl : rows = (called contracts .empty (calls ++ [c])).database.tables.setMembers :=
    congrArg ChainTables.setMembers stored
  by_cases here : (config.activation : Int) = activation
  · subst here
    cases l with
    | nil =>
      refine ⟨members, h.concat ?_⟩
      rw [← Option.some.inj put]
      rfl
    | cons a rest =>
      have vacant := seated_eq_nil_of_putMembers ordered h.rows put
      refine ⟨a :: rest, seated_putMembers_of_nil ordered vacant put, ?_⟩
      intro _
      exact ⟨calls, c, [], config, cursor, rfl, landing, carries, rfl, read⟩
  · exact ⟨members, h.concat (seated_putMembers_of_ne ordered (Ne.symm here) put)⟩

/-- Items that hold no decryptor set leave the members alone. -/
private theorem setMembers_of_recordedItem {update : Update} {t t' : ChainTables}
    {lists : AddressSet → Nat → Option (List Address)}
    (other : ∀ config, update.event ≠ some (.decryptorConfig config))
    (h : recordedItem contracts lists update t = some t') : t'.setMembers = t.setMembers := by
  unfold recordedItem at h
  split at h
  · cases h
    rfl
  · rename_i event carried
    cases event with
    | keyperConfig config =>
      obtain ⟨keypers, -, h⟩ := Option.bind_eq_some_iff.mp h
      obtain ⟨-, h⟩ := Option.ite_none_right_eq_some.mp h
      cases h
      rfl
    | decryptorConfig config => exact absurd carried (other config)
    | registered r =>
      dsimp only [recorded] at h
      split at h <;> cases h <;> rfl
    | unknown contract topic =>
      cases h
      rfl

private theorem seating_called (contracts : Chain.WatchedContracts) (calls : List Call)
    (activation : Int) : ∃ members, Seating contracts calls activation members := by
  induction calls using List.reverseRecOn with
  | nil => exact ⟨[], rfl, fun some => absurd rfl some⟩
  | append_singleton calls c ih =>
    obtain ⟨members, h⟩ := ih
    rcases chain_of_outcome contracts c (called contracts .empty calls) with
      ⟨cursor, landing, recording⟩ | same
    · rw [← show called contracts .empty (calls ++ [c]) =
        (c.outcome contracts (called contracts .empty calls)).2 from called_append] at recording
      by_cases sets : ∃ config, c.update.event = some (.decryptorConfig config)
      · obtain ⟨config, carries⟩ := sets
        exact h.applied landing carries recording
      · have other : ∀ config, c.update.event ≠ some (.decryptorConfig config) := by
          intro config carries
          exact sets ⟨config, carries⟩
        refine ⟨members, h.concat ?_⟩
        exact congrArg (seated activation) (setMembers_of_recordedItem other recording)
    · refine ⟨members, h.concat ?_⟩
      rw [called_append]
      exact congrArg (fun t => seated activation (ChainTables.setMembers t)) same

/-- After any calls on an empty store, whether they succeeded or not: what is stored stays through
all calls to come, each activation block has one keyper set at most, its decryptors stand at the
positions from zero on and come from one event, a second configuration of an activation block fails
without a trace, and no stored number is negative. -/
theorem configuration_append_only (contracts : Chain.WatchedContracts) (calls : List Call) :
    let store := called contracts .empty calls
    let tables := store.database.tables
    (∀ later, Grows tables.chain (called contracts .empty (calls ++ later)).database.tables.chain) ∧
    (tables.keyperSets.rows.map (·.1)).Nodup ∧
    (∀ activation, ∃ members, Seating contracts calls activation members ∧
      (seated activation tables.setMembers).map (fun row => row.1.index) =
        (List.range members.length).map Int.ofNat) ∧
    (∀ (next : Call) config, next.update.event = some (.keyperConfig config) →
      (config.activation : Int) ∈ tables.keyperSets.rows.map (·.1) →
        Refused contracts next store) ∧
    (∀ (next : Call) config, next.update.event = some (.decryptorConfig config) →
      seated config.activation tables.setMembers ≠ [] →
      readable next.reader .decryptors config.index ≠ some [] →
        Refused contracts next store) ∧
    (∀ entry ∈ tables.keyperSets.rows, 0 ≤ entry.1 ∧ 0 ≤ entry.2.threshold) ∧
    ∀ entry ∈ tables.setMembers.rows, 0 ≤ entry.1.activation ∧ 0 ≤ entry.1.index := by
  intro store tables
  have formed : WellFormed tables.chain := wellFormed_called calls
  refine ⟨?_, formed.keyperOrder.nodup_keys, ?_, ?_, ?_, formed.keyperSigns, formed.memberSigns⟩
  · intro later
    rw [called_append]
    exact grows_called later store
  · intro activation
    obtain ⟨members, h⟩ := seating_called contracts calls activation
    refine ⟨members, h, ?_⟩
    rw [h.rows]
    exact index_seats
  · intro next config carries present
    apply refused_of_recordedItem
    rw [recordedItem, carries]
    exact recorded_keyperConfig_of_mem formed.keyperOrder present
  · intro next config carries taken nonempty
    obtain ⟨members, h⟩ := seating_called contracts calls config.activation
    apply refused_of_recordedItem
    rw [recordedItem, carries]
    exact recorded_decryptorConfig_of_seated formed.memberOrder h.rows taken nonempty

end DecryptorNode.Sync
