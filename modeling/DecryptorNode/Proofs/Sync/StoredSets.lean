import DecryptorNode.Proofs.Chain.AddressText
import DecryptorNode.Proofs.Store.KeyperLists
import DecryptorNode.Proofs.Sync.ConfigurationHistory

/-! What is stored of a configuration and then read is what the chain said: the addresses of the
set in their order, as often as they occur, with the threshold. Members are numbered from zero, and
nothing is touched that is stored for another activation block. -/
namespace DecryptorNode.Sync
open Chain (Address AddressReader AddressSet Cursor DecryptorConfig KeyperConfig Update)
open Store (Action KeyperSet MemberKey SetMember Table Work Workspace)

private theorem plain_text (a : Address) : ',' ∉ a.text.toList ∧ a.text.toList ≠ [] := by
  refine ⟨fun mem => ?_, ?_⟩
  · exact Address.forall_mem_text (p := (· ≠ ',')) (by decide) (by decide) a _ mem rfl
  · rw [Address.toList_text]
    exact List.cons_ne_nil _ _

private theorem decode_encode_texts (keypers : List Address) :
    Store.KeyperList.decode (Store.KeyperList.encode (keypers.map Address.text)) =
      keypers.map Address.text :=
  Store.KeyperList.decode_encode_of_plain fun text mem => by
    obtain ⟨a, -, rfl⟩ := List.mem_map.mp mem
    exact plain_text a

section Rows
variable {activation : Int} {m m' : Table MemberKey String}

private theorem seats_concat (members : List Address) (a : Address) :
    seats activation (members ++ [a]) =
    seats activation members ++ [(⟨activation, members.length⟩, a.text)] :=
  List.mapIdx_concat

private theorem before_iff {a b : MemberKey} : Store.RowKey.before a b = true ↔
    a.activation < b.activation ∨ a.activation = b.activation ∧ a.index < b.index := by
  simp [Store.RowKey.before]

section Place
variable {front back : List (MemberKey × String)}
  (earlier : ∀ row ∈ front, row.1.activation < activation)
  (later : ∀ row ∈ back.head?, activation < row.1.activation)
include earlier later

/-- The next member of a block takes the place after the members that the block has. -/
private theorem rows_put_next {put : List Address} (a : Address)
    (rows : m.rows = front ++ (seats activation put ++ back)) :
    (m.put ⟨activation, put.length⟩ a.text).rows =
      front ++ (seats activation (put ++ [a]) ++ back) := by
  have passes {row : MemberKey × String} (h : row.1.activation < activation ∨
      row.1.activation = activation ∧ row.1.index < put.length) :
      (⟨activation, put.length⟩ : MemberKey) ≠ row.1 ∧
        Store.RowKey.before ⟨activation, put.length⟩ row.1 = false := by
    refine ⟨fun same => ?_, Bool.eq_false_iff.mpr fun before => ?_⟩
    · rw [← same] at h
      dsimp only at h
      omega
    · have order := before_iff.mp before
      dsimp only at order
      omega
  change Table.putRow ⟨activation, put.length⟩ a.text m.rows = _
  rw [rows, Table.putRow_append fun row mem => passes (.inl (earlier row mem)),
    Table.putRow_append, Table.putRow_of_before, seats_concat, List.append_assoc,
    List.singleton_append]
  · intro row first
    have after := later row first
    refine ⟨fun same => ?_, before_iff.mpr (.inl after)⟩
    rw [← same] at after
    exact Int.lt_irrefl _ after
  · intro row mem
    obtain ⟨position, there, rfl⟩ := List.mem_mapIdx.mp mem
    exact passes (.inr ⟨rfl, Int.ofNat_lt.mpr there⟩)

/-- Members that are put one after the other stand together, between the rows of the blocks before
theirs and those of the blocks after it. -/
private theorem rows_putMembers (put rest : List Address)
    (rows : m.rows = front ++ (seats activation put ++ back))
    (h : putMembers activation put.length rest m = some m') :
    m'.rows = front ++ (seats activation (put ++ rest) ++ back) := by
  -- The members that are put already stand in place; each step adds the next one behind them.
  induction rest generalizing put m with
  | nil =>
    cases h
    rw [List.append_nil, rows]
  | cons a rest ih =>
    obtain ⟨-, h⟩ := Option.ite_none_right_eq_some.mp h
    have all := ih (put ++ [a]) (rows_put_next earlier later a rows)
      (by rw [List.length_append]; exact h)
    rwa [List.append_assoc, List.singleton_append] at all

end Place

private theorem activation_ne_of_vacant (vacant : seated activation m = []) :
    ∀ row ∈ m.rows, row.1.activation ≠ activation := by
  intro row mem here
  have present : row ∈ seated activation m := mem_seated.mpr ⟨mem, here⟩
  rw [vacant] at present
  cases present

/-- Where there are no members for an activation block, there is a place for them. -/
private theorem exists_place_of_vacant (vacant : seated activation m = []) : ∃ front back,
    m.rows = front ++ back ∧ (∀ row ∈ front, row.1.activation < activation) ∧
      ∀ row ∈ back.head?, activation < row.1.activation := by
  let early (row : MemberKey × String) : Bool := row.1.activation < activation
  refine ⟨m.rows.takeWhile early, m.rows.dropWhile early, List.takeWhile_append_dropWhile.symm,
    fun row mem => of_decide_eq_true (List.all_eq_true.mp List.all_takeWhile row mem), ?_⟩
  intro row first
  have stopped := List.head?_dropWhile_not early m.rows
  rw [Option.mem_def.mp first] at stopped
  have notEarly : ¬ row.1.activation < activation := of_decide_eq_false stopped
  have different := activation_ne_of_vacant vacant row
    ((List.dropWhile_sublist _).subset (List.mem_of_head? first))
  omega

/-- Where there were no members for an activation block, those that are put are all there is for it,
and the other rows stay as they are. -/
theorem rows_putMembers_of_vacant {members : List Address} (vacant : seated activation m = [])
    (h : putMembers activation 0 members m = some m') :
    seated activation m' = seats activation members ∧
      (m'.rows.filter fun row => row.1.activation ≠ activation) = m.rows := by
  obtain ⟨front, back, parts, earlier, later⟩ := exists_place_of_vacant vacant
  have rows : m'.rows = front ++ (seats activation members ++ back) :=
    rows_putMembers earlier later [] members parts h
  have mine : ∀ row ∈ seats activation members, row.1.activation = activation := by
    intro row mem
    obtain ⟨position, there, rfl⟩ := List.mem_mapIdx.mp mem
    rfl
  have others : (m.rows.filter fun row => row.1.activation ≠ activation) = m.rows :=
    List.filter_eq_self.mpr fun row mem => decide_eq_true (activation_ne_of_vacant vacant row mem)
  constructor
  · rw [seated, parts, List.filter_append, List.append_eq_nil_iff] at vacant
    rw [seated, rows, List.filter_append, List.filter_append, vacant.1, vacant.2,
      List.filter_eq_self.mpr fun row mem => decide_eq_true (mine row mem), List.nil_append,
      List.append_nil]
  · have cleared :
        ((seats activation members).filter fun row => row.1.activation ≠ activation) = [] :=
      List.filter_eq_nil_iff.mpr fun row mem out => (of_decide_eq_true out : _ ≠ _) (mine row mem)
    rw [rows, List.filter_append, List.filter_append, cleared, List.nil_append,
      ← List.filter_append, ← parts, others]

private theorem putMembers_isSome {members : List Address} {position : Nat}
    (free : ∀ index : Nat, position ≤ index → m.find? ⟨activation, index⟩ = none)
    (few : position + members.length ≤ 2 ^ 31) :
    (putMembers activation position members m).isSome := by
  induction members generalizing position m with
  | nil => rfl
  | cons a rest ih =>
    rw [List.length_cons] at few
    rw [putMembers, if_pos ⟨by omega, free position (Nat.le_refl _)⟩]
    refine ih (fun index after => ?_) (by omega)
    rw [Table.find?_put_of_ne _ _ fun same => ?_]
    · exact free index (Nat.le_of_succ_le after)
    · have : (index : Int) = position := (MemberKey.mk.inj same).2
      omega

end Rows

section Applications
variable {contracts : Chain.WatchedContracts} {reader : AddressReader} {update : Update}
  {event : Chain.ChainEvent} {cursor : Cursor} {s s' : Store}

/-- An item that is applied had its event recorded first. -/
private theorem exec_recordEvent_of_apply (present : update.event = some event)
    (h : apply contracts reader update s = (.ok cursor, s')) : ∃ w u,
      w.draft.database = s.database ∧
        (recordEvent contracts reader event).exec w = (.ok (), u) := by
  obtain ⟨left, committed, -⟩ := attempt_of_apply h
  obtain ⟨-, w, ran, -⟩ := Action.transaction_eq_ok.mp committed
  obtain ⟨_, v, recording, -⟩ := Work.exec_bind_eq_ok.mp ran
  rw [present] at recording
  exact ⟨_, v, rfl, recording⟩

private theorem canWrite_of_recordKeyperSet {config : KeyperConfig} {w w' : Workspace}
    (h : (recordKeyperSet reader config).exec w = (.ok (), w')) :
    w.draft.database.canWrite .keyperSets = true := by
  simp only [recordKeyperSet, stored, Work.exec_bind_eq_ok, exec_activationNumber_eq_ok,
    exec_thresholdNumber_eq_ok, exec_readAddresses_eq_ok, Work.exec_mapError_eq_ok,
    Store.KeyperSets.exec_insert_eq_ok] at h
  obtain ⟨_, _, ⟨-, -, rfl⟩, _, _, ⟨-, -, rfl⟩, keypers, _, ⟨-, rfl⟩, -, writable, -⟩ := h
  exact writable

private theorem canWrite_of_recordDecryptorSet {config : DecryptorConfig} {members : List Address}
    {w w' : Workspace} (read : readable reader .decryptors config.index = some members)
    (somebody : members ≠ []) (h : (recordDecryptorSet reader config).exec w = (.ok (), w')) :
    w.draft.database.canWrite .setMembers = true := by
  simp only [recordDecryptorSet, Work.exec_bind_eq_ok, exec_activationNumber_eq_ok,
    exec_readAddresses_eq_ok] at h
  obtain ⟨_, _, ⟨-, -, rfl⟩, members', _, ⟨read', rfl⟩, h⟩ := h
  rw [read] at read'
  cases read'
  cases members with
  | nil => exact absurd rfl somebody
  | cons a rest =>
    obtain ⟨-, u, inserted, -⟩ := exec_recordMembers_cons.mp h
    exact (Store.DecryptorSets.exec_insertMember_eq_ok.mp inserted).2.1

/-- What an item was applied through can be read through once more. -/
private theorem outlives_of_apply (h : apply contracts reader update s = (.ok cursor, s')) :
    s'.database.faults.outlives 0 = true := by
  obtain ⟨applied, answers⟩ := applied_of_apply h
  rw [applied.faults]
  exact (Store.Database.answers_iff.mp answers).1

private theorem Applied.canRead {lists : AddressSet → Nat → Option (List Address)}
    {before after : Store.Database} (h : Applied contracts lists update cursor before after)
    (name : Store.TableName) : after.canRead name = before.canRead name := by
  rw [Store.Database.canRead, h.faults]
  rfl

/-- A keyper set is read as it was stored. -/
private theorem direct_get_of_apply {config : KeyperConfig}
    (present : update.event = some (.keyperConfig config))
    (h : apply contracts reader update s = (.ok cursor, s')) :
    ∃ keypers read, readable reader .keypers config.index = some keypers ∧
      Action.direct (Store.KeyperSets.get config.activation) s' = (.ok (some
        ⟨config.activation, keypers.map Address.text, config.threshold⟩), read) := by
  obtain ⟨applied, -⟩ := applied_of_apply h
  obtain ⟨w, u, same, ran⟩ := exec_recordEvent_of_apply present h
  have recording := applied.recorded
  rw [recordedItem, present] at recording
  obtain ⟨keypers, read, found⟩ := holds_of_recorded recording
  have permitted : s'.database.canRead .keyperSets = true := by
    rw [applied.canRead, ← same]
    exact Store.Database.canRead_of_canWrite (canWrite_of_recordKeyperSet ran)
  refine ⟨keypers, _, read, Action.direct_eq_iff.mpr ⟨_, Store.KeyperSets.exec_get_eq_ok.mpr
    ⟨outlives_of_apply h, permitted, ?_, rfl⟩, rfl⟩⟩
  change (s'.database.tables.chain.keyperSets.find? config.activation).map _ = _
  rw [found, Option.map_some, decode_encode_texts]

/-- Members are read as they were stored. When there are none the table was not used, so that it can
be read is asked for. -/
private theorem direct_getMembers_of_apply {config : DecryptorConfig}
    (present : update.event = some (.decryptorConfig config))
    (vacant : seated config.activation s.database.tables.setMembers = [])
    (h : apply contracts reader update s = (.ok cursor, s')) :
    ∃ members, readable reader .decryptors config.index = some members ∧
      putMembers config.activation 0 members s.database.tables.setMembers =
        some s'.database.tables.setMembers ∧
      s'.database.tables.keyperSets = s.database.tables.keyperSets ∧
      ((members = [] → s.database.canRead .setMembers = true) →
        ∃ read, Action.direct (Store.DecryptorSets.getMembers config.activation) s' = (.ok
          (members.mapIdx fun position a => ⟨config.activation, position, a.text⟩), read)) := by
  obtain ⟨applied, -⟩ := applied_of_apply h
  obtain ⟨w, u, same, ran⟩ := exec_recordEvent_of_apply present h
  have recording := applied.recorded
  rw [recordedItem, present] at recording
  obtain ⟨members, read, recording⟩ := Option.bind_eq_some_iff.mp recording
  obtain ⟨-, recording⟩ := Option.ite_none_right_eq_some.mp recording
  obtain ⟨rows, put, chain⟩ := Option.map_eq_some_iff.mp recording
  have stored : rows = s'.database.tables.setMembers := congrArg Store.ChainTables.setMembers chain
  subst stored
  have kept := (congrArg Store.ChainTables.keyperSets chain).symm
  refine ⟨members, read, put, kept, fun emptyRead => ?_⟩
  have permitted : s'.database.canRead .setMembers = true := by
    rw [applied.canRead]
    by_cases nobody : members = []
    · exact emptyRead nobody
    · rw [← same]
      exact Store.Database.canRead_of_canWrite (canWrite_of_recordDecryptorSet read nobody ran)
  refine ⟨_, Action.direct_eq_iff.mpr ⟨_, Store.DecryptorSets.exec_getMembers_eq_ok.mpr
    ⟨outlives_of_apply h, permitted, ?_, rfl⟩, rfl⟩⟩
  change (seated config.activation s'.database.tables.setMembers).map _ = _
  rw [(rows_putMembers_of_vacant vacant put).1, seats, List.mapIdx_eq_zipIdx_map, List.map_map,
    List.mapIdx_eq_zipIdx_map]
  rfl

private theorem exists_apply (present : update.event = some event)
    (recording : (recorded contracts (readable reader) event s.database.tables.chain).isSome)
    (block : update.block < 2 ^ 63)
    (index : update.index + 1 < 2 ^ 63) :
    ∃ cursor s', apply contracts reader update (s.withFaults .none) = (.ok cursor, s') := by
  refine (applies_iff contracts reader update s).mpr
    ⟨by rwa [recordedItem, present], ⟨update.block, update.index + 1⟩, ?_, block, index⟩
  have small : update.index < Chain.maxWord := by
    rw [Chain.maxWord]
    omega
  rw [Update.nextCursor?, present]
  exact if_pos small

end Applications

/-- The keyper set of a configuration is stored as the chain has it: it is read with the threshold
and the texts of its addresses, which tell the addresses, and all other rows are as they were. -/
structure KeypersStored (config : KeyperConfig) (keypers : List Address) (s s' : Store) :
    Prop where
  read : ∃ left, Action.direct (Store.KeyperSets.get config.activation) s' = (.ok (some
    ⟨config.activation, keypers.map Address.text, config.threshold⟩), left)
  addresses : (keypers.map Address.text).map Address.parse? = keypers.map some
  others : (s'.database.tables.keyperSets.rows.filter fun row =>
      row.1 ≠ (config.activation : Int)) =
    s.database.tables.keyperSets.rows
  setMembers : s'.database.tables.setMembers = s.database.tables.setMembers

/-- The decryptor set of a configuration is stored as the chain has it: its members are read in
their order under the numbers from zero on, and all other rows are as they were. Where there are no
members, nothing was written that would show that the table can be read. -/
structure MembersStored (config : DecryptorConfig) (members : List Address) (s s' : Store) :
    Prop where
  read : (members = [] → s.database.canRead .setMembers = true) →
    ∃ left, Action.direct (Store.DecryptorSets.getMembers config.activation) s' = (.ok
      (members.mapIdx fun position a => ⟨config.activation, position, a.text⟩), left)
  others : (s'.database.tables.setMembers.rows.filter fun row =>
      row.1.activation ≠ (config.activation : Int)) = s.database.tables.setMembers.rows
  keyperSets : s'.database.tables.keyperSets = s.database.tables.keyperSets

private theorem keypersStored_of_apply {contracts : Chain.WatchedContracts} {reader : AddressReader}
    {update : Update} {config : KeyperConfig} {cursor : Cursor} {s s' : Store}
    (present : update.event = some (.keyperConfig config))
    (h : apply contracts reader update s = (.ok cursor, s')) :
    ∃ keypers, readable reader .keypers config.index = some keypers ∧
      KeypersStored config keypers s s' := by
  obtain ⟨keypers, left, read, got⟩ := direct_get_of_apply present h
  have recording := (applied_of_apply h).1.recorded
  rw [recordedItem, present] at recording
  obtain ⟨_, -, recording⟩ := Option.bind_eq_some_iff.mp recording
  obtain ⟨⟨-, -, free⟩, chain⟩ := Option.ite_none_right_eq_some.mp recording
  have chain := Option.some.inj chain
  refine ⟨keypers, read, ⟨left, got⟩, ?_, ?_, (congrArg Store.ChainTables.setMembers chain).symm⟩
  · rw [List.map_map]
    exact List.map_congr_left fun a _ => Address.parse?_text a
  · have sets := congrArg Store.ChainTables.keyperSets chain
    change _ = s'.database.tables.keyperSets at sets
    rw [← sets]
    exact Table.filter_rows_put _ free

/-- The sets that are stored are the sets of the chain. Whatever lists the chain has and whatever
was stored before, what is read after a configuration was applied is the list it names; and on a
database that does not misbehave each configuration whose numbers fit is applied. -/
theorem stored_sets_read_back (contracts : Chain.WatchedContracts) (reader : AddressReader)
    (update : Update) (s : Store) :
    (∀ config cursor s', update.event = some (.keyperConfig config) →
      apply contracts reader update s = (.ok cursor, s') →
      ∃ keypers, readable reader .keypers config.index = some keypers ∧
        KeypersStored config keypers s s') ∧
    (∀ config cursor s', update.event = some (.decryptorConfig config) →
      seated config.activation s.database.tables.setMembers = [] →
      apply contracts reader update s = (.ok cursor, s') →
      ∃ members, readable reader .decryptors config.index = some members ∧
        MembersStored config members s s') ∧
    (∀ config keypers, update.event = some (.keyperConfig config) →
      readable reader .keypers config.index = some keypers → config.activation < 2 ^ 63 →
      config.threshold < 2 ^ 31 →
      s.database.tables.keyperSets.find? config.activation = none →
      update.block < 2 ^ 63 → update.index + 1 < 2 ^ 63 →
      ∃ cursor s', apply contracts reader update (s.withFaults .none) = (.ok cursor, s')) ∧
    ∀ config members, update.event = some (.decryptorConfig config) →
      readable reader .decryptors config.index = some members → config.activation < 2 ^ 63 →
      members.length < 2 ^ 31 → seated config.activation s.database.tables.setMembers = [] →
      update.block < 2 ^ 63 → update.index + 1 < 2 ^ 63 →
      ∃ cursor s', apply contracts reader update (s.withFaults .none) = (.ok cursor, s') := by
  refine ⟨fun config cursor s' present h => keypersStored_of_apply present h, ?_, ?_, ?_⟩
  · intro config cursor s' present vacant h
    obtain ⟨members, read, put, kept, got⟩ := direct_getMembers_of_apply present vacant h
    exact ⟨members, read, got, (rows_putMembers_of_vacant vacant put).2, kept⟩
  · intro config keypers present read activation threshold free block index
    refine exists_apply present ?_ block index
    rw [recorded, read, Option.bind_some]
    exact Option.isSome_of_eq_some (if_pos ⟨activation, threshold, free⟩)
  · intro config members present read activation few vacant block index
    have spare (position : Nat) (_ : 0 ≤ position) :
        s.database.tables.setMembers.find? ⟨config.activation, position⟩ = none :=
      (Table.find?_eq_none_iff _ _).mpr fun row mem same =>
        activation_ne_of_vacant vacant row mem (congrArg MemberKey.activation same)
    refine exists_apply present ?_ block index
    rw [recorded, read, Option.bind_some, if_pos activation, Option.isSome_map]
    exact putMembers_isSome spare (by omega)

end DecryptorNode.Sync
