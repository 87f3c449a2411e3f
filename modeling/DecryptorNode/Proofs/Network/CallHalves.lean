import DecryptorNode.Network.KeyHandler
import DecryptorNode.Proofs.Store.FirstRows
import DecryptorNode.Proofs.Store.QueryLaws

/-! A message goes through a node in two halves: its payload is judged, and if it is accepted it is
handled. The first half leaves the database alone and accepts only genuine keys. The second half
checks nothing, and writes at most one row. -/
namespace DecryptorNode.Network
open Store (Action Database EonKeyRow EpochKey Table Work Workspace)

/-- A verdict is counted, and nothing else happens to it. -/
theorem Router.judge_eq (h : PayloadHandler) (topic : String) (payload : Bytes) (s : Store) :
    judge h topic payload s = ((h.validate payload s).1,
      { (h.validate payload s).2 with
        activity := .validated topic (h.validate payload s).1.label ::
          (h.validate payload s).2.activity }) := rfl

theorem Router.countHandled_eq (handling : Handling (List Outbound)) (topic : String) (s : Store) :
    countHandled topic handling s = ((handling s).1,
      { (handling s).2 with
        activity := .handled topic (handling s).1.toBool :: (handling s).2.activity }) := rfl

namespace Handler
variable {μ : Type}

theorem validate_onPayloads (h : Handler μ) (payload : Bytes) (s : Store) :
    h.onPayloads.validate payload s = match h.decode? payload with
      | some m => h.validate m s
      | none => (.reject, s) := by
  simp only [onPayloads]
  cases h.decode? payload <;> rfl

theorem handle_onPayloads (h : Handler μ) (payload : Bytes) (s : Store) :
    h.onPayloads.handle payload s = match h.decode? payload with
      | some m => h.handle m s
      | none => (.error (.decode h.topic), s) := by
  simp only [onPayloads]
  cases h.decode? payload <;> rfl

end Handler

/-- The second half of a message that was accepted. -/
def Router.finish (r : Router) (topic : String) (payload : Bytes) : Handling (List Outbound) :=
  match r.find? topic with
  | none => throw (.unknownTopic topic)
  | some h => countHandled topic (h.handle payload)

/-- Nothing happens to a message besides its two halves. -/
theorem Router.process_eq (r : Router) (topic : String) (payload : Bytes) (s : Store) :
    r.process topic payload s =
      if (r.find? topic).isNone then (.error (.unknownTopic topic), s)
      else match r.validate topic payload s with
        | (.accept, s') => ((r.finish topic payload s').1.map fun out => (.accept, out),
            (r.finish topic payload s').2)
        | (verdict, s') => (.ok (verdict, []), s') := by
  unfold process validate finish
  cases r.find? topic with
  | none => rfl
  | some h =>
    dsimp only
    rcases judged : judge h topic payload s with ⟨verdict, s'⟩
    have lifted : (liftM (judge h topic payload) : Handling Verdict) s = (.ok verdict, s') :=
      congrArg (fun p : Verdict × Store => ((.ok p.1, p.2) : Except NetworkError Verdict × Store))
        judged
    rw [Action.bind_apply, lifted]
    cases verdict with
    | reject => rfl
    | ignore => rfl
    | accept =>
      dsimp only
      rw [if_pos rfl, Action.bind_apply]
      rcases countHandled topic (h.handle payload) s' with ⟨_ | _, _⟩ <;> rfl

/-- A key that was checked: it is for the instance, and it is the one that the eon's stored key
admits for the epoch. -/
structure Genuine (instanceId : Nat) (eonKeys : Table Int EonKeyRow) (m : DecryptionKey) :
    Prop where
  instanceId : m.instanceId = instanceId
  eon : 0 ≤ m.eon
  length : m.epochId.length = 32
  verified : ∃ key row eonKey, Keys.EpochSecretKey.ofBytes m.key = .ok key ∧
    key.point ≠ .infinity ∧ eonKeys.find? m.eon = some row ∧
    Keys.EonPublicKey.ofBytes row.publicKey = .ok eonKey ∧
    key.verify eonKey ⟨m.epochId, length⟩ = true

def DecryptionKey.rowKey (m : DecryptionKey) : EpochKey := Store.EpochKeys.rowKey m.eon m.epochId

/-- Whether a key that is handled ends up in the database. It takes a statement and the commit. -/
def takesKeys (d : Database) : Bool :=
  d.canWrite .epochKeys && !d.faults.failingCommits && d.faults.outlives 1

def keeping (d : Database) (m : DecryptionKey) : Database :=
  if takesKeys d then
    { d with tables := { d.tables with epochKeys := d.tables.epochKeys.putNew m.rowKey m.key } }
  else d

namespace KeyHandler
variable {instanceId : Nat} {m : DecryptionKey}

private theorem ofBytes_eq_ok {bytes : Bytes} {epoch : Keys.EpochId} :
    Keys.EpochId.ofBytes bytes = .ok epoch ↔ ∃ length, epoch = ⟨bytes, length⟩ := by
  unfold Keys.EpochId.ofBytes
  split
  · rename_i length
    exact ⟨fun h => ⟨length, (Except.ok.inj h).symm⟩, fun ⟨_, h⟩ => h ▸ rfl⟩
  · rename_i wrong
    exact ⟨fun h => (by cases h), fun ⟨length, _⟩ => absurd length wrong⟩

theorem wellFormed?_eq_some {key : Keys.EpochSecretKey} {epoch : Keys.EpochId} :
    wellFormed? instanceId m = some (key, epoch) ↔
      m.instanceId = instanceId ∧ 0 ≤ m.eon ∧ (∃ length, epoch = ⟨m.epochId, length⟩) ∧
        Keys.EpochSecretKey.ofBytes m.key = .ok key := by
  rw [wellFormed?, Option.ite_none_left_eq_some, not_or, Decidable.not_not, Int.not_lt, and_assoc,
    ← ofBytes_eq_ok]
  refine and_congr_right fun _ => and_congr_right fun _ => ?_
  cases Keys.EpochId.ofBytes m.epochId <;> cases Keys.EpochSecretKey.ofBytes m.key <;>
    simp [and_comm]

theorem checkAgainst_eq_accept {key : Keys.EpochSecretKey} {epoch : Keys.EpochId}
    {looked : Except Store.StoreError (Option Store.EonKeyEntry)} :
    checkAgainst key epoch looked = .accept ↔ ∃ entry eonKey, looked = .ok (some entry) ∧
      Keys.EonPublicKey.ofBytes entry.publicKey = .ok eonKey ∧
      key.verify eonKey epoch = true := by
  constructor
  · intro h
    unfold checkAgainst at h
    split at h
    · cases h
    · cases h
    · rename_i entry
      split at h
      · cases h
      · rename_i eonKey read
        refine ⟨entry, eonKey, rfl, read, ?_⟩
        split at h
        · assumption
        · cases h
  · rintro ⟨entry, eonKey, rfl, read, fits⟩
    unfold checkAgainst
    dsimp only
    rw [read]
    exact if_pos fits

theorem point_of_verify {key : Keys.EpochSecretKey} {eonKey : Keys.EonPublicKey}
    {epoch : Keys.EpochId} (h : key.verify eonKey epoch = true) : key.point ≠ .infinity := by
  intro neutral
  unfold Keys.EpochSecretKey.verify Keys.EpochSecretKey.verifyBy at h
  rw [neutral] at h
  cases h

theorem validate_eq (instanceId : Nat) (m : DecryptionKey) (s : Store) :
    validate instanceId m s = match wellFormed? instanceId m with
      | none => (.reject, s)
      | some (key, epoch) =>
        let looked := Action.direct (Store.EonKeys.get m.eon) s
        (checkAgainst key epoch looked.1, looked.2) := by
  unfold validate
  cases wellFormed? instanceId m <;> rfl

/-- A key is accepted if, and only if, it is genuine and the eon keys can be read. -/
theorem accepts_iff (instanceId : Nat) (m : DecryptionKey) (s : Store) :
    (validate instanceId m s).1 = .accept ↔ s.database.answers .eonKeys = true ∧
      Genuine instanceId s.database.tables.eonKeys m := by
  rw [validate_eq]
  constructor
  · intro h
    split at h
    · cases h
    · rename_i key epoch parts
      obtain ⟨mine, positive, ⟨length, rfl⟩, keyRead⟩ := wellFormed?_eq_some.mp parts
      obtain ⟨entry, eonKey, found, read, fits⟩ := checkAgainst_eq_accept.mp h
      obtain ⟨w, ran, -⟩ := Action.direct_eq_iff.mp (Prod.ext found rfl)
      obtain ⟨connected, permitted, held, -⟩ := Store.EonKeys.exec_get_eq_ok.mp ran
      obtain ⟨row, stored, rfl⟩ := Option.map_eq_some_iff.mp held
      exact ⟨Database.answers_iff.mpr ⟨connected, permitted⟩, mine, positive, length, key, row,
        eonKey, keyRead, point_of_verify fits, stored, read, fits⟩
  · rintro ⟨answers, mine, positive, length, key, row, eonKey, keyRead, -, stored, read, fits⟩
    obtain ⟨connected, permitted⟩ := Database.answers_iff.mp answers
    rw [wellFormed?_eq_some.mpr ⟨mine, positive, ⟨length, rfl⟩, keyRead⟩]
    refine checkAgainst_eq_accept.mpr
      ⟨⟨m.eon, row.activation, row.publicKey⟩, eonKey, ?_, read, fits⟩
    have got := (Store.EonKeys.exec_get_eq_ok (w := .opened (.direct s.database) s.activity)).mpr
      ⟨connected, permitted, congrArg _ stored, rfl⟩
    exact congrArg Prod.fst (Action.direct_eq_iff.mpr ⟨_, got, rfl⟩)

theorem database_of_validate (instanceId : Nat) (m : DecryptionKey) (s : Store) :
    (validate instanceId m s).2.database = s.database := by
  rw [validate_eq]
  split
  · rfl
  · exact Store.EonKeys.database_of_get rfl

/-- A key that is handled is in the table afterwards, and nothing else is new. -/
theorem tables_of_handle {s s' : Store} {out : List Outbound}
    (h : handle m s = (.ok out, s')) :
    ((∃ key, s.database.tables.epochKeys.find? m.rowKey = some key) ∧
      s'.database.tables = s.database.tables) ∨
    (s.database.tables.epochKeys.find? m.rowKey = none ∧
      s'.database.tables = { s.database.tables with
        epochKeys := s.database.tables.epochKeys.put m.rowKey m.key }) := by
  obtain ⟨-, w, ran, -, -, -, rfl⟩ := Action.transaction_eq_ok.mp h
  obtain ⟨_, u, inserted, returned⟩ := Work.exec_bind_eq_ok.mp ran
  cases returned
  obtain ⟨_, inserted⟩ := Work.exec_discard_eq_ok.mp inserted
  exact Store.EpochKeys.exec_insert_eq_ok rfl (Work.exec_mapError_eq_ok.mp inserted)

private theorem takesKeys_iff {d : Database} : takesKeys d = true ↔ d.canWrite .epochKeys = true ∧
    d.faults.failingCommits = false ∧ d.faults.outlives 1 = true := by
  rw [takesKeys, Bool.and_eq_true, Bool.and_eq_true, Bool.not_eq_true', and_assoc]

private theorem handles (m : DecryptionKey) {s : Store} (takes : takesKeys s.database = true) :
    ∃ s', handle m s = (.ok [], s') := by
  obtain ⟨writable, commits, second⟩ := takesKeys_iff.mp takes
  obtain ⟨inserted, w, ran, lasts, doomed, faults⟩ :
      ∃ inserted w, (Store.EpochKeys.insert ⟨m.eon, m.epochId, m.key⟩).exec
          (.opened ⟨s.database, false, false⟩ s.activity) = (.ok inserted, w) ∧
        w.lasts = (Workspace.opened ⟨s.database, false, false⟩ s.activity).spent ∧
        w.draft.doomed = false ∧ w.draft.database.faults = s.database.faults :=
    Store.EpochKeys.exec_insert_of_writable rfl (Store.Faults.outlives_zero second) writable commits
  have opened : s.database.faults.closed = false := by
    have readable := Store.Database.canRead_of_canWrite writable
    rw [Store.Database.canRead, Bool.and_eq_true, Bool.not_eq_true'] at readable
    exact readable.1
  have connected : w.connected = true := (Workspace.connected_of_first lasts).trans second
  unfold handle
  refine ⟨_, Action.transaction_eq_ok.mpr
    ⟨opened, w, ?_, doomed, by rw [faults, opened], connected, rfl⟩⟩
  refine Work.exec_bind_eq_ok.mpr ⟨(), w, ?_, rfl⟩
  exact Work.exec_discard_eq_ok.mpr ⟨inserted, Work.exec_mapError_eq_ok.mpr ran⟩

/-- What handling a message does to the database: the key of an epoch that has none is stored, if
the database takes it. -/
theorem database_of_handle (m : DecryptionKey) (s : Store) :
    (handle m s).2.database = keeping s.database m := by
  unfold keeping
  rcases ran : handle m s with ⟨result, s'⟩
  cases result with
  | error e =>
    have refused : takesKeys s.database = false := by
      by_contra takes
      obtain ⟨s'', handled⟩ := handles m (Bool.not_eq_false _ ▸ takes)
      rw [ran] at handled
      cases handled
    rw [refused, if_neg Bool.false_ne_true]
    exact Action.database_of_transaction_error ran
  | ok out =>
    obtain ⟨-, w, worked, undoomed, -, connected, rfl⟩ := Action.transaction_eq_ok.mp ran
    obtain ⟨_, u, inserted, returned⟩ := Work.exec_bind_eq_ok.mp worked
    cases returned
    obtain ⟨_, inserted⟩ := Work.exec_discard_eq_ok.mp inserted
    obtain ⟨-, writable, lasts, left⟩ :=
      Store.EpochKeys.draft_of_insert rfl (Work.exec_mapError_eq_ok.mp inserted)
    by_cases present : s.database.tables.epochKeys.contains m.rowKey = true
    · have same := left.trans (if_pos present)
      rw [Table.putNew, if_pos present, same]
      split <;> rfl
    · have written := left.trans (if_neg present)
      rw [written] at undoomed
      have second : s.database.faults.outlives 1 = true :=
        (Workspace.connected_of_first lasts).symm.trans connected
      have takes : takesKeys s.database = true := takesKeys_iff.mpr ⟨writable, undoomed, second⟩
      rw [Table.putNew, if_neg present, if_pos takes, written]
      rfl

end KeyHandler

section Halves
variable {instanceId : Nat} {topic : String} {payload : Bytes} {s s' : Store}

theorem find?_nodeRouter (instanceId : Nat) (topic : String) :
    (nodeRouter instanceId).find? topic =
      if DecryptionKey.topic = topic then some (keyHandler instanceId).onPayloads else none := by
  unfold nodeRouter Router.register Router.find?
  by_cases h : DecryptionKey.topic = topic <;> simp [Router.empty, Router.put, keyHandler, h]

private theorem decode?_keyHandler :
    (keyHandler instanceId).decode? payload = DecryptionKey.decode? payload := rfl

private def handlePayload (payload : Bytes) (s : Store) :
    Except NetworkError (List Outbound) × Store :=
  match DecryptionKey.decode? payload with
  | some m => KeyHandler.handle m s
  | none => (.error (.decode DecryptionKey.topic), s)

private theorem handle_keyHandler :
    (keyHandler instanceId).onPayloads.handle payload s = handlePayload payload s := by
  rw [Handler.handle_onPayloads, decode?_keyHandler, handlePayload]
  cases DecryptionKey.decode? payload <;> rfl

/-- The first half accepts genuine keys and nothing else, by the eon keys that are stored at the
time. It fails to accept them only where these cannot be read. -/
theorem validate_eq_accept (instanceId : Nat) (topic : String) (payload : Bytes) (s : Store) :
    ((nodeRouter instanceId).validate topic payload s).1 = .accept ↔
      topic = DecryptionKey.topic ∧ s.database.answers .eonKeys = true ∧
      ∃ m, DecryptionKey.decode? payload = some m ∧
        Genuine instanceId s.database.tables.eonKeys m := by
  unfold Router.validate
  rw [find?_nodeRouter]
  by_cases mine : DecryptionKey.topic = topic
  · rw [if_pos mine, and_iff_right mine.symm]
    dsimp only
    rw [Router.judge_eq, Handler.validate_onPayloads, decode?_keyHandler]
    cases DecryptionKey.decode? payload with
    | none =>
      constructor
      · intro h
        cases h
      · rintro ⟨-, m, read, -⟩
        cases read
    | some m =>
      refine (KeyHandler.accepts_iff instanceId m s).trans (and_congr_right fun _ => ?_)
      simp
  · rw [if_neg mine]
    constructor
    · intro h
      cases h
    · rintro ⟨rfl, -⟩
      exact absurd rfl mine

theorem database_of_validate (instanceId : Nat) (topic : String) (payload : Bytes) (s : Store) :
    ((nodeRouter instanceId).validate topic payload s).2.database = s.database := by
  unfold Router.validate
  rw [find?_nodeRouter]
  by_cases mine : DecryptionKey.topic = topic
  · rw [if_pos mine]
    dsimp only
    rw [Router.judge_eq, Handler.validate_onPayloads, decode?_keyHandler]
    cases DecryptionKey.decode? payload with
    | none => rfl
    | some m => exact KeyHandler.database_of_validate instanceId m s
  · rw [if_neg mine]
    rfl

/-- The second half of a message on the topic of keys. -/
private theorem finish_mine {result : Except NetworkError (List Outbound)}
    (h : (nodeRouter instanceId).finish DecryptionKey.topic payload s = (result, s')) :
    ∃ left, s'.database = left.database ∧ handlePayload payload s = (result, left) := by
  unfold Router.finish at h
  rw [find?_nodeRouter, if_pos rfl] at h
  dsimp only at h
  rw [Router.countHandled_eq, handle_keyHandler] at h
  cases h
  exact ⟨(handlePayload payload s).2, rfl, rfl⟩

private theorem finish_other (other : topic ≠ DecryptionKey.topic) :
    (nodeRouter instanceId).finish topic payload s = (.error (.unknownTopic topic), s) := by
  unfold Router.finish
  rw [find?_nodeRouter, if_neg (Ne.symm other)]
  rfl

/-- The second half of a message does what handling its key does. -/
theorem database_of_finish {m : DecryptionKey} (read : DecryptionKey.decode? payload = some m) :
    ((nodeRouter instanceId).finish DecryptionKey.topic payload s).2.database =
      keeping s.database m := by
  rcases finished : (nodeRouter instanceId).finish DecryptionKey.topic payload s with ⟨result, s'⟩
  obtain ⟨left, same, ran⟩ := finish_mine finished
  rw [handlePayload, read] at ran
  rw [same, ← KeyHandler.database_of_handle m s]
  exact congrArg (fun r => r.2.database) ran.symm

/-- A second half that fails leaves the database as it was. -/
theorem database_of_finish_error {e : NetworkError}
    (h : (nodeRouter instanceId).finish topic payload s = (.error e, s')) :
    s'.database = s.database := by
  by_cases mine : topic = DecryptionKey.topic
  · subst mine
    obtain ⟨left, same, ran⟩ := finish_mine h
    rw [same]
    unfold handlePayload at ran
    cases read : DecryptionKey.decode? payload with
    | none =>
      rw [read] at ran
      cases ran
      rfl
    | some m =>
      rw [read] at ran
      exact Action.database_of_transaction_error ran
  · rw [finish_other mine] at h
    cases h
    rfl

/-- A second half that succeeds leaves the message's key, or one that was there before it. -/
theorem tables_of_finish {out : List Outbound}
    (h : (nodeRouter instanceId).finish topic payload s = (.ok out, s')) :
    topic = DecryptionKey.topic ∧ ∃ m, DecryptionKey.decode? payload = some m ∧
      (((∃ key, s.database.tables.epochKeys.find? m.rowKey = some key) ∧
        s'.database.tables = s.database.tables) ∨
      (s.database.tables.epochKeys.find? m.rowKey = none ∧
        s'.database.tables = { s.database.tables with
          epochKeys := s.database.tables.epochKeys.put m.rowKey m.key })) := by
  by_cases mine : topic = DecryptionKey.topic
  · subst mine
    obtain ⟨left, same, ran⟩ := finish_mine h
    rw [same]
    unfold handlePayload at ran
    cases read : DecryptionKey.decode? payload with
    | none =>
      rw [read] at ran
      cases ran
    | some m =>
      rw [read] at ran
      exact ⟨rfl, m, rfl, KeyHandler.tables_of_handle ran⟩
  · rw [finish_other mine] at h
    cases h

/-- While the database does not misbehave, the second half fails only for what could not have been
accepted. -/
theorem finishes_iff (instanceId : Nat) (topic : String) (payload : Bytes) (s : Store) :
    (∃ out s', (nodeRouter instanceId).finish topic payload (s.withFaults .none) = (.ok out, s')) ↔
      topic = DecryptionKey.topic ∧ (DecryptionKey.decode? payload).isSome := by
  constructor
  · rintro ⟨out, s', ran⟩
    obtain ⟨mine, m, read, -⟩ := tables_of_finish ran
    exact ⟨mine, Option.isSome_of_eq_some read⟩
  · rintro ⟨rfl, readable⟩
    obtain ⟨m, read⟩ := Option.isSome_iff_exists.mp readable
    obtain ⟨s', handled⟩ := KeyHandler.handles m (s := s.withFaults .none) rfl
    unfold Router.finish
    rw [find?_nodeRouter, if_pos rfl]
    dsimp only
    rw [Router.countHandled_eq, handle_keyHandler, handlePayload, read]
    dsimp only
    rw [handled]
    exact ⟨[], _, rfl⟩

/-- The store has a key of the epoch that a payload names. -/
def Stored (payload : Bytes) (s : Store) : Prop :=
  ∃ m, DecryptionKey.decode? payload = some m ∧
    ∃ key, s.database.tables.epochKeys.find? m.rowKey = some key

theorem finish_cases (instanceId : Nat) (topic : String) (payload : Bytes) (s : Store) :
    match (nodeRouter instanceId).finish topic payload s with
    | (.ok _, s') => topic = DecryptionKey.topic ∧ Stored payload s'
    | (.error _, s') => s'.database = s.database := by
  split
  · rename_i out s' ran
    obtain ⟨mine, m, read, ⟨⟨key, held⟩, same⟩ | ⟨-, put⟩⟩ := tables_of_finish ran
    · exact ⟨mine, m, read, key, by rw [same]; exact held⟩
    · exact ⟨mine, m, read, m.key, by rw [put]; exact Table.find?_put_self _ _ _⟩
  · rename_i e s' ran
    exact database_of_finish_error ran

theorem process_cases (instanceId : Nat) (topic : String) (payload : Bytes) (s : Store) :
    match (nodeRouter instanceId).process topic payload s with
    | (.ok (.accept, _), s') => topic = DecryptionKey.topic ∧ Stored payload s'
    | (_, s') => s'.database = s.database := by
  have judged := database_of_validate instanceId topic payload s
  rw [Router.process_eq]
  cases ((nodeRouter instanceId).find? topic).isNone with
  | true => rfl
  | false =>
    rcases ran : (nodeRouter instanceId).validate topic payload s with ⟨verdict, s'⟩
    rw [ran] at judged
    cases verdict with
    | reject => exact judged
    | ignore => exact judged
    | accept =>
      have finished := finish_cases instanceId topic payload s'
      rw [if_neg Bool.false_ne_true]
      dsimp only
      rcases ended : (nodeRouter instanceId).finish topic payload s' with ⟨_ | _, left⟩
      · rw [ended] at finished
        exact Eq.trans finished judged
      · rw [ended] at finished
        exact finished

end Halves
end DecryptorNode.Network
