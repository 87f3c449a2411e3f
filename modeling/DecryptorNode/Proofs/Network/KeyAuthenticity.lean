import DecryptorNode.Proofs.Network.CallHalves
import DecryptorNode.Proofs.Sync.AtomicApplication

/-! Where stored decryption keys come from. In whatever order a node's messages, eon keys and
events come and however the database misbehaves, a key that is stored was checked first, and it
stays. -/
namespace DecryptorNode.Network
open Store (EonKeyRow EpochKey Faults Table)

/-- A node between two moves: its store, and the messages that were accepted and are still to be
handled. -/
structure Node where
  store : Store
  accepted : List (String × Bytes)

/-- What happens to a node. A message comes in and is judged, or one that was accepted is handled,
so that anything can come between; an eon key is stored or replaced; an item of the event stream is
applied; the database begins to misbehave or ends it. -/
inductive Move where
  | judged : (topic : String) → (payload : Bytes) → Move
  | handled : (position : Nat) → Move
  | eonKey : Store.EonKeyEntry → Move
  | applied : Chain.WatchedContracts → Chain.AddressReader → Chain.Update → Move
  | disturbed : Faults → Move

namespace Node

def step (r : Router) (n : Node) : Move → Node
  | .judged topic payload =>
    match r.validate topic payload n.store with
    | (.accept, s) => ⟨s, n.accepted ++ [(topic, payload)]⟩
    | (_, s) => { n with store := s }
  | .handled position =>
    match n.accepted[position]? with
    | some (topic, payload) =>
      ⟨(r.finish topic payload n.store).2, n.accepted.eraseIdx position⟩
    | none => n
  | .eonKey entry =>
    { n with store := (Store.Action.direct (Store.EonKeys.insert entry) n.store).2 }
  | .applied contracts reader update =>
    { n with store := (Sync.apply contracts reader update n.store).2 }
  | .disturbed faults => { n with store := n.store.withFaults faults }

def run (r : Router) (n : Node) (moves : List Move) : Node := moves.foldl (step r) n

def epochKeys (n : Node) : Table EpochKey Bytes := n.store.database.tables.epochKeys

def eonKeys (n : Node) : Table Int EonKeyRow := n.store.database.tables.eonKeys

private theorem run_append (r : Router) (n : Node) (moves more : List Move) :
    run r n (moves ++ more) = run r (run r n moves) more := List.foldl_append

/-- A message that is handled as soon as it is judged is processed. -/
theorem run_process (r : Router) (n : Node) (topic : String) (payload : Bytes) :
    n.run r [.judged topic payload, .handled n.accepted.length] =
      ⟨(r.process topic payload n.store).2, n.accepted⟩ := by
  rw [Router.process_eq]
  change (n.step r (.judged topic payload)).step r (.handled n.accepted.length) = _
  have unheard : n.accepted[n.accepted.length]? = none := List.getElem?_eq_none (Nat.le_refl _)
  cases known : r.find? topic with
  | none =>
    have refused : r.validate topic payload n.store = (.ignore, n.store) := by
      simp only [Router.validate, known]
      rfl
    simp only [step, refused, unheard, Option.isNone_none, if_true]
  | some h =>
    rcases judged : r.validate topic payload n.store with ⟨verdict, s⟩
    cases verdict with
    | accept =>
      have last : (n.accepted ++ [(topic, payload)])[n.accepted.length]? =
          some (topic, payload) := List.getElem?_concat_length
      have erased : (n.accepted ++ [(topic, payload)]).eraseIdx n.accepted.length = n.accepted := by
        rw [List.eraseIdx_append_of_length_le (Nat.le_refl _), Nat.sub_self]
        exact List.append_nil _
      simp only [step, judged, last, erased]
      rfl
    | reject =>
      simp only [step, judged, unheard]
      rfl
    | ignore =>
      simp only [step, judged, unheard]
      rfl

end Node

/-- A message was checked when it came in: some move judged a payload that decodes to it, and by
the eon keys that were stored then it is genuine. -/
def Vouched (instanceId : Nat) (n : Node) (moves : List Move) (m : DecryptionKey)
    (payload : Bytes) : Prop :=
  ∃ pre post, moves = pre ++ .judged DecryptionKey.topic payload :: post ∧
    DecryptionKey.decode? payload = some m ∧
    Genuine instanceId (n.run (nodeRouter instanceId) pre).eonKeys m

section Steps
variable {instanceId : Nat} {n : Node} {moves : List Move} {m : DecryptionKey} {payload : Bytes}

private theorem Vouched.append (h : Vouched instanceId n moves m payload) (more : List Move) :
    Vouched instanceId n (moves ++ more) m payload := by
  obtain ⟨pre, post, rfl, read, genuine⟩ := h
  exact ⟨pre, post ++ more, by simp, read, genuine⟩

/-- A move leaves the keys alone, or it adds the key of an accepted message whose epoch had none. -/
theorem epochKeys_step (instanceId : Nat) (n : Node) (move : Move) :
    (n.step (nodeRouter instanceId) move).epochKeys = n.epochKeys ∨
    ∃ accepted ∈ n.accepted, ∃ m, DecryptionKey.decode? accepted.2 = some m ∧
      n.epochKeys.find? m.rowKey = none ∧
      (n.step (nodeRouter instanceId) move).epochKeys = n.epochKeys.put m.rowKey m.key := by
  cases move with
  | judged topic payload =>
    have kept := congrArg (fun d => d.tables.epochKeys)
      (database_of_validate instanceId topic payload n.store)
    refine .inl ?_
    unfold Node.step
    dsimp only
    split <;> rename_i ran <;> rw [ran] at kept <;> exact kept
  | handled position =>
    unfold Node.step
    dsimp only
    cases chosen : n.accepted[position]? with
    | none => exact .inl rfl
    | some call =>
      obtain ⟨topic, payload⟩ := call
      dsimp only
      cases ran : (nodeRouter instanceId).finish topic payload n.store with
      | mk result s =>
        cases result with
        | error e =>
          exact .inl (congrArg (fun d => d.tables.epochKeys) (database_of_finish_error ran))
        | ok out =>
          obtain ⟨-, m, read, ⟨-, same⟩ | ⟨absent, put⟩⟩ := tables_of_finish ran
          · exact .inl (congrArg Store.Tables.epochKeys same)
          · exact .inr ⟨_, List.mem_of_getElem? chosen, m, read, absent,
              congrArg Store.Tables.epochKeys put⟩
  | eonKey entry => exact .inl (Store.EonKeys.epochKeys_of_insert rfl)
  | applied contracts reader update =>
    exact .inl (Sync.epochKeys_of_apply contracts reader update n.store)
  | disturbed faults => exact .inl rfl

/-- Only judging a message accepts it, and then it is genuine. -/
theorem accepted_step {move : Move} {call : String × Bytes}
    (h : call ∈ (n.step (nodeRouter instanceId) move).accepted) :
    call ∈ n.accepted ∨ move = .judged DecryptionKey.topic call.2 ∧
      ∃ m, DecryptionKey.decode? call.2 = some m ∧ Genuine instanceId n.eonKeys m := by
  cases move with
  | judged topic payload =>
    unfold Node.step at h
    dsimp only at h
    split at h
    · rename_i s' ran
      rcases List.mem_append.mp h with h | h
      · exact .inl h
      · obtain rfl := List.mem_singleton.mp h
        obtain ⟨rfl, -, m, read, genuine⟩ :=
          (validate_eq_accept instanceId _ _ _).mp (congrArg Prod.fst ran)
        exact .inr ⟨rfl, m, read, genuine⟩
    · exact .inl h
  | handled position =>
    unfold Node.step at h
    dsimp only at h
    split at h
    · exact .inl (List.mem_of_mem_eraseIdx h)
    · exact .inl h
  | eonKey entry => exact .inl h
  | applied contracts reader update => exact .inl h
  | disturbed faults => exact .inl h

/-- What holds after every run: the messages that wait to be handled were checked, and so were
those whose keys are new. -/
structure Accounted (instanceId : Nat) (n : Node) (moves : List Move) : Prop where
  accepted : ∀ call ∈ (n.run (nodeRouter instanceId) moves).accepted, call ∈ n.accepted ∨
    ∃ m, Vouched instanceId n moves m call.2
  rows : ∀ row ∈ (n.run (nodeRouter instanceId) moves).epochKeys.rows, row ∈ n.epochKeys.rows ∨
    ∃ m payload, Vouched instanceId n moves m payload ∧ row = (m.rowKey, m.key)

private theorem run_snoc (r : Router) (n : Node) (moves : List Move) (move : Move) :
    n.run r (moves ++ [move]) = (n.run r moves).step r move := by
  rw [Node.run_append]
  rfl

private theorem Accounted.step (idle : n.accepted = []) (h : Accounted instanceId n moves)
    (move : Move) : Accounted instanceId n (moves ++ [move]) where
  accepted call mem := by
    rw [run_snoc] at mem
    rcases accepted_step mem with before | ⟨rfl, m, read, genuine⟩
    · rcases h.accepted call before with here | ⟨m, vouched⟩
      · exact .inl here
      · exact .inr ⟨m, vouched.append _⟩
    · exact .inr ⟨m, moves, [], rfl, read, genuine⟩
  rows row mem := by
    rw [run_snoc] at mem
    have old (before : row ∈ (n.run (nodeRouter instanceId) moves).epochKeys.rows) :
        row ∈ n.epochKeys.rows ∨ ∃ m payload, Vouched instanceId n (moves ++ [move]) m payload ∧
          row = (m.rowKey, m.key) := by
      rcases h.rows row before with here | ⟨m, payload, vouched, same⟩
      · exact .inl here
      · exact .inr ⟨m, payload, vouched.append _, same⟩
    rcases epochKeys_step instanceId (n.run (nodeRouter instanceId) moves) move with same |
      ⟨call, waiting, m, read, absent, put⟩
    · rw [same] at mem
      exact old mem
    · rw [put] at mem
      obtain ⟨front, back, before, after⟩ := Table.rows_put_of_find?_eq_none _ _ m.key absent
      rw [after, List.mem_append, List.mem_cons] at mem
      rw [before, List.mem_append] at old
      rcases mem with early | rfl | late
      · exact old (.inl early)
      · rcases h.accepted call waiting with here | ⟨m', vouched⟩
        · rw [idle] at here
          cases here
        · obtain ⟨pre, post, split, read', genuine⟩ := vouched
          obtain rfl : m = m' := Option.some.inj (read.symm.trans read')
          exact .inr ⟨m, call.2, Vouched.append ⟨pre, post, split, read', genuine⟩ _, rfl⟩
      · exact old (.inr late)

private theorem Accounted.run (idle : n.accepted = []) (h : Accounted instanceId n moves)
    (more : List Move) : Accounted instanceId n (moves ++ more) := by
  induction more generalizing moves with
  | nil =>
    rw [List.append_nil]
    exact h
  | cons move rest ih =>
    rw [List.append_cons]
    exact ih (h.step idle move)

private theorem accounted (idle : n.accepted = []) : Accounted instanceId n moves := by
  have start : Accounted instanceId n [] := ⟨fun _ h => .inl h, fun _ h => .inl h⟩
  exact start.run idle moves

/-- No row is removed, and no key gets another value. -/
theorem rows_step (instanceId : Nat) (n : Node) (move : Move) :
    n.epochKeys.rows.Sublist (n.step (nodeRouter instanceId) move).epochKeys.rows ∧
      ∀ key value, n.epochKeys.find? key = some value →
        (n.step (nodeRouter instanceId) move).epochKeys.find? key = some value := by
  rcases epochKeys_step instanceId n move with same | ⟨call, -, m, -, absent, put⟩
  · rw [same]
    exact ⟨.refl _, fun _ _ found => found⟩
  · obtain ⟨front, back, before, after⟩ := Table.rows_put_of_find?_eq_none _ _ m.key absent
    rw [put]
    constructor
    · rw [after, before]
      exact (List.Sublist.refl front).append (List.sublist_cons_self _ back)
    · intro key value found
      rw [Table.find?_put_of_ne]
      · exact found
      · rintro rfl
        rw [absent] at found
        cases found

private theorem rows_run (instanceId : Nat) (n : Node) (moves : List Move) :
    n.epochKeys.rows.Sublist (n.run (nodeRouter instanceId) moves).epochKeys.rows ∧
      ∀ key value, n.epochKeys.find? key = some value →
        (n.run (nodeRouter instanceId) moves).epochKeys.find? key = some value := by
  induction moves generalizing n with
  | nil => exact ⟨.refl _, fun _ _ found => found⟩
  | cons move rest ih =>
    obtain ⟨sublist, stays⟩ := rows_step instanceId n move
    obtain ⟨sublist', stays'⟩ := ih (n.step (nodeRouter instanceId) move)
    exact ⟨sublist.trans sublist', fun key value found => stays' key value (stays key value found)⟩

end Steps

/-- Start a node without accepted messages and let anything happen. Every key in its table was
there at the start, or it is the key of a message that came in earlier and was genuine by the eon
keys that were stored when it was judged. A row that is there at some time is there ever after, with
the same key. The first half of a message changes no table, and where the eon keys can be read it
accepts a message exactly if it is genuine. A second half that fails changes no table, nor does a
whole message that is not accepted or fails. A key that is accepted and handled without an error
leaves a row for its epoch, and while the database does not misbehave there is no such error. -/
theorem stored_keys_authentic (instanceId : Nat) (s : Store) (moves : List Move) :
    let router := nodeRouter instanceId
    let start : Node := ⟨s, []⟩
    (∀ row ∈ (start.run router moves).epochKeys.rows, row ∈ start.epochKeys.rows ∨
      ∃ m payload, Vouched instanceId start moves m payload ∧ row = (m.rowKey, m.key)) ∧
    (∀ pre post, moves = pre ++ post →
      (start.run router pre).epochKeys.rows.Sublist (start.run router moves).epochKeys.rows ∧
      ∀ key value, (start.run router pre).epochKeys.find? key = some value →
        (start.run router moves).epochKeys.find? key = some value) ∧
    (∀ topic payload u, (router.validate topic payload u).2.database = u.database ∧
      ((router.validate topic payload u).1 = .accept ↔
        topic = DecryptionKey.topic ∧ u.database.answers .eonKeys = true ∧
        ∃ m, DecryptionKey.decode? payload = some m ∧
          Genuine instanceId u.database.tables.eonKeys m)) ∧
    (∀ topic payload u, (match router.finish topic payload u with
        | (.ok _, u') => topic = DecryptionKey.topic ∧ Stored payload u'
        | (.error _, u') => u'.database = u.database) ∧
      ((∃ out u', router.finish topic payload (u.withFaults .none) = (.ok out, u')) ↔
        topic = DecryptionKey.topic ∧ (DecryptionKey.decode? payload).isSome)) ∧
    ∀ topic payload u, match router.process topic payload u with
      | (.ok (.accept, _), u') => topic = DecryptionKey.topic ∧ Stored payload u'
      | (_, u') => u'.database = u.database := by
  intro router start
  refine ⟨(accounted rfl).rows, fun pre post split => ?_, fun topic payload u => ⟨?_, ?_⟩,
    fun topic payload u => ⟨?_, ?_⟩, process_cases instanceId⟩
  · rw [split, Node.run_append]
    exact rows_run instanceId _ post
  · exact database_of_validate instanceId topic payload u
  · exact validate_eq_accept instanceId topic payload u
  · exact finish_cases instanceId topic payload u
  · exact finishes_iff instanceId topic payload u

end DecryptorNode.Network
