import DecryptorNode.Proofs.Node.PathIndependence
import DecryptorNode.Proofs.Sync.CallRuns
import DecryptorNode.Proofs.Sync.Lifetimes

/-! What the two halves of a pipeline see under a schedule, and how it tells the state that the
pipeline is in: the failure it returns, the item in hand and the tables. -/
namespace DecryptorNode.Sync
open Chain (AddressReader ChainError Cursor Update)
open Store (Database Faults)

/-- A move, with what the chain and the database are like at the time. -/
structure Turn where
  move : Move
  reader : AddressReader
  faults : Faults

def Turn.call (t : Turn) (u : Update) : Call := ⟨u, t.reader, t.faults⟩

/-- What the two halves see: the source ended, it handed out an item or failed to, and the
application of an item became permanent or failed. -/
inductive Happening where
  | sourceEnded : Except ChainError Unit → Happening
  | handedOut : Update → Happening
  | nextFailed : ChainError → Happening
  | committed : Call → Happening
  | failed : Call → SyncError → Happening

/-- The failure of a half. To be cancelled is none for the source, but it is one for an
application. -/
def Happening.failure? : Happening → Option SyncError
  | .sourceEnded (.error e) => if e = .cancelled then none else some (.chain e)
  | .nextFailed e => if e = .cancelled then none else some (.chain e)
  | .failed _ e => some e
  | _ => none

def Happening.handed? : Happening → Option Update
  | .handedOut u => some u
  | _ => none

def Happening.call? : Happening → Option Call
  | .committed c => some c
  | _ => none

def failuresIn (h : List Happening) : List SyncError := h.filterMap Happening.failure?

def handedOut (h : List Happening) : List Update := h.filterMap Happening.handed?

def commits (h : List Happening) : List Call := h.filterMap Happening.call?

section Lists
variable (h h' : List Happening) (x : Happening)

@[simp] theorem failuresIn_concat : failuresIn (h ++ [x]) = failuresIn h ++ x.failure?.toList := by
  unfold failuresIn
  rw [List.filterMap_append]
  cases failure : x.failure? <;> simp [failure]

@[simp] theorem handedOut_concat : handedOut (h ++ [x]) = handedOut h ++ x.handed?.toList := by
  unfold handedOut
  rw [List.filterMap_append]
  cases handed : x.handed? <;> simp [handed]

@[simp] theorem commits_concat : commits (h ++ [x]) = commits h ++ x.call?.toList := by
  unfold commits
  rw [List.filterMap_append]
  cases call : x.call? <;> simp [call]

end Lists

namespace Pipeline
variable (contracts : Chain.WatchedContracts)

def turn (p : Pipeline) (t : Turn) : Pipeline :=
  p.move (fun u => (t.call u).outcome contracts) t.move

def turns (p : Pipeline) (l : List Turn) : Pipeline := l.foldl (turn contracts) p

def concluded (c : Call) : Except Halt Cursor → Option Happening
  | .ok _ => some (.committed c)
  | .error (.failed e) => some (.failed c e)
  | .error .stalled => none

/-- What comes of an application that is dropped, by how it went on the connection that it had.
Nobody sees it fail. -/
def leftBehind (c : Call) : Except Halt Cursor → Option Happening
  | .ok _ => some (.committed c)
  | .error _ => none

/-- What happens in a turn. Halves that are gone see nothing. -/
def happening? (p : Pipeline) (t : Turn) : Option Happening :=
  match t.move with
  | .shutdown => none
  | .produced result => if p.finished || !p.producing then none else some (.sourceEnded result)
  | .received result =>
    match p.consumer with
    | .waiting => if p.finished then none else
      match result with
      | .ok u => some (.handedOut u)
      | .error e => some (.nextFailed e)
    | _ => none
  | .settled =>
    match p.consumer with
    | .applying u =>
      if p.finished || p.fired then none
      else concluded (t.call u) ((t.call u).outcome contracts p.store).1
    | _ => none
  | .dropped =>
    match p.consumer with
    | .applying u =>
      if p.finished || p.fired then leftBehind (t.call u) ((t.call u).outcome contracts p.store).1
      else none
    | _ => none

def history (p : Pipeline) : List Turn → List Happening
  | [] => []
  | t :: rest => (happening? contracts p t).toList ++ history (p.turn contracts t) rest

def failures (p : Pipeline) : List SyncError :=
  match p.outcome with
  | some (.error e) => [e]
  | _ => []

/-- What is known of a pipeline that was started on a store, from the failures, the items that were
handed out and the calls that became permanent. -/
structure Told (s : Store) (failed : List SyncError) (items : List Update) (calls : List Call)
    (p : Pipeline) : Prop where
  failures : failed = p.failures
  ended : p.outcome = some (.ok ()) → p.producing = false ∧ p.consumer = .ended
  inHand : p.consumer ≠ .ended → items = calls.map Call.update ++ p.inHand
  order : calls.map Call.update <+: items
  tables : p.store.database.tables = (called contracts s calls).database.tables
  landed : landed contracts s calls = calls.map Call.update

variable {contracts} {s : Store} {failed : List SyncError} {items : List Update}
  {calls : List Call} {h : List Happening} {p : Pipeline} {u : Update}

theorem told_start (contracts : Chain.WatchedContracts) (s : Store) :
    Told contracts s [] [] [] (start s) where
  failures := rfl
  ended := by
    intro contra
    cases contra
  inHand := by
    intro _
    rfl
  order := List.prefix_rfl
  tables := rfl
  landed := rfl

section Steps

private theorem outcome_of_running (running : p.finished = false) : p.outcome = none := by
  simpa [finished] using running

private theorem Told.join (told : Told contracts s failed items calls p) :
    Told contracts s failed items calls p.join := by
  unfold Pipeline.join
  split
  · rename_i done
    have idle : p.outcome = none ∧ p.producing = false ∧ p.consumer = .ended := by
      simpa [and_assoc] using done
    have none : failed = [] := by rw [told.failures, Pipeline.failures, idle.1]
    exact { told with failures := none, ended := fun _ => idle.2 }
  · exact told

private theorem Told.shut (told : Told contracts s failed items calls p) :
    Told contracts s failed items calls { p with shutdown := true } := { told with }

private theorem Told.stopProducing (told : Told contracts s failed items calls p) :
    Told contracts s failed items calls { p with producing := false } :=
  { told with ended := fun done => ⟨rfl, (told.ended done).2⟩ }

private theorem Told.endConsumer (told : Told contracts s failed items calls p) :
    Told contracts s failed items calls { p with consumer := .ended } :=
  { told with
    ended := fun done => ⟨(told.ended done).1, rfl⟩
    inHand := fun open' => absurd rfl open' }

private theorem Told.atStore {s' : Store} (told : Told contracts s failed items calls p)
    (same : s'.database.tables = p.store.database.tables) :
    Told contracts s failed items calls { p with store := s' } :=
  { told with tables := same.trans told.tables }

/-- The first failure is the only one. -/
private theorem Told.fail (told : Told contracts s failed items calls p)
    (running : p.finished = false)
    (cause : SyncError) : Told contracts s (failed ++ [cause]) items calls (p.fail cause) := by
  have none : failed = [] := by
    rw [told.failures, Pipeline.failures, outcome_of_running running]
  subst none
  exact { told with failures := rfl, ended := fun contra => by cases contra }

/-- An item comes only when the one before it is done. -/
private theorem Told.handed (told : Told contracts s failed items calls p)
    (idle : p.consumer = .waiting) (running : p.finished = false) (u : Update) :
    Told contracts s failed (items ++ [u]) calls { p with consumer := .applying u } := by
  have before : items = calls.map Call.update := by
    have all := told.inHand (by rw [idle]; exact fun contra => by cases contra)
    rwa [Pipeline.inHand, idle, List.append_nil] at all
  refine { told with ended := ?_, inHand := ?_, order := ?_ }
  · intro done
    have none := outcome_of_running running
    rw [show p.outcome = some (.ok ()) from done] at none
    cases none
  · intro _
    rw [before]
    rfl
  · rw [before]
    exact List.prefix_append _ _

/-- Applications depend on the tables alone. -/
private theorem outcome_congr (contracts : Chain.WatchedContracts) (c : Call) {s s' : Store}
    (same : s.database.tables = s'.database.tables) :
    (c.outcome contracts s).1 = (c.outcome contracts s').1 ∧
      (c.outcome contracts s).2.database = (c.outcome contracts s').2.database := by
  have onRecords := onRecords_apply contracts c.reader c.update
  have database : (s.withFaults c.faults).database = (s'.withFaults c.faults).database :=
    congrArg (Database.mk · c.faults) same
  have bare : (s.withFaults c.faults).bare = (s'.withFaults c.faults).bare :=
    congrArg (Store.mk · []) database
  unfold Call.outcome
  rw [Store.OnRecords.eq onRecords (s.withFaults _), Store.OnRecords.eq onRecords (s'.withFaults _),
    bare, database]
  exact ⟨rfl, rfl⟩

/-- The item in hand is the next that is committed, and its whole effect is there. -/
private theorem Told.committed {c : Call} {cursor : Cursor} {s' s'' : Store}
    (told : Told contracts s failed items calls p) (held : p.consumer = .applying c.update)
    (ran : c.outcome contracts p.store = (.ok cursor, s')) (kept : s''.database = s'.database) :
    Told contracts s failed items (calls ++ [c])
      { p with store := s'', consumer := .waiting } := by
  have before : items = calls.map Call.update ++ [c.update] := by
    have all := told.inHand (by rw [held]; exact fun contra => by cases contra)
    rwa [Pipeline.inHand, held] at all
  -- The call would have gone the same way right after the calls before it.
  obtain ⟨result, database⟩ := outcome_congr contracts c told.tables
  rw [ran] at result database
  constructor
  case failures => exact told.failures
  case ended =>
    intro done
    rw [(told.ended done).2] at held
    cases held
  case inHand =>
    intro _
    rw [before]
    simp [Pipeline.inHand]
  case order =>
    rw [before, List.map_append]
    exact List.prefix_rfl
  case tables =>
    rw [called_append]
    exact congrArg Database.tables (kept.trans database)
  case landed =>
    rw [landed_append, told.landed, List.map_append, Sync.landed]
    rcases again : c.outcome contracts _ with ⟨e | _, _⟩
    · rw [again] at result
      cases result
    · rfl

end Steps

/-- What is known from what happened. -/
abbrev ToldBy (contracts : Chain.WatchedContracts) (s : Store) (h : List Happening)
    (p : Pipeline) : Prop :=
  Told contracts s (failuresIn h) (handedOut h) (commits h) p

section Ignored

theorem received_of_busy (busy : p.consumer ≠ .waiting) (result : Except ChainError Update) :
    p.received result = p := if_pos (by rw [decide_eq_true busy, Bool.or_true])

theorem received_of_finished (finished : p.finished = true) (result : Except ChainError Update) :
    p.received result = p := by simp [Pipeline.received, finished]

private theorem settled_of_idle (idle : ∀ u, p.consumer ≠ .applying u)
    (f : Update → Store.Action Halt Cursor) : p.settled f = p := by
  unfold Pipeline.settled
  split
  · rfl
  · split
    · rename_i u held
      exact absurd held (idle u)
    · rfl

theorem settled_of_stopping (stopping : (p.finished || p.fired) = true)
    (f : Update → Store.Action Halt Cursor) : p.settled f = p := if_pos stopping

private theorem dropped_of_going (going : (p.finished || p.fired) = false)
    (f : Update → Store.Action Halt Cursor) : p.dropped f = p := by
  unfold Pipeline.dropped
  split
  · rw [if_neg (by rw [going]; exact Bool.false_ne_true)]
  · rfl

theorem dropped_of_idle (idle : ∀ u, p.consumer ≠ .applying u)
    (f : Update → Store.Action Halt Cursor) : p.dropped f = p := by
  unfold Pipeline.dropped
  split
  · rename_i u held
    exact absurd held (idle u)
  · rfl

end Ignored

section Turns
variable {x : Happening}

/-- What brings neither an item nor a commit brings a failure or nothing. -/
private theorem toldBy_concat (more : List SyncError) (failure : x.failure?.toList = more)
    (handed : x.handed? = none) (call : x.call? = none)
    (told : Told contracts s (failuresIn h ++ more) (handedOut h) (commits h) p) :
    ToldBy contracts s (h ++ [x]) p := by
  unfold ToldBy
  rw [failuresIn_concat, handedOut_concat, commits_concat, failure, handed, call]
  simpa using told

private theorem toldBy_quiet (failure : x.failure? = none) (handed : x.handed? = none)
    (call : x.call? = none) (told : ToldBy contracts s h p) : ToldBy contracts s (h ++ [x]) p := by
  refine toldBy_concat [] ?_ handed call ?_
  · rw [failure]
    rfl
  · rwa [List.append_nil]

private theorem ToldBy.produced (told : ToldBy contracts s h p) (running : p.finished = false)
    (producing : p.producing = true) (result : Except ChainError Unit) :
    ToldBy contracts s (h ++ [.sourceEnded result]) (p.produced result) := by
  unfold Pipeline.produced
  rw [if_neg (by simp [running, producing])]
  split
  · exact toldBy_quiet rfl rfl rfl told.stopProducing.join
  · exact toldBy_quiet rfl rfl rfl told.stopProducing.join
  · rename_i e real
    have failure : (Happening.sourceEnded (.error e)).failure? = some (.chain e) := if_neg real
    exact toldBy_concat _ (by rw [failure]; rfl) rfl rfl (told.stopProducing.fail running _)

private theorem ToldBy.received (told : ToldBy contracts s h p) (running : p.finished = false)
    (idle : p.consumer = .waiting) (u : Update) :
    ToldBy contracts s (h ++ [.handedOut u]) (p.received (.ok u)) := by
  have handed : ToldBy contracts s (h ++ [.handedOut u]) { p with consumer := .applying u } := by
    unfold ToldBy
    rw [failuresIn_concat, handedOut_concat, commits_concat]
    simpa [Happening.failure?, Happening.handed?, Happening.call?] using told.handed idle running u
  unfold Pipeline.received
  rw [if_neg (by simp [running, idle])]
  dsimp only
  split
  · exact handed.endConsumer.join
  · exact handed

private theorem ToldBy.starved (told : ToldBy contracts s h p) (running : p.finished = false)
    (idle : p.consumer = .waiting) (e : ChainError) :
    ToldBy contracts s (h ++ [.nextFailed e]) (p.received (.error e)) := by
  unfold Pipeline.received
  rw [if_neg (by simp [running, idle])]
  split
  · rename_i contra
    cases contra
  · rename_i same
    cases same
    exact toldBy_quiet rfl rfl rfl told.endConsumer.join
  · rename_i e' real same
    cases same
    have failure : (Happening.nextFailed e).failure? = some (.chain e) := if_neg real
    exact toldBy_concat _ (by rw [failure]; rfl) rfl rfl (told.endConsumer.fail running _)

/-- An application in hand that becomes permanent. -/
private theorem ToldBy.committed {c : Call} {cursor : Cursor} {s' s'' : Store}
    (told : ToldBy contracts s h p) (held : p.consumer = .applying c.update)
    (ran : c.outcome contracts p.store = (.ok cursor, s')) (kept : s''.database = s'.database) :
    ToldBy contracts s (h ++ [.committed c]) { p with store := s'', consumer := .waiting } := by
  unfold ToldBy
  rw [failuresIn_concat, handedOut_concat, commits_concat]
  simpa [Happening.failure?, Happening.handed?, Happening.call?] using
    Told.committed told held ran kept

private theorem ToldBy.settled (told : ToldBy contracts s h p) (held : p.consumer = .applying u)
    (running : p.finished = false) (unfired : p.fired = false) (t : Turn) :
    ToldBy contracts s (h ++ (concluded (t.call u) ((t.call u).outcome contracts p.store).1).toList)
      (p.settled fun u => (t.call u).outcome contracts) := by
  unfold Pipeline.settled
  rw [if_neg (by simp [running, unfired]), held]
  dsimp only
  rcases ran : (t.call u).outcome contracts p.store with ⟨(e | _) | cursor, s'⟩
  · have same := tables_of_outcome_error ran
    exact toldBy_concat _ rfl rfl rfl ((told.atStore same).endConsumer.fail running e)
  · have same := told.atStore (tables_of_outcome_error ran)
    rw [held] at same
    simpa [concluded] using same
  · exact told.committed held ran rfl

/-- An application that is dropped leaves all of its effect or none. -/
private theorem ToldBy.dropped (told : ToldBy contracts s h p) (held : p.consumer = .applying u)
    (stopping : (p.finished || p.fired) = true) (t : Turn) :
    ToldBy contracts s
      (h ++ (leftBehind (t.call u) ((t.call u).outcome contracts p.store).1).toList)
      (p.dropped fun u => (t.call u).outcome contracts) := by
  unfold Pipeline.dropped abandoned
  rw [held]
  dsimp only
  rw [if_pos stopping]
  apply Told.join
  rcases ran : (t.call u).outcome contracts p.store with ⟨e | cursor, s'⟩
  · have same : s'.database.tables = p.store.database.tables := tables_of_outcome_error ran
    let left : Store := { p.store with database := s'.database }
    have undone : ToldBy contracts s h { p with store := left, consumer := .ended } :=
      Told.endConsumer (p := { p with store := left }) (told.atStore same)
    rwa [← List.append_nil h] at undone
  · have kept : ({ p.store with database := s'.database } : Store).database = s'.database := rfl
    exact (told.committed (c := t.call u) held ran kept).endConsumer

/-- What happens in a turn tells what the turn does. -/
theorem ToldBy.turn (told : ToldBy contracts s h p) (t : Turn) :
    ToldBy contracts s (h ++ (happening? contracts p t).toList) (p.turn contracts t) := by
  have still : ToldBy contracts s (h ++ []) p := by
    rw [List.append_nil]
    exact told
  unfold Pipeline.turn happening? Pipeline.move
  cases t.move with
  | shutdown =>
    rw [Option.toList_none, List.append_nil]
    exact told.shut
  | produced result =>
    dsimp only
    cases possible : p.finished || !p.producing with
    | true =>
      have ignored : p.produced result = p := by simp [Pipeline.produced, possible]
      rw [ignored]
      exact still
    | false =>
      simp only [Bool.or_eq_false_iff, Bool.not_eq_false'] at possible
      exact told.produced possible.1 possible.2 result
  | received result =>
    dsimp only
    split
    · rename_i idle
      cases running : p.finished with
      | true =>
        rw [received_of_finished running]
        exact still
      | false =>
        cases result with
        | ok u => exact told.received running idle u
        | error e => exact told.starved running idle e
    · rename_i busy
      rw [received_of_busy busy]
      exact still
  | settled =>
    dsimp only
    split
    · rename_i u held
      cases stopping : p.finished || p.fired with
      | true =>
        rw [settled_of_stopping stopping]
        exact still
      | false =>
        obtain ⟨running, unfired⟩ := Bool.or_eq_false_iff.mp stopping
        exact told.settled held running unfired t
    · rename_i idle
      rw [settled_of_idle idle]
      exact still
  | dropped =>
    dsimp only
    split
    · rename_i u held
      cases stopping : p.finished || p.fired with
      | true => exact told.dropped held stopping t
      | false =>
        rw [dropped_of_going stopping]
        exact still
    · rename_i idle
      rw [dropped_of_idle idle]
      exact still

theorem told_turns (p : Pipeline) (told : ToldBy contracts s h p) (turns : List Turn) :
    ToldBy contracts s (h ++ history contracts p turns) (p.turns contracts turns) := by
  induction turns generalizing p h with
  | nil =>
    rw [history, List.append_nil]
    exact told
  | cons t rest ih =>
    have later := ih (p.turn contracts t) (told.turn t)
    rwa [List.append_assoc] at later

end Turns

end Pipeline
end DecryptorNode.Sync
