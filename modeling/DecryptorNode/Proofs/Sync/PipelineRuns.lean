import DecryptorNode.Proofs.Sync.PipelineHistory

/-! The two halves of a pipeline under every schedule. Whatever the source hands out, whatever comes
of the applications and whenever the token fires, at most one half fails, that failure is the
result, and what was committed is an initial part of what was handed out. -/
namespace DecryptorNode.Sync
open Chain (ChainError Cursor Update)

namespace Pipeline
variable {contracts : Chain.WatchedContracts} {p q : Pipeline} {t : Turn}

section Stops

/-- The halves are to end: the pipeline returned, or one of the tokens fired. -/
def Stopped (p : Pipeline) : Prop := (p.finished || p.fired) = true

/-- Tokens that fired stay so, and what was returned stays returned. The caller's token is only
read. -/
structure Onward (p q : Pipeline) : Prop where
  shutdown : q.shutdown = p.shutdown
  stopped : p.stopped = true → q.stopped = true
  outcome : p.finished = true → q.outcome = p.outcome

private theorem Onward.refl (p : Pipeline) : Onward p p := ⟨rfl, id, fun _ => rfl⟩

private theorem Onward.join (h : Onward p q) : Onward p q.join := by
  unfold Pipeline.join
  split
  · rename_i done
    refine ⟨h.shutdown, h.stopped, fun finished => ?_⟩
    rw [Pipeline.finished, ← h.outcome finished] at finished
    simp only [Bool.and_eq_true, Option.isNone_iff_eq_none] at done
    rw [done.1.1] at finished
    cases finished
  · exact h

private theorem Onward.fail (h : Onward p q) (running : p.finished = false) (e : SyncError) :
    Onward p (q.fail e) := by
  refine ⟨h.shutdown, fun _ => rfl, fun finished => ?_⟩
  rw [running] at finished
  cases finished

private theorem running_of_not_or {b : Bool} (possible : ¬ (p.finished || b) = true) :
    p.finished = false := by
  simp only [Bool.or_eq_true, not_or, Bool.not_eq_true] at possible
  exact possible.1

private theorem onward_produced (p : Pipeline) (result : Except ChainError Unit) :
    Onward p (p.produced result) := by
  have ends : Onward p { p with producing := false } := ⟨rfl, id, fun _ => rfl⟩
  unfold Pipeline.produced
  split
  · exact .refl p
  · rename_i possible
    have running := running_of_not_or possible
    split
    · exact ends.join
    · exact ends.join
    · exact ends.fail running _

private theorem onward_received (p : Pipeline) (result : Except ChainError Update) :
    Onward p (p.received result) := by
  have ends : Onward p { p with consumer := .ended } := ⟨rfl, id, fun _ => rfl⟩
  unfold Pipeline.received
  split
  · exact .refl p
  · rename_i possible
    have running := running_of_not_or possible
    split
    · split
      · exact ends.join
      · exact ⟨rfl, id, fun _ => rfl⟩
    · exact ends.join
    · exact ends.fail running _

private theorem onward_settled (f : Update → Store.Action Halt Cursor) (p : Pipeline) :
    Onward p (p.settled f) := by
  unfold Pipeline.settled
  split
  · exact .refl p
  · rename_i possible
    have running := running_of_not_or possible
    split
    · split
      · exact ⟨rfl, id, fun _ => rfl⟩
      · rename_i e s' _
        have ends : Onward p { p with store := s', consumer := .ended } := ⟨rfl, id, fun _ => rfl⟩
        exact ends.fail running e
      · exact ⟨rfl, id, fun _ => rfl⟩
    · exact .refl p

private theorem onward_dropped (f : Update → Store.Action Halt Cursor) (p : Pipeline) :
    Onward p (p.dropped f) := by
  unfold Pipeline.dropped
  split
  · split
    · exact Onward.join ⟨rfl, id, fun _ => rfl⟩
    · exact .refl p
  · exact .refl p

private theorem onward_turn (contracts : Chain.WatchedContracts) (p : Pipeline)
    (other : t.move ≠ .shutdown) : Onward p (p.turn contracts t) := by
  unfold Pipeline.turn Pipeline.move
  cases move : t.move with
  | shutdown => exact absurd move other
  | produced result => exact onward_produced p result
  | received result => exact onward_received p result
  | settled => exact onward_settled _ p
  | dropped => exact onward_dropped _ p

/-- Nothing but the caller fires the caller's token. -/
theorem shutdown_turn (contracts : Chain.WatchedContracts) (p : Pipeline) (t : Turn) :
    (p.turn contracts t).shutdown = true ↔ p.shutdown = true ∨ t.move = .shutdown := by
  by_cases fires : t.move = .shutdown
  · have shut : (p.turn contracts t).shutdown = true := by
      unfold Pipeline.turn
      rw [fires]
      rfl
    simp [shut, fires]
  · rw [(onward_turn contracts p fires).shutdown]
    simp [fires]

private theorem shutdown_turns (p : Pipeline) (turns : List Turn) :
    (p.turns contracts turns).shutdown = true ↔
      p.shutdown = true ∨ ∃ t ∈ turns, t.move = .shutdown := by
  induction turns generalizing p with
  | nil => simp [turns]
  | cons t rest ih =>
    change ((p.turn contracts t).turns contracts rest).shutdown = true ↔ _
    rw [ih, shutdown_turn contracts, List.exists_mem_cons_iff, or_assoc]

private theorem Stopped.turn (stopped : Stopped p) (t : Turn) : Stopped (p.turn contracts t) := by
  by_cases fires : t.move = .shutdown
  · have shut := (shutdown_turn contracts p t).mpr (.inr fires)
    simp [Stopped, fired, shut]
  · obtain ⟨shutdown, token, outcome⟩ := onward_turn contracts p fires
    simp only [Stopped, fired, Bool.or_eq_true, shutdown] at stopped ⊢
    rcases stopped with finished | fired | shut
    · left
      rw [Pipeline.finished, outcome finished]
      exact finished
    · exact .inr (.inl (token fired))
    · exact .inr (.inr shut)

/-- Nothing was written between two states, and an item that is still in hand would be applied as
before. -/
structure Unmoved (p q : Pipeline) : Prop where
  tables : q.store.database.tables = p.store.database.tables
  held : ∀ u, q.consumer = .applying u → p.consumer = .applying u ∧ q.store = p.store

private theorem unmoved_of_frame (frame : q.store = p.store ∧
    (q.consumer = p.consumer ∨ q.consumer = .ended)) : Unmoved p q := by
  obtain ⟨store, consumer⟩ := frame
  refine ⟨by rw [store], fun u held => ?_⟩
  rcases consumer with same | ended
  · exact ⟨same ▸ held, store⟩
  · rw [ended] at held
    cases held

private theorem Stopped.received (stopped : Stopped p) (result : Except ChainError Update) :
    Unmoved p (p.received result) := by
  apply unmoved_of_frame
  cases result with
  | error e => exact interrupted_frame p e
  | ok u =>
    by_cases possible : p.finished = false ∧ p.consumer = .waiting
    · rcases received_item (u := u) possible.1 possible.2 with ⟨unfired, -⟩ | ended
      · rw [Stopped, possible.1, unfired] at stopped
        cases stopped
      · exact ⟨ended.1, .inr ended.2⟩
    · have ignored : p.received (.ok u) = p := by
        cases running : p.finished with
        | true => exact received_of_finished running _
        | false => exact received_of_busy (fun idle => possible ⟨running, idle⟩) _
      rw [ignored]
      exact ⟨rfl, .inl rfl⟩

private theorem Stopped.dropped {u : Update} (stopped : Stopped p)
    (held : p.consumer = .applying u) (t : Turn) :
    let q := p.dropped fun u => (t.call u).outcome contracts
    (∃ e, ((t.call u).outcome contracts p.store).1 = .error e ∧ Unmoved p q) ∨
    ∃ cursor s', (t.call u).outcome contracts p.store = (.ok cursor, s') ∧
      q.store.database = s'.database ∧ q.consumer = .ended := by
  unfold Pipeline.dropped abandoned
  dsimp only
  rw [held]
  dsimp only
  rw [if_pos (show (p.finished || p.fired) = true from stopped), (join_frame _).1,
    (join_frame _).2]
  rcases ran : (t.call u).outcome contracts p.store with ⟨e | cursor, s'⟩
  · have same : s'.database.tables = p.store.database.tables := tables_of_outcome_error ran
    refine .inl ⟨e, rfl, ?_, fun v still => ?_⟩
    · rw [(join_frame _).1]
      exact same
    · rw [(join_frame _).2] at still
      cases still
  · exact .inr ⟨cursor, s', rfl, rfl, rfl⟩

/-- A pipeline that was stopped begins nothing. All it can do is to drop the item in hand, with its
whole effect or with none. -/
theorem Stopped.cases (contracts : Chain.WatchedContracts) (stopped : Stopped p) (t : Turn) :
    ((happening? contracts p t).bind Happening.call? = none ∧ Unmoved p (p.turn contracts t)) ∨
    ∃ c cursor s', p.consumer = .applying c.update ∧
      c.outcome contracts p.store = (.ok cursor, s') ∧
      happening? contracts p t = some (.committed c) ∧
      (p.turn contracts t).store.database = s'.database ∧
      (p.turn contracts t).consumer = .ended := by
  have stopping : (p.finished || p.fired) = true := stopped
  unfold Pipeline.turn happening? Pipeline.move
  cases t.move with
  | shutdown => exact .inl ⟨rfl, unmoved_of_frame ⟨rfl, .inl rfl⟩⟩
  | produced result =>
    obtain ⟨store, consumer⟩ := produced_frame p result
    refine .inl ⟨?_, unmoved_of_frame ⟨store, .inl consumer⟩⟩
    dsimp only
    split <;> rfl
  | received result =>
    refine .inl ⟨?_, stopped.received result⟩
    dsimp only
    split
    · split
      · rfl
      · cases result <;> rfl
    · rfl
  | settled =>
    dsimp only
    rw [settled_of_stopping stopping]
    refine .inl ⟨?_, unmoved_of_frame ⟨rfl, .inl rfl⟩⟩
    split
    · rw [if_pos stopping]
      rfl
    · rfl
  | dropped =>
    dsimp only
    split
    · rename_i u held
      rw [if_pos stopping]
      rcases stopped.dropped held t with ⟨e, failed, unmoved⟩ | ⟨cursor, s', ran, whole, ended⟩
      · rw [failed]
        exact .inl ⟨rfl, unmoved⟩
      · rw [ran]
        exact .inr ⟨t.call u, cursor, s', held, ran, rfl, whole, ended⟩
    · rename_i idle
      rw [dropped_of_idle idle]
      exact .inl ⟨rfl, unmoved_of_frame ⟨rfl, .inl rfl⟩⟩

variable (contracts) in
/-- Turns in which nothing is begun. The item in hand before them is left with its whole effect or
with none, and nothing else becomes permanent. -/
structure Closing (p : Pipeline) (turns : List Turn) : Prop where
  begun : ∀ u, (p.turns contracts turns).consumer = .applying u → p.consumer = .applying u
  effect : (commits (history contracts p turns) = [] ∧
      (p.turns contracts turns).store.database.tables = p.store.database.tables) ∨
    ∃ c cursor s', p.consumer = .applying c.update ∧
      c.outcome contracts p.store = (.ok cursor, s') ∧
      commits (history contracts p turns) = [c] ∧
      (p.turns contracts turns).store.database.tables = s'.database.tables

private theorem commits_history_cons (p : Pipeline) (t : Turn) (rest : List Turn) :
    commits (history contracts p (t :: rest)) =
      ((happening? contracts p t).bind Happening.call?).toList ++
        commits (history contracts (p.turn contracts t) rest) := by
  unfold commits
  rw [history, List.filterMap_append]
  cases happening? contracts p t with
  | none => rfl
  | some x => cases call : x.call? <;> simp [call]

/-- Nothing is begun once a pipeline was stopped. -/
theorem Stopped.closing (stopped : Stopped p) (turns : List Turn) : Closing contracts p turns := by
  induction turns generalizing p with
  | nil => exact ⟨fun _ => id, .inl ⟨rfl, rfl⟩⟩
  | cons t rest ih =>
    have later : Closing contracts (p.turn contracts t) rest := ih (stopped.turn t)
    have whole : p.turns contracts (t :: rest) = (p.turn contracts t).turns contracts rest := rfl
    rcases stopped.cases contracts t with
      ⟨quiet, unmoved⟩ | ⟨c, cursor, s', held, ran, happens, database, ended⟩
    · constructor
      · intro u held
        exact (unmoved.held u (later.begun u held)).1
      · rw [whole, commits_history_cons, quiet, Option.toList_none, List.nil_append]
        rcases later.effect with ⟨none, same⟩ | ⟨c, cursor, s', still, ran, done⟩
        · exact .inl ⟨none, same.trans unmoved.tables⟩
        · obtain ⟨held, store⟩ := unmoved.held _ still
          rw [store] at ran
          exact .inr ⟨c, cursor, s', held, ran, done⟩
    · have gone (u : Update) : (p.turn contracts t).consumer ≠ .applying u := by
        rw [ended]
        intro contra
        cases contra
      constructor
      · intro u held
        exact absurd (later.begun u held) (gone u)
      · right
        refine ⟨c, cursor, s', held, ran, ?_⟩
        rw [whole, commits_history_cons, happens]
        rcases later.effect with ⟨none, same⟩ | ⟨d, _, _, held, -⟩
        · rw [none, same, database]
          exact ⟨rfl, rfl⟩
        · exact absurd held (gone _)

end Stops

/-- However the two halves and the caller's token take turns, and whatever the source and the
applications come to: the failures of the halves are the one that the pipeline returns, and it
returns without one only when both halves ended. The items that became permanent are the first of
those that were handed out, and the tables are what applying these leaves. Once a half failed, an
application failed or the token fired, nothing is begun, and the item in hand is left with its whole
effect or with none. The caller's token is fired by nobody but the caller. -/
theorem pipeline_joins (contracts : Chain.WatchedContracts) (s : Store) (turns : List Turn) :
    let p := (start s).turns contracts turns
    let h := history contracts (start s) turns
    failuresIn h = p.failures ∧
    (p.outcome = some (.ok ()) → p.producing = false ∧ p.consumer = .ended) ∧
    (commits h).map Call.update <+: handedOut h ∧
    p.store.database.tables = (called contracts s (commits h)).database.tables ∧
    landed contracts s (commits h) = (commits h).map Call.update ∧
    (∀ before after, turns = before ++ after →
      failuresIn (history contracts (start s) before) ≠ [] ∨ (∃ t ∈ before, t.move = .shutdown) →
        Closing contracts ((start s).turns contracts before) after) ∧
    (p.shutdown = true ↔ ∃ t ∈ turns, t.move = .shutdown) := by
  intro p h
  have told (l : List Turn) :
      ToldBy contracts s (history contracts (start s) l) ((start s).turns contracts l) :=
    told_turns (h := []) (start s) (told_start contracts s) l
  have shutdown (l : List Turn) : ((start s).turns contracts l).shutdown = true ↔
      ∃ t ∈ l, t.move = .shutdown := by
    rw [shutdown_turns]
    simp [start]
  refine ⟨(told turns).failures, (told turns).ended, (told turns).order, (told turns).tables,
    (told turns).landed, ?_, shutdown turns⟩
  intro before after _ stop
  have stopped : Stopped ((start s).turns contracts before) := by
    rcases stop with failed | fires
    · rw [(told before).failures, failures] at failed
      have finished : ((start s).turns contracts before).finished = true := by
        unfold finished
        cases outcome : ((start s).turns contracts before).outcome with
        | none =>
          rw [outcome] at failed
          exact absurd rfl failed
        | some result => rfl
      simp [Stopped, finished]
    · simp [Stopped, fired, (shutdown before).mpr fires]
  exact stopped.closing after

end Pipeline
end DecryptorNode.Sync
