import DecryptorNode.Proofs.Chain.EventStream
import DecryptorNode.Proofs.Sync.Replay
import DecryptorNode.Sync.Following

/-! Synchronisation over many lives. A follower feeds a pipeline through a bounded channel; each
life starts from the stored position and can end at any point. Whatever happens, the store holds
what the handlers make of the events before its position. -/
namespace DecryptorNode.Sync
open Chain (Address AddressReader AddressSet Bounded ChainError Chronicle Cursor FollowPlan Honest
  Log LogSet Reply Signal Stream Update deliveries)
open Store (Database Tables)

/-- A life of the synchronisation: what the follower is still to do, the channel that holds at most
so many items, and the pipeline at its end. -/
structure Life where
  ahead : List Signal
  capacity : Nat
  channel : List Update
  pipeline : Pipeline

/-- A store with a life over it or with none. -/
inductive World where
  | down : Store → World
  | up : Life → World

def World.store : World → Store
  | .down s => s
  | .up l => l.pipeline.store

/-- The readers of a chain whose lists do not change. They can fail at any time. -/
def Agrees (lists : AddressSet → Nat → Option (List Address)) (reader : AddressReader) : Prop :=
  ∀ set index l, readable reader set index = some l → lists set index = some l

/-- Faults of any kind, and writes to tables that are no business of synchronisation. -/
structure Disturbed (before after : Store) : Prop where
  chain : after.database.tables.chain = before.database.tables.chain
  progress : after.database.tables.progress = before.database.tables.progress

/-- The store that a crash leaves, in which an item may be half applied. -/
def Pipeline.crashed (p : Pipeline) (applyUpdate : Update → Store.Action Halt Cursor) : Store :=
  match p.consumer with
  | .applying u => abandoned applyUpdate u p.store
  | _ => p.store

/-- Applications that get to their ends, or that are cut off after so many statements. -/
def applying (contracts : Chain.WatchedContracts) (reader : AddressReader) :
    (cut : Option Nat) → Update → Store.Action Halt Cursor
  | none, u => apply contracts reader u
  | some statements, u => (apply contracts reader u).cutAfter statements

/-- What can happen next. The follower goes through what it has to do, but it can end before; the
halves of the pipeline move in any order. -/
inductive Step (contracts : Chain.WatchedContracts) (L : LogSet)
    (lists : AddressSet → Nat → Option (List Address)) : World → World → Prop where
  | started {s s' : Store} {cursor : Cursor} {plan : FollowPlan} {heads : List (Reply Nat)}
      {logs : List (Reply (List Log))} (capacity : Nat)
      (loaded : loadCursor s = (.ok cursor, s')) (watched : plan.contracts = contracts)
      (bounded : Bounded heads) (honest : Honest L (Chain.follow plan cursor heads logs) logs) :
      Step contracts L lists (.down s)
        (.up ⟨Chain.follow plan cursor heads logs, capacity, [], .start s'⟩)
  | refused {s s' : Store} {e : Store.StoreError} (loaded : loadCursor s = (.error e, s')) :
      Step contracts L lists (.down s) (.down s')
  | noted {l : Life} {a : Telemetry.Activity} {rest : List Signal}
      (next : l.ahead = .did a :: rest) :
      Step contracts L lists (.up l) (.up { l with ahead := rest, pipeline := l.pipeline.note a })
  | rested {l : Life} {rest : List Signal} (next : l.ahead = .rest :: rest) :
      Step contracts L lists (.up l) (.up { l with ahead := rest })
  | sent {l : Life} {u : Update} {rest : List Signal} (next : l.ahead = .deliver u :: rest)
      (room : l.channel.length < l.capacity) :
      Step contracts L lists (.up l) (.up { l with ahead := rest, channel := l.channel ++ [u] })
  | ended {l : Life} (result : Except ChainError Unit) :
      Step contracts L lists (.up l)
        (.up { l with ahead := [], pipeline := l.pipeline.produced result })
  | received {l : Life} {u : Update} {rest : List Update} (next : l.channel = u :: rest)
      (running : l.pipeline.finished = false) (idle : l.pipeline.consumer = .waiting) :
      Step contracts L lists (.up l)
        (.up { l with channel := rest, pipeline := l.pipeline.received (.ok u) })
  | interrupted {l : Life} (e : ChainError) :
      Step contracts L lists (.up l)
        (.up { l with pipeline := l.pipeline.received (.error e) })
  | settled {l : Life} (reader : AddressReader) (agrees : Agrees lists reader) :
      Step contracts L lists (.up l)
        (.up { l with pipeline := l.pipeline.settled (apply contracts reader) })
  | dropped {l : Life} (reader : AddressReader) (agrees : Agrees lists reader)
      (cut : Option Nat) :
      Step contracts L lists (.up l)
        (.up { l with pipeline := l.pipeline.dropped (applying contracts reader cut) })
  | shutdown {l : Life} :
      Step contracts L lists (.up l)
        (.up { l with pipeline := { l.pipeline with shutdown := true } })
  | disturbed {l : Life} {s : Store} (h : Disturbed l.pipeline.store s) :
      Step contracts L lists (.up l) (.up { l with pipeline := { l.pipeline with store := s } })
  | disturbedDown {s s' : Store} (h : Disturbed s s') :
      Step contracts L lists (.down s) (.down s')
  | crashed {l : Life} (reader : AddressReader) (agrees : Agrees lists reader)
      (cut : Option Nat) :
      Step contracts L lists (.up l)
        (.down (l.pipeline.crashed (applying contracts reader cut)))

/-- The worlds that come of an empty store. -/
inductive Reachable (contracts : Chain.WatchedContracts) (L : LogSet)
    (lists : AddressSet → Nat → Option (List Address)) : World → Prop where
  | empty : Reachable contracts L lists (.down .empty)
  | step {w w' : World} (before : Reachable contracts L lists w)
      (h : Step contracts L lists w w') : Reachable contracts L lists w'

variable {contracts : Chain.WatchedContracts} {L : LogSet}
  {lists : AddressSet → Nat → Option (List Address)}

namespace Pipeline

def inHand (p : Pipeline) : List Update :=
  match p.consumer with
  | .applying u => [u]
  | _ => []

/-- The store is consistent, and while the pipeline takes items, the one in hand and those that
wait are what comes next. -/
def Ready (contracts : Chain.WatchedContracts) (L : LogSet)
    (lists : AddressSet → Nat → Option (List Address)) (p : Pipeline) (waiting : List Update) :
    Prop :=
  ∃ cursor, Consistent contracts L lists p.store.database.tables cursor ∧
    (p.consumer ≠ .ended → Stream contracts L cursor (p.inHand ++ waiting))

variable {p q : Pipeline} {waiting more : List Update} {u : Update} {reader : AddressReader}

private theorem Ready.frame (h : Ready contracts L lists p waiting)
    (tables : q.store.database.tables = p.store.database.tables)
    (consumer : q.consumer = p.consumer ∨ q.consumer = .ended) :
    Ready contracts L lists q waiting := by
  obtain ⟨cursor, consistent, stream⟩ := h
  refine ⟨cursor, tables ▸ consistent, fun open' => ?_⟩
  rcases consumer with same | ended
  · have held : q.inHand = p.inHand := by rw [inHand, same, inHand]
    rw [held]
    exact stream (same ▸ open')
  · exact absurd ended open'

private theorem Ready.stop (h : Ready contracts L lists p (waiting ++ more)) :
    Ready contracts L lists p waiting := by
  obtain ⟨cursor, consistent, stream⟩ := h
  refine ⟨cursor, consistent, fun open' => ?_⟩
  have whole := stream open'
  rw [← List.append_assoc] at whole
  exact (Stream.append_iff.mp whole).1

theorem produced_frame (p : Pipeline) (result : Except ChainError Unit) :
    (p.produced result).store = p.store ∧ (p.produced result).consumer = p.consumer := by
  unfold produced
  split
  · exact ⟨rfl, rfl⟩
  · split
    · exact join_frame _
    · exact join_frame _
    · exact ⟨rfl, rfl⟩

theorem interrupted_frame (p : Pipeline) (e : ChainError) :
    (p.received (.error e)).store = p.store ∧
      ((p.received (.error e)).consumer = p.consumer ∨
        (p.received (.error e)).consumer = .ended) := by
  unfold received
  split
  · exact ⟨rfl, .inl rfl⟩
  · split
    · rename_i contra
      cases contra
    · exact ⟨(join_frame _).1, .inr (join_frame _).2⟩
    · exact ⟨rfl, .inr rfl⟩

private theorem Ready.produced (h : Ready contracts L lists p waiting)
    (result : Except ChainError Unit) : Ready contracts L lists (p.produced result) waiting := by
  obtain ⟨store, consumer⟩ := produced_frame p result
  exact h.frame (by rw [store]) (.inl consumer)

private theorem Ready.interrupted (h : Ready contracts L lists p waiting) (e : ChainError) :
    Ready contracts L lists (p.received (.error e)) waiting := by
  obtain ⟨store, consumer⟩ := interrupted_frame p e
  exact h.frame (by rw [store]) consumer

private theorem received_of_unfired (running : p.finished = false) (idle : p.consumer = .waiting)
    (unfired : p.fired = false) : p.received (.ok u) = { p with consumer := .applying u } := by
  simp [received, running, idle, unfired]

/-- An item that reaches a consumer is taken in hand, or the token ends the consumer. -/
theorem received_item (running : p.finished = false) (idle : p.consumer = .waiting) :
    (p.fired = false ∧ p.received (.ok u) = { p with consumer := .applying u }) ∨
      (p.received (.ok u)).store = p.store ∧ (p.received (.ok u)).consumer = .ended := by
  unfold Pipeline.received
  rw [if_neg (by simp [running, idle])]
  dsimp only
  cases p.fired with
  | false => exact .inl ⟨rfl, rfl⟩
  | true => exact .inr (join_frame _)

private theorem Ready.received (h : Ready contracts L lists p (u :: waiting))
    (running : p.finished = false) (idle : p.consumer = .waiting) :
    Ready contracts L lists (p.received (.ok u)) waiting := by
  obtain ⟨cursor, consistent, stream⟩ := h
  rcases received_item (u := u) running idle with ⟨-, taken⟩ | ⟨store, ended⟩
  · rw [taken]
    refine ⟨cursor, consistent, fun _ => ?_⟩
    have next := stream (by rw [idle]; exact fun contra => by cases contra)
    rw [inHand, idle] at next
    exact next
  · exact ⟨cursor, by rw [store]; exact consistent, fun open' => absurd ended open'⟩

/-- Applying the item in hand leaves a consistent store, at the position after the item. -/
private theorem Ready.apply (h : Ready contracts L lists p waiting)
    (held : p.consumer = .applying u) (agrees : Agrees lists reader) {cursor : Cursor} {s' : Store}
    (ran : Sync.apply contracts reader u p.store = (.ok cursor, s')) :
    ∃ next, Consistent contracts L lists s'.database.tables next ∧
      Stream contracts L next waiting := by
  obtain ⟨before, consistent, stream⟩ := h
  have next := stream (by rw [held]; exact fun contra => by cases contra)
  rw [inHand, held] at next
  exact ⟨u.after, consistent.applied next.1 agrees (applied_of_apply ran).1, next.2⟩

private theorem Ready.settled (h : Ready contracts L lists p waiting)
    (agrees : Agrees lists reader) :
    Ready contracts L lists (p.settled (Sync.apply contracts reader)) waiting := by
  unfold Pipeline.settled
  split
  · exact h
  · split
    · rename_i u held
      split
      · rename_i cursor s' ran
        obtain ⟨next, consistent, stream⟩ := h.apply held agrees ran
        exact ⟨next, consistent, fun _ => stream⟩
      · rename_i e s' ran
        exact h.frame (congrArg Database.tables (database_of_apply_error ran)) (.inr rfl)
      · rename_i s' ran
        exact h.frame (congrArg Database.tables (database_of_apply_error ran)) (.inl rfl)
    · exact h

private theorem database_of_applying (contracts : Chain.WatchedContracts) (reader : AddressReader)
    (cut : Option Nat) (u : Update) (s : Store) :
    (applying contracts reader cut u s).2.database = s.database ∨
      ∃ cursor s', Sync.apply contracts reader u s = (.ok cursor, s') ∧
        (applying contracts reader cut u s).2.database = s'.database := by
  cases cut with
  | none =>
    rcases ran : Sync.apply contracts reader u s with ⟨e | cursor, s'⟩
    · have same : applying contracts reader none u s = (.error e, s') := ran
      rw [same]
      exact .inl (database_of_apply_error ran)
    · have same : applying contracts reader none u s = (.ok cursor, s') := ran
      rw [same]
      exact .inr ⟨cursor, s', rfl, rfl⟩
  | some statements => exact database_of_apply_cutAfter contracts reader u statements s

private theorem Ready.abandoned (h : Ready contracts L lists p waiting)
    (held : p.consumer = .applying u) (agrees : Agrees lists reader) (cut : Option Nat) :
    ∃ cursor, Consistent contracts L lists
      (Pipeline.abandoned (applying contracts reader cut) u p.store).database.tables cursor := by
  rcases database_of_applying contracts reader cut u p.store with same | done
  · obtain ⟨cursor, consistent, -⟩ := h
    exact ⟨cursor, same ▸ consistent⟩
  · obtain ⟨cursor, s', ran, same⟩ := done
    obtain ⟨next, consistent, -⟩ := h.apply held agrees ran
    exact ⟨next, same ▸ consistent⟩

private theorem Ready.dropped (h : Ready contracts L lists p waiting) (agrees : Agrees lists reader)
    (cut : Option Nat) :
    Ready contracts L lists (p.dropped (applying contracts reader cut)) waiting := by
  unfold Pipeline.dropped
  split
  · rename_i u held
    split
    · obtain ⟨cursor, consistent⟩ := h.abandoned held agrees cut
      refine ⟨cursor, ?_, fun open' => absurd (join_frame _).2 open'⟩
      rw [(join_frame _).1]
      exact consistent
    · exact h
  · exact h

private theorem Ready.crashed (h : Ready contracts L lists p waiting) (agrees : Agrees lists reader)
    (cut : Option Nat) : ∃ cursor, Consistent contracts L lists
      (p.crashed (applying contracts reader cut)).database.tables cursor := by
  unfold Pipeline.crashed
  split
  · rename_i u held
    exact h.abandoned held agrees cut
  · obtain ⟨cursor, consistent, -⟩ := h
    exact ⟨cursor, consistent⟩

end Pipeline

def Life.coming (l : Life) : List Update := l.channel ++ deliveries l.ahead

def World.Sound (contracts : Chain.WatchedContracts) (L : LogSet)
    (lists : AddressSet → Nat → Option (List Address)) : World → Prop
  | .down s => ∃ cursor, Consistent contracts L lists s.database.tables cursor
  | .up l => l.pipeline.Ready contracts L lists l.coming

private theorem Disturbed.consistent {s s' : Store} {cursor : Cursor} (h : Disturbed s s')
    (consistent : Consistent contracts L lists s.database.tables cursor) :
    Consistent contracts L lists s'.database.tables cursor := by
  unfold Consistent Store.Progress.held at *
  rw [h.chain, h.progress]
  exact consistent

/-- No step takes a sound world to one that is not. -/
theorem Step.sound {w w' : World} (h : Step contracts L lists w w')
    (sound : w.Sound contracts L lists) : w'.Sound contracts L lists := by
  cases h with
  | started capacity loaded watched bounded honest =>
    obtain ⟨cursor, consistent⟩ := sound
    obtain ⟨-, position, held, rfl, rfl⟩ := loadCursor_eq_ok.mp loaded
    obtain ⟨position', held', rfl⟩ := consistent.1
    obtain rfl : position = position' := Except.ok.inj (held.symm.trans held')
    exact ⟨_, consistent, fun _ => watched ▸ Chain.stream_of_follow bounded honest⟩
  | refused loaded =>
    obtain ⟨cursor, consistent⟩ := sound
    exact ⟨cursor, database_of_loadCursor loaded ▸ consistent⟩
  | noted next =>
    rw [World.Sound, Life.coming, next] at sound
    exact Pipeline.Ready.frame sound rfl (.inl rfl)
  | rested next =>
    rw [World.Sound, Life.coming, next] at sound
    exact sound
  | sent next room =>
    rw [World.Sound, Life.coming, next, Chain.deliveries_deliver, List.append_cons] at sound
    exact sound
  | ended result =>
    have stopped := Pipeline.Ready.stop sound
    rw [World.Sound, Life.coming, deliveries, List.filterMap_nil, List.append_nil]
    exact stopped.produced result
  | received next running idle =>
    rw [World.Sound, Life.coming, next] at sound
    exact Pipeline.Ready.received sound running idle
  | interrupted e => exact Pipeline.Ready.interrupted sound e
  | settled reader agrees => exact Pipeline.Ready.settled sound agrees
  | dropped reader agrees cut => exact Pipeline.Ready.dropped sound agrees cut
  | shutdown => exact Pipeline.Ready.frame sound rfl (.inl rfl)
  | disturbed h =>
    obtain ⟨cursor, consistent, stream⟩ := sound
    exact ⟨cursor, h.consistent consistent, stream⟩
  | disturbedDown h =>
    obtain ⟨cursor, consistent⟩ := sound
    exact ⟨cursor, h.consistent consistent⟩
  | crashed reader agrees cut => exact Pipeline.Ready.crashed sound agrees cut

private theorem Reachable.sound {w : World} (h : Reachable contracts L lists w) :
    w.Sound contracts L lists := by
  induction h with
  | empty => exact ⟨.start, consistent_empty⟩
  | step before h ih => exact h.sound ih

private theorem Pipeline.settled_of_ok {p : Pipeline} {u : Update} {s' : Store} {cursor : Cursor}
    {applyUpdate : Update → Store.Action Halt Cursor} (held : p.consumer = .applying u)
    (running : p.finished = false) (unfired : p.fired = false)
    (ran : applyUpdate u p.store = (.ok cursor, s')) :
    p.settled applyUpdate = { p with store := s', consumer := .waiting } := by
  unfold Pipeline.settled
  rw [running, unfired, held]
  dsimp only
  rw [ran]
  rfl

section Progress
variable {l : Life} {u : Update}

/-- An item that comes to an idle life is taken in hand. -/
private theorem Reachable.takes {rest : List Signal} (h : Reachable contracts L lists (.up l))
    (next : l.ahead = .deliver u :: rest) (empty : l.channel = []) (room : 0 < l.capacity)
    (idle : l.pipeline.consumer = .waiting) (running : l.pipeline.finished = false)
    (unfired : l.pipeline.fired = false) : Reachable contracts L lists
      (.up { l with ahead := rest, pipeline := { l.pipeline with consumer := .applying u } }) := by
  obtain ⟨ahead, capacity, channel, p⟩ := l
  cases empty
  have received := (h.step (.sent next room)).step (.received rfl running idle)
  rwa [Pipeline.received_of_unfired running idle unfired] at received

/-- An item in hand that is applied leaves the life idle. -/
private theorem Reachable.lands {reader : AddressReader} {cursor : Cursor} {s' : Store}
    (h : Reachable contracts L lists (.up l)) (held : l.pipeline.consumer = .applying u)
    (running : l.pipeline.finished = false) (unfired : l.pipeline.fired = false)
    (agrees : Agrees lists reader)
    (ran : apply contracts reader u l.pipeline.store = (.ok cursor, s')) :
    Reachable contracts L lists
      (.up { l with pipeline := { l.pipeline with store := s', consumer := .waiting } }) := by
  have settled := h.step (.settled reader agrees)
  rwa [Pipeline.settled_of_ok held running unfired ran] at settled

end Progress

/-- Over any number of lives, whatever ends them, the position that a healthy database would answer
and the tables that mirror the chain belong together: the tables are what the handlers leave that
run over empty tables, once for each event of a log before the position and in order. -/
theorem sync_exactly_once (contracts : Chain.WatchedContracts) (L : LogSet)
    (lists : AddressSet → Nat → Option (List Address)) (w : World)
    (h : Reachable contracts L lists w) :
    ∃ cursor us left,
      (∃ s, loadCursor (w.store.withFaults .none) = (.ok cursor, s)) ∧
      Chronicle contracts L .start cursor us ∧
      (recordAll contracts (steady lists) us).exec (.opened ⟨.empty, false, false⟩ []) =
        (.ok (), left) ∧
      left.tables.chain = w.store.database.tables.chain := by
  have consistent : ∃ cursor, Consistent contracts L lists w.store.database.tables cursor := by
    have sound := h.sound
    cases w with
    | down s => exact sound
    | up l =>
      obtain ⟨cursor, consistent, -⟩ := sound
      exact ⟨cursor, consistent⟩
  obtain ⟨cursor, ⟨position, held, rfl⟩, us, chronicle, replayed⟩ := consistent
  obtain ⟨_, left, ran, draft, -⟩ := (records_all contracts (steady lists) us).complete
    (.opened ⟨.empty, false, false⟩ []) w.store.database.tables.chain ⟨rfl, rfl⟩
    (by rw [readable_steady]; exact replayed)
  have loaded : ∃ s, loadCursor (w.store.withFaults .none) = (.ok _, s) :=
    ⟨_, loadCursor_eq_ok.mpr ⟨rfl, position, held, rfl, rfl⟩⟩
  refine ⟨_, us, left, loaded, chronicle, ran, ?_⟩
  rw [Store.Workspace.tables, draft]
  rfl

def keyperLog : Log := ⟨.ofNat 1, [Chain.Signature.keyperConfig],
  [100, 7, 2].flatMap Chain.Abi.encodeNumber, some 0, some 0, false⟩

def decryptorLog : Log := ⟨.ofNat 2, [Chain.Signature.decryptorConfig],
  [200, 5].flatMap Chain.Abi.encodeNumber, some 0, some 1, false⟩

def keyperItem : Update := ⟨some (.keyperConfig ⟨100, 7, 2⟩), 0, 0⟩

def decryptorItem : Update := ⟨some (.decryptorConfig ⟨200, 5⟩), 0, 1⟩

namespace TwoLives

def chain : LogSet := .listed [keyperLog, decryptorLog] (by decide) (by decide)

def rosters (set : AddressSet) (_ : Nat) : Option (List Address) :=
  if set = .keypers then some [.ofNat 9, .ofNat 10] else some [.ofNat 11, .ofNat 12]

def plan : FollowPlan := ⟨⟨.ofNat 1, .ofNat 2, .ofNat 3, .ofNat 4⟩, 0, 5⟩

/-- What a follower does that is told of the block and gets its logs in the wrong order. -/
def following (cursor : Cursor) : List Signal :=
  Chain.follow plan cursor [.value 0] [.value [decryptorLog, keyperLog]]

def halfway : Tables := { Tables.empty with
  progress := ⟨[(Store.Progress.rowId, ⟨0, 1⟩)]⟩
  keyperSets := ⟨[(100, ⟨Store.KeyperList.encode
    [(Address.ofNat 9).text, (Address.ofNat 10).text], 2⟩)]⟩ }

def complete : Tables := { halfway with
  progress := ⟨[(Store.Progress.rowId, ⟨0, 2⟩)]⟩
  setMembers :=
    ⟨[(⟨200, 0⟩, (Address.ofNat 11).text), (⟨200, 1⟩, (Address.ofNat 12).text)]⟩ }

private theorem following_eq {index : Nat} {items : List Update}
    (told : Chain.rangeUpdates plan.contracts ⟨0, index⟩ ⟨0, 0⟩ [decryptorLog, keyperLog] =
      .ok items) : following ⟨0, index⟩ =
      [.did (.request .head), .did (.finalizedHead 0),
        .did (.request (Chain.logsRequest plan.contracts ⟨0, 0⟩)), .did (.logBatch true 1 2)] ++
      items.map .deliver := by
  have planned : Chain.nextRange? 0 (Chain.finalized? 0 0) 5 = some ⟨0, 0⟩ := rfl
  unfold plan at told
  simp only [following, Chain.follow, plan, planned, List.headD_cons, told, List.append_nil]
  rfl

private theorem following_start : following .start =
    [.did (.request .head), .did (.finalizedHead 0),
      .did (.request (Chain.logsRequest plan.contracts ⟨0, 0⟩)), .did (.logBatch true 1 2),
      .deliver keyperItem, .deliver decryptorItem, .deliver (.absent 0)] := by
  have sorted (k d : Log) : [((⟨0, 1⟩ : Cursor), d), (⟨0, 0⟩, k)].mergeSort Chain.earlier =
      [(⟨0, 0⟩, k), (⟨0, 1⟩, d)] := by cbv
  have placing : [decryptorLog, keyperLog].mapM (Log.place ⟨0, 0⟩) =
      .ok [some (⟨0, 1⟩, decryptorLog), some (⟨0, 0⟩, keyperLog)] := rfl
  have told : [((⟨0, 0⟩ : Cursor), keyperLog), (⟨0, 1⟩, decryptorLog)].mapM
      (fun x => x.2.update plan.contracts x.1) = .ok [keyperItem, decryptorItem] := rfl
  exact following_eq (Chain.rangeUpdates_of_placed placing (sorted _ _) told)

private theorem following_halfway : following ⟨0, 1⟩ =
    [.did (.request .head), .did (.finalizedHead 0),
      .did (.request (Chain.logsRequest plan.contracts ⟨0, 0⟩)), .did (.logBatch true 1 2),
      .deliver decryptorItem, .deliver (.absent 0)] := by
  have placing : [decryptorLog, keyperLog].mapM (Log.place ⟨0, 1⟩) =
      .ok [some (⟨0, 1⟩, decryptorLog), none] := rfl
  have told : [((⟨0, 1⟩ : Cursor), decryptorLog)].mapM
      (fun x => x.2.update plan.contracts x.1) = .ok [decryptorItem] := rfl
  exact following_eq (Chain.rangeUpdates_of_placed placing (List.mergeSort_singleton _) told)

private theorem honest {cursor : Cursor} (fetches : Chain.fetched (following cursor) = [⟨0, 0⟩]) :
    Honest chain (following cursor) [.value [decryptorLog, keyperLog]] := by
  intro i range batch asked answer
  rw [fetches] at asked
  cases i with
  | zero =>
    cases asked
    cases answer
    exact LogSet.listed_answers (by decide)
  | succ i => cases asked

private theorem bounded : Bounded [.value 0] := by
  intro head mem
  cases List.mem_singleton.mp mem
  decide

private theorem agrees : Agrees rosters (steady rosters) := fun set index l h => by
  rwa [readable_steady] at h

private theorem apply_keyperItem (activity : List Telemetry.Activity) : ∃ s',
    apply plan.contracts (steady rosters) keyperItem ⟨.empty, activity⟩ = (.ok ⟨0, 1⟩, s') ∧
      s'.database = ⟨halfway, .none⟩ := ⟨_, rfl, rfl⟩

private theorem apply_decryptorItem (activity : List Telemetry.Activity) : ∃ s',
    apply plan.contracts (steady rosters) decryptorItem ⟨⟨halfway, .none⟩, activity⟩ =
        (.ok ⟨0, 2⟩, s') ∧ s'.database = ⟨complete, .none⟩ := ⟨_, rfl, rfl⟩

/-- The connection is lost after the first of the decryptors was inserted. -/
private theorem cut_decryptorItem (activity : List Telemetry.Activity) :
    ((apply plan.contracts (steady rosters) decryptorItem).cutAfter 1
      ⟨⟨halfway, .none⟩, activity⟩).2.database = ⟨halfway, .none⟩ := rfl

/-- The first life applies the configuration of keypers and is killed while it applies that of
decryptors. -/
private theorem killed : ∃ s, Reachable plan.contracts chain rosters (.down s) ∧
    s.database = ⟨halfway, .none⟩ := by
  have blank : Reachable plan.contracts chain rosters (.down .empty) := .empty
  have loaded : loadCursor .empty = (.ok .start, _) :=
    loadCursor_eq_ok.mpr ⟨rfl, none, rfl, rfl, rfl⟩
  have fetches : Chain.fetched (following .start) = [⟨0, 0⟩] := by
    rw [following_start]
    rfl
  have alive := blank.step (.started 1 loaded rfl bounded (honest fetches))
  rw [show Chain.follow plan .start _ _ = _ from following_start] at alive
  have noted := (((alive.step (.noted rfl)).step (.noted rfl)).step (.noted rfl)).step (.noted rfl)
  obtain ⟨s', ran, database⟩ := apply_keyperItem _
  have applied := (noted.takes rfl rfl Nat.one_pos rfl rfl rfl).lands rfl rfl rfl agrees ran
  have second := applied.takes rfl rfl Nat.one_pos rfl rfl rfl
  refine ⟨_, second.step (.crashed _ agrees (some 1)), ?_⟩
  obtain ⟨_, activity⟩ := s'
  cases database
  exact cut_decryptorItem activity

/-- The second life begins where the first got to. -/
private theorem restarted {s : Store} (down : Reachable plan.contracts chain rosters (.down s))
    (left : s.database = ⟨halfway, .none⟩) : ∃ l, Reachable plan.contracts chain rosters (.up l) ∧
      l.pipeline.store.database = ⟨complete, .none⟩ := by
  obtain ⟨_, activity⟩ := s
  cases left
  have loaded : loadCursor ⟨⟨halfway, .none⟩, activity⟩ = (.ok ⟨0, 1⟩, _) :=
    loadCursor_eq_ok.mpr ⟨rfl, some ⟨0, 1⟩, rfl, rfl, rfl⟩
  have fetches : Chain.fetched (following ⟨0, 1⟩) = [⟨0, 0⟩] := by
    rw [following_halfway]
    rfl
  have alive := down.step (.started 1 loaded rfl bounded (honest fetches))
  rw [show Chain.follow plan ⟨0, 1⟩ _ _ = _ from following_halfway] at alive
  have noted := (((alive.step (.noted rfl)).step (.noted rfl)).step (.noted rfl)).step (.noted rfl)
  obtain ⟨s', ran, database⟩ := apply_decryptorItem _
  exact ⟨_, (noted.takes rfl rfl Nat.one_pos rfl rfl rfl).lands rfl rfl rfl agrees ran, database⟩

end TwoLives

/-- Two configurations of one block, with two lists of addresses. The first life applies the one and
is killed in the middle of the other, of which nothing is left; the second life goes on from
there. -/
theorem sync_exactly_once_restarted :
    let contracts := TwoLives.plan.contracts
    (∃ s, Reachable contracts TwoLives.chain TwoLives.rosters (.down s) ∧
      s.database = ⟨TwoLives.halfway, .none⟩) ∧
    ∃ w, Reachable contracts TwoLives.chain TwoLives.rosters w ∧
      w.store.database = ⟨TwoLives.complete, .none⟩ ∧
      ∃ cursor us left,
        (∃ s, loadCursor (w.store.withFaults .none) = (.ok cursor, s)) ∧
        Chronicle contracts TwoLives.chain .start cursor us ∧
        (recordAll contracts (steady TwoLives.rosters) us).exec
          (.opened ⟨.empty, false, false⟩ []) = (.ok (), left) ∧
        left.tables.chain = w.store.database.tables.chain := by
  intro contracts
  obtain ⟨s, down, halfway⟩ := TwoLives.killed
  obtain ⟨l, up, complete⟩ := TwoLives.restarted down halfway
  exact ⟨⟨s, down, halfway⟩, .up l, up, complete,
    sync_exactly_once contracts TwoLives.chain TwoLives.rosters _ up⟩

end DecryptorNode.Sync
