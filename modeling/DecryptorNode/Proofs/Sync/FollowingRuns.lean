import DecryptorNode.Proofs.Sync.Lifetimes

/-! A life in which everything delivered is applied before the follower goes on is one of the lives
that synchronisation can have. -/
namespace DecryptorNode.Sync
open Chain (AddressReader Bounded Cursor FollowPlan Honest Log LogSet Reply Signal Update)
variable {contracts : Chain.WatchedContracts} {L : LogSet}
  {lists : Chain.AddressSet → Nat → Option (List Chain.Address)} {reader : AddressReader}

namespace Pipeline
variable {p : Pipeline} {applyUpdate : Update → Store.Action Halt Cursor}

private theorem store_windDown (applyUpdate : Update → Store.Action Halt Cursor) (p : Pipeline) :
    (p.windDown applyUpdate).store = p.store := by
  change (((({ p with shutdown := true } : Pipeline).produced (.ok ())).received
    (.error .cancelled))).store = _
  rw [(interrupted_frame _ _).1, (produced_frame _ _).1]

private theorem take_eq (applyUpdate : Update → Store.Action Halt Cursor) (p : Pipeline)
    (u : Update) : p.take applyUpdate u =
      match ((p.received (.ok u)).settled applyUpdate).consumer with
      | .applying _ => ({ (p.received (.ok u)).settled applyUpdate with
          shutdown := true } : Pipeline).dropped applyUpdate
      | _ => (p.received (.ok u)).settled applyUpdate := rfl

private theorem settled_of_ended (ended : p.consumer = .ended) : p.settled applyUpdate = p := by
  unfold Pipeline.settled
  rw [ended]
  dsimp only
  split <;> rfl

/-- A pipeline that takes nothing more stays as it is. -/
private theorem take_of_ended (ended : p.consumer = .ended) (u : Update) :
    p.take applyUpdate u = p := by
  have refused : p.received (.ok u) = p := by
    simp [received, ended]
  rw [take_eq, refused, settled_of_ended ended, ended]

private theorem database_of_follow_ended (ended : p.consumer = .ended) (signals : List Signal) :
    (p.follow applyUpdate signals).store.database = p.store.database := by
  induction signals generalizing p with
  | nil => exact congrArg Store.database (store_windDown applyUpdate p)
  | cons signal rest ih =>
    unfold follow
    split
    · rfl
    · cases signal with
      | did a => exact ih ended
      | deliver u =>
        dsimp only
        rw [take_of_ended ended u]
        exact ih ended
      | rest => exact ih ended
      | failed e => exact congrArg Store.database (produced_frame p _).1
      | silent => exact congrArg Store.database (store_windDown applyUpdate p)

/-- A pipeline that is not in the middle of an item. -/
def Between (p : Pipeline) : Prop := p.consumer = .waiting ∨ p.consumer = .ended

private theorem between_settled (applyUpdate : Update → Store.Action Halt Cursor) {p : Pipeline}
    (held : ∃ u, p.consumer = .applying u) :
    (p.settled applyUpdate).Between ∨ ∃ u, (p.settled applyUpdate).consumer = .applying u := by
  obtain ⟨u, held⟩ := held
  unfold Pipeline.settled
  split
  · exact .inr ⟨u, held⟩
  · rw [held]
    dsimp only
    split
    · exact .inl (.inl rfl)
    · exact .inl (.inr rfl)
    · exact .inr ⟨u, rfl⟩

private theorem between_dropped (applyUpdate : Update → Store.Action Halt Cursor) {p : Pipeline}
    (held : ∃ u, p.consumer = .applying u) (fired : p.fired = true) :
    (p.dropped applyUpdate).Between := by
  obtain ⟨u, held⟩ := held
  unfold Pipeline.dropped
  rw [held]
  dsimp only
  rw [if_pos (by rw [fired, Bool.or_true])]
  exact .inr (join_frame _).2

end Pipeline

private theorem Reachable.killed {l : Life} (h : Reachable contracts L lists (.up l))
    (agrees : Agrees lists reader) (between : l.pipeline.Between) :
    Reachable contracts L lists (.down l.pipeline.store) := by
  have crashed := h.step (.crashed reader agrees none)
  rcases between with idle | ended
  · simpa only [Pipeline.crashed, idle] using crashed
  · simpa only [Pipeline.crashed, ended] using crashed

/-- An item that is taken goes through the channel, and then it is settled or given up. -/
theorem Reachable.take {p : Pipeline} {u : Update} {rest : List Signal}
    (h : Reachable contracts L lists (.up ⟨.deliver u :: rest, 1, [], p⟩))
    (agrees : Agrees lists reader) (running : p.finished = false) (idle : p.consumer = .waiting) :
    Reachable contracts L lists (.up ⟨rest, 1, [], p.take (apply contracts reader) u⟩) ∧
      (p.take (apply contracts reader) u).Between := by
  have sent := h.step (.sent rfl Nat.zero_lt_one)
  have received := sent.step (.received rfl running idle)
  have settled := received.step (.settled reader agrees)
  -- The item is applied to its end, or the consumer ended before it, or no answer ever comes.
  have outcomes : ((p.received (.ok u)).settled (apply contracts reader)).Between ∨
      ∃ v, ((p.received (.ok u)).settled (apply contracts reader)).consumer = .applying v := by
    rcases Pipeline.received_item (u := u) running idle with ⟨-, taken⟩ | ⟨-, ended⟩
    · exact Pipeline.between_settled _ ⟨u, by rw [taken]⟩
    · rw [Pipeline.settled_of_ended ended]
      exact .inl (.inr ended)
  rcases outcomes with between | stalled
  · have kept : p.take (apply contracts reader) u =
        (p.received (.ok u)).settled (apply contracts reader) := by
      rcases between with waiting | ended
      · rw [Pipeline.take_eq, waiting]
      · rw [Pipeline.take_eq, ended]
    rw [kept]
    exact ⟨settled, between⟩
  · have dropped := (settled.step .shutdown).step (.dropped reader agrees none)
    let q : Pipeline :=
      { (p.received (.ok u)).settled (apply contracts reader) with shutdown := true }
    have given : p.take (apply contracts reader) u = q.dropped (apply contracts reader) := by
      obtain ⟨v, stalled⟩ := stalled
      rw [Pipeline.take_eq, stalled]
    have fired : q.fired = true := Bool.or_true _
    rw [given]
    exact ⟨dropped, Pipeline.between_dropped (p := q) _ stalled fired⟩

/-- What remains to be done of a life can be done, and the database is then the one that following
the signals leaves. -/
theorem Reachable.follow {p : Pipeline} {signals : List Signal}
    (h : Reachable contracts L lists (.up ⟨signals, 1, [], p⟩)) (agrees : Agrees lists reader)
    (between : p.Between) : ∃ s, Reachable contracts L lists (.down s) ∧
      s.database = (p.follow (apply contracts reader) signals).store.database := by
  induction signals generalizing p with
  | nil =>
    exact ⟨p.store, h.killed agrees between,
      congrArg Store.database (Pipeline.store_windDown _ p).symm⟩
  | cons signal rest ih =>
    unfold Pipeline.follow
    cases running : p.finished with
    | true => exact ⟨p.store, h.killed agrees between, rfl⟩
    | false =>
      cases signal with
      | did a => exact ih (h.step (.noted rfl)) between
      | rest => exact ih (h.step (.rested rfl)) between
      | deliver u =>
        rcases between with idle | ended
        · obtain ⟨taken, between⟩ := h.take agrees running idle
          exact ih taken between
        · refine ⟨p.store, h.killed agrees (.inr ended), ?_⟩
          change _ = ((p.take (apply contracts reader) u).follow _ rest).store.database
          rw [Pipeline.take_of_ended ended, Pipeline.database_of_follow_ended ended]
      | failed e =>
        exact ⟨p.store, h.killed agrees between,
          congrArg Store.database (Pipeline.produced_frame p _).1.symm⟩
      | silent =>
        exact ⟨p.store, h.killed agrees between,
          congrArg Store.database (Pipeline.store_windDown _ p).symm⟩

/-- A life of the synchronisation over a store that can be reached leaves one that can be reached.
Its channel never holds more than one item. -/
theorem Reachable.synchronise {plan : FollowPlan} {heads : List (Reply Nat)}
    {logs : List (Reply (List Log))} {s : Store} (h : Reachable contracts L lists (.down s))
    (agrees : Agrees lists reader) (watched : plan.contracts = contracts)
    (bounded : Bounded heads)
    (honest : ∀ cursor s', loadCursor s = (.ok cursor, s') →
      Honest L (Chain.follow plan cursor heads logs) logs) :
    Reachable contracts L lists (.down (Sync.synchronise plan reader heads logs s).2) := by
  subst watched
  unfold Sync.synchronise
  split
  · rename_i e s' loaded
    exact h.step (.refused loaded)
  · rename_i cursor s' loaded
    have alive := h.step (.started 1 loaded rfl bounded (honest cursor s' loaded))
    obtain ⟨left, reached, same⟩ := alive.follow agrees (.inl rfl)
    exact reached.step (.disturbedDown ⟨by rw [← same], by rw [← same]⟩)

end DecryptorNode.Sync
