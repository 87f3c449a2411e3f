import DecryptorNode.Chain.Follower
import DecryptorNode.Proofs.Chain.LogChronicle

/-! A fetched batch becomes a stream: in whatever order the logs of a range come, their items tell
what happens from the cursor to the end of the range, and the last one says that it ends there. -/
namespace DecryptorNode.Chain
variable {contracts : WatchedContracts} {L : LogSet}

theorem mapM_cons_eq_ok {ε α β : Type} {f : α → Except ε β} {a : α} {l : List α}
    {m : List β} : (a :: l).mapM f = .ok m ↔
      ∃ b bs, f a = .ok b ∧ l.mapM f = .ok bs ∧ m = b :: bs := by
  rw [List.mapM_cons]
  cases f a with
  | error e => exact ⟨fun h => (by cases h), fun ⟨_, _, h, _⟩ => by cases h⟩
  | ok b =>
    cases l.mapM f with
    | error e => exact ⟨fun h => (by cases h), fun ⟨_, _, _, h, _⟩ => by cases h⟩
    | ok bs =>
      constructor
      · intro h
        cases h
        exact ⟨b, bs, rfl, rfl, rfl⟩
      · rintro ⟨_, _, head, tail, rfl⟩
        cases head
        cases tail
        rfl

/-- The part of a batch that is delivered from a cursor on. -/
def due (cursor : Cursor) (log : Log) : Option (Cursor × Log) :=
  if log.removed then none
  else log.position?.bind fun p => if p.before cursor then none else some (p, log)

theorem due_eq_some {cursor : Cursor} {log log' : Log} {p : Cursor} :
    due cursor log = some (p, log') ↔
      log' = log ∧ log.removed = false ∧ log.position? = some p ∧ cursor ≤ p := by
  unfold due
  split
  · simp [*]
  · rename_i stands
    rw [Option.bind_eq_some_iff]
    constructor
    · rintro ⟨q, position, h⟩
      obtain ⟨late, h⟩ := Option.ite_none_left_eq_some.mp h
      cases h
      exact ⟨rfl, by simpa using stands, position, late⟩
    · rintro ⟨rfl, -, position, late⟩
      exact ⟨p, position, if_neg late⟩

def Log.DueAt (cursor p : Cursor) (log : Log) : Prop :=
  log.removed = false ∧ log.position? = some p ∧ cursor ≤ p

theorem Log.dueAt_iff {cursor p : Cursor} {log : Log} :
    log.DueAt cursor p ↔ due cursor log = some (p, log) := by
  simp [DueAt, due_eq_some]

instance {cursor p : Cursor} {log : Log} : Decidable (log.DueAt cursor p) :=
  decidable_of_iff _ Log.dueAt_iff.symm

private theorem due_of_place {cursor : Cursor} {log : Log} {result : Option (Cursor × Log)}
    (h : log.place cursor = .ok result) : due cursor log = result := by
  unfold Log.place at h
  unfold due Log.position?
  split at h
  · cases h
    rw [if_pos ‹_›]
  · rw [if_neg ‹_›]
    split at h
    · cases h
    · cases h
    · rename_i block index hblock hindex
      rw [hblock, hindex]
      dsimp only at h ⊢
      rw [Option.bind_some]
      split at h <;> rename_i early <;> cases h <;> simp [early]

private theorem filterMap_place {cursor : Cursor} {batch : List Log}
    {placed : List (Option (Cursor × Log))} (h : batch.mapM (Log.place cursor) = .ok placed) :
    placed.filterMap id = batch.filterMap (due cursor) := by
  induction batch generalizing placed with
  | nil =>
    cases h
    rfl
  | cons log rest ih =>
    obtain ⟨result, results, head, tail, rfl⟩ := mapM_cons_eq_ok.mp h
    rw [List.filterMap_cons, List.filterMap_cons, due_of_place head, ih tail]
    rfl

/-- Placed logs in order, all those from a position up to another. -/
private structure Lists (L : LogSet) (a b : Cursor) (l : List (Cursor × Log)) : Prop where
  ordered : l.Pairwise fun x y => x.1 < y.1
  mem_iff : ∀ p log, (p, log) ∈ l ↔ L.At p log ∧ a ≤ p ∧ p < b

def earlier (x y : Cursor × Log) : Bool := !y.1.before x.1

theorem earlier_iff {x y : Cursor × Log} : earlier x y = true ↔ x.1 ≤ y.1 := by
  unfold earlier
  rw [Bool.not_eq_true', ← Bool.not_eq_true]
  rfl

theorem earlier_trans (x y z : Cursor × Log) (h : earlier x y = true) (h' : earlier y z = true) :
    earlier x z = true :=
  earlier_iff.mpr (Cursor.le_trans (earlier_iff.mp h) (earlier_iff.mp h'))

theorem earlier_total (x y : Cursor × Log) : (earlier x y || earlier y x) = true := by
  rw [Bool.or_eq_true, earlier_iff, earlier_iff]
  exact Cursor.le_total x.1 y.1

def dueInOrder (cursor : Cursor) (logs : List Log) : List (Cursor × Log) :=
  (logs.filterMap (due cursor)).mergeSort earlier

theorem mem_dueInOrder {cursor p : Cursor} {logs : List Log} {log : Log} :
    (p, log) ∈ dueInOrder cursor logs ↔ log ∈ logs ∧ log.DueAt cursor p := by
  simp only [dueInOrder, List.mem_mergeSort, List.mem_filterMap, Log.dueAt_iff]
  constructor
  · rintro ⟨log', mem, h⟩
    obtain ⟨rfl, -⟩ := due_eq_some.mp h
    exact ⟨mem, h⟩
  · rintro ⟨mem, h⟩
    exact ⟨log, mem, h⟩

/-- No two due logs of a batch have one position, so sorting them leaves no choice. -/
private theorem lists_due {cursor : Cursor} {range : BlockRange} {batch : List Log}
    (answers : L.Answers range batch) (first : range.first ≤ cursor.block) :
    Lists L cursor ⟨range.last + 1, 0⟩ (dueInOrder cursor batch) := by
  obtain ⟨once, mem⟩ := answers
  refine ⟨?_, fun p log => mem_dueInOrder.trans ?_⟩
  · have apart : (batch.filterMap (due cursor)).Pairwise fun x y => x.1 ≠ y.1 := by
      rw [List.pairwise_filterMap]
      refine (List.pairwise_filter.mp once).imp_of_mem ?_
      intro a b ha hb different x hx y hy same
      obtain ⟨p, log⟩ := x
      obtain ⟨q, log'⟩ := y
      obtain ⟨rfl, stands, position, -⟩ := due_eq_some.mp hx
      obtain ⟨rfl, stands', position', -⟩ := due_eq_some.mp hy
      obtain ⟨_, at', -⟩ := (mem _ stands).mp ha
      obtain ⟨_, at'', -⟩ := (mem _ stands').mp hb
      refine different (by simp [stands]) (by simp [stands']) (L.distinct _ _ at'.has at''.has ?_)
      rw [position, position']
      exact congrArg some same
    have sorted := List.pairwise_mergeSort earlier_trans earlier_total
      (batch.filterMap (due cursor))
    have apart' := (List.mergeSort_perm (batch.filterMap (due cursor)) earlier).symm.pairwise apart
      fun h => h.symm
    refine (sorted.and apart').imp fun ⟨le, ne⟩ => ?_
    exact Cursor.lt_of_le_of_ne (earlier_iff.mp le) ne
  · constructor
    · rintro ⟨present, stands, position, late⟩
      obtain ⟨q, at', -, high⟩ := (mem log stands).mp present
      have same : q = p := Option.some.inj (at'.position.symm.trans position)
      exact ⟨same ▸ at', late, Cursor.lt_nextBlock_iff.mpr (same ▸ high)⟩
    · rintro ⟨at', late, high⟩
      have reach := Cursor.le_iff.mp late
      refine ⟨(mem log at'.stands).mpr ⟨p, at', by omega, Cursor.lt_nextBlock_iff.mp high⟩,
        at'.stands, at'.position, late⟩

private theorem stream_of_lists {cursor : Cursor} {last : Nat} {l : List (Cursor × Log)}
    {us : List Update} (lists : Lists L cursor ⟨last + 1, 0⟩ l) (room : cursor.block ≤ last)
    (told : l.mapM (fun x => x.2.update contracts x.1) = .ok us) :
    Stream contracts L cursor (us ++ [Update.absent last]) := by
  induction l generalizing cursor us with
  | nil =>
    cases told
    refine ⟨⟨Cursor.lt_nextBlock_iff.mpr room, .nil, fun u h => (by cases h), ?_⟩, trivial⟩
    intro p log at' low high
    have none := (lists.mem_iff p log).mpr ⟨at', low, high⟩
    cases none
  | cons x rest ih =>
    obtain ⟨p, log⟩ := x
    obtain ⟨u, us, head, tail, rfl⟩ := mapM_cons_eq_ok.mp told
    obtain ⟨at', low, high⟩ := (lists.mem_iff p log).mp List.mem_cons_self
    obtain ⟨later, ordered⟩ := List.pairwise_cons.mp lists.ordered
    obtain ⟨event, -, rfl⟩ := Log.update_eq_ok.mp head
    refine ⟨⟨Cursor.lt_nextIndex_iff.mpr low, ?_⟩, ih ⟨ordered, fun q log' => ?_⟩
      (Cursor.lt_nextBlock_iff.mp high) tail⟩
    · refine ⟨List.pairwise_singleton _ _, fun v hv => ?_, fun q log' at'' low' high' => ?_⟩
      · cases List.mem_singleton.mp hv
        exact ⟨log, at', head, low, Cursor.lt_nextIndex_iff.mpr (Cursor.le_refl p)⟩
      · rcases List.mem_cons.mp ((lists.mem_iff q log').mpr ⟨at'', low', Cursor.lt_of_lt_of_le
          high' (Cursor.nextIndex_le_iff.mpr high)⟩) with same | behind
        · cases same
          exact ⟨_, List.mem_singleton_self _, head⟩
        · exact absurd (later _ behind) (Cursor.lt_nextIndex_iff.mp high')
    · constructor
      · intro behind
        obtain ⟨at'', -, high'⟩ := (lists.mem_iff q log').mp (List.mem_cons_of_mem _ behind)
        exact ⟨at'', Cursor.nextIndex_le_iff.mpr (later _ behind), high'⟩
      · rintro ⟨at'', low', high'⟩
        have after := Cursor.nextIndex_le_iff.mp low'
        rcases List.mem_cons.mp ((lists.mem_iff q log').mpr
          ⟨at'', Cursor.le_trans low (Cursor.le_of_lt after), high'⟩) with same | behind
        · cases same
          exact absurd after (Cursor.lt_irrefl _)
        · exact behind

private theorem orderUpdates_eq_ok {cursor : Cursor} {batch : List Log} {us : List Update}
    (h : orderUpdates contracts batch cursor = .ok us) :
    (dueInOrder cursor batch).mapM (fun x => x.2.update contracts x.1) = .ok us := by
  unfold orderUpdates at h
  cases placing : batch.mapM (Log.place cursor) with
  | error e =>
    rw [placing] at h
    cases h
  | ok placed =>
    rw [placing] at h
    rw [dueInOrder, ← filterMap_place placing]
    exact h

/-- What is delivered of a range is a stream from the cursor to the end of the range. -/
theorem stream_of_rangeUpdates {cursor : Cursor} {range : BlockRange} {batch : List Log}
    {us : List Update} (answers : L.Answers range batch) (first : range.first = cursor.block)
    (room : range.first ≤ range.last)
    (told : rangeUpdates contracts cursor range batch = .ok us) :
    Stream contracts L cursor us ∧ reached cursor us = ⟨range.last + 1, 0⟩ := by
  unfold rangeUpdates at told
  cases ordering : orderUpdates contracts batch cursor with
  | error e =>
    rw [ordering] at told
    cases told
  | ok events =>
    rw [ordering] at told
    cases told
    have lists := lists_due answers (Nat.le_of_eq first)
    refine ⟨stream_of_lists lists (first ▸ room) (orderUpdates_eq_ok ordering), ?_⟩
    rw [reached, List.foldl_append]
    rfl

end DecryptorNode.Chain
