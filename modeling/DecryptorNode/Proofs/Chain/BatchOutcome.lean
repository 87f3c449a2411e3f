import DecryptorNode.Proofs.Chain.BatchOrder
import Mathlib.Data.List.Forall2

/-! What becomes of a fetched batch, whatever is in it. It fails for a log that does not say where
it stands, else for the payload of a log that is due. Otherwise the items of the logs that are due
come by position, those of one position as they were fetched. -/
namespace DecryptorNode.Chain

section Reading
variable {ε α β : Type} {f : α → Except ε β} {l : List α}

/-- A list that is read is read element by element. -/
private theorem mapM_eq_ok_iff {m : List β} :
    l.mapM f = .ok m ↔ List.Forall₂ (fun a b => f a = .ok b) l m := by
  induction l generalizing m with
  | nil => cases m <;> simp [pure, Except.pure]
  | cons a l ih => simp only [mapM_cons_eq_ok, ih, List.forall₂_cons_left_iff]

/-- A list that is not read holds an element that is not read, for the same reason. -/
private theorem mem_of_mapM_eq_error {e : ε} (h : l.mapM f = .error e) :
    ∃ a ∈ l, f a = .error e := by
  induction l with
  | nil => cases h
  | cons a l ih =>
    rw [List.mapM_cons] at h
    cases head : f a with
    | error e' =>
      rw [head] at h
      cases h
      exact ⟨a, List.mem_cons_self, head⟩
    | ok b =>
      cases tail : l.mapM f with
      | error e' =>
        rw [head, tail] at h
        cases h
        obtain ⟨c, mem, failed⟩ := ih tail
        exact ⟨c, List.mem_cons_of_mem a mem, failed⟩
      | ok bs =>
        rw [head, tail] at h
        cases h

private theorem exists_mapM_eq_ok (h : ∀ a ∈ l, ∃ b, f a = .ok b) : ∃ m, l.mapM f = .ok m := by
  cases read : l.mapM f with
  | ok m => exact ⟨m, rfl⟩
  | error e =>
    obtain ⟨a, mem, failed⟩ := mem_of_mapM_eq_error read
    obtain ⟨b, succeeded⟩ := h a mem
    rw [failed] at succeeded
    cases succeeded

private theorem exists_of_mapM_eq_ok {m : List β} (h : l.mapM f = .ok m) :
    ∀ a ∈ l, ∃ b, f a = .ok b := by
  induction l generalizing m with
  | nil => simp
  | cons a l ih =>
    obtain ⟨b, bs, head, tail, -⟩ := mapM_cons_eq_ok.mp h
    exact List.forall_mem_cons.mpr ⟨⟨b, head⟩, ih tail⟩

end Reading

namespace Log
variable {contracts : WatchedContracts} {cursor p : Cursor} {log : Log} {e : ChainError}

/-- A log that stands and does not say where. -/
def Lacks (log : Log) : Prop := log.removed = false ∧ (log.block = none ∨ log.index = none)

private theorem place_of_not_lacks (h : ¬ log.Lacks) : log.place cursor = .ok (due cursor log) := by
  unfold place due position?
  by_cases removed : log.removed = true
  · simp [removed]
  · cases block : log.block with
    | none => exact absurd ⟨by simpa using removed, .inl block⟩ h
    | some b =>
      cases index : log.index with
      | none => exact absurd ⟨by simpa using removed, .inr index⟩ h
      | some i =>
        simp only [removed, Bool.false_eq_true, if_false, Option.bind_some]
        split <;> rfl

private theorem place_of_lacks (h : log.Lacks) (cursor : Cursor) :
    ∃ field, log.place cursor = .error (.incompleteLog log.address field) := by
  obtain ⟨stands, lacks⟩ := h
  unfold place
  rw [stands]
  cases block : log.block with
  | none => exact ⟨_, rfl⟩
  | some b =>
    obtain index := lacks.resolve_left (by simp [block])
    rw [index]
    exact ⟨_, rfl⟩

private theorem update_eq_error (h : log.update contracts p = .error e) :
    log.event contracts = .error e ∧ ∃ address block, e = .decodeEvent address block := by
  unfold update at h
  cases read : log.event contracts with
  | ok event =>
    rw [read] at h
    cases h
  | error reason =>
    rw [read] at h
    cases h
    refine ⟨rfl, ?_⟩
    unfold event at read
    split at read
    · cases read
    · split at read
      · cases read
      · split at read
        · cases read
        · cases read
          exact ⟨_, _, rfl⟩

private theorem exists_update_iff :
    (∃ u, log.update contracts p = .ok u) ↔ ∃ event, log.event contracts = .ok event := by
  simp only [update_eq_ok]
  exact ⟨fun ⟨_, event, read, _⟩ => ⟨event, read⟩, fun ⟨event, read⟩ => ⟨_, event, read, rfl⟩⟩

end Log

/-- A batch in which every log that stands says where. -/
def Complete (logs : List Log) : Prop := ∀ log ∈ logs, ¬ log.Lacks

/-- What is delivered of a batch from a cursor on: the items come by position, and at each position
they are those of the logs that are due there, one for each and in the order of the batch. -/
structure Delivers (contracts : WatchedContracts) (cursor : Cursor) (logs : List Log)
    (us : List Update) : Prop where
  ordered : us.Pairwise fun u v => u.position ≤ v.position
  told : ∀ p, List.Forall₂ (fun log u => log.update contracts p = .ok u)
    (logs.filter fun log => log.DueAt cursor p) (us.filter fun u => u.position = p)

section Batches
variable {contracts : WatchedContracts} {cursor p : Cursor} {logs logs' : List Log}
  {us vs : List Update}

private theorem orderUpdates_of_complete (complete : Complete logs) :
    orderUpdates contracts logs cursor =
      (dueInOrder cursor logs).mapM fun x => x.2.update contracts x.1 := by
  have placed : logs.mapM (Log.place cursor) = .ok (logs.map (due cursor)) := by
    rw [mapM_eq_ok_iff, List.forall₂_map_right_iff, List.forall₂_same]
    exact fun log mem => Log.place_of_not_lacks (complete log mem)
  unfold orderUpdates
  rw [placed]
  change ((logs.map (due cursor)).filterMap id |>.mergeSort earlier).mapM _ = _
  rw [List.filterMap_map]
  rfl

/-- Ordering a batch leaves the logs of one position as they were. -/
private theorem filter_dueInOrder (p : Cursor) :
    (dueInOrder cursor logs).filter (fun x => x.1 = p) =
      (logs.filter fun log => log.DueAt cursor p).map (p, ·) := by
  have unsorted : (logs.filterMap (due cursor)).filter (fun x => x.1 = p) =
      (logs.filter fun log => log.DueAt cursor p).map (p, ·) := by
    induction logs with
    | nil => rfl
    | cons log rest ih =>
      by_cases here : log.DueAt cursor p
      · simp [here, Log.dueAt_iff.mp here, ih]
      · cases found : due cursor log with
        | none => simp [here, found, ih]
        | some x =>
          obtain ⟨q, log'⟩ := x
          obtain ⟨rfl, -⟩ := due_eq_some.mp found
          have other : q ≠ p := by
            rintro rfl
            exact here (Log.dueAt_iff.mpr found)
          simp [here, found, other, ih]
  rw [← unsorted]
  have level : ((logs.filterMap (due cursor)).filter fun x => x.1 = p).Pairwise
      fun x y => earlier x y = true := by
    refine List.pairwise_of_forall_mem_list fun x hx y hy => earlier_iff.mpr ?_
    simp only [List.mem_filter, decide_eq_true_eq] at hx hy
    rw [hx.2, hy.2]
    exact Cursor.le_refl p
  have kept := (List.sublist_mergeSort earlier_trans earlier_total level
    List.filter_sublist).filter fun x => x.1 = p
  rw [List.filter_filter] at kept
  simp only [Bool.and_self] at kept
  refine (kept.eq_of_length ?_).symm
  exact ((List.mergeSort_perm _ earlier).filter _).length_eq.symm

private theorem Delivers.of_mapM
    (h : (dueInOrder cursor logs).mapM (fun x => x.2.update contracts x.1) = .ok us) :
    Delivers contracts cursor logs us := by
  have read := mapM_eq_ok_iff.mp h
  constructor
  · have positions : (dueInOrder cursor logs).map Prod.fst = us.map Update.position := by
      rw [← List.forall₂_eq_eq_eq, List.forall₂_map_left_iff, List.forall₂_map_right_iff]
      exact read.imp fun x u told => (Log.position_of_update told).symm
    have sorted : (us.map Update.position).Pairwise (· ≤ ·) := by
      rw [← positions, List.pairwise_map]
      exact (List.pairwise_mergeSort earlier_trans earlier_total _).imp earlier_iff.mp
    exact List.pairwise_map.mp sorted
  · intro p
    have here := List.rel_filter (p := fun x => decide (x.1 = p))
      (q := fun u => decide (u.position = p)) (fun x u told => ?_) read
    · rw [filter_dueInOrder, List.forall₂_map_left_iff] at here
      exact here
    · simp [Log.position_of_update told]

/-- Items in order are determined by those at each position. -/
private theorem eq_of_filter_position_eq (hu : us.Pairwise fun u v => u.position ≤ v.position)
    (hv : vs.Pairwise fun u v => u.position ≤ v.position)
    (same : ∀ p, us.filter (fun u => u.position = p) = vs.filter fun u => u.position = p) :
    us = vs := by
  have shared {ws xs : List Update} {u : Update} (mem : u ∈ ws)
      (same : ∀ p, ws.filter (fun u => u.position = p) = xs.filter fun u => u.position = p) :
      u ∈ xs := by
    have here : u ∈ ws.filter fun v => v.position = u.position := by simp [mem]
    rw [same] at here
    exact List.mem_of_mem_filter here
  induction us generalizing vs with
  | nil =>
    cases vs with
    | nil => rfl
    | cons v vs => cases shared List.mem_cons_self fun p => (same p).symm
  | cons u us ih =>
    cases vs with
    | nil => cases shared List.mem_cons_self same
    | cons v vs =>
      obtain ⟨first, ordered⟩ := List.pairwise_cons.mp hu
      obtain ⟨first', ordered'⟩ := List.pairwise_cons.mp hv
      have level : u.position = v.position := by
        have before : v.position ≤ u.position := by
          rcases List.mem_cons.mp (shared List.mem_cons_self same) with rfl | later
          · exact Cursor.le_refl _
          · exact first' u later
        have after : u.position ≤ v.position := by
          have mem := shared List.mem_cons_self fun p => (same p).symm
          rcases List.mem_cons.mp mem with rfl | later
          · exact Cursor.le_refl _
          · exact first v later
        exact Cursor.le_antisymm after before
      have heads := same u.position
      simp only [List.filter_cons, level, decide_true, if_true, List.cons.injEq] at heads
      obtain ⟨rfl, -⟩ := heads
      refine congrArg (u :: ·) (ih ordered ordered' fun p => ?_)
      have at' := same p
      simp only [List.filter_cons] at at'
      split at at'
      · exact (List.cons.inj at').2
      · exact at'

/-- A batch is delivered in one way. -/
theorem Delivers.unique (h : Delivers contracts cursor logs us)
    (h' : Delivers contracts cursor logs vs) : us = vs := by
  refine eq_of_filter_position_eq h.ordered h'.ordered fun p => ?_
  have functional : Relator.RightUnique fun (log : Log) u => log.update contracts p = .ok u :=
    fun _ _ _ told told' => Except.ok.inj (told.symm.trans told')
  exact functional.forall₂ (h.told p) (h'.told p)

/-- No two logs of a batch that stand are at one position. -/
def Distinct (logs : List Log) : Prop :=
  ∀ a ∈ logs, ∀ b ∈ logs, a.removed = false → b.removed = false →
    a.position? = b.position? → a = b

/-- Logs of distinct positions are ordered in one way. -/
theorem dueInOrder_perm (reordered : logs.Perm logs') (distinct : Distinct logs) :
    dueInOrder cursor logs' = dueInOrder cursor logs := by
  have shuffled := reordered.filterMap (due cursor)
  refine List.Perm.eq_of_pairwise ?_
    (List.pairwise_mergeSort earlier_trans earlier_total _)
    (List.pairwise_mergeSort earlier_trans earlier_total _)
    (((List.mergeSort_perm _ _).trans shuffled.symm).trans (List.mergeSort_perm _ _).symm)
  rintro ⟨p, log⟩ ⟨q, log'⟩ here there before after
  obtain rfl : p = q := Cursor.le_antisymm (earlier_iff.mp before) (earlier_iff.mp after)
  obtain ⟨mem, stands, position, -⟩ := mem_dueInOrder.mp here
  obtain ⟨mem', stands', position', -⟩ := mem_dueInOrder.mp there
  rw [distinct log (reordered.mem_iff.mpr mem) log' mem' stands stands'
    (position.trans position'.symm)]

private theorem Complete.perm (complete : Complete logs) (reordered : logs.Perm logs') :
    Complete logs' := fun log mem => complete log (reordered.mem_iff.mpr mem)

private theorem orderUpdates_of_lacks (h : ∃ log ∈ logs, log.Lacks) :
    ∃ address field, orderUpdates contracts logs cursor =
      .error (.incompleteLog address field) := by
  obtain ⟨log, mem, lacks⟩ := h
  cases placing : logs.mapM (Log.place cursor) with
  | ok placed =>
    obtain ⟨_, placed⟩ := exists_of_mapM_eq_ok placing log mem
    obtain ⟨field, refused⟩ := log.place_of_lacks lacks cursor
    rw [refused] at placed
    cases placed
  | error e =>
    obtain ⟨log', -, refused⟩ := mem_of_mapM_eq_error placing
    have lacks' : log'.Lacks := by
      by_contra complete
      rw [Log.place_of_not_lacks complete] at refused
      cases refused
    obtain ⟨field, refused'⟩ := log'.place_of_lacks lacks' cursor
    rw [refused] at refused'
    cases refused'
    refine ⟨log'.address, field, ?_⟩
    unfold orderUpdates
    rw [placing]
    rfl

private theorem orderUpdates_of_undecodable (complete : Complete logs)
    (h : ∃ log ∈ logs, ∃ p e, log.DueAt cursor p ∧ log.event contracts = .error e) :
    ∃ address block, orderUpdates contracts logs cursor = .error (.decodeEvent address block) := by
  obtain ⟨log, mem, p, e, isDue, unreadable⟩ := h
  rw [orderUpdates_of_complete complete]
  cases reading : (dueInOrder cursor logs).mapM fun x => x.2.update contracts x.1 with
  | ok us =>
    obtain ⟨event, read⟩ := Log.exists_update_iff.mp
      (exists_of_mapM_eq_ok reading (p, log) (mem_dueInOrder.mpr ⟨mem, isDue⟩))
    rw [unreadable] at read
    cases read
  | error e' =>
    obtain ⟨_, -, failed⟩ := mem_of_mapM_eq_error reading
    obtain ⟨-, address, block, rfl⟩ := Log.update_eq_error failed
    exact ⟨address, block, rfl⟩

private theorem orderUpdates_of_decodable (complete : Complete logs)
    (h : ∀ log ∈ logs, ∀ p, log.DueAt cursor p → ∃ event, log.event contracts = .ok event) :
    ∃ us, orderUpdates contracts logs cursor = .ok us ∧ Delivers contracts cursor logs us := by
  rw [orderUpdates_of_complete complete]
  obtain ⟨us, read⟩ : ∃ us, (dueInOrder cursor logs).mapM
      (fun x => x.2.update contracts x.1) = .ok us := by
    refine exists_mapM_eq_ok fun x mem => ?_
    obtain ⟨here, isDue⟩ := mem_dueInOrder.mp mem
    exact Log.exists_update_iff.mpr (h x.2 here x.1 isDue)
  exact ⟨us, read, .of_mapM read⟩

/-- A log with another payload, unless it is due. -/
def Log.garbled (cursor : Cursor) (payload : Log → List Topic × Bytes) (log : Log) : Log :=
  if (due cursor log).isSome then log
  else { log with topics := (payload log).1, data := (payload log).2 }

private theorem Log.place_garbled (payload : Log → List Topic × Bytes) (log : Log) :
    (log.garbled cursor payload).place cursor = log.place cursor := by
  unfold garbled
  split
  · rfl
  · rename_i notDue
    unfold due position? at notDue
    unfold place
    by_cases removed : log.removed = true
    · simp [removed]
    · cases block : log.block with
      | none => simp [removed]
      | some b =>
        cases index : log.index with
        | none => simp [removed]
        | some i =>
          have early : Cursor.before ⟨b, i⟩ cursor = true := by
            simpa [removed, block, index] using notDue
          simp [removed, early]

end Batches

/-- A batch is refused for a log that stands and does not say where, if there is one. Else it is
refused for a payload, if that of a log which is due cannot be read. Else what is delivered are the
items of the logs that are due: by position, one for each log, with its event, those of one position
in the order of the batch; and that is one list only. What the other logs carry makes no difference.
Nor does the order of a batch whose logs all say where they stand, no two of them at one place. -/
theorem orderUpdates_exact (contracts : WatchedContracts) (cursor : Cursor) (logs : List Log) :
    ((∃ address field, orderUpdates contracts logs cursor =
        .error (.incompleteLog address field)) ↔ ∃ log ∈ logs, log.Lacks) ∧
    (Complete logs →
      ((∃ address block, orderUpdates contracts logs cursor =
          .error (.decodeEvent address block)) ↔
        ∃ log ∈ logs, ∃ p e, log.DueAt cursor p ∧ log.event contracts = .error e) ∧
      ((∀ log ∈ logs, ∀ p, log.DueAt cursor p → ∃ event, log.event contracts = .ok event) →
        ∃ us, orderUpdates contracts logs cursor = .ok us ∧ Delivers contracts cursor logs us ∧
          ∀ vs, Delivers contracts cursor logs vs → vs = us)) ∧
    (∀ payload, orderUpdates contracts (logs.map (Log.garbled cursor payload)) cursor =
      orderUpdates contracts logs cursor) ∧
    (Complete logs → Distinct logs → ∀ logs', logs.Perm logs' →
      orderUpdates contracts logs' cursor = orderUpdates contracts logs cursor) := by
  refine ⟨⟨?_, orderUpdates_of_lacks⟩, fun complete => ⟨⟨?_, ?_⟩, ?_⟩, fun payload => ?_,
    fun complete distinct logs' reordered => ?_⟩
  · rintro ⟨address, field, refused⟩
    by_contra complete
    have complete : Complete logs := fun log mem lacks => complete ⟨log, mem, lacks⟩
    rw [orderUpdates_of_complete complete] at refused
    obtain ⟨_, -, failed⟩ := mem_of_mapM_eq_error refused
    obtain ⟨-, _, _, other⟩ := Log.update_eq_error failed
    cases other
  · rintro ⟨address, block, refused⟩
    rw [orderUpdates_of_complete complete] at refused
    obtain ⟨⟨p, log⟩, here, failed⟩ := mem_of_mapM_eq_error refused
    obtain ⟨mem, isDue⟩ := mem_dueInOrder.mp here
    exact ⟨log, mem, p, _, isDue, (Log.update_eq_error failed).1⟩
  · exact orderUpdates_of_undecodable complete
  · intro decodable
    obtain ⟨us, delivered, delivers⟩ := orderUpdates_of_decodable complete decodable
    exact ⟨us, delivered, delivers, fun vs delivers' => delivers'.unique delivers⟩
  · have placed : (logs.map (Log.garbled cursor payload)).mapM (Log.place cursor) =
        logs.mapM (Log.place cursor) := by
      rw [List.mapM_map]
      exact congrArg (logs.mapM ·) (funext (Log.place_garbled payload))
    simp only [orderUpdates, placed]
  · rw [orderUpdates_of_complete complete, orderUpdates_of_complete (complete.perm reordered),
      dueInOrder_perm reordered distinct]

def Log.plain (p : Cursor) : Log := ⟨.ofNat 7, [], [], some p.block, some p.index, false⟩

/-- Two logs of one block in the wrong order and a malformed one from before. -/
def mixedBatch : List Log :=
  [.plain ⟨5, 2⟩, { Log.plain ⟨4, 9⟩ with topics := [Signature.registered] }, .plain ⟨5, 1⟩]

theorem orderUpdates_exact_mixed :
    let contracts : WatchedContracts := ⟨.ofNat 5, .ofNat 6, .ofNat 7, .ofNat 8⟩
    Complete mixedBatch ∧ Distinct mixedBatch ∧
    orderUpdates contracts mixedBatch ⟨5, 0⟩ =
      .ok [⟨some (.unknown (.ofNat 7) none), 5, 1⟩, ⟨some (.unknown (.ofNat 7) none), 5, 2⟩] ∧
    orderUpdates contracts mixedBatch.reverse ⟨5, 0⟩ =
      orderUpdates contracts mixedBatch ⟨5, 0⟩ ∧
    ∃ address block, orderUpdates contracts mixedBatch ⟨4, 0⟩ =
      .error (.decodeEvent address block) := by
  intro contracts
  have complete : Complete mixedBatch := by
    simp [Complete, mixedBatch, Log.plain, Log.Lacks]
  have distinct : Distinct mixedBatch := by
    simp [Distinct, mixedBatch, Log.plain, Log.position?]
  refine ⟨complete, distinct, ?_, ?_, ?_⟩
  · have arranged : dueInOrder ⟨5, 0⟩ mixedBatch =
        [(⟨5, 1⟩, .plain ⟨5, 1⟩), (⟨5, 2⟩, .plain ⟨5, 2⟩)] := by
      simp [dueInOrder, mixedBatch, due, Log.plain, Log.position?, Cursor.before, List.mergeSort,
        List.MergeSort.Internal.splitInTwo, earlier]
    rw [orderUpdates_of_complete complete, arranged]
    rfl
  · exact (orderUpdates_exact contracts ⟨5, 0⟩ mixedBatch).2.2.2 complete distinct _
      (List.reverse_perm _).symm
  · refine (((orderUpdates_exact contracts ⟨4, 0⟩ mixedBatch).2.1 complete).1).mpr ?_
    refine ⟨_, List.mem_cons_of_mem _ List.mem_cons_self, ⟨4, 9⟩, .decodeEvent (.ofNat 7) 4, ?_, ?_⟩
    · decide
    · rfl

end DecryptorNode.Chain
