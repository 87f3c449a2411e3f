import DecryptorNode.Proofs.Chain.BatchOrder

/-! What a follower delivers. Whatever heads it is told and however the blocks fall into ranges,
its items are a stream from its first cursor on, and none is about a block that was not final. -/
namespace DecryptorNode.Chain

namespace Signal

def update? : Signal → Option Update
  | .deliver u => some u
  | _ => none

def range? : Signal → Option BlockRange
  | .did (.request (.logs first last _ _)) => some ⟨first, last⟩
  | _ => none

def asksHead : Signal → Bool
  | .did (.request .head) => true
  | _ => false

end Signal

def deliveries (l : List Signal) : List Update := l.filterMap Signal.update?

def fetched (l : List Signal) : List BlockRange := l.filterMap Signal.range?

def headsAsked (l : List Signal) : Nat := l.countP Signal.asksHead

/-- The answers that the follower gets for its ranges are those of a set of logs. Failures may come
among them. -/
def Honest (L : LogSet) (l : List Signal) (logs : List (Reply (List Log))) : Prop :=
  ∀ i range batch, (fetched l)[i]? = some range → logs.getD i (.value []) = .value batch →
    L.Answers range batch

/-- The heads fit 64 bits and are not the last number that does. -/
def Bounded (heads : List (Reply Nat)) : Prop := ∀ head, .value head ∈ heads → head < maxWord

section Signals
variable {L : LogSet} {l lead rest : List Signal} {us : List Update}

theorem deliveries_append : deliveries (l ++ rest) = deliveries l ++ deliveries rest :=
  List.filterMap_append

theorem deliveries_deliver (u : Update) :
    deliveries (.deliver u :: rest) = u :: deliveries rest := rfl

@[simp] theorem deliveries_map_deliver : deliveries (us.map .deliver) = us := by
  induction us with
  | nil => rfl
  | cons u us ih => rw [List.map_cons, deliveries_deliver, ih]

@[simp] theorem fetched_map_deliver : fetched (us.map .deliver) = [] := by
  induction us with
  | nil => rfl
  | cons u us ih => exact ih

@[simp] theorem headsAsked_map_deliver : headsAsked (us.map .deliver) = 0 := by
  induction us with
  | nil => rfl
  | cons u us ih => exact ih

theorem fetched_append : fetched (l ++ rest) = fetched l ++ fetched rest :=
  List.filterMap_append

theorem headsAsked_append : headsAsked (l ++ rest) = headsAsked l + headsAsked rest :=
  List.countP_append

private theorem Honest.skip {logs : List (Reply (List Log))} (h : Honest L (lead ++ rest) logs)
    (none : fetched lead = []) : Honest L rest logs := by
  intro i range batch asked answered
  refine h i range batch ?_ answered
  rw [fetched_append, none]
  exact asked

/-- The first fetch gets the first answer, the others get the answers after it. -/
private theorem Honest.answers {range : BlockRange} {batch : List Log}
    {logs : List (Reply (List Log))}
    (h : Honest L (lead ++ (us.map .deliver ++ rest)) logs) (one : fetched lead = [range])
    (answer : logs.getD 0 (.value []) = .value batch) :
    L.Answers range batch ∧ Honest L rest logs.tail := by
  have whole : fetched (lead ++ (us.map .deliver ++ rest)) = range :: fetched rest := by
    rw [fetched_append, one, fetched_append, fetched_map_deliver]
    rfl
  constructor
  · refine h 0 range batch ?_ answer
    rw [whole]
    rfl
  · intro i r b asked answered
    refine h (i + 1) r b ?_ ?_
    · rw [whole]
      exact asked
    · cases logs with
      | nil => exact answered
      | cons _ _ => exact answered

private theorem not_mem_of_silent (silent : deliveries l = []) (u : Update) : .deliver u ∉ l :=
  fun mem => nomatch List.filterMap_eq_nil_iff.mp silent _ mem

theorem not_mem_of_unfetched (unfetched : fetched l = []) (contracts : WatchedContracts)
    (range : BlockRange) : .did (.request (logsRequest contracts range)) ∉ l :=
  fun mem => nomatch List.filterMap_eq_nil_iff.mp unfetched _ mem

/-- What is not in the first part of a list is in the rest. -/
theorem split_of_not_mem {s : Signal} {pre post : List Signal} (other : s ∉ lead)
    (h : lead ++ rest = pre ++ s :: post) :
    ∃ pre', pre = lead ++ pre' ∧ rest = pre' ++ s :: post := by
  rcases List.append_eq_append_iff.mp h with ⟨pre', hpre, hrest⟩ | ⟨tail, hlead, hpost⟩
  · exact ⟨pre', hpre, hrest⟩
  · cases tail with
    | nil =>
      rw [List.append_nil] at hlead
      exact ⟨[], by rw [hlead, List.append_nil], hpost.symm⟩
    | cons t tail =>
      cases hpost
      exact absurd (hlead ▸ List.mem_append_right _ List.mem_cons_self) other

private theorem split_deliveries {u : Update} {pre post : List Signal}
    (h : us.map .deliver ++ rest = pre ++ .deliver u :: post) :
    (u ∈ us ∧ headsAsked pre = 0) ∨
      ∃ pre', pre = us.map .deliver ++ pre' ∧ rest = pre' ++ .deliver u :: post := by
  induction us generalizing pre with
  | nil => exact .inr ⟨pre, rfl, h⟩
  | cons v us ih =>
    cases pre with
    | nil =>
      cases h
      exact .inl ⟨List.mem_cons_self, rfl⟩
    | cons s pre =>
      obtain ⟨rfl, same⟩ := List.cons.inj h
      rcases ih same with ⟨mem, none⟩ | ⟨pre', rfl, later⟩
      · exact .inl ⟨List.mem_cons_of_mem v mem, none⟩
      · exact .inr ⟨pre', rfl, later⟩

end Signals

/-- What the follower does between asking for a head and delivering. -/
structure Lead (l : List Signal) (ranges : List BlockRange) : Prop where
  silent : deliveries l = []
  ranges : fetched l = ranges
  once : headsAsked l = 1

section Rounds
variable (plan : FollowPlan) (cursor : Cursor) (head : Nat) (heads : List (Reply Nat))
  (logs : List (Reply (List Log)))

/-- What comes of one head: nothing that could be fetched, or a request, after which the follower
ends without a delivery or delivers a range. -/
theorem follow_round : let signals := follow plan cursor (.value head :: heads) logs
    (∃ lead, Lead lead [] ∧ signals = lead ++ follow plan cursor heads logs) ∨
    ∃ final range answer, finalized? head plan.finalityOffset = some final ∧
      nextRange? cursor.block (some final) plan.maxBlocks = some range ∧
      signals = [.did (.request .head), .did (.finalizedHead final)] ++
        .did (.request (logsRequest plan.contracts range)) :: answer ∧
      (fetched answer = [] ∧ deliveries answer = [] ∨
        ∃ batch us, logs.getD 0 (.value []) = .value batch ∧
          rangeUpdates plan.contracts cursor range batch = .ok us ∧
          answer = .did (.logBatch true range.size batch.length) ::
            (us.map .deliver ++ follow plan ⟨range.last + 1, 0⟩ heads logs.tail)) := by
  intro signals
  cases told : finalized? head plan.finalityOffset with
  | none =>
    refine .inl ⟨[.did (.request .head), .rest], ⟨rfl, rfl, rfl⟩, ?_⟩
    simp only [signals, follow, told]
    rfl
  | some final =>
    cases planned : nextRange? cursor.block (some final) plan.maxBlocks with
    | none =>
      refine .inl ⟨[.did (.request .head), .did (.finalizedHead final), .rest],
        ⟨rfl, rfl, rfl⟩, ?_⟩
      simp only [signals, follow, told, planned]
      rfl
    | some range =>
      refine .inr ⟨final, range, ?_⟩
      simp only [signals, follow, told, planned, true_and, List.headD_eq_getD]
      cases logs.getD 0 (.value []) with
      | silent => exact ⟨_, rfl, .inl ⟨rfl, rfl⟩⟩
      | failed e => exact ⟨_, rfl, .inl ⟨rfl, rfl⟩⟩
      | value batch =>
        dsimp only
        cases ordered : rangeUpdates plan.contracts cursor range batch with
        | error e => exact ⟨_, rfl, .inl ⟨rfl, rfl⟩⟩
        | ok us => exact ⟨_, rfl, .inr ⟨batch, us, rfl, ordered, rfl⟩⟩

/-- What comes of one head: nothing that could be fetched, the end without a delivery, or a range
that is delivered. -/
theorem follow_value : let signals := follow plan cursor (.value head :: heads) logs
    (∃ lead, Lead lead [] ∧ signals = lead ++ follow plan cursor heads logs) ∨
    deliveries signals = [] ∨
    ∃ range batch us lead,
      nextRange? cursor.block (finalized? head plan.finalityOffset) plan.maxBlocks = some range ∧
      logs.getD 0 (.value []) = .value batch ∧
      rangeUpdates plan.contracts cursor range batch = .ok us ∧ Lead lead [range] ∧
      signals = lead ++ (us.map .deliver ++ follow plan ⟨range.last + 1, 0⟩ heads logs.tail) := by
  intro signals
  rcases follow_round plan cursor head heads logs with waits |
    ⟨final, range, answer, told, planned, asks, ⟨-, silent⟩ | ⟨batch, us, replied, ordered, rfl⟩⟩
  · exact .inl waits
  · exact .inr (.inl ((congrArg deliveries asks).trans silent))
  · rw [told]
    exact .inr (.inr ⟨range, batch, us, [.did (.request .head), .did (.finalizedHead final),
      .did (.request (logsRequest plan.contracts range)),
      .did (.logBatch true range.size batch.length)], planned, replied, ordered,
      ⟨rfl, rfl, rfl⟩, asks⟩)

end Rounds

private theorem range_of_nextRange? {block head offset maxBlocks : Nat} {range : BlockRange}
    (h : nextRange? block (finalized? head offset) maxBlocks = some range)
    (bounded : head < maxWord) :
    range.first = block ∧ block ≤ range.last ∧ offset ≤ head ∧ range.last ≤ head - offset := by
  unfold finalized? at h
  split at h
  · obtain ⟨reached, h⟩ := Option.ite_none_left_eq_some.mp h
    cases h
    unfold saturatingAdd
    dsimp only
    omega
  · cases h

private theorem Bounded.tail {head : Reply Nat} {heads : List (Reply Nat)}
    (h : Bounded (head :: heads)) : Bounded heads :=
  fun n mem => h n (List.mem_cons_of_mem _ mem)

/-- A follower delivers a stream from its first cursor on. -/
theorem stream_of_follow {plan : FollowPlan} {cursor : Cursor} {heads : List (Reply Nat)}
    {logs : List (Reply (List Log))} {L : LogSet} (bounded : Bounded heads)
    (honest : Honest L (follow plan cursor heads logs) logs) :
    Stream plan.contracts L cursor (deliveries (follow plan cursor heads logs)) := by
  induction heads generalizing cursor logs with
  | nil => trivial
  | cons reply heads ih =>
    cases reply with
    | failed e => trivial
    | silent => trivial
    | value head =>
      rcases follow_value plan cursor head heads logs with ⟨lead, quiet, split⟩ | none |
        ⟨range, batch, us, lead, planned, answer, told, quiet, split⟩
      · rw [split] at honest ⊢
        rw [deliveries_append, quiet.silent]
        exact ih bounded.tail (honest.skip quiet.ranges)
      · rw [none]
        trivial
      · rw [split] at honest ⊢
        obtain ⟨first, room, -, -⟩ := range_of_nextRange? planned (bounded head List.mem_cons_self)
        obtain ⟨answers, honest⟩ := honest.answers quiet.ranges answer
        obtain ⟨stream, ends⟩ := stream_of_rangeUpdates answers first (first ▸ room) told
        rw [deliveries_append, quiet.silent, deliveries_append, deliveries_map_deliver,
          List.nil_append]
        refine Stream.append_iff.mpr ⟨stream, ?_⟩
        rw [ends]
        exact ih bounded.tail honest

/-- The number of a delivered item's block is not above the head that was told last, less the
finality offset. -/
theorem head_of_delivery {plan : FollowPlan} {cursor : Cursor} {heads : List (Reply Nat)}
    {logs : List (Reply (List Log))} {L : LogSet} (bounded : Bounded heads)
    (honest : Honest L (follow plan cursor heads logs) logs) {pre post : List Signal} {u : Update}
    (split : follow plan cursor heads logs = pre ++ .deliver u :: post) :
    ∃ asked head, headsAsked pre = asked + 1 ∧ heads[asked]? = some (.value head) ∧
      plan.finalityOffset ≤ head ∧ u.block ≤ head - plan.finalityOffset := by
  induction heads generalizing cursor logs pre with
  | nil => cases pre <;> cases split
  | cons reply heads ih =>
    have delivered : deliveries (follow plan cursor (reply :: heads) logs) ≠ [] := by
      rw [split, deliveries_append, deliveries_deliver]
      simp
    cases reply with
    | failed e => exact absurd rfl delivered
    | silent => exact absurd rfl delivered
    | value head =>
      rcases follow_value plan cursor head heads logs with ⟨lead, quiet, whole⟩ | none |
        ⟨range, batch, us, lead, planned, answer, told, quiet, whole⟩
      · rw [whole] at honest split
        obtain ⟨pre', rfl, later⟩ := split_of_not_mem (not_mem_of_silent quiet.silent u) split
        obtain ⟨asked, h, count, told, final⟩ := ih bounded.tail (honest.skip quiet.ranges) later
        refine ⟨asked + 1, h, ?_, told, final⟩
        rw [headsAsked_append, quiet.once, count, Nat.add_comm]
      · exact absurd none delivered
      · rw [whole] at honest split
        obtain ⟨first, room, long, final⟩ :=
          range_of_nextRange? planned (bounded head List.mem_cons_self)
        obtain ⟨answers, honest⟩ := honest.answers quiet.ranges answer
        obtain ⟨stream, ends⟩ := stream_of_rangeUpdates answers first (first ▸ room) told
        obtain ⟨pre', rfl, later⟩ := split_of_not_mem (not_mem_of_silent quiet.silent u) split
        rcases split_deliveries later with ⟨here, none⟩ | ⟨pre'', rfl, behind⟩
        · refine ⟨0, head, ?_, rfl, long, Nat.le_trans ?_ final⟩
          · rw [headsAsked_append, quiet.once, none]
          · exact Update.block_le_of_after_le (ends ▸ stream.after_le_reached u here)
        · obtain ⟨asked, h, count, told, final⟩ := ih bounded.tail honest behind
          refine ⟨asked + 1, h, ?_, told, final⟩
          rw [headsAsked_append, headsAsked_append, headsAsked_map_deliver, quiet.once, count]
          omega

end DecryptorNode.Chain
