import DecryptorNode.Proofs.Chain.FollowDeliveries
import Mathlib.Data.List.Permutation

/-! What the stream of a follower says, as a reader of its items sees it. -/
namespace DecryptorNode.Chain

/-- What readers took one after the other from a position on. Each followed the chain with a plan,
heads and answers of its own, from the position after the last item of the one before it. -/
inductive Delivered (contracts : WatchedContracts) (L : LogSet) (start : Cursor) :
    Cursor → List Update → Prop where
  | nothing : Delivered contracts L start start []
  | more {cursor next : Cursor} {taken us : List Update} {u : Update} {plan : FollowPlan}
      {heads : List (Reply Nat)} {logs : List (Reply (List Log))}
      (before : Delivered contracts L start cursor taken)
      (watched : plan.contracts = contracts)
      (bounded : Bounded heads)
      (honest : Honest L (follow plan cursor heads logs) logs)
      (took : us ++ [u] <+: deliveries (follow plan cursor heads logs))
      (handed : u.nextCursor? = some next) :
      Delivered contracts L start next (taken ++ (us ++ [u]))

private theorem Delivered.stream {contracts : WatchedContracts} {L : LogSet} {start cursor : Cursor}
    {us : List Update} (h : Delivered contracts L start cursor us) :
    Stream contracts L start us ∧ reached start us = cursor := by
  induction h with
  | nothing => exact ⟨trivial, rfl⟩
  | @more cursor next taken us u plan heads logs before watched bounded honest took handed ih =>
    obtain ⟨stream, at'⟩ := ih
    obtain ⟨rest, whole⟩ := took
    have followed := stream_of_follow bounded honest
    rw [← whole, watched] at followed
    refine ⟨Stream.append_iff.mpr ⟨stream, at' ▸ (Stream.append_iff.mp followed).1⟩, ?_⟩
    rw [reached, List.foldl_append, List.foldl_append]
    exact Update.after_of_nextCursor? handed

/-- Streams from one position tell the same events, as far as both go. -/
theorem Stream.comparable {contracts : WatchedContracts} {L : LogSet} {c : Cursor}
    {us vs : List Update} (h : Stream contracts L c us) (h' : Stream contracts L c vs) :
    occurrences us <+: occurrences vs ∨ occurrences vs <+: occurrences us := by
  rcases Cursor.le_total (reached c us) (reached c vs) with le | le
  · exact .inl (h.chronicle.isPrefix h'.chronicle h.le_reached le)
  · exact .inr (h'.chronicle.isPrefix h.chronicle h'.le_reached le)

/-- A follower that starts at a position, with any finality offset, ranges of any size and any
heads. When it says that a block is complete, it has delivered the events of all logs from the
position up to the block, each once and in order; nothing that it delivers later is about that
block or an earlier one, another such statement included; every item is at least the finality
offset behind the head it was told last; and in whatever way others read from the same position,
stopping and handing over as they like, one sees the beginning of what the other sees. -/
theorem follow_delivers_chronicle (plan : FollowPlan) (start : Cursor) (heads : List (Reply Nat))
    (logs : List (Reply (List Log))) (L : LogSet) (bounded : Bounded heads)
    (honest : Honest L (follow plan start heads logs) logs) :
    (∀ pre tick post, follow plan start heads logs = pre ++ .deliver tick :: post →
      tick.event = none →
      Chronicle plan.contracts L start ⟨tick.block + 1, 0⟩ (occurrences (deliveries pre)) ∧
      ∀ u ∈ deliveries post, tick.block < u.block) ∧
    (∀ pre u post, follow plan start heads logs = pre ++ .deliver u :: post →
      ∃ asked head, headsAsked pre = asked + 1 ∧ heads[asked]? = some (.value head) ∧
        plan.finalityOffset ≤ head ∧ u.block ≤ head - plan.finalityOffset) ∧
    (∀ pre post cursor others, follow plan start heads logs = pre ++ post →
      Delivered plan.contracts L start cursor others →
      occurrences (deliveries pre) <+: occurrences others ∨
        occurrences others <+: occurrences (deliveries pre)) := by
  have stream := stream_of_follow bounded honest
  refine ⟨fun pre tick post split complete => ?_, fun pre u post split => ?_,
    fun pre post cursor others split delivered => ?_⟩
  · rw [split, deliveries_append, deliveries_deliver] at stream
    obtain ⟨earlier, follows, later⟩ := Stream.append_iff.mp stream
    have after : tick.after = ⟨tick.block + 1, 0⟩ := by
      rw [Update.after, complete]
    have silent : occurrences [tick] = [] := by
      simp [occurrences, complete]
    have tells := follows.tells
    rw [silent, after] at tells
    have all := earlier.chronicle.append tells earlier.le_reached
      (after ▸ Cursor.le_of_lt follows.moves)
    rw [List.append_nil] at all
    refine ⟨all, fun u mem => ?_⟩
    rw [after] at later
    exact later.block_le u mem
  · exact head_of_delivery bounded honest split
  · rw [split, deliveries_append] at stream
    exact (Stream.append_iff.mp stream).1.comparable delivered.stream.1

/-- The items of a range whose logs were placed, put in order and read. -/
theorem rangeUpdates_of_placed {contracts : WatchedContracts} {range : BlockRange}
    {cursor : Cursor} {batch : List Log} {placed : List (Option (Cursor × Log))}
    {due : List (Cursor × Log)} {us : List Update}
    (placing : batch.mapM (Log.place cursor) = .ok placed)
    (sorted : (placed.filterMap id).mergeSort earlier = due)
    (told : due.mapM (fun x => x.2.update contracts x.1) = .ok us) :
    rangeUpdates contracts cursor range batch = .ok (us ++ [.absent range.last]) := by
  unfold rangeUpdates orderUpdates
  rw [placing]
  change ((placed.filterMap id).mergeSort earlier).mapM
    (fun x => x.2.update contracts x.1) >>= _ = _
  rw [sorted, told]
  rfl

def LogSet.listed (logs : List Log) (placed : ∀ log ∈ logs, log.position?.isSome)
    (apart : (logs.map Log.position?).Nodup) : LogSet where
  Has := (· ∈ logs)
  placed log mem := Option.isSome_iff_exists.mp (placed log mem)
  distinct _ _ ha hb same := List.inj_on_of_nodup_map apart ha hb same

/-- The logs of a range can be answered in any order, and with removed ones among them. -/
theorem LogSet.listed_answers {logs batch : List Log} {placed : ∀ log ∈ logs, log.position?.isSome}
    {apart : (logs.map Log.position?).Nodup} {range : BlockRange}
    (reordered : (batch.filter fun log => !log.removed).Perm (logs.filter fun log =>
      !log.removed && log.position?.any fun p =>
        range.first ≤ p.block ∧ p.block ≤ range.last)) :
    (LogSet.listed logs placed apart).Answers range batch := by
  refine ⟨reordered.nodup_iff.mpr (apart.of_map.filter _), fun log stands => ?_⟩
  have among : log ∈ batch ↔ log ∈ batch.filter fun log => !log.removed := by
    simp [stands]
  rw [among, reordered.mem_iff, List.mem_filter, stands, Bool.not_false, Bool.true_and,
    Option.any_eq_true]
  constructor
  · rintro ⟨mem, p, position, within⟩
    exact ⟨p, ⟨mem, stands, position⟩, of_decide_eq_true within⟩
  · rintro ⟨p, at', within⟩
    exact ⟨at'.has, p, at'.position, decide_eq_true within⟩

def plainLog (contract block index : Nat) : Log :=
  ⟨.ofNat contract, [], [], some block, some index, false⟩

def fourLogs : List Log := [plainLog 1 3 1, plainLog 2 4 0, plainLog 3 6 0, plainLog 4 6 2]

def twoAnswers : List (Reply (List Log)) :=
  [.value [plainLog 2 4 0, { plainLog 4 3 1 with removed := true }, plainLog 1 3 1],
    .value [plainLog 4 6 2, plainLog 3 6 0]]

def threeBlocks : FollowPlan := ⟨⟨.ofNat 1, .ofNat 2, .ofNat 3, .ofNat 4⟩, 1, 3⟩

def fourHeads : List (Reply Nat) := [.value 1, .value 6, .value 9, .value 0]

def plainUpdate (contract block index : Nat) : Update :=
  ⟨some (.unknown (.ofNat contract) none), block, index⟩

private theorem rangeUpdates_first : rangeUpdates threeBlocks.contracts ⟨2, 7⟩ ⟨2, 4⟩
    [plainLog 2 4 0, { plainLog 4 3 1 with removed := true }, plainLog 1 3 1] =
      .ok [plainUpdate 1 3 1, plainUpdate 2 4 0, .absent 4] := by
  cbv

private theorem rangeUpdates_second : rangeUpdates threeBlocks.contracts ⟨4 + 1, 0⟩ ⟨5, 7⟩
    [plainLog 4 6 2, plainLog 3 6 0] =
      .ok [plainUpdate 3 6 0, plainUpdate 4 6 2, .absent 7] := by
  cbv

private theorem follow_twoAnswers : follow threeBlocks ⟨2, 7⟩ fourHeads twoAnswers =
    [.did (.request .head), .did (.finalizedHead 0), .rest, .did (.request .head),
      .did (.finalizedHead 5), .did (.request (logsRequest threeBlocks.contracts ⟨2, 4⟩)),
      .did (.logBatch true 3 3), .deliver (plainUpdate 1 3 1), .deliver (plainUpdate 2 4 0),
      .deliver (.absent 4), .did (.request .head), .did (.finalizedHead 8),
      .did (.request (logsRequest threeBlocks.contracts ⟨5, 7⟩)), .did (.logBatch true 3 2),
      .deliver (plainUpdate 3 6 0), .deliver (plainUpdate 4 6 2)] ++
    .deliver (.absent 7) :: [.did (.request .head), .rest] := by
  have early : nextRange? 2 (finalized? 1 threeBlocks.finalityOffset) threeBlocks.maxBlocks =
    none := rfl
  have first : nextRange? 2 (finalized? 6 threeBlocks.finalityOffset) threeBlocks.maxBlocks =
    some ⟨2, 4⟩ := rfl
  have second : nextRange? (4 + 1) (finalized? 9 threeBlocks.finalityOffset)
    threeBlocks.maxBlocks = some ⟨5, 7⟩ := rfl
  have lost : nextRange? (7 + 1) (finalized? 0 threeBlocks.finalityOffset)
    threeBlocks.maxBlocks = none := rfl
  simp only [follow, twoAnswers, fourHeads, early, first, second, lost, List.headD_cons,
    List.tail_cons, rangeUpdates_first, rangeUpdates_second]
  rfl

/-- Two ranges are fetched once the chain is long enough for them, their logs come out of order, and
then the chain is seen to be shorter. -/
theorem follow_delivers_two_ranges : ∃ pre post,
    follow threeBlocks ⟨2, 7⟩ fourHeads twoAnswers = pre ++ .deliver (.absent 7) :: post ∧
    occurrences (deliveries pre) =
      [plainUpdate 1 3 1, plainUpdate 2 4 0, plainUpdate 3 6 0, plainUpdate 4 6 2] ∧
    Chronicle threeBlocks.contracts (.listed fourLogs (by decide) (by decide)) ⟨2, 7⟩ ⟨8, 0⟩
      (occurrences (deliveries pre)) := by
  have split := follow_twoAnswers
  have bounded : Bounded fourHeads := by
    intro head mem
    simp only [fourHeads, List.mem_cons, List.not_mem_nil, or_false, Reply.value.injEq] at mem
    rcases mem with rfl | rfl | rfl | rfl <;> decide
  have honest : Honest (.listed fourLogs (by decide) (by decide))
      (follow threeBlocks ⟨2, 7⟩ fourHeads twoAnswers) twoAnswers := by
    rw [split]
    intro i range batch asked answer
    rcases i with _ | _ | i
    · cases asked
      cases answer
      exact LogSet.listed_answers (by decide)
    · cases asked
      cases answer
      exact LogSet.listed_answers (by decide)
    · cases asked
  refine ⟨_, _, split, rfl, ?_⟩
  exact ((follow_delivers_chronicle threeBlocks ⟨2, 7⟩ fourHeads _ _ bounded honest).1 _ _ _ split
    rfl).1

end DecryptorNode.Chain
