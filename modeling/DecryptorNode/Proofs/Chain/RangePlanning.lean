import Mathlib.Algebra.Order.Floor.Div
import DecryptorNode.Proofs.Chain.FollowDeliveries

/-! How a follower divides the final blocks into ranges. While the head stands still it fetches
each block once and then waits; when the head moves, each range goes on where the one before ended.
No number leaves 64 bits on the way. -/
namespace DecryptorNode.Chain

def BlockRange.blocks (r : BlockRange) : List Nat := List.range' r.first r.size

/-- The block to go on with once some ranges were fetched. -/
def nextBlock (start : Nat) (ranges : List BlockRange) : Nat :=
  ranges.getLast?.elim start fun range => range.last + 1

private theorem nextBlock_cons {start : Nat} {range : BlockRange} {ranges : List BlockRange} :
    nextBlock start (range :: ranges) = nextBlock (range.last + 1) ranges := by
  cases ranges with
  | nil => rfl
  | cons r ranges =>
    unfold nextBlock
    rw [List.getLast?_cons_cons, List.getLast?_eq_some_getLast (List.cons_ne_nil r ranges)]
    rfl

section Words

def checkedAdd (a b : Nat) : Option Nat :=
  if a + b ≤ maxWord then some (a + b) else none

def checkedSub (a b : Nat) : Option Nat :=
  if b ≤ a then some (a - b) else none

/-- The sums of one round on numbers of 64 bits: the last block to fetch, how many blocks these are,
and the block to go on with. There are none if a number leaves 64 bits. -/
def checkedRound (block final maxBlocks : Nat) : Option (Nat × Nat × Nat) := do
  let more ← checkedSub maxBlocks 1
  let last := min (saturatingAdd block more) final
  let apart ← checkedSub last block
  let size ← checkedAdd apart 1
  let next ← checkedAdd last 1
  return (last, size, next)

end Words

/-- A range that is planned from a block on while the finalized head is known. -/
structure Planned (block final maxBlocks : Nat) (range : BlockRange) : Prop where
  first : range.first = block
  nonempty : range.first ≤ range.last
  bounded : range.last ≤ final
  narrow : range.size ≤ maxBlocks
  full : range.last = final ∨ range.size = maxBlocks
  checked : checkedRound block final maxBlocks = some (range.last, range.size, range.last + 1)

section Plan
variable {block final maxBlocks : Nat} {range : BlockRange}

private theorem nextRange?_eq_none (passed : final < block) :
    nextRange? block (some final) maxBlocks = none :=
  if_pos passed

private theorem min_saturatingAdd (small : final < maxWord) (a b : Nat) :
    min (saturatingAdd a b) final = min (a + b) final := by
  unfold saturatingAdd
  omega

private theorem checkedRound_eq (positive : 1 ≤ maxBlocks) (small : final < maxWord)
    (reached : block ≤ final) : checkedRound block final maxBlocks =
      (let last := min (block + (maxBlocks - 1)) final
      some (last, last - block + 1, last + 1)) := by
  simp only [checkedRound, checkedSub, checkedAdd, if_pos positive, min_saturatingAdd small,
    Option.bind_eq_bind, Option.bind_some]
  have above : block ≤ min (block + (maxBlocks - 1)) final := by omega
  have spanned : min (block + (maxBlocks - 1)) final - block + 1 ≤ maxWord := by omega
  have moved : min (block + (maxBlocks - 1)) final + 1 ≤ maxWord := by omega
  rw [if_pos above, Option.bind_some, if_pos spanned, Option.bind_some, if_pos moved]
  rfl

theorem planned_of_nextRange? (positive : 1 ≤ maxBlocks) (small : final < maxWord)
    (h : nextRange? block (some final) maxBlocks = some range) :
    Planned block final maxBlocks range := by
  obtain ⟨passed, h⟩ := Option.ite_none_left_eq_some.mp h
  have reached := Nat.not_lt.mp passed
  rw [min_saturatingAdd small] at h
  cases h
  constructor
  case first => rfl
  case checked => exact checkedRound_eq positive small reached
  all_goals
    dsimp only [BlockRange.size]
    omega

private theorem exists_nextRange? (reached : block ≤ final) :
    ∃ range, nextRange? block (some final) maxBlocks = some range :=
  ⟨_, if_neg (Nat.not_lt.mpr reached)⟩

/-- A range takes one off the number of ranges that are left. -/
private theorem Planned.ceilDiv (h : Planned block final maxBlocks range)
    (positive : 1 ≤ maxBlocks) : (final + 1 - block) ⌈/⌉ maxBlocks =
      (final + 1 - (range.last + 1)) ⌈/⌉ maxBlocks + 1 := by
  obtain ⟨rfl, nonempty, bounded, narrow, full, -⟩ := h
  unfold BlockRange.size at narrow full
  rw [Nat.ceilDiv_eq_add_pred_div, Nat.ceilDiv_eq_add_pred_div]
  rcases full with last | size
  · have left : final + 1 - (range.last + 1) = 0 := by omega
    have one : final + 1 - range.first + maxBlocks - 1 =
        final - range.first + 1 * maxBlocks := by omega
    have none : (final - range.first) / maxBlocks = 0 := Nat.div_eq_of_lt (by omega)
    have rest : (0 + maxBlocks - 1) / maxBlocks = 0 := Nat.div_eq_of_lt (by omega)
    rw [left, one, Nat.add_mul_div_right _ _ positive, none, rest]
  · have wide : final + 1 - range.first + maxBlocks - 1 =
        final + 1 - (range.last + 1) + maxBlocks - 1 + maxBlocks := by omega
    rw [wide, Nat.add_div_right _ positive]

private theorem Planned.blocks_append (h : Planned block final maxBlocks range) :
    range.blocks ++ List.range' (range.last + 1) (final + 1 - (range.last + 1)) =
      List.range' block (final + 1 - block) := by
  obtain ⟨rfl, nonempty, bounded, -, -, -⟩ := h
  have next : range.last + 1 = range.first + range.size := by
    unfold BlockRange.size
    omega
  have all : final + 1 - range.first = range.size + (final + 1 - (range.last + 1)) := by
    unfold BlockRange.size
    omega
  rw [all, ← List.range'_append_1, ← next]
  rfl

private theorem ceilDiv_eq_zero_iff (positive : 1 ≤ maxBlocks) :
    (final + 1 - block) ⌈/⌉ maxBlocks = 0 ↔ final < block := by
  rw [Nat.ceilDiv_eq_add_pred_div, Nat.div_eq_zero_iff]
  omega

end Plan

section Rounds

def idleRound (final : Nat) : List Signal :=
  [.did (.request .head), .did (.finalizedHead final), .rest]

def fetchRound (plan : FollowPlan) (final : Nat) (range : BlockRange) (batch : List Log)
    (us : List Update) : List Signal :=
  [.did (.request .head), .did (.finalizedHead final),
    .did (.request (logsRequest plan.contracts range)),
    .did (.logBatch true range.size batch.length)] ++
  (us ++ [Update.absent range.last]).map .deliver

variable {plan : FollowPlan} {cursor : Cursor} {head final : Nat} {heads : List (Reply Nat)}
  {logs : List (Reply (List Log))}

private theorem follow_idle (told : finalized? head plan.finalityOffset = some final)
    (passed : final < cursor.block) : follow plan cursor (.value head :: heads) logs =
      idleRound final ++ follow plan cursor heads logs := by
  simp only [follow, told, nextRange?_eq_none passed]
  rfl

private theorem follow_fetch {range : BlockRange} {batch : List Log} {us : List Update}
    (told : finalized? head plan.finalityOffset = some final)
    (planned : nextRange? cursor.block (some final) plan.maxBlocks = some range)
    (answer : logs.getD 0 (.value []) = .value batch)
    (ordered : orderUpdates plan.contracts batch cursor = .ok us) :
    follow plan cursor (.value head :: heads) logs =
      fetchRound plan final range batch us ++ follow plan ⟨range.last + 1, 0⟩ heads logs.tail := by
  have items : rangeUpdates plan.contracts cursor range batch =
      .ok (us ++ [Update.absent range.last]) := by
    unfold rangeUpdates
    rw [ordered]
    rfl
  rw [← List.headD_eq_getD] at answer
  simp only [follow, told, planned, answer, items]
  rfl

private theorem orderUpdates_nil {contracts : WatchedContracts} :
    orderUpdates contracts [] cursor = .ok [] := by
  simp only [orderUpdates, List.mapM_nil, List.filterMap_nil, List.mergeSort_nil, pure_bind]
  rfl

private theorem fetched_fetchRound {range : BlockRange} {batch : List Log} {us : List Update} :
    fetched (fetchRound plan final range batch us) = [range] := by
  unfold fetchRound
  rw [fetched_append, fetched_map_deliver]
  rfl

private theorem rest_not_mem_fetchRound {range : BlockRange} {batch : List Log} {us : List Update} :
    Signal.rest ∉ fetchRound plan final range batch us := by
  simp [fetchRound]

private theorem follow_idles (told : finalized? head plan.finalityOffset = some final)
    (passed : final < cursor.block) (rounds : Nat) :
    follow plan cursor (List.replicate rounds (.value head)) logs =
      (List.replicate rounds (idleRound final)).flatten := by
  induction rounds with
  | zero => rfl
  | succ rounds ih =>
    rw [List.replicate_succ, follow_idle told passed, ih, List.replicate_succ, List.flatten_cons]

/-- The cursor of the fetch with a number, as long as all before it were of the greatest size. -/
def fetchCursor (start : Cursor) (maxBlocks : Nat) : Nat → Cursor
  | 0 => start
  | k + 1 => ⟨start.block + (k + 1) * maxBlocks, 0⟩

/-- The first answers for logs are batches that decode. -/
def Served (plan : FollowPlan) (start : Cursor) (logs : List (Reply (List Log)))
    (count : Nat) : Prop :=
  ∀ k < count, ∃ batch us, logs.getD k (.value []) = .value batch ∧
    orderUpdates plan.contracts batch (fetchCursor start plan.maxBlocks k) = .ok us

private theorem Served.tail {start : Cursor} {count : Nat}
    (h : Served plan start logs (count + 1)) :
    Served plan ⟨start.block + plan.maxBlocks, 0⟩ logs.tail count := by
  intro k before
  obtain ⟨batch, us, answer, ordered⟩ := h (k + 1) (Nat.succ_lt_succ before)
  refine ⟨batch, us, ?_, ?_⟩
  · simpa only [List.getD_eq_getElem?_getD, List.getElem?_tail] using answer
  · have same : fetchCursor ⟨start.block + plan.maxBlocks, 0⟩ plan.maxBlocks k =
        fetchCursor start plan.maxBlocks (k + 1) := by
      cases k with
      | zero => simp [fetchCursor]
      | succ k =>
        simp only [fetchCursor, Cursor.mk.injEq, and_true]
        rw [Nat.succ_mul (k + 1), Nat.add_assoc, Nat.add_comm plan.maxBlocks]
    rw [same]
    exact ordered

/-- While the head stands still the final blocks are fetched, each once, and then the follower
waits. -/
theorem follow_standing (positive : 1 ≤ plan.maxBlocks)
    (told : finalized? head plan.finalityOffset = some final) (small : final < maxWord)
    (extra : Nat) : ∀ {count : Nat} {start : Cursor} {logs : List (Reply (List Log))},
      (final + 1 - start.block) ⌈/⌉ plan.maxBlocks = count → Served plan start logs count →
      ∃ busy, follow plan start (List.replicate (count + extra) (.value head)) logs =
          busy ++ (List.replicate extra (idleRound final)).flatten ∧
        .rest ∉ busy ∧ (fetched busy).length = count ∧
        (∀ range ∈ fetched busy, Planned range.first final plan.maxBlocks range) ∧
        (fetched busy).flatMap BlockRange.blocks =
          List.range' start.block (final + 1 - start.block) := by
  intro count
  induction count with
  | zero =>
    intro start logs left _
    have passed := (ceilDiv_eq_zero_iff positive).mp left
    refine ⟨[], ?_, List.not_mem_nil, rfl, nofun, ?_⟩
    · rw [Nat.zero_add, follow_idles told passed]
      rfl
    · rw [Nat.sub_eq_zero_of_le passed]
      rfl
  | succ count ih =>
    intro start logs left served
    have reached : start.block ≤ final := by
      by_contra passed
      rw [(ceilDiv_eq_zero_iff positive).mpr (Nat.not_le.mp passed)] at left
      cases left
    obtain ⟨range, next⟩ :
        ∃ range, nextRange? start.block (some final) plan.maxBlocks = some range :=
      exists_nextRange? reached
    have planned := planned_of_nextRange? positive small next
    obtain ⟨batch, us, answer, ordered⟩ := served 0 (Nat.succ_pos count)
    have fewer := Nat.succ.inj ((planned.ceilDiv positive).symm.trans left)
    have later : Served plan ⟨range.last + 1, 0⟩ logs.tail count := by
      -- only the last range can be narrower, and after it nothing is fetched
      rcases planned.full with last | size
      · have none : count = 0 := by
          rw [← fewer, ceilDiv_eq_zero_iff positive, last]
          exact Nat.lt_succ_self final
        rw [none]
        exact fun k before => absurd before (Nat.not_lt_zero k)
      · have next : range.last + 1 = start.block + plan.maxBlocks := by
          have nonempty := planned.nonempty
          rw [← planned.first, ← size, BlockRange.size]
          omega
        rw [next]
        exact served.tail
    obtain ⟨busy, follows, busily, counted, each, covered⟩ := ih fewer later
    refine ⟨fetchRound plan final range batch us ++ busy, ?_, ?_, ?_, ?_, ?_⟩
    · rw [Nat.succ_add, List.replicate_succ, follow_fetch told next answer ordered, follows,
        List.append_assoc]
    · rw [List.mem_append]
      exact not_or.mpr ⟨rest_not_mem_fetchRound, busily⟩
    · rw [fetched_append, fetched_fetchRound, List.singleton_append, List.length_cons, counted]
    · rw [fetched_append, fetched_fetchRound, List.singleton_append]
      exact List.forall_mem_cons.mpr ⟨planned.first.symm ▸ planned, each⟩
    · rw [fetched_append, fetched_fetchRound, List.singleton_append, List.flatMap_cons, covered]
      exact planned.blocks_append

/-- The finalized heads fit 64 bits and are not the last number that does. -/
def FinalsBounded (plan : FollowPlan) (heads : List (Reply Nat)) : Prop :=
  ∀ head final, .value head ∈ heads → finalized? head plan.finalityOffset = some final →
    final < maxWord

/-- A range is fetched right after a head was told. It is planned from there on where the range
before ended. -/
def Grounded (plan : FollowPlan) (start : Nat) (heads : List (Reply Nat)) (before : List Signal)
    (range : BlockRange) : Prop :=
  ∃ earlier head final,
    before = earlier ++ [.did (.request .head), .did (.finalizedHead final)] ∧
    heads[headsAsked earlier]? = some (.value head) ∧
    finalized? head plan.finalityOffset = some final ∧
    Planned (nextBlock start (fetched before)) final plan.maxBlocks range

private theorem Grounded.later {start start' : Nat} {reply : Reply Nat} {lead before : List Signal}
    {range : BlockRange} (h : Grounded plan start' heads before range)
    (once : headsAsked lead = 1)
    (next : nextBlock start (fetched (lead ++ before)) = nextBlock start' (fetched before)) :
    Grounded plan start (reply :: heads) (lead ++ before) range := by
  obtain ⟨earlier, head, final, rfl, read, told, planned⟩ := h
  refine ⟨lead ++ earlier, head, final, (List.append_assoc _ _ _).symm, ?_, told, next ▸ planned⟩
  rw [headsAsked_append, once, Nat.add_comm, List.getElem?_cons_succ]
  exact read

/-- Whatever heads are told, each range goes on where the one before ended and stays within what
is final at the head that was told last. -/
theorem grounded_of_follow {start : Cursor} (positive : 1 ≤ plan.maxBlocks)
    (small : FinalsBounded plan heads)
    {pre post : List Signal} {range : BlockRange}
    (split : follow plan start heads logs =
      pre ++ .did (.request (logsRequest plan.contracts range)) :: post) :
    Grounded plan start.block heads pre range := by
  induction heads generalizing start logs pre with
  | nil => cases pre <;> cases split
  | cons reply heads ih =>
    have asked : fetched (follow plan start (reply :: heads) logs) ≠ [] := by
      intro none
      refine not_mem_of_unfetched none plan.contracts range ?_
      rw [split]
      exact List.mem_append_right _ List.mem_cons_self
    have smaller : FinalsBounded plan heads :=
      fun head final mem => small head final (List.mem_cons_of_mem _ mem)
    cases reply with
    | failed e => exact absurd rfl asked
    | silent => exact absurd rfl asked
    | value head =>
      rcases follow_round plan start head heads logs with ⟨lead, quiet, whole⟩ |
        ⟨final, range', answer, told, next, whole, rest⟩
      · rw [whole] at split
        obtain ⟨pre', rfl, later⟩ :=
          split_of_not_mem (not_mem_of_unfetched quiet.ranges _ _) split
        refine (ih smaller later).later quiet.once ?_
        rw [fetched_append, quiet.ranges]
        rfl
      · have planned := planned_of_nextRange? positive
          (small head final List.mem_cons_self told) next
        rw [whole] at split
        obtain ⟨pre', rfl, here⟩ := split_of_not_mem (not_mem_of_unfetched rfl _ _) split
        cases pre' with
        | nil =>
          have same : range' = range :=
            Option.some.inj (congrArg Signal.range? (List.cons.inj here).1)
          rw [← same]
          exact ⟨[], head, final, rfl, rfl, told, planned⟩
        | cons s pre' =>
          obtain ⟨rfl, behind⟩ := List.cons.inj here
          rcases rest with ⟨none, -⟩ | ⟨batch, us, -, -, rfl⟩
          · rw [behind] at none
            exact absurd (List.mem_append_right _ List.mem_cons_self)
              (not_mem_of_unfetched none plan.contracts range)
          · let opening : List Signal := [.did (.request .head), .did (.finalizedHead final),
              .did (.request (logsRequest plan.contracts range'))]
            let quiet : List Signal :=
              .did (.logBatch true range'.size batch.length) :: us.map .deliver
            have unfetched : fetched quiet = [] := fetched_map_deliver
            obtain ⟨pre'', rfl, later⟩ : ∃ pre'', pre' = quiet ++ pre'' ∧ _ :=
              split_of_not_mem (not_mem_of_unfetched unfetched _ _) behind
            have one : fetched (opening ++ quiet) = [range'] := by
              rw [fetched_append, unfetched]
              rfl
            have once : headsAsked (opening ++ quiet) = 1 := by
              rw [headsAsked_append]
              exact congrArg (1 + ·) headsAsked_map_deliver
            refine (ih smaller later).later once ?_
            rw [fetched_append, one]
            exact nextBlock_cons

end Rounds

/-- While the finalized head stands still, a follower whose requests are served waits after
exactly as many fetches as it takes, and has fetched each block from its first one on to the head
once. However the head moves and whatever requests fail, each range goes on where the one before
ended, is not empty, is no wider than allowed, does not pass the head just read, and is worked out
within 64 bits. -/
theorem ranges_cover_final_blocks (plan : FollowPlan) (start : Cursor)
    (positive : 1 ≤ plan.maxBlocks) :
    (∀ head final logs extra, finalized? head plan.finalityOffset = some final →
      final < maxWord →
      let count := (final + 1 - start.block) ⌈/⌉ plan.maxBlocks
      Served plan start logs count →
      ∃ busy, follow plan start (List.replicate (count + extra) (.value head)) logs =
          busy ++ (List.replicate extra (idleRound final)).flatten ∧
        .rest ∉ busy ∧ (fetched busy).length = count ∧
        (∀ range ∈ fetched busy, Planned range.first final plan.maxBlocks range) ∧
        (fetched busy).flatMap BlockRange.blocks =
          List.range' start.block (final + 1 - start.block)) ∧
    ∀ heads logs, FinalsBounded plan heads → ∀ before range after,
      follow plan start heads logs =
        before ++ .did (.request (logsRequest plan.contracts range)) :: after →
      Grounded plan start.block heads before range := by
  constructor
  · intro head final logs extra told small
    exact follow_standing positive told small extra rfl
  · intro heads logs small before range after split
    exact grounded_of_follow positive small split

/-- A last range where the block and the greatest width together pass 64 bits. -/
theorem ranges_cover_final_blocks_top :
    let plan : FollowPlan := ⟨⟨⟨1⟩, ⟨2⟩, ⟨3⟩, ⟨4⟩⟩, 1, maxWord⟩
    let start : Cursor := ⟨maxWord - 9, 3⟩
    (∃ busy, follow plan start (List.replicate 3 (.value maxWord)) [] =
        busy ++ (List.replicate 2 (idleRound (maxWord - 1))).flatten ∧
      .rest ∉ busy ∧ (fetched busy).length = 1 ∧
      (∀ range ∈ fetched busy, Planned range.first (maxWord - 1) maxWord range) ∧
      (fetched busy).flatMap BlockRange.blocks = List.range' (maxWord - 9) 9) ∧
    Grounded plan (maxWord - 9) [.value maxWord]
      [.did (.request .head), .did (.finalizedHead (maxWord - 1))]
      ⟨maxWord - 9, maxWord - 1⟩ := by
  intro plan start
  have told : finalized? maxWord plan.finalityOffset = some (maxWord - 1) := by decide
  have left : maxWord - 1 + 1 - start.block = 9 := by decide
  have once : 9 ⌈/⌉ plan.maxBlocks = 1 := by decide +kernel
  have served : Served plan start [] 1 := by
    intro k before
    cases Nat.lt_one_iff.mp before
    exact ⟨[], [], rfl, orderUpdates_nil⟩
  obtain ⟨standing, moving⟩ := ranges_cover_final_blocks plan start (by decide)
  have covered := standing maxWord (maxWord - 1) [] 2 told (by decide)
  simp only [left, once] at covered
  have whole : follow plan start [.value maxWord] [] =
      fetchRound plan (maxWord - 1) ⟨maxWord - 9, maxWord - 1⟩ [] [] ++ [] :=
    follow_fetch told (by decide) rfl orderUpdates_nil
  refine ⟨covered served, moving [.value maxWord] [] ?_ _ _ _ whole⟩
  intro head final mem finalized
  cases List.mem_singleton.mp mem
  cases told.symm.trans finalized
  decide

end DecryptorNode.Chain
