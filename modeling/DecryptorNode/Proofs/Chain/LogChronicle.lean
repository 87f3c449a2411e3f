import DecryptorNode.Chain.Batch
import DecryptorNode.Chain.Range

/-! The events of a set of logs between two positions, and streams of items that tell them one
after the other. Between two positions there is one such list of events and no other. -/
namespace DecryptorNode.Chain

namespace Cursor

instance : LT Cursor := ⟨fun a b => a.before b = true⟩

instance : LE Cursor := ⟨fun a b => ¬ b < a⟩

private theorem lt_iff {a b : Cursor} :
    a < b ↔ a.block < b.block ∨ a.block = b.block ∧ a.index < b.index := by
  change a.before b = true ↔ _
  simp only [before, Bool.or_eq_true, Bool.and_eq_true, decide_eq_true_eq, beq_iff_eq]

theorem le_iff {a b : Cursor} :
    a ≤ b ↔ a.block < b.block ∨ a.block = b.block ∧ a.index ≤ b.index := by
  change ¬ b < a ↔ _
  rw [lt_iff]
  omega

theorem start_le (a : Cursor) : start ≤ a := by
  rw [le_iff]
  change 0 < a.block ∨ 0 = a.block ∧ 0 ≤ a.index
  omega

theorem le_refl (a : Cursor) : a ≤ a := le_iff.mpr (.inr ⟨rfl, Nat.le_refl _⟩)

theorem le_trans {a b c : Cursor} (h : a ≤ b) (h' : b ≤ c) : a ≤ c := by
  rw [le_iff] at *
  omega

theorem lt_of_lt_of_le {a b c : Cursor} (h : a < b) (h' : b ≤ c) : a < c := by
  rw [lt_iff] at *
  rw [le_iff] at h'
  omega

private theorem lt_of_le_of_lt {a b c : Cursor} (h : a ≤ b) (h' : b < c) : a < c := by
  rw [lt_iff] at *
  rw [le_iff] at h
  omega

theorem le_of_lt {a b : Cursor} (h : a < b) : a ≤ b := by
  rw [lt_iff] at h
  rw [le_iff]
  omega

theorem lt_of_le_of_ne {a b : Cursor} (h : a ≤ b) (different : a ≠ b) : a < b := by
  obtain ⟨block, index⟩ := a
  obtain ⟨block', index'⟩ := b
  rw [ne_eq, mk.injEq] at different
  rw [le_iff] at h
  rw [lt_iff]
  dsimp only at *
  omega

theorem le_antisymm {a b : Cursor} (h : a ≤ b) (h' : b ≤ a) : a = b := by
  obtain ⟨block, index⟩ := a
  obtain ⟨block', index'⟩ := b
  rw [le_iff] at h h'
  rw [mk.injEq]
  dsimp only at *
  omega

theorem lt_irrefl (a : Cursor) : ¬ a < a := le_refl a

private theorem lt_or_le (a b : Cursor) : a < b ∨ b ≤ a := Decidable.em (a.before b = true)

theorem le_total (a b : Cursor) : a ≤ b ∨ b ≤ a := (lt_or_le a b).imp le_of_lt id

/-- The positions before the start of the block after a block are those up to the block. -/
theorem lt_nextBlock_iff {p : Cursor} {block : Nat} : p < ⟨block + 1, 0⟩ ↔ p.block ≤ block := by
  rw [lt_iff]
  dsimp only
  omega

theorem lt_nextIndex_iff {p q : Cursor} : p < ⟨q.block, q.index + 1⟩ ↔ p ≤ q := by
  rw [lt_iff, le_iff]
  dsimp only
  omega

theorem nextIndex_le_iff {p q : Cursor} : ⟨q.block, q.index + 1⟩ ≤ p ↔ q < p := by
  rw [lt_iff, le_iff]
  dsimp only
  omega

end Cursor

def Log.position? (log : Log) : Option Cursor :=
  match log.block, log.index with
  | some block, some index => some ⟨block, index⟩
  | _, _ => none

theorem Log.update_eq_ok {contracts : WatchedContracts} {log : Log} {p : Cursor} {u : Update} :
    log.update contracts p = .ok u ↔
      ∃ event, log.event contracts = .ok event ∧ u = ⟨some event, p.block, p.index⟩ := by
  unfold update
  cases log.event contracts with
  | error e => exact ⟨fun h => (by cases h), fun ⟨_, h, _⟩ => by cases h⟩
  | ok event =>
    constructor
    · intro h
      cases h
      exact ⟨event, rfl, rfl⟩
    · rintro ⟨_, same, rfl⟩
      cases same
      rfl

theorem Log.position_of_update {contracts : WatchedContracts} {log : Log} {p : Cursor}
    {u : Update} (h : log.update contracts p = .ok u) : u.position = p := by
  obtain ⟨event, -, rfl⟩ := update_eq_ok.mp h
  rfl

/-- Logs of which each has a position and no two have the same. Some may have been removed. -/
structure LogSet where
  Has : Log → Prop
  placed : ∀ log, Has log → ∃ p, log.position? = some p
  distinct : ∀ a b, Has a → Has b → a.position? = b.position? → a = b

namespace LogSet

/-- The log at a position, unless it was removed. -/
structure At (L : LogSet) (p : Cursor) (log : Log) : Prop where
  has : L.Has log
  stands : log.removed = false
  position : log.position? = some p

/-- Apart from removed logs a batch has exactly the logs of the blocks of a range, in any order. -/
def Answers (L : LogSet) (range : BlockRange) (batch : List Log) : Prop :=
  (batch.filter fun log => !log.removed).Nodup ∧
    ∀ log, log.removed = false →
      (log ∈ batch ↔ ∃ p, L.At p log ∧ range.first ≤ p.block ∧ p.block ≤ range.last)

end LogSet

/-- The events of the logs from one position up to another, each once and by position. -/
structure Chronicle (contracts : WatchedContracts) (L : LogSet) (a b : Cursor)
    (us : List Update) : Prop where
  ordered : us.Pairwise fun u v => u.position < v.position
  sound : ∀ u ∈ us, ∃ log, L.At u.position log ∧ log.update contracts u.position = .ok u ∧
    a ≤ u.position ∧ u.position < b
  complete : ∀ p log, L.At p log → a ≤ p → p < b → ∃ u ∈ us, log.update contracts p = .ok u

namespace Chronicle
variable {contracts : WatchedContracts} {L : LogSet} {a b c : Cursor} {us vs : List Update}

theorem nil : Chronicle contracts L a a [] where
  ordered := .nil
  sound u h := by cases h
  complete p log _ low high := absurd (Cursor.lt_of_le_of_lt low high) (Cursor.lt_irrefl a)

theorem append (first : Chronicle contracts L a b us) (second : Chronicle contracts L b c vs)
    (hab : a ≤ b) (hbc : b ≤ c) : Chronicle contracts L a c (us ++ vs) where
  ordered := by
    refine List.pairwise_append.mpr ⟨first.ordered, second.ordered, fun u hu v hv => ?_⟩
    obtain ⟨-, -, -, -, high⟩ := first.sound u hu
    obtain ⟨-, -, -, low, -⟩ := second.sound v hv
    exact Cursor.lt_of_lt_of_le high low
  sound u h := by
    rcases List.mem_append.mp h with h | h
    · obtain ⟨log, at', told, low, high⟩ := first.sound u h
      exact ⟨log, at', told, low, Cursor.lt_of_lt_of_le high hbc⟩
    · obtain ⟨log, at', told, low, high⟩ := second.sound u h
      exact ⟨log, at', told, Cursor.le_trans hab low, high⟩
  complete p log at' low high := by
    rcases Cursor.lt_or_le p b with early | late
    · obtain ⟨u, h, told⟩ := first.complete p log at' low early
      exact ⟨u, List.mem_append_left vs h, told⟩
    · obtain ⟨u, h, told⟩ := second.complete p log at' late high
      exact ⟨u, List.mem_append_right us h, told⟩

/-- What happens from one position up to another is only told in one way. -/
theorem unique (h : Chronicle contracts L a b us) (h' : Chronicle contracts L a b vs) :
    us = vs := by
  have nodup {ws : List Update} (hw : Chronicle contracts L a b ws) : ws.Nodup :=
    hw.ordered.imp fun {u v} (early : u.position < v.position) (same : u = v) =>
      Cursor.lt_irrefl v.position (same ▸ early)
  have sub {ws xs : List Update} (hw : Chronicle contracts L a b ws)
      (hx : Chronicle contracts L a b xs) : ∀ u ∈ ws, u ∈ xs := by
    intro u hu
    obtain ⟨log, at', told, low, high⟩ := hw.sound u hu
    obtain ⟨v, hv, told'⟩ := hx.complete u.position log at' low high
    rw [told] at told'
    cases told'
    exact hv
  have perm : us.Perm vs :=
    (List.perm_ext_iff_of_nodup (nodup h) (nodup h')).mpr fun u => ⟨sub h h' u, sub h' h u⟩
  refine perm.eq_of_pairwise (fun u v _ _ early late => ?_) h.ordered h'.ordered
  exact absurd (Cursor.lt_of_lt_of_le early (Cursor.le_of_lt late)) (Cursor.lt_irrefl _)

/-- The part of a chronicle from a position on. -/
theorem since (h : Chronicle contracts L a c us) (hab : a ≤ b) :
    Chronicle contracts L b c (us.filter fun u => !u.position.before b) where
  ordered := h.ordered.filter _
  sound u hu := by
    obtain ⟨hu, late⟩ := List.mem_filter.mp hu
    obtain ⟨log, at', told, -, high⟩ := h.sound u hu
    refine ⟨log, at', told, ?_, high⟩
    change ¬ u.position.before b = true
    simpa using late
  complete p log at' low high := by
    obtain ⟨u, hu, told⟩ := h.complete p log at' (Cursor.le_trans hab low) high
    refine ⟨u, List.mem_filter.mpr ⟨hu, ?_⟩, told⟩
    rw [Log.position_of_update told]
    simpa using show ¬ p.before b = true from low

/-- Of two chronicles from one position the one that ends earlier is the beginning of the other. -/
theorem isPrefix (h : Chronicle contracts L a b us) (h' : Chronicle contracts L a c vs)
    (hab : a ≤ b) (hbc : b ≤ c) : us <+: vs := by
  have whole := h.append (h'.since hab) hab hbc
  exact ⟨_, whole.unique h'⟩

end Chronicle

namespace Update

/-- The position after the item, of any size. -/
def after (u : Update) : Cursor :=
  match u.event with
  | some _ => ⟨u.block, u.index + 1⟩
  | none => ⟨u.block + 1, 0⟩

theorem after_of_nextCursor? {u : Update} {c : Cursor} (h : u.nextCursor? = some c) :
    u.after = c := by
  obtain ⟨event, block, index⟩ := u
  cases event <;> exact Option.some.inj (Option.ite_none_right_eq_some.mp h).2

private theorem block_le_of_lt_after {u : Update} {c : Cursor} (h : c < u.after) :
    c.block ≤ u.block := by
  rw [Cursor.lt_iff] at h
  unfold after at h
  split at h <;> dsimp only at h <;> omega

theorem block_le_of_after_le {u : Update} {block : Nat} (h : u.after ≤ ⟨block + 1, 0⟩) :
    u.block ≤ block := by
  rw [Cursor.le_iff] at h
  unfold after at h
  split at h <;> dsimp only at h <;> omega

end Update

def occurrences (us : List Update) : List Update := us.filter fun u => u.event.isSome

def reached (c : Cursor) (us : List Update) : Cursor := us.foldl (fun _ u => u.after) c

/-- An item that can come next at a position: it tells all that happens up to the position after
it. -/
structure Follows (contracts : WatchedContracts) (L : LogSet) (c : Cursor) (u : Update) :
    Prop where
  moves : c < u.after
  tells : Chronicle contracts L c u.after (occurrences [u])

/-- Items that can come one after the other from a position on. -/
def Stream (contracts : WatchedContracts) (L : LogSet) : Cursor → List Update → Prop
  | _, [] => True
  | c, u :: rest => Follows contracts L c u ∧ Stream contracts L u.after rest

namespace Stream
variable {contracts : WatchedContracts} {L : LogSet} {c : Cursor} {us vs : List Update}

theorem append_iff : Stream contracts L c (us ++ vs) ↔
    Stream contracts L c us ∧ Stream contracts L (reached c us) vs := by
  induction us generalizing c with
  | nil => exact ⟨fun h => ⟨trivial, h⟩, And.right⟩
  | cons u rest ih =>
    change _ ∧ Stream contracts L u.after (rest ++ vs) ↔ (_ ∧ _) ∧ _
    rw [ih, and_assoc]
    rfl

theorem le_reached (h : Stream contracts L c us) : c ≤ reached c us := by
  induction us generalizing c with
  | nil => exact Cursor.le_refl c
  | cons u rest ih => exact Cursor.le_trans (Cursor.le_of_lt h.1.moves) (ih h.2)

theorem after_le_reached (h : Stream contracts L c us) : ∀ u ∈ us, u.after ≤ reached c us := by
  induction us generalizing c with
  | nil => exact fun u hu => by cases hu
  | cons v rest ih =>
    intro u hu
    rcases List.mem_cons.mp hu with rfl | hu
    · exact h.2.le_reached
    · exact ih h.2 u hu

/-- The events of a stream are all that happens on the way. -/
theorem chronicle (h : Stream contracts L c us) :
    Chronicle contracts L c (reached c us) (occurrences us) := by
  induction us generalizing c with
  | nil => exact .nil
  | cons u rest ih =>
    have split : occurrences (u :: rest) = occurrences [u] ++ occurrences rest := by
      unfold occurrences
      rw [← List.filter_append]
      rfl
    rw [split]
    exact h.1.tells.append (ih h.2) (Cursor.le_of_lt h.1.moves) h.2.le_reached

/-- No item of a stream is about a block before the one where the stream began. -/
theorem block_le (h : Stream contracts L c us) : ∀ u ∈ us, c.block ≤ u.block := by
  induction us generalizing c with
  | nil => exact fun u hu => by cases hu
  | cons v rest ih =>
    intro u hu
    rcases List.mem_cons.mp hu with rfl | hu
    · exact Update.block_le_of_lt_after h.1.moves
    · have later := ih h.2 u hu
      have moves := Cursor.le_of_lt h.1.moves
      rw [Cursor.le_iff] at moves
      omega

end Stream
end DecryptorNode.Chain
