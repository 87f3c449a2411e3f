import DecryptorNode.Proofs.Store.OrderedTables

/-! Writes that leave the rows that are there. Of several rows under one key the first one stays, so
the order of the writes decides which row it is, and nothing else. -/
namespace DecryptorNode.Store.Table
variable {κ ρ τ : Type}

def mapRows (f : ρ → τ) (t : Table κ ρ) : Table κ τ := ⟨t.rows.map fun row => (row.1, f row.2)⟩

@[simp] theorem mapRows_id (t : Table κ ρ) : t.mapRows id = t :=
  congrArg mk (List.map_id t.rows)

private theorem Ordered.mapRows [RowKey κ] {t : Table κ ρ} (h : t.Ordered) (f : ρ → τ) :
    (t.mapRows f).Ordered :=
  List.pairwise_map.mpr h

variable [DecidableEq κ]

private theorem find?_mapRows (f : ρ → τ) (t : Table κ ρ) (key : κ) :
    (t.mapRows f).find? key = (t.find? key).map f := by
  rw [find?, find?, Table.mapRows, List.find?_map, Option.map_map, Option.map_map]
  rfl

variable [RowKey κ]

def putNew (t : Table κ ρ) (key : κ) (row : ρ) : Table κ ρ :=
  if t.contains key then t else t.put key row

private theorem find?_putNew (t : Table κ ρ) (key other : κ) (row : ρ) :
    (t.putNew key row).find? other =
      (t.find? other).or (if key = other then some row else none) := by
  unfold putNew
  cases held : t.contains key with
  | true =>
    rw [if_pos rfl]
    split
    · rename_i same
      obtain ⟨first, found⟩ := Option.isSome_iff_exists.mp held
      rw [← same, found, Option.some_or]
    · rw [Option.or_none]
  | false =>
    rw [if_neg Bool.false_ne_true, find?_put]
    split
    · rename_i same
      rw [← same, (contains_eq_false_iff t key).mp held, Option.none_or]
    · rw [Option.or_none]

def putAll (t : Table κ ρ) (rows : List (κ × ρ)) : Table κ ρ :=
  rows.foldl (fun t row => t.putNew row.1 row.2) t

theorem putAll_append (t : Table κ ρ) (rows more : List (κ × ρ)) :
    t.putAll (rows ++ more) = (t.putAll rows).putAll more := List.foldl_append

/-- Under each key stands the row that was there, or else the first one that came. -/
theorem find?_putAll (t : Table κ ρ) (rows : List (κ × ρ)) (key : κ) :
    (t.putAll rows).find? key = (t.find? key).or (find? ⟨rows⟩ key) := by
  induction rows generalizing t with
  | nil => exact Option.or_none.symm
  | cons row rest ih =>
    change ((t.putNew row.1 row.2).putAll rest).find? key = _
    rw [ih, find?_putNew, Option.or_assoc, find?_cons]
    split
    · rw [Option.some_or]
    · rw [Option.none_or]

variable [RowKey.Lawful κ]

private theorem Ordered.putNew {t : Table κ ρ} (h : t.Ordered) (key : κ) (row : ρ) :
    (t.putNew key row).Ordered := by
  unfold Table.putNew
  split
  · exact h
  · exact h.put key row

private theorem Ordered.putAll {t : Table κ ρ} (h : t.Ordered) (rows : List (κ × ρ)) :
    (t.putAll rows).Ordered := by
  induction rows generalizing t with
  | nil => exact h
  | cons row rest ih => exact ih (h.putNew row.1 row.2)

/-- Rows that come in another order leave the same table, as far as rows that share a key agree. -/
theorem mapRows_putAll_perm {t : Table κ ρ} (ordered : t.Ordered) {f : ρ → τ}
    {rows rows' : List (κ × ρ)} (reordered : rows.Perm rows')
    (agree : ∀ a ∈ rows, ∀ b ∈ rows, a.1 = b.1 → f a.2 = f b.2) :
    (t.putAll rows).mapRows f = (t.putAll rows').mapRows f := by
  -- The first rows of a key need not be the same row in both orders, but both are among the rows
  -- that come, so that they agree.
  refine ((ordered.putAll rows).mapRows f).ext ((ordered.putAll rows').mapRows f) fun key row => ?_
  rw [find?_mapRows, find?_mapRows, find?_putAll, find?_putAll]
  cases t.find? key with
  | some held => rw [Option.some_or, Option.some_or]
  | none =>
    rw [Option.none_or, Option.none_or]
    have present : find? ⟨rows⟩ key = none ↔ find? ⟨rows'⟩ key = none := by
      rw [find?_eq_none_iff, find?_eq_none_iff]
      exact forall_congr' fun x => by rw [reordered.mem_iff]
    cases here : find? ⟨rows⟩ key with
    | none => rw [present.mp here]
    | some a =>
      cases there : find? ⟨rows'⟩ key with
      | none =>
        rw [present.mpr there] at here
        cases here
      | some b =>
        have same : f a = f b :=
          agree _ (mem_of_find?_eq_some here) _
            (reordered.mem_iff.mpr (mem_of_find?_eq_some there)) rfl
        rw [Option.map_some, Option.map_some, same]

end DecryptorNode.Store.Table
