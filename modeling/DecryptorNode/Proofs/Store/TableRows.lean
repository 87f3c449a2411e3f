import DecryptorNode.Store.Table

/-! What a write does to the rows of a table. Nothing here needs the rows to be in order. -/
namespace DecryptorNode.Store.Table
variable {κ ρ : Type} [DecidableEq κ]

theorem find?_cons (key k : κ) (r : ρ) (rest : List (κ × ρ)) :
    find? ⟨(k, r) :: rest⟩ key = if k = key then some r else find? ⟨rest⟩ key := by
  by_cases h : k = key <;> simp [find?, h]

theorem contains_eq_false_iff (t : Table κ ρ) (key : κ) :
    t.contains key = false ↔ t.find? key = none := by
  rw [contains, Option.isSome_eq_false_iff, Option.isNone_iff_eq_none]

theorem find?_eq_none_iff (t : Table κ ρ) (key : κ) :
    t.find? key = none ↔ ∀ row ∈ t.rows, row.1 ≠ key := by
  rw [find?, Option.map_eq_none_iff, List.find?_eq_none]
  simp only [decide_eq_true_eq, ne_eq]

theorem mem_of_find?_eq_some {t : Table κ ρ} {key : κ} {row : ρ} (h : t.find? key = some row) :
    (key, row) ∈ t.rows := by
  obtain ⟨x, located, rfl⟩ := Option.map_eq_some_iff.mp h
  have named : x.1 = key := by simpa using List.find?_some located
  exact named ▸ List.mem_of_find?_eq_some located

variable [RowKey κ]

/-- A write is seen under its key, and no other key sees it. -/
theorem find?_put (t : Table κ ρ) (key other : κ) (row : ρ) :
    (t.put key row).find? other = if key = other then some row else t.find? other := by
  obtain ⟨rows⟩ := t
  change find? ⟨putRow key row rows⟩ other = _
  induction rows with
  | nil => simp [putRow, find?_cons]
  | cons entry rest ih =>
    obtain ⟨k, r⟩ := entry
    unfold putRow
    split
    · rename_i same
      subst same
      simp only [find?_cons]
      split <;> rfl
    · rename_i different
      split
      · rw [find?_cons]
      · rw [find?_cons, find?_cons, ih]
        by_cases h : k = other
        · rw [if_pos h, if_pos h, if_neg (h ▸ different)]
        · rw [if_neg h, if_neg h]

@[simp] theorem find?_put_self (t : Table κ ρ) (key : κ) (row : ρ) :
    (t.put key row).find? key = some row := by
  rw [find?_put, if_pos rfl]

theorem find?_put_of_ne (t : Table κ ρ) {key other : κ} (row : ρ) (h : other ≠ key) :
    (t.put key row).find? other = t.find? other := by
  rw [find?_put, if_neg (Ne.symm h)]

/-- A row under a new key is put between rows that stay. -/
theorem rows_put_of_find?_eq_none (t : Table κ ρ) (key : κ) (row : ρ) (h : t.find? key = none) :
    ∃ front back, t.rows = front ++ back ∧ (t.put key row).rows = front ++ (key, row) :: back := by
  rw [find?_eq_none_iff] at h
  obtain ⟨rows⟩ := t
  change ∃ front back, rows = front ++ back ∧ putRow key row rows = front ++ (key, row) :: back
  induction rows with
  | nil => exact ⟨[], [], rfl, rfl⟩
  | cons entry rest ih =>
    obtain ⟨k, r⟩ := entry
    have different : key ≠ k := fun e => h (k, r) List.mem_cons_self e.symm
    by_cases early : RowKey.before key k = true
    · exact ⟨[], (k, r) :: rest, rfl, by simp [putRow, different, early]⟩
    · obtain ⟨front, back, rfl, put⟩ := ih fun row hrow => h row (List.mem_cons_of_mem _ hrow)
      exact ⟨(k, r) :: front, back, rfl, by simp [putRow, different, early, put]⟩

/-- Under a new key, all rows but the new one are those there were. -/
theorem filter_rows_put {t : Table κ ρ} {key : κ} (row : ρ) (free : t.find? key = none) :
    ((t.put key row).rows.filter fun x => x.1 ≠ key) = t.rows := by
  have others : (t.rows.filter fun x => x.1 ≠ key) = t.rows :=
    List.filter_eq_self.mpr fun x mem => decide_eq_true ((find?_eq_none_iff t key).mp free x mem)
  obtain ⟨front, back, rows, put⟩ := rows_put_of_find?_eq_none t key row free
  rw [rows, List.filter_append] at others
  rw [put, rows, List.filter_append, List.filter_cons_of_neg (by simp), others]

/-- A row is put after the rows that its key passes. -/
theorem putRow_append {key : κ} {row : ρ} {front : List (κ × ρ)}
    (passed : ∀ x ∈ front, key ≠ x.1 ∧ RowKey.before key x.1 = false) (back : List (κ × ρ)) :
    putRow key row (front ++ back) = front ++ putRow key row back := by
  induction front with
  | nil => rfl
  | cons entry rest ih =>
    obtain ⟨⟨different, late⟩, others⟩ := List.forall_mem_cons.mp passed
    rw [List.cons_append, putRow, if_neg different, late, if_neg Bool.false_ne_true, ih others,
      List.cons_append]

theorem putRow_of_before {key : κ} {row : ρ} {rows : List (κ × ρ)}
    (early : ∀ x ∈ rows.head?, key ≠ x.1 ∧ RowKey.before key x.1 = true) :
    putRow key row rows = (key, row) :: rows := by
  cases rows with
  | nil => rfl
  | cons entry rest =>
    obtain ⟨different, before⟩ := early entry rfl
    rw [putRow, if_neg different, if_pos before]

end DecryptorNode.Store.Table
