import DecryptorNode.Config.Layers
import DecryptorNode.Proofs.Store.OrderedTables

/-! Tables of settings that keep their keys in order, at every depth. Values laid over each other
stay that way. -/
namespace DecryptorNode.Config
open Store (RowKey Table)

namespace Entries
variable {α : Type} {key : String} {value : α} {entries entries' : List (String × α)}

def table (entries : List (String × α)) : Table String α := ⟨entries⟩

def Ordered (entries : List (String × α)) : Prop := (table entries).Ordered

private theorem put_eq_putRow : put key value entries = Table.putRow key value entries := by
  induction entries with
  | nil => rfl
  | cons entry rest ih =>
    obtain ⟨k, v⟩ := entry
    unfold put Table.putRow
    by_cases same : key = k
    · subst same
      simp
    · simp [RowKey.before, same, Ne.symm same, ih]

private theorem table_put : table (put key value entries) = (table entries).put key value :=
  congrArg Table.mk put_eq_putRow

private theorem find?_table : (table entries).find? key = find? key entries := by
  induction entries with
  | nil => rfl
  | cons entry rest ih =>
    obtain ⟨k, v⟩ := entry
    rw [find?_cons, ← ih]
    exact Table.find?_cons ..

theorem find?_eq_none_iff : find? key entries = none ↔ ∀ entry ∈ entries, entry.1 ≠ key := by
  rw [← find?_table, Table.find?_eq_none_iff]
  rfl

theorem ordered_nil : Ordered ([] : List (String × α)) := Table.ordered_empty

theorem Ordered.tail {entry : String × α} (h : Ordered (entry :: entries)) : Ordered entries :=
  (List.pairwise_cons.mp h).2

/-- The first key is not among the others. -/
theorem Ordered.find?_tail (h : Ordered ((key, value) :: entries)) : find? key entries = none := by
  rw [find?_eq_none_iff]
  intro row mem
  exact (RowKey.ne_of_before ((List.pairwise_cons.mp h).1 row mem)).symm

theorem Ordered.put (h : Ordered entries) (key : String) (value : α) :
    Ordered (put key value entries) := by
  unfold Ordered
  rw [table_put]
  exact Table.Ordered.put h key value

/-- A value that is set anew stays where it is. -/
theorem Ordered.put_eq_map {old : α} (h : Ordered entries) (found : find? key entries = some old)
    (value : α) : Entries.put key value entries =
      entries.map fun entry => if entry.1 = key then (entry.1, value) else entry := by
  rw [← find?_table] at found
  rw [put_eq_putRow]
  exact Table.Ordered.rows_put h found fun _ => value

/-- Entries among which the same is found are the same. -/
theorem Ordered.ext (h : Ordered entries) (h' : Ordered entries')
    (same : ∀ key, find? key entries = find? key entries') : entries = entries' := by
  have tables : table entries = table entries' := by
    refine Table.Ordered.ext h h' fun key value => ?_
    rw [find?_table, find?_table, same]
  exact congrArg Table.rows tables

/-- Setting what is there changes nothing. -/
theorem Ordered.put_found (h : Ordered entries) (found : find? key entries = some value) :
    Entries.put key value entries = entries := by
  refine (h.put key value).ext h fun other => ?_
  rw [find?_put]
  by_cases same : key = other
  · rw [if_pos same, ← same, found]
  · rw [if_neg same]

private theorem mem_put {entry : String × α} (h : entry ∈ put key value entries) :
    entry = (key, value) ∨ entry ∈ entries := by
  induction entries with
  | nil => exact .inl (List.mem_singleton.mp h)
  | cons first rest ih =>
    obtain ⟨k, v⟩ := first
    unfold put at h
    split at h
    · exact List.mem_cons.mp h
    · split at h
      · exact (List.mem_cons.mp h).imp_right (List.mem_cons_of_mem _)
      · rcases List.mem_cons.mp h with rfl | later
        · exact .inr List.mem_cons_self
        · exact (ih later).imp_right (List.mem_cons_of_mem _)

theorem mem_of_find? (h : find? key entries = some value) : (key, value) ∈ entries := by
  induction entries with
  | nil => cases h
  | cons entry rest ih =>
    obtain ⟨k, v⟩ := entry
    rw [find?_cons] at h
    by_cases same : k = key
    · rw [if_pos same] at h
      cases h
      exact same ▸ List.mem_cons_self
    · rw [if_neg same] at h
      exact List.mem_cons_of_mem _ (ih h)

/-- Keys in order, and what stands under them has a property. -/
structure All (p : α → Prop) (entries : List (String × α)) : Prop where
  ordered : Ordered entries
  inner : ∀ entry ∈ entries, p entry.2

namespace All
variable {p : α → Prop}

theorem nil : All p ([] : List (String × α)) := ⟨ordered_nil, nofun⟩

theorem put (h : All p entries) (key : String) (holds : p value) :
    All p (put key value entries) := by
  refine ⟨h.ordered.put key value, fun entry mem => ?_⟩
  rcases mem_put mem with rfl | old
  · exact holds
  · exact h.inner entry old

theorem find? (h : All p entries) (found : find? key entries = some value) : p value :=
  h.inner _ (mem_of_find? found)

theorem ofList {l : List (String × α)} (h : ∀ entry ∈ l, p entry.2) : All p (ofList l) := by
  unfold Entries.ofList
  have begun := nil (p := p)
  generalize ([] : List (String × α)) = base at begun ⊢
  induction l generalizing base with
  | nil => exact begun
  | cons entry rest ih =>
    exact ih (fun e mem => h e (List.mem_cons_of_mem _ mem)) _
      (begun.put _ (h entry List.mem_cons_self))

end All

theorem ordered_ofList (l : List (String × α)) : Ordered (ofList l) :=
  (All.ofList (p := fun _ => True) fun _ _ => trivial).ordered

end Entries

/-- A value whose tables, down to any depth, have their keys in order. -/
inductive Value.Tidy : Value → Prop where
  | table {entries : Entries} (ordered : Entries.Ordered entries)
      (inner : ∀ entry ∈ entries, Tidy entry.2) : Tidy (.table entries)
  | list {values : List Value} (inner : ∀ v ∈ values, Tidy v) : Tidy (.list values)
  | plain {v : Value} (whole : ∀ entries, v ≠ .table entries)
      (single : ∀ values, v ≠ .list values) : Tidy v

theorem Value.tidy_table {entries : Entries} :
    (Value.table entries).Tidy ↔ Entries.All Tidy entries := by
  constructor
  · intro h
    cases h with
    | table ordered inner => exact ⟨ordered, inner⟩
    | plain whole => exact absurd rfl (whole entries)
  · rintro ⟨ordered, inner⟩
    exact .table ordered inner

section Overlays

theorem Value.Tidy.inner {values : List Value} (h : (Value.list values).Tidy) :
    ∀ v ∈ values, v.Tidy := by
  cases h with
  | list inner => exact inner
  | plain whole single => exact absurd rfl (single values)

theorem Value.tidy_nested (path : List String) {v : Value} (h : v.Tidy) : (nested path v).Tidy := by
  induction path with
  | nil => exact h
  | cons key path ih => exact tidy_table.mpr (Entries.All.nil.put key ih)

/-- What is no table replaces what was there. -/
theorem Value.overlay_plain {lower v : Value} (whole : ∀ entries, v ≠ .table entries) :
    overlay lower v = v := by
  cases v with
  | table entries => exact absurd rfl (whole entries)
  | _ => rw [overlay]; exact nofun

theorem Value.overlay_onto_plain {lower : Value} {upper : Entries}
    (whole : ∀ entries, lower ≠ .table entries) : overlay lower (.table upper) = .table upper := by
  cases lower with
  | table entries => exact absurd rfl (whole entries)
  | _ => rw [overlay]; exact nofun

private theorem Value.all_overlayEntries {lower upper : Entries} (low : Entries.All Tidy lower)
    (sound : ∀ entry ∈ upper, ∀ old, Tidy old → (overlay old entry.2).Tidy)
    (high : ∀ entry ∈ upper, entry.2.Tidy) :
    Entries.All Tidy (overlayEntries lower upper) := by
  induction upper generalizing lower with
  | nil => rwa [overlayEntries]
  | cons entry rest ih =>
    rw [overlayEntries]
    obtain ⟨covers, later⟩ := List.forall_mem_cons.mp sound
    obtain ⟨here, others⟩ := List.forall_mem_cons.mp high
    refine ih (low.put _ ?_) later others
    split
    · rename_i old found
      exact covers old (low.find? found)
    · exact here

/-- Tidy values laid over each other come to a tidy one. -/
theorem Value.Tidy.overlay {lower upper : Value} (low : lower.Tidy) (high : upper.Tidy) :
    (Value.overlay lower upper).Tidy := by
  induction high generalizing lower with
  | plain whole single =>
    rw [overlay_plain whole]
    exact .plain whole single
  | @list values inner =>
    have whole : ∀ entries, Value.list values ≠ .table entries := nofun
    rw [overlay_plain whole]
    exact .list inner
  | table ordered inner ih =>
    cases low with
    | plain whole =>
      rw [overlay_onto_plain whole]
      exact .table ordered inner
    | @list values =>
      have whole : ∀ entries, Value.list values ≠ .table entries := nofun
      rw [overlay_onto_plain whole]
      exact .table ordered inner
    | table orderly old =>
      rw [Value.overlay]
      exact tidy_table.mpr (all_overlayEntries ⟨orderly, old⟩
        (fun entry mem old sound => ih entry mem sound) inner)

theorem Value.tidy_merged {layers : List Value} (sound : ∀ layer ∈ layers, layer.Tidy) :
    (merged layers).Tidy := by
  unfold merged
  have begun : Tidy (.table []) := tidy_table.mpr .nil
  generalize Value.table [] = base at begun ⊢
  induction layers generalizing base with
  | nil => exact begun
  | cons layer rest ih =>
    obtain ⟨here, later⟩ := List.forall_mem_cons.mp sound
    exact ih later _ (begun.overlay here)

end Overlays
end DecryptorNode.Config
