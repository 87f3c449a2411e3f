import DecryptorNode.Proofs.Store.TableRows
import DecryptorNode.Store.Database
import Mathlib.Data.List.Nodup
import Mathlib.Data.String.Basic
import Mathlib.Order.Basic

/-! Tables keep their rows in the order of the keys. So no key has two rows, and what is found under
the keys is all there is to a table. -/
namespace DecryptorNode.Store

/-- The order of keys is strict and total. -/
class RowKey.Lawful (κ : Type) [RowKey κ] : Prop where
  irrefl (a : κ) : RowKey.before a a = false
  trans {a b c : κ} : RowKey.before a b = true → RowKey.before b c = true →
    RowKey.before a c = true
  connex {a b : κ} : a ≠ b → RowKey.before a b = false → RowKey.before b a = true

namespace RowKey

instance : Lawful Int where
  irrefl a := decide_eq_false (Int.lt_irrefl a)
  trans h h' := decide_eq_true ((of_decide_eq_true h).trans (of_decide_eq_true h'))
  connex ne h := decide_eq_true (lt_of_le_of_ne (not_lt.mp (of_decide_eq_false h)) ne.symm)

instance : Lawful String where
  irrefl a := decide_eq_false (lt_irrefl a)
  trans h h' := decide_eq_true ((of_decide_eq_true h).trans (of_decide_eq_true h'))
  connex ne h := decide_eq_true (lt_of_le_of_ne (not_lt.mp (of_decide_eq_false h)) ne.symm)

instance : Lawful MemberKey where
  irrefl a := by simp [before]
  trans := by
    intro a b c h h'
    simp only [before, Bool.or_eq_true, Bool.and_eq_true, decide_eq_true_eq, beq_iff_eq] at *
    omega
  connex := by
    rintro ⟨a, i⟩ ⟨b, j⟩ ne h
    simp only [before, Bool.or_eq_true, Bool.or_eq_false_iff, Bool.and_eq_true,
      Bool.and_eq_false_iff, decide_eq_true_eq, decide_eq_false_iff_not, beq_iff_eq,
      beq_eq_false_iff_ne, ne_eq, MemberKey.mk.injEq] at *
    omega

instance : Lawful EpochKey where
  irrefl a := by simp [before]
  trans := by
    intro a b c h h'
    simp only [before, Bool.or_eq_true, Bool.and_eq_true, decide_eq_true_eq, beq_iff_eq] at *
    rcases h with h | ⟨e, h⟩ <;> rcases h' with h' | ⟨e', h'⟩
    · exact .inl (h.trans h')
    · exact .inl (e' ▸ h)
    · exact .inl (e ▸ h')
    · exact .inr ⟨e.trans e', h.trans h'⟩
  connex := by
    rintro ⟨a, x⟩ ⟨b, y⟩ ne h
    simp only [before, Bool.or_eq_true, Bool.or_eq_false_iff, Bool.and_eq_true,
      Bool.and_eq_false_iff, decide_eq_true_eq, decide_eq_false_iff_not, beq_iff_eq,
      beq_eq_false_iff_ne, ne_eq, EpochKey.mk.injEq] at *
    obtain ⟨later, tie⟩ := h
    rcases (not_lt.mp later).lt_or_eq with less | rfl
    · exact .inl less
    · have texts : ¬ x = y := fun same => ne ⟨rfl, same⟩
      have behind : ¬ x < y := tie.resolve_left (fun no => no rfl)
      exact .inr ⟨rfl, lt_of_le_of_ne (not_lt.mp behind) (Ne.symm texts)⟩

section Laws
variable {κ : Type} [RowKey κ] [Lawful κ] {a b : κ}

theorem ne_of_before (h : before a b = true) : a ≠ b := by
  rintro rfl
  rw [Lawful.irrefl] at h
  cases h

private theorem asymm (h : before a b = true) : before b a = false :=
  Bool.eq_false_iff.mpr fun contra => ne_of_before (Lawful.trans h contra) rfl

end Laws
end RowKey

namespace Table
variable {κ ρ : Type} [RowKey κ]

def Ordered (t : Table κ ρ) : Prop := t.rows.Pairwise fun a b => RowKey.before a.1 b.1 = true

theorem ordered_empty : (empty : Table κ ρ).Ordered := List.Pairwise.nil

/-- No two rows have one key. -/
theorem Ordered.nodup_keys [RowKey.Lawful κ] {t : Table κ ρ} (h : t.Ordered) :
    (t.rows.map (·.1)).Nodup :=
  List.pairwise_map.mpr (h.imp RowKey.ne_of_before)

variable [DecidableEq κ]

/-- A write brings one row, and takes away none but the one under its key. -/
theorem mem_putRow {key : κ} {row : ρ} {rows : List (κ × ρ)} {x : κ × ρ}
    (h : x ∈ putRow key row rows) : x = (key, row) ∨ x ∈ rows := by
  induction rows with
  | nil => exact .inl (List.mem_singleton.mp h)
  | cons entry rest ih =>
    obtain ⟨k, r⟩ := entry
    unfold putRow at h
    split at h
    · rcases List.mem_cons.mp h with here | there
      · exact .inl here
      · exact .inr (List.mem_cons_of_mem _ there)
    · split at h
      · exact List.mem_cons.mp h
      · rcases List.mem_cons.mp h with rfl | there
        · exact .inr List.mem_cons_self
        · exact (ih there).imp_right (List.mem_cons_of_mem _)

variable [RowKey.Lawful κ]

theorem Ordered.put {t : Table κ ρ} (h : t.Ordered) (key : κ) (row : ρ) :
    (t.put key row).Ordered := by
  obtain ⟨rows⟩ := t
  change (putRow key row rows).Pairwise _
  change rows.Pairwise _ at h
  induction rows with
  | nil => exact List.pairwise_singleton _ _
  | cons entry rest ih =>
    obtain ⟨k, r⟩ := entry
    obtain ⟨first, others⟩ := List.pairwise_cons.mp h
    unfold putRow
    split
    · rename_i same
      subst same
      exact List.pairwise_cons.mpr ⟨first, others⟩
    · rename_i different
      split
      · rename_i early
        refine List.pairwise_cons.mpr ⟨fun x mem => ?_, h⟩
        rcases List.mem_cons.mp mem with rfl | later
        · exact early
        · exact RowKey.Lawful.trans early (first x later)
      · rename_i late
        refine List.pairwise_cons.mpr ⟨fun x mem => ?_, ih others⟩
        rcases mem_putRow mem with rfl | old
        · exact RowKey.Lawful.connex different (Bool.eq_false_iff.mpr late)
        · exact first x old

private theorem putRow_comm_of_before {key key' : κ} {row row' : ρ} {rows : List (κ × ρ)}
    (h : RowKey.before key key' = true) :
    putRow key row (putRow key' row' rows) = putRow key' row' (putRow key row rows) := by
  have different := RowKey.ne_of_before h
  have behind := RowKey.asymm h
  induction rows with
  | nil => simp [putRow, different, different.symm, h, behind]
  | cons entry rest ih =>
    obtain ⟨k, r⟩ := entry
    by_cases here : key' = k
    · subst here
      simp [putRow, different, different.symm, h, behind]
    · by_cases early : RowKey.before key' k = true
      · have earlier := RowKey.Lawful.trans h early
        have apart := RowKey.ne_of_before earlier
        simp [putRow, here, early, apart, earlier, different, different.symm, h, behind]
      · by_cases first : key = k
        · subst first
          simp [putRow, here, early]
        · by_cases ahead : RowKey.before key k = true
          · simp [putRow, here, early, first, ahead, different.symm, behind]
          · simp [putRow, here, early, first, ahead, ih]

/-- Writes under different keys can change places. -/
theorem put_comm (t : Table κ ρ) {key key' : κ} (row row' : ρ) (different : key ≠ key') :
    (t.put key row).put key' row' = (t.put key' row').put key row := by
  refine congrArg mk ?_
  cases order : RowKey.before key key' with
  | true => exact (putRow_comm_of_before order).symm
  | false => exact putRow_comm_of_before (RowKey.Lawful.connex different order)

theorem Ordered.find?_eq_some_iff {t : Table κ ρ} (h : t.Ordered) {key : κ} {row : ρ} :
    t.find? key = some row ↔ (key, row) ∈ t.rows := by
  refine ⟨mem_of_find?_eq_some, fun mem => ?_⟩
  cases found : t.find? key with
  | none => exact absurd rfl ((find?_eq_none_iff t key).mp found _ mem)
  | some row' =>
    have same : (key, row') = (key, row) :=
      List.inj_on_of_nodup_map h.nodup_keys (mem_of_find?_eq_some found) mem rfl
    rw [(Prod.mk.inj same).2]

/-- A row that is changed stays where it is, and the other rows stay as they are. -/
theorem Ordered.rows_put {t : Table κ ρ} (h : t.Ordered) {key : κ} {row : ρ}
    (found : t.find? key = some row) (change : ρ → ρ) : (t.put key (change row)).rows =
      t.rows.map fun x => if x.1 = key then (x.1, change x.2) else x := by
  obtain ⟨rows⟩ := t
  change rows.Pairwise _ at h
  change putRow key (change row) rows = rows.map _
  induction rows with
  | nil => cases found
  | cons entry rest ih =>
    obtain ⟨k, r⟩ := entry
    obtain ⟨first, others⟩ := List.pairwise_cons.mp h
    rw [find?_cons] at found
    by_cases here : k = key
    · subst here
      rw [if_pos rfl] at found
      cases found
      have kept : (rest.map fun x => if x.1 = k then (x.1, change x.2) else x) = rest :=
        (List.map_congr_left fun x mem => if_neg (RowKey.ne_of_before (first x mem)).symm).trans
          (List.map_id rest)
      rw [putRow, if_pos rfl, List.map_cons, if_pos rfl, kept]
    · rw [if_neg here] at found
      have late := RowKey.asymm (first _ (mem_of_find?_eq_some found))
      rw [putRow, if_neg (Ne.symm here), late, if_neg Bool.false_ne_true, ih found others,
        List.map_cons, if_neg here]

/-- Tables in which the same is found are the same. -/
theorem Ordered.ext {t u : Table κ ρ} (h : t.Ordered) (h' : u.Ordered)
    (same : ∀ key row, t.find? key = some row ↔ u.find? key = some row) : t = u := by
  have members (x : κ × ρ) : x ∈ t.rows ↔ x ∈ u.rows := by
    rw [← h.find?_eq_some_iff, ← h'.find?_eq_some_iff]
    exact same x.1 x.2
  have permuted : t.rows.Perm u.rows :=
    (List.perm_ext_iff_of_nodup (.of_map _ h.nodup_keys) (.of_map _ h'.nodup_keys)).mpr members
  have rows : t.rows = u.rows := permuted.eq_of_pairwise
    (fun a b _ _ less greater => by
      rw [RowKey.asymm less] at greater
      cases greater) h h'
  cases t
  cases u
  exact congrArg mk rows

end Table
end DecryptorNode.Store
