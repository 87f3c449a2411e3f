import DecryptorNode.Proofs.Bytes.Encodings
import DecryptorNode.Proofs.Config.Layering

/-! Reading a table with another value under one of its keys. If the other fields ignore what that
value changes, nothing else comes out differently. So it is with settings under another name of the
environment: no setting but that name changes, and what cannot be read fails the same way. -/
namespace DecryptorNode.Config
open Entries (Ordered find? put)

section Records
variable {σ α : Type} {origin : Origin} {entries : Entries} {record : σ} {change : σ → σ}

/-- A change of a record that a field's reading neither heeds nor undoes. -/
def Reader.Field.Ignores (change : σ → σ) (field : Reader.Field σ) : Prop :=
  ∀ origin v record,
    field.read origin v (change record) = (field.read origin v record).map change

theorem Reader.Field.ignores_required {name : String} {read : Reader α} {set : α → σ → σ}
    (apart : ∀ a record, set a (change record) = change (set a record)) :
    (required name read set).Ignores change := by
  intro origin v record
  change (set · (change record)) <$> read origin v =
    ((set · record) <$> read origin v).map change
  cases read origin v with
  | error e => rfl
  | ok a => exact congrArg Except.ok (apart a record)

private theorem Reader.visit_change {fields : List (Field σ)}
    (ignored : ∀ field ∈ fields, ∀ entry ∈ entries, entry.1 = field.name → field.Ignores change) :
    visit fields origin entries (change record) =
      (visit fields origin entries record).map change := by
  induction entries generalizing record with
  | nil => rfl
  | cons entry rest ih =>
    obtain ⟨key, v⟩ := entry
    have later (record : σ) : visit fields origin rest (change record) = _ :=
      ih fun field known entry mem => ignored field known entry (List.mem_cons_of_mem _ mem)
    unfold visit
    cases found : fields.find? (·.name = key) with
    | none => rfl
    | some field =>
      have named : field.name = key := by simpa using List.find?_some found
      have ignores := ignored field (List.mem_of_find?_eq_some found) (key, v) List.mem_cons_self
        named.symm
      dsimp only
      rw [ignores]
      cases field.read origin v record with
      | error e => rfl
      | ok record => exact later record

private theorem Reader.complete_change {fields : List (Field σ)}
    (alike : ∀ field ∈ fields, find? field.name entries = none → ∀ record,
      field.absent (change record) = (field.absent record).map change) :
    complete entries fields (change record) = (complete entries fields record).map change := by
  induction fields generalizing record with
  | nil => rfl
  | cons field rest ih =>
    obtain ⟨here, later⟩ := List.forall_mem_cons.mp alike
    unfold complete
    cases found : find? field.name entries with
    | some v => exact ih later
    | none =>
      dsimp only
      rw [here found]
      cases field.absent record with
      | none => rfl
      | some record => exact ih later

/-- Which fields are left out depends on the keys only. -/
private theorem Reader.complete_congr {entries' : Entries} {fields : List (Field σ)}
    (same : ∀ key, (find? key entries').isSome = (find? key entries).isSome) :
    complete entries' fields record = complete entries fields record := by
  induction fields generalizing record with
  | nil => rfl
  | cons field rest ih =>
    have here := same field.name
    unfold complete
    cases found : find? field.name entries with
    | none =>
      rw [found] at here
      rw [Option.not_isSome_iff_eq_none.mp (Bool.eq_false_iff.mp here)]
      cases field.absent record with
      | none => rfl
      | some record => exact ih
    | some v =>
      rw [found] at here
      obtain ⟨v', found'⟩ := Option.isSome_iff_exists.mp here
      rw [found']
      exact ih

section Replacement
variable {key : String} {v v' : Value} {fields : List (Reader.Field σ)}

/-- If another value under a key is read as the old one but for a change that the other fields
ignore, all entries are. -/
private theorem Reader.visit_put (ordered : Ordered entries) (found : find? key entries = some v)
    (own : ∀ field ∈ fields, field.name = key → ∀ record,
      field.read origin v' record = (field.read origin v record).map change)
    (others : ∀ field ∈ fields, field.name ≠ key → field.Ignores change) :
    visit fields origin (put key v' entries) record =
      (visit fields origin entries record).map change := by
  rw [ordered.put_eq_map found]
  induction entries generalizing record with
  | nil => cases found
  | cons entry rest ih =>
    obtain ⟨k, w⟩ := entry
    rw [Entries.find?_cons] at found
    by_cases here : k = key
    · subst here
      rw [if_pos rfl] at found
      cases found
      -- the key does not come again, so the readings stay apart in the change only
      have fresh := Entries.find?_eq_none_iff.mp ordered.find?_tail
      have kept : (rest.map fun entry => if entry.1 = k then (entry.1, v') else entry) = rest :=
        (List.map_congr_left fun entry mem => if_neg (fresh entry mem)).trans (List.map_id rest)
      have later (record : σ) : visit fields origin rest (change record) = _ :=
        visit_change fun field known entry mem same => others field known (same ▸ fresh entry mem)
      rw [List.map_cons, if_pos rfl, kept]
      unfold visit
      cases read : fields.find? (·.name = k) with
      | none => rfl
      | some field =>
        dsimp only
        rw [own field (List.mem_of_find?_eq_some read) (by simpa using List.find?_some read)]
        cases field.read origin v record with
        | error e => rfl
        | ok record => exact later record
    · rw [if_neg here] at found
      rw [List.map_cons, if_neg here]
      unfold visit
      cases under k _ with
      | error e => rfl
      | ok record => exact ih ordered.tail found

/-- A value that the field of its key cannot read ends the reading, if nothing else would. -/
private theorem Reader.visit_put_error {e : LoadError} {record' : σ} (ordered : Ordered entries)
    (found : find? key entries = some v)
    (own : ∀ field ∈ fields, field.name = key → ∀ record, field.read origin v' record = .error e)
    (h : visit fields origin entries record = .ok record') :
    visit fields origin (put key v' entries) record = .error (e.under key) := by
  rw [ordered.put_eq_map found]
  induction entries generalizing record with
  | nil => cases found
  | cons entry rest ih =>
    obtain ⟨k, w⟩ := entry
    rw [Entries.find?_cons] at found
    by_cases here : k = key
    · subst here
      rw [List.map_cons, if_pos rfl]
      unfold visit at h ⊢
      cases read : fields.find? (·.name = k) with
      | none =>
        rw [read] at h
        cases h
      | some field =>
        dsimp only
        rw [own field (List.mem_of_find?_eq_some read) (by simpa using List.find?_some read)]
        rfl
    · rw [if_neg here] at found
      rw [List.map_cons, if_neg here]
      obtain ⟨next, step, later⟩ := bind_eq_ok.mp h
      unfold visit
      rw [step]
      exact ih ordered.tail found later

private theorem Reader.isSome_put (found : find? key entries = some v) (other : String) :
    (find? other (put key v' entries)).isSome = (find? other entries).isSome := by
  rw [Entries.find?_put]
  by_cases same : key = other
  · rw [if_pos same, ← same, found]
    rfl
  · rw [if_neg same]

/-- A record whose table has another value under a key, which is read as the old one but for a
change, is the old one but for that change. -/
theorem Reader.record_put {blank : σ} (ordered : Ordered entries)
    (found : find? key entries = some v)
    (own : ∀ field ∈ fields, field.name = key → ∀ record,
      field.read origin v' record = (field.read origin v record).map change)
    (others : ∀ field ∈ fields, field.name ≠ key → field.Ignores change ∧
      ∀ record, field.absent (change record) = (field.absent record).map change) :
    Reader.record blank fields origin (.table (put key v' entries)) =
      (Reader.record blank fields origin (.table entries)).map change := by
  change (visit fields origin (put key v' entries) blank >>= complete _ fields) =
    Except.map change (visit fields origin entries blank >>= complete entries fields)
  rw [visit_put ordered found own fun field known other => (others field known other).1]
  cases visit fields origin entries blank with
  | error e => rfl
  | ok read =>
    refine (complete_congr (isSome_put found)).trans (complete_change ?_)
    intro field known missing
    refine (others field known ?_).2
    rintro rfl
    rw [found] at missing
    cases missing

theorem Reader.record_put_error {blank record' : σ} {e : LoadError} (ordered : Ordered entries)
    (found : find? key entries = some v)
    (own : ∀ field ∈ fields, field.name = key → ∀ record, field.read origin v' record = .error e)
    (h : Reader.record blank fields origin (.table entries) = .ok record') :
    Reader.record blank fields origin (.table (put key v' entries)) = .error (e.under key) := by
  obtain ⟨read, visited, -⟩ := bind_eq_ok.mp h
  change (visit fields origin (put key v' entries) blank >>= complete _ fields) = _
  rw [visit_put_error ordered found own visited]
  rfl

end Replacement

end Records

namespace Settings
variable {origin : Origin} {name written : String} {entries : Entries} {s : Settings}

def renamed (name : String) (s : Settings) : Settings := { s with environment := name }

private theorem ignores_renamed {field : Reader.Field Settings} (known : field ∈ fields)
    (other : field.name ≠ "environment") : field.Ignores (renamed name) := by
  simp only [fields, List.mem_cons, List.not_mem_nil, or_false] at known
  rcases known with rfl | rfl | rfl | rfl | rfl | rfl
  · exact absurd rfl other
  all_goals exact Reader.Field.ignores_required fun _ _ => rfl

/-- The settings of a table whose name of the environment is spelled otherwise are the same but for
that name. -/
theorem read_respelled (ordered : Ordered entries)
    (named : find? "environment" entries = some (.text written)) (name : String) :
    read origin (.table (put "environment" (.text name) entries)) =
      (read origin (.table entries)).map (renamed name) := by
  refine Reader.record_put ordered named ?own ?others
  case own =>
    simp only [fields, List.forall_mem_cons, List.not_mem_nil, false_imp_iff, implies_true]
    refine ⟨fun _ _ => rfl, ?_, ?_, ?_, ?_, ?_, trivial⟩
    all_goals exact fun same => absurd same (by decide)
  case others =>
    intro field known other
    refine ⟨ignores_renamed known other, fun s => ?_⟩
    simp only [fields, List.mem_cons, List.not_mem_nil, or_false] at known
    rcases known with rfl | rfl | rfl | rfl | rfl | rfl <;> rfl

/-- The settings of a table have its name of the environment. -/
theorem environment_of_read (ordered : Ordered entries)
    (named : find? "environment" entries = some (.text written))
    (h : read origin (.table entries) = .ok s) : s.environment = written := by
  have again : read origin _ = _ := read_respelled ordered named written
  rw [ordered.put_found named, h] at again
  exact congrArg environment (Except.ok.inj again)

end Settings

end DecryptorNode.Config
