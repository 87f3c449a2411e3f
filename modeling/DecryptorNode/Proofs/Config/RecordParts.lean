import DecryptorNode.Proofs.Bytes.Encodings
import DecryptorNode.Proofs.Config.TidyTables

/-! What becomes of the raw values that a record is read from. Each part of the record comes from
the value of its own field, whatever the other fields hold, and there are no values but those of
fields. -/
namespace DecryptorNode.Config
open Entries (Ordered find?)

section Parts
variable {σ α : Type}

/-- The raw value of a field of a record: the one under its name in a table, or the one in its place
in an array. -/
def Value.member? (names : List String) (name : String) : Value → Option Value
  | .table entries => find? name entries
  | .list values => find? name (names.zip values)
  | _ => none

/-- A part of a record: the name of its field, what the raw value or the lack of one comes to, and
the place in the record. -/
structure Part (σ : Type) where
  name : String
  {kind : Type}
  settle : Option Value → Option kind
  get : σ → kind

namespace Part

def required (name : String) (read : Reader α) (get : σ → α) : Part σ where
  name := name
  settle raw := raw.bind fun v => (read .layers v).toOption
  get := get

def defaulting (name : String) (read : Reader α) (fallback : α) (get : σ → α) : Part σ where
  name := name
  settle
    | none => some fallback
    | some v => (read .layers v).toOption
  get := get

/-- The part of a record is what its raw value comes to. -/
def Holds (part : Part σ) (raw : Option Value) (record : σ) : Prop :=
  part.settle raw = some (part.get record)

/-- A field sets its own part of a record and no other. -/
structure Follows (part : Part σ) (field : Reader.Field σ) : Prop where
  own : part.name = field.name →
    (∀ v r r', field.read .layers v r = .ok r' → part.Holds (some v) r') ∧
    ∀ r r', field.absent r = some r' → part.Holds none r'
  other : part.name ≠ field.name →
    (∀ v r r', field.read .layers v r = .ok r' → part.get r' = part.get r) ∧
    ∀ r r', field.absent r = some r' → part.get r' = part.get r

variable {part : Part σ} {name : String} {read : Reader α} {set : α → σ → σ} {get : σ → α}
  {fallback : α}

private theorem exists_of_map {v : Value} {r r' : σ} (h : (set · r) <$> read .layers v = .ok r') :
    ∃ a, read .layers v = .ok a ∧ r' = set a r := by
  cases found : read .layers v with
  | error e =>
    rw [found] at h
    cases h
  | ok a =>
    rw [found] at h
    cases h
    exact ⟨a, rfl, rfl⟩

theorem follows_own (sets : ∀ a r, get (set a r) = a) :
    (required name read get).Follows (.required name read set) := by
  constructor
  · intro same
    constructor
    · intro v r r' h
      obtain ⟨a, found, rfl⟩ := exists_of_map h
      change (read .layers v).toOption = some (get (set a r))
      rw [found, sets]
      rfl
    · exact nofun
  · exact fun other => absurd rfl other

theorem follows_own_defaulting (sets : ∀ a r, get (set a r) = a) :
    (defaulting name read fallback get).Follows (.defaulting name read fallback set) := by
  constructor
  · intro same
    constructor
    · intro v r r' h
      obtain ⟨a, found, rfl⟩ := exists_of_map h
      change (read .layers v).toOption = some (get (set a r))
      rw [found, sets]
      rfl
    · intro r r' h
      cases h
      exact congrArg some (sets fallback r).symm
  · exact fun other => absurd rfl other

theorem follows_other (apart : part.name ≠ name)
    (keeps : ∀ a r, part.get (set a r) = part.get r) :
    part.Follows (.required name read set) := by
  constructor
  · exact fun same => absurd same apart
  · intro other
    constructor
    · intro v r r' h
      obtain ⟨a, -, rfl⟩ := exists_of_map h
      exact keeps a r
    · exact nofun

theorem follows_other_defaulting (apart : part.name ≠ name)
    (keeps : ∀ a r, part.get (set a r) = part.get r) :
    part.Follows (.defaulting name read fallback set) := by
  constructor
  · exact fun same => absurd same apart
  · intro other
    constructor
    · intro v r r' h
      obtain ⟨a, -, rfl⟩ := exists_of_map h
      exact keeps a r
    · intro r r' h
      cases h
      exact keeps fallback r

private theorem Holds.congr {raw : Option Value} {r r' : σ} (h : part.Holds raw r)
    (same : part.get r' = part.get r) : part.Holds raw r' := by
  rw [Holds, same]
  exact h

end Part

section Reading
variable {part : Part σ} {fields : List (Reader.Field σ)} {entries : Entries} {blank r r' : σ}

theorem Reader.under_eq_ok {key : String} {x : Except LoadError α} {a : α} :
    under key x = .ok a ↔ x = .ok a := by
  cases x <;> simp [under]

/-- The first entry that is visited is read by the field of its name. -/
private theorem Reader.visit_cons_eq_ok {key : String} {v : Value}
    (h : visit fields .layers ((key, v) :: entries) r = .ok r') :
    ∃ field ∈ fields, field.name = key ∧ ∃ next, field.read .layers v r = .ok next ∧
      visit fields .layers entries next = .ok r' := by
  obtain ⟨next, read, later⟩ := bind_eq_ok.mp h
  rw [under_eq_ok] at read
  split at read
  · rename_i field found
    exact ⟨field, List.mem_of_find?_eq_some found, by simpa using List.find?_some found, next,
      read, later⟩
  · cases read

/-- What is under the name of a part settles it, and if there is nothing the part stays. -/
private theorem Part.holds_of_visit (follows : ∀ field ∈ fields, part.Follows field)
    (ordered : Ordered entries) (h : Reader.visit fields .layers entries r = .ok r') :
    match find? part.name entries with
    | some v => part.Holds (some v) r'
    | none => part.get r' = part.get r := by
  induction entries generalizing r with
  | nil =>
    cases h
    rfl
  | cons entry rest ih =>
    obtain ⟨key, v⟩ := entry
    obtain ⟨field, known, rfl, next, read, later⟩ := Reader.visit_cons_eq_ok h
    have after := ih ordered.tail later
    rw [Entries.find?_cons]
    by_cases same : field.name = part.name
    · rw [if_pos same]
      rw [← same, ordered.find?_tail] at after
      exact (((follows field known).own same.symm).1 v r next read).congr after
    · rw [if_neg same]
      have kept := ((follows field known).other (Ne.symm same)).1 v r next read
      split at after
      · exact after
      · exact after.trans kept

private theorem Part.get_of_complete (follows : ∀ field ∈ fields, part.Follows field)
    (others : ∀ field ∈ fields, field.name = part.name → find? field.name entries ≠ none)
    (h : Reader.complete entries fields r = .ok r') : part.get r' = part.get r := by
  induction fields generalizing r with
  | nil =>
    cases h
    rfl
  | cons field rest ih =>
    obtain ⟨here, later⟩ := List.forall_mem_cons.mp follows
    obtain ⟨other, more⟩ := List.forall_mem_cons.mp others
    unfold Reader.complete at h
    split at h
    · exact ih later more h
    · rename_i missing
      have apart : part.name ≠ field.name := fun same => other same.symm missing
      split at h
      · rename_i next filled
        exact (ih later more h).trans ((here.other apart).2 _ _ filled)
      · cases h

/-- A part whose field is left out is what the lack of a value comes to. -/
private theorem Part.holds_of_complete (follows : ∀ field ∈ fields, part.Follows field)
    (distinct : (fields.map (·.name)).Nodup) (known : part.name ∈ fields.map (·.name))
    (missing : find? part.name entries = none) (h : Reader.complete entries fields r = .ok r') :
    part.Holds none r' := by
  induction fields generalizing r with
  | nil => cases known
  | cons field rest ih =>
    obtain ⟨here, later⟩ := List.forall_mem_cons.mp follows
    obtain ⟨fresh, distinct⟩ := List.nodup_cons.mp distinct
    unfold Reader.complete at h
    by_cases same : part.name = field.name
    · rw [← same, missing] at h
      dsimp only at h
      split at h
      · rename_i next filled
        refine ((here.own same).2 _ _ filled).congr (Part.get_of_complete later ?_ h)
        intro other mem again
        exact absurd (List.mem_map.mpr ⟨other, mem, again.trans same⟩) fresh
      · cases h
    · have there := (List.mem_cons.mp known).resolve_left same
      split at h
      · exact ih later distinct there h
      · split at h
        · exact ih later distinct there h
        · cases h

private theorem Part.get_of_positional {i : Nat} {values : List Value}
    (follows : ∀ field ∈ fields, part.Follows field)
    (others : ∀ field ∈ fields, field.name ≠ part.name)
    (h : Reader.positional .layers i fields values r = .ok r') : part.get r' = part.get r := by
  induction fields generalizing i values r with
  | nil => cases values <;> cases h <;> rfl
  | cons field rest ih =>
    obtain ⟨here, later⟩ := List.forall_mem_cons.mp follows
    obtain ⟨other, more⟩ := List.forall_mem_cons.mp others
    cases values with
    | nil => cases h
    | cons v values =>
      obtain ⟨next, read, after⟩ := bind_eq_ok.mp h
      rw [Reader.under_eq_ok] at read
      exact (ih later more after).trans ((here.other (Ne.symm other)).1 _ _ _ read)

/-- In an array the element in the place of a field settles its part. -/
private theorem Part.holds_of_positional {i : Nat} {values : List Value}
    (follows : ∀ field ∈ fields, part.Follows field)
    (distinct : (fields.map (·.name)).Nodup) (known : part.name ∈ fields.map (·.name))
    (h : Reader.positional .layers i fields values r = .ok r') :
    part.Holds (find? part.name ((fields.map (·.name)).zip values)) r' := by
  induction fields generalizing i values r with
  | nil => cases known
  | cons field rest ih =>
    obtain ⟨here, later⟩ := List.forall_mem_cons.mp follows
    obtain ⟨fresh, distinct⟩ := List.nodup_cons.mp distinct
    cases values with
    | nil => cases h
    | cons v values =>
      obtain ⟨next, read, after⟩ := bind_eq_ok.mp h
      rw [Reader.under_eq_ok] at read
      rw [List.map_cons, List.zip_cons_cons, Entries.find?_cons]
      by_cases same : field.name = part.name
      · rw [if_pos same]
        refine ((here.own same.symm).1 _ _ _ read).congr (Part.get_of_positional later ?_ after)
        intro other mem again
        exact fresh (List.mem_map.mpr ⟨other, mem, again.trans same.symm⟩)
      · rw [if_neg same]
        exact ih later distinct ((List.mem_cons.mp known).resolve_left (Ne.symm same)) after

/-- Every part of a record that is read is what its own raw value comes to. -/
theorem Part.holds_of_record {v : Value} (follows : ∀ field ∈ fields, part.Follows field)
    (distinct : (fields.map (·.name)).Nodup) (known : part.name ∈ fields.map (·.name))
    (tidy : v.Tidy) (h : Reader.record blank fields .layers v = .ok r) :
    part.Holds (v.member? (fields.map (·.name)) part.name) r := by
  cases v with
  | table entries =>
    obtain ⟨found, visited, completed⟩ := bind_eq_ok.mp h
    have settled := Part.holds_of_visit follows (Value.tidy_table.mp tidy).ordered visited
    rw [Value.member?]
    cases raw : find? part.name entries with
    | none => exact Part.holds_of_complete follows distinct known raw completed
    | some w =>
      rw [raw] at settled
      refine settled.congr (Part.get_of_complete follows ?_ completed)
      intro field mem same
      rw [same, raw]
      exact nofun
  | list values => exact Part.holds_of_positional follows distinct known h
  | _ => cases h

end Reading
end Parts

section Keys
variable {σ α : Type}

def recordPaths (inner : List (String × List (List String))) : List (List String) :=
  [] :: inner.flatMap fun (name, paths) => paths.map (name :: ·)

def leafPaths : List (List String) := [[]]

/-- What is read has values at these paths of keys only. -/
def Reader.Knows (paths : List (List String)) (read : Reader α) : Prop :=
  ∀ v a, read .layers v = .ok a → ∀ path w, v.at? path = some w → path ∈ paths

def Reader.Field.Knows (paths : List (List String)) (field : Reader.Field σ) : Prop :=
  ∀ v r r', field.read .layers v r = .ok r' → ∀ path w, v.at? path = some w → path ∈ paths

/-- What is not read from tables has no keys. -/
theorem Reader.knows_leaf {read : Reader α}
    (whole : ∀ entries a, read .layers (.table entries) ≠ .ok a) : Knows leafPaths read := by
  intro v a h path w found
  cases path with
  | nil => exact List.mem_singleton_self _
  | cons key path =>
    cases v with
    | table entries => exact absurd h (whole entries a)
    | _ => cases found

variable {name : String} {paths : List (List String)} {read : Reader α} {set : α → σ → σ}
  {fallback : α}

theorem Reader.Field.knows_required (h : Reader.Knows paths read) :
    (Reader.Field.required name read set).Knows paths := by
  intro v r r' changed
  obtain ⟨a, found, -⟩ := Part.exists_of_map changed
  exact h v a found

theorem Reader.Field.knows_defaulting (h : Reader.Knows paths read) :
    (Reader.Field.defaulting name read fallback set).Knows paths := by
  intro v r r' changed
  obtain ⟨a, found, -⟩ := Part.exists_of_map changed
  exact h v a found

private theorem Reader.read_of_visit {fields : List (Reader.Field σ)} {entries : Entries} {r r' : σ}
    (h : visit fields .layers entries r = .ok r') :
    ∀ entry ∈ entries, ∃ field ∈ fields, field.name = entry.1 ∧
      ∃ before after, field.read .layers entry.2 before = .ok after := by
  induction entries generalizing r with
  | nil => exact nofun
  | cons entry rest ih =>
    obtain ⟨field, known, named, next, read, later⟩ := visit_cons_eq_ok h
    exact List.forall_mem_cons.mpr ⟨⟨field, known, named, r, next, read⟩, ih later⟩

def Reader.Field.Matches (field : Reader.Field σ) (entry : String × List (List String)) : Prop :=
  field.name = entry.1 ∧ field.Knows entry.2

private theorem Reader.Field.exists_matching {fields : List (Reader.Field σ)}
    {inner : List (String × List (List String))} (h : List.Forall₂ Matches fields inner)
    {field : Reader.Field σ} (known : field ∈ fields) : ∃ entry ∈ inner, field.Matches entry := by
  induction h with
  | nil => cases known
  | cons here later ih =>
    rcases List.mem_cons.mp known with rfl | mem
    · exact ⟨_, List.mem_cons_self, here⟩
    · obtain ⟨entry, inside, fits⟩ := ih mem
      exact ⟨entry, List.mem_cons_of_mem _ inside, fits⟩

/-- A record has no keys but those of its fields. -/
theorem Reader.knows_record {fields : List (Reader.Field σ)} {blank : σ}
    {inner : List (String × List (List String))}
    (h : List.Forall₂ Reader.Field.Matches fields inner) :
    Knows (recordPaths inner) (record blank fields) := by
  intro v r read path w found
  cases path with
  | nil => exact List.mem_cons_self
  | cons key path =>
    cases v with
    | table entries =>
      obtain ⟨r', visited, -⟩ := bind_eq_ok.mp read
      obtain ⟨u, here, below⟩ := Option.bind_eq_some_iff.mp found
      obtain ⟨field, known, named, before, after, inside⟩ :=
        read_of_visit visited _ (Entries.mem_of_find? here)
      obtain ⟨⟨name, paths⟩, listed, same, knows⟩ := Reader.Field.exists_matching h known
      dsimp only at named same
      rw [← named, same]
      exact List.mem_cons_of_mem _ (List.mem_flatMap.mpr ⟨_, listed,
        List.mem_map_of_mem (knows u before after inside path w below)⟩)
    | _ => cases found

end Keys
end DecryptorNode.Config
