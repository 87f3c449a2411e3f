import DecryptorNode.Proofs.Config.TidyDocuments

/-! Layers of settings. A layer covers another key by key, and what is found under a key is made of
what each layer has there. -/
namespace DecryptorNode.Config

section Overlay
open Entries (Ordered find?)

def cover : Option Value → Option Value → Option Value
  | found, none => found
  | none, some v => some v
  | some old, some v => some (.overlay old v)

@[simp] theorem cover_none (found : Option Value) : cover found none = found := by
  cases found <;> rfl

/-- A text covers whatever was there. -/
@[simp] theorem cover_text (found : Option Value) (text : String) :
    cover found (some (.text text)) = some (.text text) := by
  cases found with
  | none => rfl
  | some old =>
    have whole : ∀ entries, Value.text text ≠ .table entries := by
      intro entries same
      cases same
    rw [cover, Value.overlay_plain whole]

variable {key : String} {lower upper : Entries}

theorem Entries.Ordered.overlayEntries (h : Ordered lower) (upper : Entries) :
    Ordered (Value.overlayEntries lower upper) := by
  induction upper generalizing lower with
  | nil => rwa [Value.overlayEntries]
  | cons entry rest ih =>
    rw [Value.overlayEntries]
    exact ih (h.put ..)

/-- A layer covers others key by key. -/
theorem find?_overlayEntries (ordered : Ordered upper) :
    find? key (Value.overlayEntries lower upper) = cover (find? key lower) (find? key upper) := by
  induction upper generalizing lower with
  | nil => rw [Value.overlayEntries, Entries.find?_nil, cover_none]
  | cons entry rest ih =>
    obtain ⟨k, v⟩ := entry
    rw [Value.overlayEntries, ih ordered.tail, Entries.find?_put, Entries.find?_cons]
    by_cases same : k = key
    · subst same
      rw [if_pos rfl, if_pos rfl, ordered.find?_tail, cover_none]
      cases find? k lower <;> rfl
    · rw [if_neg same, if_neg same]

def stacked (layers : List Entries) : Entries := layers.foldl Value.overlayEntries []

variable {layers : List Entries}

theorem merged_tables (layers : List Entries) :
    merged (layers.map .table) = .table (stacked layers) := by
  unfold merged stacked
  generalize ([] : Entries) = base
  induction layers generalizing base with
  | nil => rfl
  | cons layer rest ih =>
    rw [List.map_cons, List.foldl_cons, List.foldl_cons, Value.overlay, ih]

theorem ordered_stacked (layers : List Entries) : Ordered (stacked layers) := by
  unfold stacked
  have ordered := Entries.ordered_nil (α := Value)
  generalize ([] : Entries) = base at ordered ⊢
  induction layers generalizing base with
  | nil => exact ordered
  | cons layer rest ih => exact ih _ (ordered.overlayEntries layer)

private theorem find?_stacked (ordered : ∀ layer ∈ layers, Ordered layer) :
    find? key (stacked layers) = (layers.map (find? key)).foldl cover none := by
  unfold stacked
  rw [← Entries.find?_nil key]
  generalize ([] : Entries) = base
  induction layers generalizing base with
  | nil => rfl
  | cons layer rest ih =>
    rw [List.foldl_cons, ih (fun l mem => ordered l (List.mem_cons_of_mem _ mem)),
      find?_overlayEntries (ordered layer List.mem_cons_self), List.map_cons, List.foldl_cons]

/-- Layers without a key leave what is found under it. -/
private theorem foldl_cover_unset (unset : ∀ layer ∈ layers, find? key layer = none)
    (found : Option Value) : (layers.map (find? key)).foldl cover found = found := by
  induction layers with
  | nil => rfl
  | cons layer rest ih =>
    rw [List.map_cons, List.foldl_cons, unset layer List.mem_cons_self, cover_none]
    exact ih fun l mem => unset l (List.mem_cons_of_mem _ mem)

variable {below below' above : List Entries} {chosen : Entries} {text : String}

/-- A text is found where no layer above it has the key. -/
theorem find?_stacked_text (ordered : ∀ layer ∈ below ++ chosen :: above, Ordered layer)
    (here : find? key chosen = some (.text text))
    (unset : ∀ layer ∈ above, find? key layer = none) :
    find? key (stacked (below ++ chosen :: above)) = some (.text text) := by
  rw [find?_stacked ordered, List.map_append, List.foldl_append, List.map_cons, List.foldl_cons,
    here, cover_text, foldl_cover_unset unset]

/-- Another text in one layer shows in the whole if no layer above has the key. What the layers
below have there makes no difference. -/
theorem stacked_put (ordered : ∀ layer ∈ below ++ chosen :: above, Ordered layer)
    (ordered' : ∀ layer ∈ below', Ordered layer)
    (same : ∀ other, other ≠ key → below'.map (find? other) = below.map (find? other))
    (unset : ∀ layer ∈ above, find? key layer = none) :
    stacked (below' ++ Entries.put key (.text text) chosen :: above) =
      Entries.put key (.text text) (stacked (below ++ chosen :: above)) := by
  have orderly : ∀ layer ∈ below' ++ Entries.put key (.text text) chosen :: above,
      Ordered layer := by
    intro layer mem
    rcases List.mem_append.mp mem with low | high
    · exact ordered' layer low
    · rcases List.mem_cons.mp high with rfl | higher
      · exact (ordered chosen (List.mem_append_right _ List.mem_cons_self)).put _ _
      · exact ordered layer (List.mem_append_right _ (List.mem_cons_of_mem _ higher))
  refine (ordered_stacked _).ext ((ordered_stacked _).put _ _) fun other => ?_
  rw [Entries.find?_put]
  by_cases here : key = other
  · subst here
    rw [if_pos rfl]
    refine find?_stacked_text orderly ?_ unset
    rw [Entries.find?_put, if_pos rfl]
  · rw [if_neg here, find?_stacked orderly, find?_stacked ordered]
    simp only [List.map_append, List.map_cons, Entries.find?_put, if_neg here,
      same other (Ne.symm here)]

end Overlay

section Leaves
open Entries (find?)

namespace Value

def isTable : Value → Bool
  | .table _ => true
  | _ => false

/-- The value at a path that is no table. -/
def leaf? (path : List String) (v : Value) : Option Value := (v.at? path).filter (!·.isTable)

/-- Whether a value sets a path, or something above it that is no table. -/
def decides : List String → Value → Bool
  | [], _ => true
  | key :: path, .table entries => (find? key entries).any (decides path)
  | _ :: _, _ => true

variable {key : String} {path : List String} {entries : Entries} {lower upper v : Value}

theorem leaf?_nil : v.leaf? [] = if v.isTable then none else some v := by
  unfold leaf? at?
  cases v <;> rfl

private theorem leaf?_table : (Value.table entries).leaf? (key :: path) =
    (find? key entries).bind (leaf? path) := by
  unfold leaf?
  rw [at?]
  cases find? key entries <;> rfl

private theorem leaf?_plain (whole : v.isTable = false) : v.leaf? (key :: path) = none := by
  cases v with
  | table entries => cases whole
  | _ => rfl

theorem decides_plain (whole : v.isTable = false) : v.decides path = true := by
  cases path with
  | nil => rfl
  | cons key path =>
    cases v with
    | table entries => cases whole
    | _ => rfl

theorem ne_table_of_plain (whole : v.isTable = false) (entries : Entries) : v ≠ .table entries := by
  rintro rfl
  cases whole

theorem exists_table (parted : v.isTable = true) : ∃ entries, v = .table entries := by
  cases v with
  | table entries => exact ⟨entries, rfl⟩
  | _ => cases parted

/-- A value decides a path just if it has something there, or something above it that is no
table. -/
theorem decides_iff : v.decides path = true ↔ (∃ w, v.at? path = some w) ∨
    ∃ above below, path = above ++ below ∧ (v.leaf? above).isSome = true := by
  induction path generalizing v with
  | nil => exact ⟨fun _ => .inl ⟨v, rfl⟩, fun _ => rfl⟩
  | cons key path ih =>
    cases whole : v.isTable with
    | false =>
      refine ⟨fun _ => .inr ⟨[], key :: path, rfl, ?_⟩, fun _ => decides_plain whole⟩
      rw [leaf?_nil, whole]
      rfl
    | true =>
      obtain ⟨entries, rfl⟩ := exists_table whole
      have parted {above below : List String} (split : key :: path = above ++ below)
          (held : ((table entries).leaf? above).isSome = true) :
          ∃ rest, path = rest ++ below ∧ ((find? key entries).bind (leaf? rest)).isSome = true := by
        cases above with
        | nil => cases held
        | cons k rest =>
          obtain ⟨rfl, same⟩ := List.cons.inj split
          exact ⟨rest, same, leaf?_table ▸ held⟩
      rw [decides, at?]
      cases found : find? key entries with
      | none =>
        refine ⟨nofun, ?_⟩
        rintro (⟨w, reached⟩ | ⟨above, below, split, held⟩)
        · cases reached
        · obtain ⟨rest, -, held⟩ := parted split held
          rw [found] at held
          cases held
      | some inner =>
        refine (ih (v := inner)).trans (or_congr Iff.rfl ⟨?_, ?_⟩)
        · rintro ⟨above, below, rfl, held⟩
          refine ⟨key :: above, below, rfl, ?_⟩
          rw [leaf?_table, found]
          exact held
        · rintro ⟨above, below, split, held⟩
          obtain ⟨rest, same, held⟩ := parted split held
          rw [found] at held
          exact ⟨rest, below, same, held⟩

private theorem leaf?_of_not_decides (h : v.decides path = false) : v.leaf? path = none := by
  induction path generalizing v with
  | nil => cases h
  | cons key path ih =>
    cases v with
    | table entries =>
      rw [leaf?_table]
      rw [decides] at h
      cases found : find? key entries with
      | none => rfl
      | some inner =>
        rw [found] at h
        exact ih h
    | _ => cases h

private theorem isTable_overlay : (overlay lower (.table entries)).isTable = true := by
  cases base : lower.isTable with
  | false =>
    rw [overlay_onto_plain (ne_table_of_plain base)]
    rfl
  | true =>
    obtain ⟨low, rfl⟩ := exists_table base
    rw [overlay]
    rfl

/-- What a layer has at a path, or in its way, decides over what it is laid on. -/
theorem leaf?_overlay (tidy : upper.Tidy) : (overlay lower upper).leaf? path =
    if upper.decides path then upper.leaf? path else lower.leaf? path := by
  induction path generalizing lower upper with
  | nil =>
    rw [decides, if_pos rfl]
    cases whole : upper.isTable with
    | false => rw [overlay_plain (ne_table_of_plain whole)]
    | true =>
      obtain ⟨high, rfl⟩ := exists_table whole
      rw [leaf?_nil, leaf?_nil, isTable_overlay, whole]
      rfl
  | cons key path ih =>
    cases whole : upper.isTable with
    | false => rw [overlay_plain (ne_table_of_plain whole), decides_plain whole, if_pos rfl]
    | true =>
      obtain ⟨high, rfl⟩ := exists_table whole
      have sound := tidy_table.mp tidy
      have silent : ¬ (table high).decides (key :: path) = true →
          (table high).leaf? (key :: path) = none := fun undecided =>
        leaf?_of_not_decides (Bool.eq_false_iff.mpr undecided)
      cases base : lower.isTable with
      | false =>
        rw [overlay_onto_plain (ne_table_of_plain base), leaf?_plain base]
        split
        · rfl
        · exact silent ‹_›
      | true =>
        obtain ⟨low, rfl⟩ := exists_table base
        rw [overlay, leaf?_table, find?_overlayEntries sound.ordered]
        rw [leaf?_table, decides] at silent ⊢
        rw [leaf?_table]
        cases above : find? key high with
        | none =>
          rw [cover_none]
          rfl
        | some inner =>
          cases below : find? key low with
          | none =>
            rw [above] at silent
            split
            · rfl
            · exact silent ‹_›
          | some old => exact ih (sound.find? above)

/-- The layers that say nothing about a path leave it as it was. -/
private theorem leaf?_foldl_of_silent {layers : List Value} (tidy : ∀ layer ∈ layers, layer.Tidy)
    (silent : ∀ layer ∈ layers, layer.decides path = false) (base : Value) :
    (layers.foldl overlay base).leaf? path = base.leaf? path := by
  induction layers generalizing base with
  | nil => rfl
  | cons layer rest ih =>
    obtain ⟨here, others⟩ := List.forall_mem_cons.mp tidy
    obtain ⟨unsaid, unsaids⟩ := List.forall_mem_cons.mp silent
    rw [List.foldl_cons, ih others unsaids, leaf?_overlay here, unsaid, if_neg Bool.false_ne_true]

/-- The highest layer that says something about a path decides it, whatever lies below. -/
theorem leaf?_merged_of_highest {chosen : Value} {above : List Value} (tidy : chosen.Tidy)
    (tidies : ∀ layer ∈ above, layer.Tidy) (said : chosen.decides path = true)
    (silent : ∀ layer ∈ above, layer.decides path = false) (below : List Value) :
    (merged (below ++ chosen :: above)).leaf? path = chosen.leaf? path := by
  rw [merged, List.foldl_append, List.foldl_cons, leaf?_foldl_of_silent tidies silent,
    leaf?_overlay tidy, if_pos said]

theorem leaf?_merged_of_silent {layers : List Value} (tidy : ∀ layer ∈ layers, layer.Tidy)
    (silent : ∀ layer ∈ layers, layer.decides path = false) :
    (merged layers).leaf? path = none := by
  rw [merged, leaf?_foldl_of_silent tidy silent]
  cases path with
  | nil => rfl
  | cons key path => rfl

/-- Of any layers, either one is the highest that says something about a path, or none says
anything. -/
theorem exists_highest (path : List String) (layers : List Value) :
    (∃ below chosen above, layers = below ++ chosen :: above ∧ chosen.decides path = true ∧
      ∀ layer ∈ above, layer.decides path = false) ∨
    ∀ layer ∈ layers, layer.decides path = false := by
  induction layers with
  | nil => exact .inr nofun
  | cons layer rest ih =>
    rcases ih with ⟨below, chosen, above, rfl, said, silent⟩ | silent
    · exact .inl ⟨layer :: below, chosen, above, rfl, said, silent⟩
    · cases said : layer.decides path with
      | true => exact .inl ⟨[], layer, rest, rfl, said, silent⟩
      | false => exact .inr (List.forall_mem_cons.mpr ⟨said, silent⟩)

end Value
end Leaves

def OrderedTable (v : Value) (entries : Entries) : Prop :=
  v = .table entries ∧ Entries.Ordered entries

theorem Settings.exists_orderedTable (s : Settings) : ∃ entries, OrderedTable s.toValue entries :=
  ⟨_, rfl, Entries.ordered_ofList _⟩

theorem exists_orderedTable_of_fileLayer {s : Surroundings} {path : String} {v : Value}
    (h : fileLayer s path = .ok v) : ∃ entries, OrderedTable v entries := by
  unfold fileLayer at h
  cases held : s.files.find path with
  | document text =>
    rw [held] at h
    cases parsed : Toml.parse? text with
    | none =>
      simp only [FileEntry.settings?, parsed] at h
      cases h
    | some entries =>
      simp only [FileEntry.settings?, parsed] at h
      cases h
      exact ⟨entries, rfl, Toml.ordered_of_parse? parsed⟩
  | directory =>
    rw [held] at h
    cases h
    exact ⟨[], rfl, Entries.ordered_nil⟩
  | absent =>
    rw [held] at h
    cases h
    exact ⟨[], rfl, Entries.ordered_nil⟩

private theorem Variable.exists_table_of_setting? {x : Variable} {v : Value}
    (h : x.setting? = some v) : ∃ entries, v = .table entries := by
  obtain ⟨path, named, rfl⟩ := Option.map_eq_some_iff.mp h
  obtain ⟨rest, -, named⟩ := Option.bind_eq_some_iff.mp named
  obtain ⟨-, named⟩ := Option.ite_none_left_eq_some.mp named
  cases keys : (Text.trim (withDots rest)).splitOn '.' with
  | nil => exact absurd keys (List.splitOnP_ne_nil _ _)
  | cons key more =>
    rw [keys] at named
    cases named
    exact ⟨_, rfl⟩

theorem exists_tables {values : List Value} (h : ∀ v ∈ values, ∃ entries, v = .table entries) :
    ∃ layers : List Entries, values = layers.map .table := by
  induction values with
  | nil => exact ⟨[], rfl⟩
  | cons v rest ih =>
    obtain ⟨entries, rfl⟩ := h v List.mem_cons_self
    obtain ⟨layers, rfl⟩ := ih fun w mem => h w (List.mem_cons_of_mem _ mem)
    exact ⟨entries :: layers, rfl⟩

theorem Variable.exists_orderedTable (l : List Variable) :
    ∃ entries, OrderedTable (settings l) entries := by
  obtain ⟨layers, tables⟩ : ∃ layers : List Entries, l.filterMap setting? = layers.map .table :=
    exists_tables fun v mem => by
      obtain ⟨x, -, made⟩ := List.mem_filterMap.mp mem
      exact exists_table_of_setting? made
  refine ⟨stacked layers, ?_, ordered_stacked layers⟩
  rw [← merged_tables, ← tables]
  rfl

end DecryptorNode.Config
