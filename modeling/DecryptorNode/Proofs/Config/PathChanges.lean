import DecryptorNode.Proofs.Config.Layering

/-! Another value at a path in one layer. If no layer above says anything about the path, the whole
changes at that path and nowhere else. -/
namespace DecryptorNode.Config.Value
open Entries (Ordered find? put)

/-- Values that are the same but for what they have at a path, where both have something. -/
inductive SameBut : List String → Value → Value → Prop where
  | here (v w : Value) : SameBut [] v w
  | under {key : String} {path : List String} {entries : Entries} {v w : Value}
      (found : find? key entries = some v) (inner : SameBut path v w) :
      SameBut (key :: path) (.table entries) (.table (put key w entries))

variable {path : List String} {v w lower upper lower' upper' : Value}

theorem sameBut_nested (path : List String) (v w : Value) :
    SameBut path (nested path v) (nested path w) := by
  induction path with
  | nil => exact .here v w
  | cons key path ih =>
    have single : put key (nested path w) [(key, nested path v)] = [(key, nested path w)] := by
      rw [put, if_neg (String.lt_irrefl key), if_pos rfl]
    have entry : find? key [(key, nested path v)] = some (nested path v) := if_pos rfl
    have inside := SameBut.under entry ih
    rw [single] at inside
    exact inside

theorem at?_nested (path : List String) (v : Value) : (nested path v).at? path = some v := by
  induction path with
  | nil => rfl
  | cons key path ih =>
    change (find? key [(key, nested path v)]).bind (at? path) = some v
    rw [Entries.find?_cons, if_pos rfl]
    exact ih

theorem SameBut.exists_at? (h : SameBut path v w) : ∃ found, w.at? path = some found := by
  induction h with
  | here v w => exact ⟨w, rfl⟩
  | under found inner ih =>
    obtain ⟨deep, reached⟩ := ih
    refine ⟨deep, Option.bind_eq_some_iff.mpr ⟨_, ?_, reached⟩⟩
    rw [Entries.find?_put, if_pos rfl]

theorem decides_of_at? (h : v.at? path = some w) : v.decides path = true :=
  decides_iff.mpr (.inl ⟨w, h⟩)

theorem leaf?_nested : (nested path v).leaf? path = v.leaf? [] := by
  rw [leaf?, at?_nested]
  rfl

/-- Tables are the same but for a path if they are so under its first key and have the same under
all others. -/
private theorem sameBut_tables {key : String} {entries entries' : Entries}
    (ordered : Ordered entries) (ordered' : Ordered entries') (found : find? key entries = some v)
    (found' : find? key entries' = some w) (inner : SameBut path v w)
    (others : ∀ other, key ≠ other → find? other entries' = find? other entries) :
    SameBut (key :: path) (table entries) (table entries') := by
  have changed : entries' = put key w entries := by
    refine ordered'.ext (ordered.put key w) fun other => ?_
    rw [Entries.find?_put]
    by_cases same : key = other
    · rw [if_pos same, ← same, found']
    · rw [if_neg same, others other same]
  rw [changed]
  exact .under found inner

private theorem find?_put_other {key : String} {entries : Entries} (other : String)
    (apart : key ≠ other) : find? other (put key w entries) = find? other entries := by
  rw [Entries.find?_put, if_neg apart]

/-- Tables laid over each other, of which the lower or the upper is another one but only for a path,
are the same but for it. -/
private theorem sameBut_laid {key : String} {low low' high high' : Entries} (below : Ordered low)
    (below' : Ordered low') (above : Ordered high) (above' : Ordered high')
    (found : cover (find? key low) (find? key high) = some v)
    (found' : cover (find? key low') (find? key high') = some w) (inner : SameBut path v w)
    (lows : ∀ other, key ≠ other → find? other low' = find? other low)
    (highs : ∀ other, key ≠ other → find? other high' = find? other high) :
    SameBut (key :: path) (overlay (table low) (table high))
      (overlay (table low') (table high')) := by
  rw [overlay, overlay]
  refine sameBut_tables (below.overlayEntries _) (below'.overlayEntries _) ?_ ?_ inner ?_
  · rw [find?_overlayEntries above, found]
  · rw [find?_overlayEntries above', found']
  · intro other apart
    rw [find?_overlayEntries above', find?_overlayEntries above, lows other apart,
      highs other apart]

/-- Laid on the same value, they are still the same elsewhere. -/
theorem SameBut.onto (h : SameBut path upper upper') (tidy : upper.Tidy) (tidy' : upper'.Tidy)
    (low : lower.Tidy) : SameBut path (overlay lower upper) (overlay lower upper') := by
  induction h generalizing lower with
  | here => exact .here _ _
  | @under key path entries v w found inner ih =>
    cases base : lower.isTable with
    | false =>
      have plain := ne_table_of_plain base
      rw [overlay_onto_plain plain, overlay_onto_plain plain]
      exact .under found inner
    | true =>
      obtain ⟨entries', rfl⟩ := exists_table base
      have sound := tidy_table.mp tidy
      have sound' := tidy_table.mp tidy'
      have orderly := tidy_table.mp low
      have here : find? key (put key w entries) = some w := by rw [Entries.find?_put, if_pos rfl]
      cases below : find? key entries' with
      | none =>
        refine sameBut_laid orderly.ordered orderly.ordered sound.ordered sound'.ordered ?_ ?_
          inner (fun _ _ => rfl) fun _ => find?_put_other _
        · rw [below, found, cover]
        · rw [below, here, cover]
      | some old =>
        have deep := ih (sound.find? found) (sound'.find? here) (orderly.find? below)
        refine sameBut_laid orderly.ordered orderly.ordered sound.ordered sound'.ordered ?_ ?_
          deep (fun _ _ => rfl) fun _ => find?_put_other _
        · rw [below, found, cover]
        · rw [below, here, cover]

/-- Under the same value, which says nothing about the path, they are still the same elsewhere. -/
theorem SameBut.beneath (h : SameBut path lower lower') (tidy : lower.Tidy) (tidy' : lower'.Tidy)
    (high : upper.Tidy) (silent : upper.decides path = false) :
    SameBut path (overlay lower upper) (overlay lower' upper) := by
  induction h generalizing upper with
  | here => cases silent
  | @under key path entries v w found inner ih =>
    cases parted : upper.isTable with
    | false =>
      rw [decides_plain parted] at silent
      cases silent
    | true =>
      obtain ⟨entries', rfl⟩ := exists_table parted
      have sound := tidy_table.mp tidy
      have sound' := tidy_table.mp tidy'
      have orderly := tidy_table.mp high
      have here : find? key (put key w entries) = some w := by rw [Entries.find?_put, if_pos rfl]
      rw [decides] at silent
      cases above : find? key entries' with
      | none =>
        refine sameBut_laid sound.ordered sound'.ordered orderly.ordered orderly.ordered ?_ ?_
          inner (fun _ => find?_put_other _) fun _ _ => rfl
        · rw [above, found, cover]
        · rw [above, here, cover]
      | some new =>
        rw [above] at silent
        have deep := ih (sound.find? found) (sound'.find? here) (orderly.find? above) silent
        refine sameBut_laid sound.ordered sound'.ordered orderly.ordered orderly.ordered ?_ ?_
          deep (fun _ => find?_put_other _) fun _ _ => rfl
        · rw [above, found, cover]
        · rw [above, here, cover]

/-- Layers that differ at a path in one of them come to values that differ at that path only, if the
layers above say nothing about it. -/
theorem SameBut.merged {below above : List Value} (h : SameBut path v w) (tidy : v.Tidy)
    (tidy' : w.Tidy) (low : ∀ layer ∈ below, layer.Tidy) (high : ∀ layer ∈ above, layer.Tidy)
    (silent : ∀ layer ∈ above, layer.decides path = false) :
    SameBut path (merged (below ++ v :: above)) (merged (below ++ w :: above)) := by
  have base := tidy_merged low
  rw [Config.merged] at base ⊢
  rw [Config.merged, List.foldl_append, List.foldl_append, List.foldl_cons, List.foldl_cons]
  have start := h.onto tidy tidy' base
  have first := base.overlay tidy
  have second := base.overlay tidy'
  generalize overlay _ v = x at start first ⊢
  generalize overlay _ w = y at start second ⊢
  induction above generalizing x y with
  | nil => exact start
  | cons layer rest ih =>
    obtain ⟨here, later⟩ := List.forall_mem_cons.mp high
    obtain ⟨unsaid, unsaids⟩ := List.forall_mem_cons.mp silent
    exact ih later unsaids _ (first.overlay here) _ (start.beneath first second here unsaid)
      (second.overlay here)

end DecryptorNode.Config.Value
