import DecryptorNode.Proofs.Config.TidyTables

/-! Whatever settings are read from or written as, their tables keep their keys in order: documents,
the texts of variables, and the settings that an environment starts from. -/
namespace DecryptorNode.Config

namespace Toml

/-- Branches that come to tidy values. -/
inductive Tree.Tidy : Tree → Prop where
  | leaf {v : Value} (h : v.Tidy) : Tidy (.leaf v)
  | table {maker : Maker} {branches : Branches} (ordered : Entries.Ordered branches)
      (inner : ∀ branch ∈ branches, Tidy branch.2) : Tidy (.table maker branches)
  | rows {earlier : List Value} {last : Branches} (closed : ∀ v ∈ earlier, v.Tidy)
      (ordered : Entries.Ordered last) (inner : ∀ branch ∈ last, Tidy branch.2) :
      Tidy (.rows earlier last)

private theorem Tree.tidy_table {maker : Maker} {branches : Branches} :
    (Tree.table maker branches).Tidy ↔ Entries.All Tidy branches := by
  constructor
  · intro h
    cases h with
    | table ordered inner => exact ⟨ordered, inner⟩
  · rintro ⟨ordered, inner⟩
    exact .table ordered inner

private theorem Tree.tidy_rows {earlier : List Value} {last : Branches} :
    (Tree.rows earlier last).Tidy ↔ (∀ v ∈ earlier, v.Tidy) ∧ Entries.All Tidy last := by
  constructor
  · intro h
    cases h with
    | rows closed ordered inner => exact ⟨closed, ordered, inner⟩
  · rintro ⟨closed, ordered, inner⟩
    exact .rows closed ordered inner

private theorem toEntries_eq_map (branches : Branches) :
    Tree.toEntries branches = branches.map fun branch => (branch.1, branch.2.toValue) := by
  induction branches with
  | nil => rfl
  | cons branch rest ih => rw [List.map_cons, ← ih, Tree.toEntries]

private theorem tidy_toEntries {branches : Branches} (ordered : Entries.Ordered branches)
    (inner : ∀ branch ∈ branches, branch.2.toValue.Tidy) :
    (Value.table (Tree.toEntries branches)).Tidy := by
  rw [toEntries_eq_map]
  refine .table (List.pairwise_map.mpr ordered) fun entry mem => ?_
  obtain ⟨branch, old, rfl⟩ := List.mem_map.mp mem
  exact inner branch old

private theorem Tree.Tidy.toValue {t : Tree} (h : t.Tidy) : t.toValue.Tidy := by
  induction h with
  | leaf h => rwa [Tree.toValue]
  | table ordered inner ih =>
    rw [Tree.toValue]
    exact tidy_toEntries ordered ih
  | rows closed ordered inner ih =>
    rw [Tree.toValue]
    refine .list fun v mem => ?_
    rcases List.mem_append.mp mem with old | new
    · exact closed v old
    · cases List.mem_singleton.mp new
      exact tidy_toEntries ordered ih

private theorem Tree.tidy_all {branches : Branches} (h : Entries.All Tidy branches) :
    (Value.table (Tree.toEntries branches)).Tidy :=
  tidy_toEntries h.ordered fun branch mem => (h.inner branch mem).toValue

def KeepsTidy (change : Branches → Option Branches) : Prop :=
  ∀ branches branches', Entries.All Tree.Tidy branches → change branches = some branches' →
    Entries.All Tree.Tidy branches'

private theorem keepsTidy_within (path : List String) {change : Branches → Option Branches}
    (h : KeepsTidy change) : KeepsTidy (Branches.within path change) := by
  induction path with
  | nil => exact h
  | cons key path ih =>
    intro branches branches' tidy grown
    obtain ⟨t, grows, rfl⟩ := Option.map_eq_some_iff.mp grown
    refine tidy.put key ?_
    split at grows
    · obtain ⟨inner, changed, rfl⟩ := Option.map_eq_some_iff.mp grows
      exact Tree.tidy_table.mpr (ih _ _ .nil changed)
    · rename_i maker old found
      obtain ⟨inner, changed, rfl⟩ := Option.map_eq_some_iff.mp grows
      exact Tree.tidy_table.mpr (ih _ _ (Tree.tidy_table.mp (tidy.find? found)) changed)
    · rename_i earlier last found
      obtain ⟨inner, changed, rfl⟩ := Option.map_eq_some_iff.mp grows
      obtain ⟨closed, latest⟩ := Tree.tidy_rows.mp (tidy.find? found)
      exact Tree.tidy_rows.mpr ⟨closed, ih _ _ latest changed⟩
    · cases grows

private theorem keepsTidy_openTable (path : List String) (key : String) :
    KeepsTidy (Branches.openTable path key) := by
  refine keepsTidy_within path fun branches branches' tidy h => ?_
  split at h
  · cases h
    exact tidy.put key (Tree.tidy_table.mpr .nil)
  · rename_i inner found
    cases h
    exact tidy.put key (Tree.tidy_table.mpr (Tree.tidy_table.mp (tidy.find? found)))
  · cases h

private theorem keepsTidy_openRow (path : List String) (key : String) :
    KeepsTidy (Branches.openRow path key) := by
  refine keepsTidy_within path fun branches branches' tidy h => ?_
  split at h
  · cases h
    exact tidy.put key (Tree.tidy_rows.mpr ⟨nofun, .nil⟩)
  · rename_i earlier last found
    cases h
    obtain ⟨closed, latest⟩ := Tree.tidy_rows.mp (tidy.find? found)
    refine tidy.put key (Tree.tidy_rows.mpr ⟨fun v mem => ?_, .nil⟩)
    rcases List.mem_append.mp mem with old | new
    · exact closed v old
    · cases List.mem_singleton.mp new
      exact Tree.tidy_all latest
  · cases h

private theorem keepsTidy_assign {v : Value} (sound : v.Tidy) (path : List String) :
    KeepsTidy (Branches.assign v path) := by
  induction path with
  | nil =>
    intro branches branches' tidy h
    cases h
  | cons key path ih =>
    intro branches branches' tidy h
    cases path with
    | nil =>
      unfold Branches.assign at h
      split at h
      · cases h
        exact tidy.put key (.leaf sound)
      · cases h
    | cons next path =>
      obtain ⟨t, grows, rfl⟩ := Option.map_eq_some_iff.mp h
      refine tidy.put key ?_
      split at grows
      · obtain ⟨inner, changed, rfl⟩ := Option.map_eq_some_iff.mp grows
        exact Tree.tidy_table.mpr (ih _ _ .nil changed)
      · rename_i old found
        obtain ⟨inner, changed, rfl⟩ := Option.map_eq_some_iff.mp grows
        exact Tree.tidy_table.mpr (ih _ _ (Tree.tidy_table.mp (tidy.find? found)) changed)
      · rename_i old found
        obtain ⟨-, grows⟩ := Option.ite_none_left_eq_some.mp grows
        obtain ⟨inner, changed, rfl⟩ := Option.map_eq_some_iff.mp grows
        exact Tree.tidy_table.mpr (ih _ _ (Tree.tidy_table.mp (tidy.find? found)) changed)
      · rename_i earlier last found
        obtain ⟨-, grows⟩ := Option.ite_none_left_eq_some.mp grows
        obtain ⟨inner, changed, rfl⟩ := Option.map_eq_some_iff.mp grows
        obtain ⟨closed, latest⟩ := Tree.tidy_rows.mp (tidy.find? found)
        exact Tree.tidy_rows.mpr ⟨closed, ih _ _ latest changed⟩
      · cases grows
      · cases grows

def Statement.Tidy : Statement → Prop
  | .pair _ v => v.Tidy
  | .tableHeader _ _ | .rowHeader _ _ => True

private theorem keepsTidy_build (current : List String) {statements : List Statement}
    (sound : ∀ s ∈ statements, s.Tidy) : KeepsTidy (build current statements) := by
  induction statements generalizing current with
  | nil =>
    intro branches branches' tidy h
    cases h
    exact tidy
  | cons s rest ih =>
    intro branches branches' tidy h
    have later := fun current => ih current fun s mem => sound s (List.mem_cons_of_mem _ mem)
    cases s with
    | tableHeader path key =>
      obtain ⟨opened, first, h⟩ := Option.bind_eq_some_iff.mp h
      exact later _ _ _ (keepsTidy_openTable path key _ _ tidy first) h
    | rowHeader path key =>
      obtain ⟨opened, first, h⟩ := Option.bind_eq_some_iff.mp h
      exact later _ _ _ (keepsTidy_openRow path key _ _ tidy first) h
    | pair path v =>
      obtain ⟨assigned, first, h⟩ := Option.bind_eq_some_iff.mp h
      have assigning := keepsTidy_assign (sound (.pair path v) List.mem_cons_self) path
      exact later _ _ _ (keepsTidy_within current assigning _ _ tidy first) h

section Documents
variable {cs rest : List Char}

def Yields (scan : Text.Scan Value) : Prop := ∀ cs v rest, scan cs = some (v, rest) → v.Tidy

private theorem tidy_of_elements {scan : Text.Scan Value} (yields : Yields scan) {steps : Nat}
    {found : List Value} (h : elements scan steps cs = some (found, rest)) :
    ∀ v ∈ found, v.Tidy := by
  induction steps generalizing cs found rest with
  | zero => cases h
  | succ steps ih =>
    obtain ⟨lines, -, h⟩ := Option.bind_eq_some_iff.mp h
    split at h
    · cases h
      exact nofun
    · obtain ⟨⟨v, afterValue⟩, read, h⟩ := Option.bind_eq_some_iff.mp h
      have here := yields _ _ _ read
      obtain ⟨line, -, h⟩ := Option.bind_eq_some_iff.mp h
      split at h
      · obtain ⟨⟨more, afterMore⟩, others, h⟩ := Option.bind_eq_some_iff.mp h
        cases h
        exact List.forall_mem_cons.mpr ⟨here, ih others⟩
      · cases h
        exact List.forall_mem_cons.mpr ⟨here, nofun⟩
      · cases h

private theorem tidy_of_pair {scan : Text.Scan Value} (yields : Yields scan)
    {p : List String × Value} (h : pair scan cs = some (p, rest)) : p.2.Tidy := by
  obtain ⟨⟨path, afterPath⟩, -, h⟩ := Option.bind_eq_some_iff.mp h
  obtain ⟨⟨mark, afterMark⟩, -, h⟩ := Option.bind_eq_some_iff.mp h
  obtain ⟨⟨v, afterValue⟩, read, h⟩ := Option.bind_eq_some_iff.mp h
  cases h
  exact yields _ v _ read

private theorem tidy_of_pairs {scan : Text.Scan Value} (yields : Yields scan) {steps : Nat}
    {found : List (List String × Value)} (h : pairs scan steps cs = some (found, rest)) :
    ∀ p ∈ found, p.2.Tidy := by
  induction steps generalizing cs found rest with
  | zero => cases h
  | succ steps ih =>
    obtain ⟨⟨first, afterFirst⟩, read, h⟩ := Option.bind_eq_some_iff.mp h
    have begun := tidy_of_pair yields read
    dsimp only at h
    split at h
    · obtain ⟨⟨more, afterMore⟩, others, h⟩ := Option.bind_eq_some_iff.mp h
      cases h
      exact List.forall_mem_cons.mpr ⟨begun, ih others⟩
    · cases h
      exact List.forall_mem_cons.mpr ⟨begun, nofun⟩
    · cases h

private theorem tidy_of_foldlM_assign {found : List (List String × Value)}
    {branches branches' : Branches}
    (tidy : Entries.All Tree.Tidy branches) (sound : ∀ p ∈ found, p.2.Tidy)
    (h : found.foldlM (fun branches (path, v) => Branches.assign v path branches) branches =
      some branches') : Entries.All Tree.Tidy branches' := by
  induction found generalizing branches with
  | nil =>
    cases h
    exact tidy
  | cons p rest ih =>
    rw [List.foldlM_cons] at h
    obtain ⟨assigned, first, h⟩ := Option.bind_eq_some_iff.mp h
    obtain ⟨here, later⟩ := List.forall_mem_cons.mp sound
    exact ih (keepsTidy_assign here p.1 _ _ tidy first) later h

private theorem tidy_of_inlineTable {scan : Text.Scan Value} (yields : Yields scan) {v : Value}
    (h : inlineTable scan cs = some (v, rest)) : v.Tidy := by
  unfold inlineTable at h
  split at h
  · cases h
    exact Value.tidy_table.mpr .nil
  · obtain ⟨⟨found, afterPairs⟩, read, h⟩ := Option.bind_eq_some_iff.mp h
    obtain ⟨branches, assigned, h⟩ := Option.bind_eq_some_iff.mp h
    cases h
    exact Tree.tidy_all (tidy_of_foldlM_assign .nil (tidy_of_pairs yields read) assigned)

private theorem tidy_of_atom? {v : Value} (h : atom? cs = some v) : v.Tidy := by
  unfold atom? at h
  split at h
  · cases h
    exact .plain nofun nofun
  · split at h
    · cases h
      exact .plain nofun nofun
    · split at h
      · cases h
        exact Value.tidy_table.mpr (Entries.All.nil.put momentKey (.plain nofun nofun))
      · split at h
        · cases h
          exact .plain nofun nofun
        · obtain ⟨-, same⟩ := Option.ite_none_right_eq_some.mp h
          cases same
          exact .plain nofun nofun

/-- A text or an atom, when neither an array nor a table begins here. -/
private theorem tidy_of_scalar {v : Value} (h : (match cs.head? with
    | some '"' | some '\'' => do
      let (s, rest) ← text cs
      return (.text s, rest)
    | _ => do
      let (atom, rest) := atomText cs
      return (← atom? atom, rest)) = some (v, rest)) : v.Tidy := by
  split at h
  · obtain ⟨⟨found, afterText⟩, -, h⟩ := Option.bind_eq_some_iff.mp h
    cases h
    exact .plain nofun nofun
  · obtain ⟨⟨found, afterText⟩, -, h⟩ := Option.bind_eq_some_iff.mp h
    cases h
    exact .plain nofun nofun
  · obtain ⟨atom, read, h⟩ := Option.bind_eq_some_iff.mp h
    cases h
    exact tidy_of_atom? read

private theorem yields_value (depth : Nat) : Yields (value depth) := by
  induction depth with
  | zero =>
    intro cs v rest h
    unfold value at h
    split at h
    · cases h
    · cases h
    · exact tidy_of_scalar h
  | succ depth ih =>
    intro cs v rest h
    unfold value at h
    split at h
    · obtain ⟨⟨values, afterValues⟩, read, h⟩ := Option.bind_eq_some_iff.mp h
      cases h
      exact .list (tidy_of_elements ih read)
    · exact tidy_of_inlineTable ih h
    · exact tidy_of_scalar h

private theorem tidy_of_statement {s : Statement} (h : statement cs = some (s, rest)) : s.Tidy := by
  unfold statement at h
  split at h
  · obtain ⟨⟨path, afterPath⟩, -, h⟩ := Option.bind_eq_some_iff.mp h
    obtain ⟨⟨first, afterFirst⟩, -, h⟩ := Option.bind_eq_some_iff.mp h
    obtain ⟨⟨second, afterSecond⟩, -, h⟩ := Option.bind_eq_some_iff.mp h
    obtain ⟨key, -, h⟩ := Option.bind_eq_some_iff.mp h
    cases h
    exact trivial
  · obtain ⟨⟨path, afterPath⟩, -, h⟩ := Option.bind_eq_some_iff.mp h
    obtain ⟨⟨mark, afterMark⟩, -, h⟩ := Option.bind_eq_some_iff.mp h
    obtain ⟨key, -, h⟩ := Option.bind_eq_some_iff.mp h
    cases h
    exact trivial
  · obtain ⟨⟨⟨path, v⟩, afterPair⟩, read, h⟩ := Option.bind_eq_some_iff.mp h
    cases h
    exact tidy_of_pair (yields_value depthLimit) read

private theorem tidy_of_statements? {steps : Nat} {found : List Statement}
    (h : statements? steps cs = some found) : ∀ s ∈ found, s.Tidy := by
  induction steps generalizing cs found with
  | zero => cases h
  | succ steps ih =>
    obtain ⟨lines, -, h⟩ := Option.bind_eq_some_iff.mp h
    split at h
    · cases h
      exact nofun
    · obtain ⟨⟨s, afterStatement⟩, read, h⟩ := Option.bind_eq_some_iff.mp h
      have here := tidy_of_statement read
      obtain ⟨line, -, h⟩ := Option.bind_eq_some_iff.mp h
      split at h
      · cases h
        exact List.forall_mem_cons.mpr ⟨here, nofun⟩
      · obtain ⟨more, others, h⟩ := Option.bind_eq_some_iff.mp h
        cases h
        exact List.forall_mem_cons.mpr ⟨here, ih others⟩
      · cases h

/-- The settings of a document are tidy. -/
theorem tidy_of_parse? {document : String} {entries : Entries}
    (h : parse? document = some entries) : (Value.table entries).Tidy := by
  obtain ⟨statements, read, h⟩ := Option.bind_eq_some_iff.mp h
  obtain ⟨branches, built, h⟩ := Option.bind_eq_some_iff.mp h
  cases h
  exact Tree.tidy_all (keepsTidy_build [] (tidy_of_statements? read) [] branches .nil built)

theorem ordered_of_parse? {document : String} {entries : Entries}
    (h : parse? document = some entries) : Entries.Ordered entries :=
  (Value.tidy_table.mp (tidy_of_parse? h)).ordered

end Documents
end Toml

namespace Literal
variable {cs rest : List Char}

private theorem tidy_bare (cs : List Char) : (bare cs).Tidy := by
  unfold bare
  dsimp only
  split
  · exact .plain nofun nofun
  · split
    · split
      · split <;> exact .plain nofun nofun
      · split <;> exact .plain nofun nofun
    · exact .plain nofun nofun

/-- What a scan of items finds has the property of what the scan of one finds. -/
private theorem forall_of_items {α : Type} {p : α → Prop} {close : Char} {item : Text.Scan α}
    (yields : ∀ cs a rest, item cs = some (a, rest) → p a) {steps : Nat} {found : List α}
    (h : items close item steps cs = some (found, rest)) : ∀ a ∈ found, p a := by
  induction steps generalizing cs found rest with
  | zero => cases h
  | succ steps ih =>
    unfold items at h
    split at h
    · cases h
      exact nofun
    · obtain ⟨⟨a, afterItem⟩, read, h⟩ := Option.bind_eq_some_iff.mp h
      have here := yields _ _ _ read
      dsimp only at h
      split at h
      · obtain ⟨⟨more, afterMore⟩, others, h⟩ := Option.bind_eq_some_iff.mp h
        cases h
        exact List.forall_mem_cons.mpr ⟨here, ih others⟩
      · obtain ⟨⟨mark, afterMark⟩, -, h⟩ := Option.bind_eq_some_iff.mp h
        cases h
        exact List.forall_mem_cons.mpr ⟨here, nofun⟩

private theorem tidy_of_member {scan : Text.Scan Value} (yields : Toml.Yields scan)
    {m : String × Value} (h : member scan cs = some (m, rest)) : m.2.Tidy := by
  obtain ⟨⟨name, afterName⟩, -, h⟩ := Option.bind_eq_some_iff.mp h
  obtain ⟨⟨mark, afterMark⟩, -, h⟩ := Option.bind_eq_some_iff.mp h
  obtain ⟨⟨v, afterValue⟩, read, h⟩ := Option.bind_eq_some_iff.mp h
  cases h
  exact yields _ _ _ read

private theorem yields_front {scan : Text.Scan Value} (yields : Toml.Yields scan) :
    Toml.Yields (front scan) := by
  intro cs v rest h
  unfold front at h
  split at h
  · cases h
    exact .plain nofun nofun
  · cases h
    exact .plain nofun nofun
  · split at h
    · obtain ⟨⟨members, afterMembers⟩, read, h⟩ := Option.bind_eq_some_iff.mp h
      cases h
      exact Value.tidy_table.mpr (.ofList
        (forall_of_items (p := fun m => m.2.Tidy) (fun _ _ _ => tidy_of_member yields) read))
    · obtain ⟨⟨values, afterValues⟩, read, h⟩ := Option.bind_eq_some_iff.mp h
      cases h
      exact .list (forall_of_items yields read)
    · obtain ⟨⟨found, afterText⟩, -, h⟩ := Option.bind_eq_some_iff.mp h
      cases h
      exact .plain nofun nofun
    · cases h
      exact .plain nofun nofun
    · cases h
    · cases h
      exact tidy_bare _

private theorem yields_value (depth : Nat) : Toml.Yields (value depth) := by
  induction depth with
  | zero =>
    intro cs v rest h
    cases h
  | succ depth ih =>
    intro cs v rest h
    obtain ⟨⟨found, afterFront⟩, read, h⟩ := Option.bind_eq_some_iff.mp h
    cases h
    exact yields_front ih _ _ _ read

/-- The value of any text is tidy. -/
theorem tidy_parse (text : String) : (parse text).Tidy := by
  unfold parse
  dsimp only
  split
  · rename_i read
    exact yields_value _ _ _ _ read
  · exact .plain nofun nofun

end Literal

section Layers

private theorem Value.tidy_ofList {l : Entries} (h : ∀ entry ∈ l, entry.2.Tidy) :
    (Value.table (Entries.ofList l)).Tidy :=
  tidy_table.mpr (.ofList h)

private theorem RepositorySettings.tidy_toValue (s : RepositorySettings) : s.toValue.Tidy := by
  have password : (s.password.elim Value.null Value.text).Tidy := by
    cases s.password <;> exact .plain nofun nofun
  refine Value.tidy_ofList ?_
  simp only [List.forall_mem_cons]
  exact ⟨.plain nofun nofun, .plain nofun nofun, password, .plain nofun nofun, .plain nofun nofun,
    .plain nofun nofun, .plain nofun nofun, .plain nofun nofun, nofun⟩

private theorem BlockchainSettings.tidy_toValue (s : BlockchainSettings) : s.toValue.Tidy := by
  refine Value.tidy_ofList ?_
  simp only [List.forall_mem_cons]
  have endpoints : (Value.list (s.rpcEndpoints.map .text)).Tidy := by
    refine .list fun v mem => ?_
    obtain ⟨endpoint, -, rfl⟩ := List.mem_map.mp mem
    exact .plain nofun nofun
  refine ⟨endpoints, ?_, ?_, ?_, ?_, ?_, ?_, ?_, ?_, ?_, ?_, ?_, nofun⟩ <;>
    exact .plain nofun nofun

theorem Settings.tidy_toValue (s : Settings) : s.toValue.Tidy := by
  have log : s.log.toValue.Tidy := by
    refine Value.tidy_ofList ?_
    simp only [List.forall_mem_cons]
    exact ⟨.plain nofun nofun, .plain nofun nofun, nofun⟩
  have metrics : s.metrics.toValue.Tidy := by
    refine Value.tidy_ofList ?_
    simp only [List.forall_mem_cons]
    exact ⟨.plain nofun nofun, .plain nofun nofun, nofun⟩
  refine Value.tidy_ofList ?_
  simp only [List.forall_mem_cons]
  exact ⟨.plain nofun nofun, Value.tidy_nested ["instance_id"] (.plain nofun nofun), log,
    Value.tidy_nested ["metrics"] metrics, s.repository.tidy_toValue, s.blockchain.tidy_toValue,
    nofun⟩

theorem tidy_of_fileLayer {s : Surroundings} {path : String} {v : Value}
    (h : fileLayer s path = .ok v) : v.Tidy := by
  unfold fileLayer at h
  cases held : (s.files.find path).settings? with
  | none =>
    rw [held] at h
    cases h
  | some layer =>
    rw [held] at h
    cases h
    unfold FileEntry.settings? at held
    split at held
    · obtain ⟨entries, parsed, rfl⟩ := Option.map_eq_some_iff.mp held
      exact Toml.tidy_of_parse? parsed
    · cases held
      exact Value.tidy_table.mpr .nil
    · cases held
      exact Value.tidy_table.mpr .nil

theorem Variable.tidy_of_mem {l : List Variable} : ∀ v ∈ l.filterMap setting?, v.Tidy := by
  intro v mem
  obtain ⟨x, -, made⟩ := List.mem_filterMap.mp mem
  obtain ⟨path, -, rfl⟩ := Option.map_eq_some_iff.mp made
  exact Value.tidy_nested path (Literal.tidy_parse _)

theorem Variable.tidy_settings (l : List Variable) : (settings l).Tidy :=
  Value.tidy_merged tidy_of_mem

end Layers

end DecryptorNode.Config
