import DecryptorNode.Proofs.Config.EnvironmentNames
import DecryptorNode.Proofs.Config.SettingsParts

/-! What a configuration is made of once it is loaded. The settings of the environment lie lowest,
then the usual file, the file that was asked for and the variables, and at each path the highest
layer with something to say is the one that counts. -/
namespace DecryptorNode.Config

section Success
variable {s : Surroundings} {path : Option String} {environment : Environment} {c : Configuration}

theorem upperLayers_eq_ok {upper : List Value} : upperLayers s path = .ok upper ↔
    ∃ usual asked, fileLayer s usualFile = .ok usual ∧
      path.elim (.ok (.table [])) (fileLayer s) = .ok asked ∧
      upper = [usual, asked, Variable.settings s.variableList] := by
  simp only [upperLayers, bind_eq_ok]
  constructor
  · rintro ⟨usual, here, asked, there, layers⟩
    cases layers
    exact ⟨usual, asked, here, there, rfl⟩
  · rintro ⟨usual, asked, here, there, rfl⟩
    exact ⟨usual, here, asked, there, rfl⟩

private theorem layeredSettings_eq_ok {layers : List Value} {settings : Settings} :
    layeredSettings environment layers = .ok settings ↔
      Settings.read .layers (merged (environment.settings.toValue :: layers)) = .ok settings ∧
      settings.environment = environment.label := by
  simp only [layeredSettings, bind_eq_ok, mapError_eq_ok]
  constructor
  · rintro ⟨found, read, checked⟩
    obtain ⟨same, settled⟩ : found.environment = environment.label ∧ found = settings := by
      split at checked
      · rename_i same
        exact ⟨same, Except.ok.inj checked⟩
      · cases checked
    exact ⟨settled ▸ read, settled ▸ same⟩
  · rintro ⟨read, same⟩
    exact ⟨settings, read, if_pos same⟩

/-- What loading takes: an environment that is selected, files that can be read, and layers that
come to acceptable settings for that environment. -/
theorem load_eq_ok : load s path = .ok (environment, c) ↔
    selectEnvironment s (path.getD usualFile) = .ok environment ∧
    ∃ upper settings, upperLayers s path = .ok upper ∧
      Settings.read .layers (merged (environment.settings.toValue :: upper)) = .ok settings ∧
      settings.environment = environment.label ∧ settings.resolve = .ok c := by
  simp only [load, bind_eq_ok, layeredSettings_eq_ok]
  constructor
  · rintro ⟨selected, chosen, upper, layers, settings, ⟨read, named⟩, found, resolved, loaded⟩
    cases loaded
    exact ⟨chosen, upper, settings, layers, read, named, resolved⟩
  · rintro ⟨chosen, upper, settings, layers, read, named, resolved⟩
    exact ⟨environment, chosen, upper, layers, settings, ⟨read, named⟩, c, resolved, rfl⟩

end Success

/-- The value at a path is what the highest layer has there that sets the path or something above it
that is no table, and it stays so whatever lies below. Without such a layer there is none. -/
def DecidedByHighest (layers : List Value) (keys : List String) : Prop :=
  (∃ below chosen above, layers = below ++ chosen :: above ∧ chosen.decides keys = true ∧
    (∀ layer ∈ above, layer.decides keys = false) ∧
    ∀ below', (merged (below' ++ chosen :: above)).leaf? keys = chosen.leaf? keys) ∨
  (∀ layer ∈ layers, layer.decides keys = false) ∧ (merged layers).leaf? keys = none

private theorem decidedByHighest {layers : List Value} (tidy : ∀ layer ∈ layers, layer.Tidy)
    (keys : List String) : DecidedByHighest layers keys := by
  rcases Value.exists_highest keys layers with ⟨below, chosen, above, rfl, said, silent⟩ | silent
  · obtain ⟨-, here, there⟩ := List.forall_mem_append.mp tidy |>.imp_right List.forall_mem_cons.mp
    exact .inl ⟨below, chosen, above, rfl, said, silent,
      Value.leaf?_merged_of_highest here there said silent⟩
  · exact .inr ⟨silent, Value.leaf?_merged_of_silent tidy silent⟩

section Layers
variable {s : Surroundings} {path : Option String} {environment : Environment}
  {usual asked : Value}

/-- Every layer is a table, and tidy. -/
theorem layers_sound (environment : Environment) (here : fileLayer s usualFile = .ok usual)
    (there : path.elim (.ok (.table [])) (fileLayer s) = .ok asked) :
    ∀ layer ∈ [environment.settings.toValue, usual, asked, Variable.settings s.variableList],
      layer.Tidy ∧ ∃ entries, layer = .table entries := by
  have lowest := environment.settings.exists_orderedTable
  have second := exists_orderedTable_of_fileLayer here
  have highest := Variable.exists_orderedTable s.variableList
  have third : asked.Tidy ∧ ∃ entries, asked = .table entries := by
    cases path with
    | none =>
      cases there
      exact ⟨Value.tidy_table.mpr .nil, [], rfl⟩
    | some place =>
      have table := exists_orderedTable_of_fileLayer there
      exact ⟨tidy_of_fileLayer there, table.imp fun _ => And.left⟩
  simp only [List.forall_mem_cons]
  exact ⟨⟨environment.settings.tidy_toValue, lowest.imp fun _ => And.left⟩,
    ⟨tidy_of_fileLayer here, second.imp fun _ => And.left⟩, third,
    ⟨Variable.tidy_settings _, highest.imp fun _ => And.left⟩, nofun⟩

/-- A name of an environment is written as a text. -/
private theorem Environment.eq_text {v : Value}
    (h : Reader.text .layers v = .ok environment.label) : v = .text environment.label := by
  cases v with
  | text name =>
    cases h
    rfl
  | letter c =>
    have long : environment.label.length ≠ 1 := by cases environment <;> decide
    have short : (String.singleton c).length = environment.label.length :=
      congrArg String.length (Except.ok.inj h)
    exact absurd short.symm (by simpa using long)
  | _ => cases h

end Layers

/-- What a configuration that runs in an environment is to the layers it comes from. -/
structure Layered (layers : List Value) (environment : Environment) (c : Configuration) : Prop where
  decided : ∀ keys, DecidedByHighest layers keys
  named : (merged layers).at? ["environment"] = some (.text environment.label)
  known : ∀ keys v, (merged layers).at? keys = some v → keys ∈ Settings.paths
  settled : c.Settled (merged layers)
  only : ∀ c' : Configuration, c'.Settled (merged layers) → c' = c

/-- A configuration that is loaded is made of four layers: the settings that its environment starts
from, the usual file, the file that was asked for and the variables. -/
theorem load_layered {s : Surroundings} {path : Option String} {environment : Environment}
    {c : Configuration} (loaded : load s path = .ok (environment, c)) :
    ∃ usual asked, fileLayer s usualFile = .ok usual ∧
      path.elim (.ok (.table [])) (fileLayer s) = .ok asked ∧
      Layered [environment.settings.toValue, usual, asked, Variable.settings s.variableList]
        environment c := by
  obtain ⟨-, upper, settings, found, read, same, resolved⟩ := load_eq_ok.mp loaded
  obtain ⟨usual, asked, here, there, rfl⟩ := upperLayers_eq_ok.mp found
  refine ⟨usual, asked, here, there, ?_⟩
  have sound := layers_sound environment here there
  have tidy := fun layer mem => (sound layer mem).1
  have whole := Value.tidy_merged tidy
  have settled := Configuration.settled_of_read whole read resolved
  refine ⟨decidedByHighest tidy, ?named, ?known, settled, fun c' settled' => settled'.eq settled⟩
  case known => exact fun keys v at_keys => Settings.knows _ _ read keys v at_keys
  case named =>
    obtain ⟨entries, tables⟩ := exists_tables fun layer mem => (sound layer mem).2
    have held := Part.all_hold Settings.follows rfl (by decide) whole read
    obtain ⟨v, under, written⟩ := Part.exists_of_required (held _ List.mem_cons_self)
    rw [tables, merged_tables] at under ⊢
    rw [same] at written
    cases Environment.eq_text written
    exact Option.bind_eq_some_iff.mpr ⟨_, under, rfl⟩

def developing (variableList : List Variable) : Surroundings :=
  { naming "development" with variableList := variableList }

theorem load_developing (variableList : List Variable) :
    load (developing variableList) none = settled .development (Settings.read .layers (merged
      [Environment.development.settings.toValue, .table [("environment", .text "development")],
        .table [], Variable.settings variableList])) := by
  have found : (developing variableList).files.find usualFile =
      .document (nameLine "development") := find_naming "development"
  have normal : normalize "development" = Environment.development.label := by decide +kernel
  have selected := selectEnvironment_eq found parse?_small rfl normal
  have layers : upperLayers (developing variableList) none =
      .ok [.table [("environment", .text "development")], .table [],
        Variable.settings variableList] :=
    upperLayers_eq_ok.mpr ⟨_, _, fileLayer_eq found parse?_small, rfl, rfl⟩
  exact load_eq selected layers

theorem exists_of_toOption {α : Type} {result : Except ConfigError (Environment × Configuration)}
    {f : Environment × Configuration → α} {a : α} (h : result.toOption.map f = some a) :
    ∃ environment c, result = .ok (environment, c) ∧ f (environment, c) = a := by
  obtain ⟨⟨environment, c⟩, loaded, same⟩ := Option.map_eq_some_iff.mp h
  refine ⟨environment, c, ?_, same⟩
  cases result with
  | error e => cases loaded
  | ok found => exact congrArg Except.ok (Option.some.inj loaded)

def usualDocument : String :=
  "[node]\ninstance_id = 7\n[logger]\nlevel = \"info\"\nformat = \"json\"\n"

def nodeDocument : String :=
  "environment = \"development\"\n[node]\ninstance_id = 8\n[logger]\nlevel = \"error\"\n"

/-- Two files and a variable, which say different things of the log and of the node. -/
def everyLayer : Surroundings :=
  ⟨⟨[([usualFile], usualDocument), (["node.toml"], nodeDocument)]⟩,
    [⟨"SHUTTER_LOGGER__LEVEL", "warn"⟩]⟩

private theorem splitOn_nodeFile : "node.toml".splitOn "/" = ["node.toml"] := by
  unfold String.splitOn
  rw [if_neg (by decide)]
  iterate 9 rw [String.splitOnAux, if_neg (by decide +kernel), if_neg (by decide +kernel)]
  rw [String.splitOnAux, if_pos (by decide +kernel)]
  decide +kernel

/-- The level comes from the variable, the identity from the file that was asked for, the format
from the usual one, and the room of the channel from the environment. -/
theorem load_layered_each : ∃ c, load everyLayer (some "node.toml") = .ok (.development, c) ∧
    c.log.level = "warn" ∧ c.instanceId = 8 ∧ c.log.format = .json ∧ c.blockchain.eventBuffer = 16 ∧
    ∃ usual asked, fileLayer everyLayer usualFile = .ok usual ∧
      (some "node.toml").elim (.ok (.table [])) (fileLayer everyLayer) = .ok asked ∧
      Layered [Environment.development.settings.toValue, usual, asked,
        Variable.settings everyLayer.variableList] .development c := by
  have usual : everyLayer.files.find usualFile = .document usualDocument := by
    unfold Files.find
    rw [splitOn_usualFile]
    rfl
  have asked : everyLayer.files.find "node.toml" = .document nodeDocument := by
    unfold Files.find
    rw [splitOn_nodeFile]
    rfl
  have each : (load everyLayer (some "node.toml")).toOption.map (fun found =>
      (found.1, found.2.log.level, found.2.instanceId, found.2.log.format,
        found.2.blockchain.eventBuffer)) = some (.development, "warn", 8, .json, 16) := by
    simp only [load, selectEnvironment, upperLayers, fileLayer, Option.getD_some, Option.elim_some,
      usual, asked]
    decide +kernel
  obtain ⟨environment, c, loaded, same⟩ := exists_of_toOption each
  simp only [Prod.mk.injEq] at same
  obtain ⟨rfl, level, identity, format, room⟩ := same
  exact ⟨c, loaded, level, identity, format, room, load_layered loaded⟩

end DecryptorNode.Config
