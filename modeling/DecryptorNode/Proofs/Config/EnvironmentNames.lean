import DecryptorNode.Proofs.Config.SettingsReading

/-! The name of the environment. The selected file is read twice: once for the environment to start
from, and then any spelling of a name will do; and once more as a layer, and then only the usual
spelling will. So another spelling selects an environment whose configuration is never loaded. -/
namespace DecryptorNode.Config
open Entries (Ordered find? put)

section Loading
variable {s s' : Surroundings} {path : Option String} {environment : Environment}
  {entries : Entries} {written : String}

/-- What comes of reading all layers together. -/
def settled (environment : Environment) :
    Except LoadError Settings → Except ConfigError (Environment × Configuration)
  | .error e => .error (.load e)
  | .ok settings =>
    if settings.environment = environment.label then
      settings.resolve.map fun configuration => (environment, configuration)
    else .error (.otherEnvironment settings.environment environment.label)

theorem load_eq {upper : List Value}
    (selected : selectEnvironment s (path.getD usualFile) = .ok environment)
    (layers : upperLayers s path = .ok upper) :
    load s path = settled environment
      (Settings.read .layers (merged (environment.settings.toValue :: upper))) := by
  unfold load layeredSettings
  rw [selected, layers]
  simp only [bind, Except.bind, pure, Except.pure]
  cases Settings.read .layers (merged (environment.settings.toValue :: upper)) with
  | error e => rfl
  | ok settings =>
    dsimp only [Except.mapError, settled]
    by_cases same : settings.environment = environment.label
    · rw [if_pos same, if_pos same]
      dsimp only
      cases settings.resolve <;> rfl
    · rw [if_neg same, if_neg same]

private theorem load_of_failed {e : ConfigError}
    (selected : selectEnvironment s (path.getD usualFile) = .ok environment)
    (failed : upperLayers s path = .error e) : load s path = .error e := by
  unfold load
  rw [selected, failed]
  rfl

/-- Settling fails in other ways than loading. -/
private theorem Settings.resolve_error {settings : Settings} {e : ConfigError}
    (h : settings.resolve = .error e) :
    (∀ failure, e ≠ .load failure) ∧ ∀ name selected, e ≠ .otherEnvironment name selected := by
  unfold resolve at h
  cases repository : settings.repository.resolve with
  | error fault =>
    rw [repository] at h
    cases h
    exact ⟨nofun, nofun⟩
  | ok =>
    rw [repository] at h
    cases blockchain : settings.blockchain.resolve with
    | error fault =>
      rw [blockchain] at h
      cases h
      exact ⟨nofun, nofun⟩
    | ok =>
      rw [blockchain] at h
      cases h

/-- Another spelling of the name is refused unless the settings cannot be read at all. -/
theorem settled_respelled {result : Except LoadError Settings}
    (named : ∀ settings, result = .ok settings → settings.environment = written)
    (other : written ≠ environment.label) :
    let usual := settled environment (result.map (Settings.renamed environment.label))
    (settled environment result = usual ↔ ∃ failure, usual = .error (.load failure)) ∧
    (settled environment result ≠ usual →
      settled environment result = .error (.otherEnvironment written environment.label)) := by
  cases result with
  | error e => exact ⟨⟨fun _ => ⟨e, rfl⟩, fun _ => rfl⟩, fun different => absurd rfl different⟩
  | ok settings =>
    have refused : settled environment (.ok settings) =
        .error (.otherEnvironment written environment.label) := by
      rw [settled, named settings rfl, if_neg other]
    have resolved :
        settled environment (Except.map (Settings.renamed environment.label) (.ok settings)) =
          settings.resolve.map fun configuration => (environment, configuration) := if_pos rfl
    rw [refused, resolved]
    refine ⟨?_, fun _ => rfl⟩
    cases resolving : settings.resolve with
    | error e =>
      obtain ⟨unlike, apart⟩ := Settings.resolve_error resolving
      constructor
      · intro equal
        exact absurd (Except.error.inj equal).symm (apart _ _)
      · rintro ⟨failure, failed⟩
        exact absurd (Except.error.inj failed) (unlike failure)
    | ok configuration => exact ⟨nofun, nofun⟩

/-- Two documents that say the same but for the name of the environment. -/
def Respells (written name document document' : String) : Prop :=
  ∃ entries, Toml.parse? document = some entries ∧
    find? "environment" entries = some (.text written) ∧
    Toml.parse? document' = some (put "environment" (.text name) entries)

/-- Surroundings of which one has another document at a path. Other paths may lead there too. -/
structure Swapped (path document document' : String) (s s' : Surroundings) : Prop where
  variableList : s'.variableList = s.variableList
  here : s.files.find path = .document document
  here' : s'.files.find path = .document document'
  elsewhere : ∀ other, s'.files.find other = s.files.find other ∨
    s.files.find other = .document document ∧ s'.files.find other = .document document'

theorem selectEnvironment_eq {place document : String}
    (found : s.files.find place = .document document)
    (parsed : Toml.parse? document = some entries)
    (named : find? "environment" entries = some (.text written))
    (normal : normalize written = environment.label) :
    selectEnvironment s place = .ok environment := by
  have known : Environment.ofLabel? environment.label = some environment := by
    cases environment <;> decide
  have name : namedEnvironment? (FileEntry.document document).settings? =
      some environment.label := by
    simp only [namedEnvironment?, FileEntry.settings?, parsed, Option.map_some, Value.at?, named,
      Option.bind_eq_bind, Option.bind_some, normal]
  unfold selectEnvironment
  rw [found]
  simp only [name, known, Option.elim_some]

private theorem normalize_label (environment : Environment) :
    normalize environment.label = environment.label := by
  cases environment <;> decide +kernel

theorem fileLayer_eq {place document : String} (found : s.files.find place = .document document)
    (parsed : Toml.parse? document = some entries) : fileLayer s place = .ok (.table entries) := by
  simp only [fileLayer, found, FileEntry.settings?, parsed, Option.map_some, Option.elim_some]

private theorem fileLayer_eq_error {place : String} {e : ConfigError}
    (h : fileLayer s place = .error e) : e = .load (.here .message) := by
  unfold fileLayer at h
  cases held : (s.files.find place).settings? with
  | none =>
    rw [held] at h
    exact (Except.error.inj h).symm
  | some v =>
    rw [held] at h
    cases h

/-- The layers over the settings of an environment, parted at the one of a document. -/
structure PartedLayers (s s' : Surroundings) (path : Option String) (entries entries' : Entries)
    (below below' above : List Entries) : Prop where
  layers : upperLayers s path = .ok ((below ++ entries :: above).map .table)
  layers' : upperLayers s' path = .ok ((below' ++ entries' :: above).map .table)
  ordered : ∀ layer ∈ below ++ entries :: above, Ordered layer
  ordered' : ∀ layer ∈ below', Ordered layer
  same : ∀ key, key ≠ "environment" → below'.map (find? key) = below.map (find? key)
  unset : ∀ layer ∈ above, find? "environment" layer = none

private theorem layers_of_swapped {document document' name : String}
    (swapped : Swapped (path.getD usualFile) document document' s s')
    (parsed : Toml.parse? document = some entries)
    (parsed' : Toml.parse? document' = some (put "environment" (.text name) entries))
    (unset : (Variable.settings s.variableList).at? ["environment"] = none) :
    (∃ e, upperLayers s path = .error (.load e) ∧ upperLayers s' path = .error (.load e)) ∨
    ∃ below below' above, PartedLayers s s' path entries
      (put "environment" (.text name) entries) below below' above := by
  obtain ⟨set, table, orderly⟩ := Variable.exists_orderedTable s.variableList
  have ordered := Toml.ordered_of_parse? parsed
  have here := fileLayer_eq swapped.here parsed
  have here' := fileLayer_eq swapped.here' parsed'
  have clear : find? "environment" set = none := by
    rw [table] at unset
    simpa [Value.at?] using unset
  cases path with
  | none =>
    rw [Option.getD_none] at here here'
    refine .inr ⟨[], [], [[], set], ?_, ?_, ?_, List.forall_mem_nil _, fun _ _ => rfl, ?_⟩
    · unfold upperLayers
      rw [here, table]
      rfl
    · unfold upperLayers
      rw [here', swapped.variableList, table]
      rfl
    · simp [ordered, orderly, Entries.ordered_nil]
    · simp [clear]
  | some place =>
    rw [Option.getD_some] at here here'
    have parted {usual usual' : Entries} (low : fileLayer s usualFile = .ok (.table usual))
        (low' : fileLayer s' usualFile = .ok (.table usual')) (sound : Ordered usual)
        (sound' : Ordered usual')
        (same : ∀ key, key ≠ "environment" → find? key usual' = find? key usual) :
        PartedLayers s s' (some place) entries (put "environment" (.text name) entries)
          [usual] [usual'] [set] := by
      refine ⟨?_, ?_, ?_, ?_, ?_, ?_⟩
      · unfold upperLayers
        rw [low, Option.elim_some, here, table]
        rfl
      · unfold upperLayers
        rw [low', Option.elim_some, here', swapped.variableList, table]
        rfl
      · simp [sound, ordered, orderly]
      · simp [sound']
      · exact fun key other => congrArg (fun v => [v]) (same key other)
      · simp [clear]
    -- the path may lead to the usual file, whose layer then changes too
    rcases swapped.elsewhere usualFile with same | ⟨usually, usually'⟩
    · have low : fileLayer s' usualFile = fileLayer s usualFile := by
        unfold fileLayer
        rw [same]
      cases held : fileLayer s usualFile with
      | error e =>
        cases fileLayer_eq_error held
        refine .inl ⟨.here .message, ?_, ?_⟩ <;> unfold upperLayers
        · rw [held]
          rfl
        · rw [low, held]
          rfl
      | ok v =>
        obtain ⟨usual, rfl, sound⟩ := exists_orderedTable_of_fileLayer held
        exact .inr ⟨_, _, _, parted held (low.trans held) sound sound fun _ _ => rfl⟩
    · refine .inr ⟨_, _, _, parted (fileLayer_eq usually parsed) (fileLayer_eq usually' parsed')
        ordered (ordered.put _ _) fun key other => ?_⟩
      rw [Entries.find?_put, if_neg (Ne.symm other)]

/-- The layers come to the same table but for the name of the environment. -/
private theorem PartedLayers.exists_whole {below below' above : List Entries} {name : String}
    (parted : PartedLayers s s' path entries (put "environment" (.text name) entries)
      below below' above)
    (named : find? "environment" entries = some (.text written))
    (selected : selectEnvironment s (path.getD usualFile) = .ok environment)
    (selected' : selectEnvironment s' (path.getD usualFile) = .ok environment) :
    ∃ whole, Ordered whole ∧ find? "environment" whole = some (.text written) ∧
      load s path = settled environment (Settings.read .layers (.table whole)) ∧
      load s' path = settled environment
        (Settings.read .layers (.table (put "environment" (.text name) whole))) := by
  obtain ⟨defaults, table, orderly⟩ := environment.settings.exists_orderedTable
  have ordered : ∀ layer ∈ (defaults :: below) ++ entries :: above, Ordered layer :=
    List.forall_mem_cons.mpr ⟨orderly, parted.ordered⟩
  have ordered' : ∀ layer ∈ defaults :: below', Ordered layer :=
    List.forall_mem_cons.mpr ⟨orderly, parted.ordered'⟩
  have same (key : String) (other : key ≠ "environment") :
      (defaults :: below').map (find? key) = (defaults :: below).map (find? key) :=
    congrArg (_ :: ·) (parted.same key other)
  refine ⟨stacked ((defaults :: below) ++ entries :: above), ordered_stacked _,
    find?_stacked_text ordered named parted.unset, ?_, ?_⟩
  · rw [load_eq selected parted.layers, table, ← List.map_cons, merged_tables]
    rfl
  · rw [load_eq selected' parted.layers', table, ← List.map_cons, merged_tables,
      ← stacked_put ordered ordered' same parted.unset]
    rfl

end Loading

section Naming

/-- A document that names an environment and says nothing else. -/
def nameLine (name : String) : String := "environment = \"" ++ name ++ "\"\n"

def naming (name : String) : Surroundings := ⟨⟨[([usualFile], nameLine name)]⟩, []⟩

/-- The usual file is in the working directory: none of the characters of its name is a slash. -/
theorem splitOn_usualFile : usualFile.splitOn "/" = [usualFile] := by
  unfold String.splitOn usualFile
  rw [if_neg (by decide)]
  -- one step for each character
  iterate 11 rw [String.splitOnAux, if_neg (by decide +kernel), if_neg (by decide +kernel)]
  rw [String.splitOnAux, if_pos (by decide +kernel)]
  decide +kernel

theorem find_naming (name : String) :
    (naming name).files.find usualFile = .document (nameLine name) := by
  have start : FilePlace.start usualFile = [] := by decide +kernel
  unfold Files.find
  rw [splitOn_usualFile, start]
  rfl

/-- Where a path leads does not depend on what the files hold. -/
private theorem find_naming_cases (a b path : String) :
    (naming b).files.find path = (naming a).files.find path ∨
      (naming a).files.find path = .document (nameLine a) ∧
        (naming b).files.find path = .document (nameLine b) := by
  have step : (naming b).files.step = (naming a).files.step := rfl
  have directory : (naming b).files.isDirectory = (naming a).files.isDirectory := rfl
  unfold Files.find
  rw [step, directory]
  by_cases empty : path = ""
  · simp only [if_pos empty, true_or]
  · simp only [if_neg empty]
    cases (path.splitOn "/").foldlM (naming a).files.step (.start path) with
    | none => exact .inl rfl
    | some place =>
      dsimp only
      cases (naming a).files.isDirectory place with
      | true => exact .inl rfl
      | false =>
        by_cases here : [usualFile] = place
        · subst here
          exact .inr ⟨rfl, rfl⟩
        · have nothing (name : String) : (naming name).files.content? place = none := by
            simp [Files.content?, naming, here]
          rw [nothing, nothing]
          exact .inl rfl

private theorem swapped_naming (a b : String) :
    Swapped usualFile (nameLine a) (nameLine b) (naming a) (naming b) where
  variableList := rfl
  here := find_naming a
  here' := find_naming b
  elsewhere := find_naming_cases a b

def namesOnly (name : String) : Option Entries → Bool
  | some [(key, .text text)] => key = "environment" && text = name
  | _ => false

private theorem eq_of_namesOnly {name : String} {found : Option Entries}
    (h : namesOnly name found) : found = some [("environment", .text name)] := by
  unfold namesOnly at h
  split at h
  · obtain ⟨key, text⟩ := Bool.and_eq_true_iff.mp h
    rw [of_decide_eq_true key, of_decide_eq_true text]
  · cases h

private theorem parse?_capital :
    Toml.parse? (nameLine "Development") = some [("environment", .text "Development")] :=
  eq_of_namesOnly (by decide +kernel)

theorem parse?_small :
    Toml.parse? (nameLine "development") = some [("environment", .text "development")] :=
  eq_of_namesOnly (by decide +kernel)

def namedSettings (name : String) : Except LoadError Settings :=
  Settings.read .layers (merged [Environment.development.settings.toValue,
    .table [("environment", .text name)], .table [], .table []])

private theorem load_naming {name : String}
    (parsed : Toml.parse? (nameLine name) = some [("environment", .text name)])
    (normal : normalize name = Environment.development.label) :
    load (naming name) none = settled .development (namedSettings name) := by
  have selected := selectEnvironment_eq (find_naming name) parsed rfl normal
  have layer := fileLayer_eq (find_naming name) parsed
  refine load_eq selected ?_
  unfold upperLayers
  rw [layer]
  rfl

end Naming

/-- The selected file may spell the name of its environment in any way that normalizes to one: it
selects that environment. But if no variable covers the name, only the normalized spelling loads as
the normalized one does. Any other is refused as another environment, unless the settings cannot be
read, and then both spellings fail alike. -/
theorem load_respelled {s s' : Surroundings} {path : Option String} {environment : Environment}
    {written document document' : String}
    (swapped : Swapped (path.getD usualFile) document document' s s')
    (respells : Respells written environment.label document document')
    (normal : normalize written = environment.label)
    (unset : (Variable.settings s.variableList).at? ["environment"] = none) :
    selectEnvironment s (path.getD usualFile) = .ok environment ∧
    selectEnvironment s' (path.getD usualFile) = .ok environment ∧
    (load s path = load s' path ↔
      written = environment.label ∨ ∃ failure, load s' path = .error (.load failure)) ∧
    (load s path ≠ load s' path →
      load s path = .error (.otherEnvironment written environment.label)) := by
  obtain ⟨entries, parsed, named, parsed'⟩ := respells
  have named' : find? "environment" (put "environment" (.text environment.label) entries) =
      some (.text environment.label) := by
    rw [Entries.find?_put, if_pos rfl]
  have selected := selectEnvironment_eq swapped.here parsed named normal
  have selected' := selectEnvironment_eq swapped.here' parsed' named' (normalize_label environment)
  refine ⟨selected, selected', ?_⟩
  rcases layers_of_swapped swapped parsed parsed' unset with ⟨e, failed, failed'⟩ |
    ⟨below, below', above, parted⟩
  · rw [load_of_failed selected failed, load_of_failed selected' failed']
    exact ⟨⟨fun _ => .inr ⟨e, rfl⟩, fun _ => rfl⟩, fun different => absurd rfl different⟩
  · obtain ⟨whole, ordered, name, loads, loads'⟩ := parted.exists_whole named selected selected'
    rw [loads, loads']
    by_cases same : written = environment.label
    · rw [ordered.put_found (same ▸ name)]
      exact ⟨⟨fun _ => .inl same, fun _ => rfl⟩, fun different => absurd rfl different⟩
    · have read (settings : Settings) :
          Settings.read .layers (.table whole) = .ok settings → settings.environment = written :=
        Settings.environment_of_read ordered name
      rw [Settings.read_respelled ordered name]
      obtain ⟨alike, refused⟩ := settled_respelled read same
      exact ⟨alike.trans (or_iff_right same).symm, refused⟩

theorem load_respelled_capital :
    selectEnvironment (naming "Development") usualFile = .ok .development ∧
    selectEnvironment (naming "development") usualFile = .ok .development ∧
    (load (naming "Development") none = load (naming "development") none ↔
      "Development" = "development" ∨
        ∃ failure, load (naming "development") none = .error (.load failure)) ∧
    (load (naming "Development") none ≠ load (naming "development") none →
      load (naming "Development") none =
        .error (.otherEnvironment "Development" "development")) := by
  have respells : Respells "Development" Environment.development.label (nameLine "Development")
      (nameLine "development") := ⟨_, parse?_capital, rfl, parse?_small⟩
  have normal : normalize "Development" = Environment.development.label := by decide +kernel
  have swapped : Swapped ((none : Option String).getD usualFile) _ _ (naming "Development")
      (naming "development") := swapped_naming _ _
  exact load_respelled swapped respells normal rfl

/-- The two spellings select one environment, but only one of them loads. -/
theorem load_naming_differs : normalize "Development" = "development" ∧
    load (naming "Development") none = .error (.otherEnvironment "Development" "development") ∧
    load (naming "development") none ≠ load (naming "Development") none := by
  have normal : normalize "Development" = Environment.development.label := by decide +kernel
  have usual : normalize "development" = Environment.development.label := by decide +kernel
  have read : (namedSettings "Development").toOption.map (·.environment) = some "Development" := by
    decide +kernel
  have runs : (settled .development (namedSettings "development")).toOption.isSome = true := by
    decide +kernel
  have refused : load (naming "Development") none =
      .error (.otherEnvironment "Development" "development") := by
    rw [load_naming parse?_capital normal]
    cases result : namedSettings "Development" with
    | error e =>
      rw [result] at read
      cases read
    | ok settings =>
      rw [result] at read
      have written : settings.environment = "Development" := Option.some.inj read
      rw [settled, written, if_neg (by decide)]
      rfl
  refine ⟨normal, refused, fun same => ?_⟩
  rw [load_naming parse?_small usual, refused] at same
  rw [same] at runs
  cases runs

end DecryptorNode.Config
