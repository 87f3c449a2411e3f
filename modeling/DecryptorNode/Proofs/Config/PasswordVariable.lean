import DecryptorNode.Proofs.Config.LayeredLoading
import DecryptorNode.Proofs.Config.LiteralTexts
import DecryptorNode.Proofs.Config.PathChanges

/-! The variable with the password of the database. Its text is read like the texts of all other
variables, so the password is what the text stands for, and a text that stands for a number, a truth
value, a list or a table is none. -/
namespace DecryptorNode.Config
open Entries (Ordered find? put)

def passwordKeys : List String := ["repository", "password"]

def passwordVariable (written : String) : Variable := ⟨"SHUTTER_REPOSITORY__PASSWORD", written⟩

def Variable.meaning (x : Variable) : Value :=
  Literal.parse (String.ofList (Text.trim x.value.toList))

private theorem setting?_passwordVariable (written : String) : (passwordVariable written).setting? =
    some (.nested passwordKeys (passwordVariable written).meaning) := by
  have named : (passwordVariable written).path? = (passwordVariable "").path? := rfl
  have keys : (passwordVariable "").path? = some passwordKeys := by decide +kernel
  rw [Variable.setting?, named, keys]
  rfl

/-- Settings that are the same but for the password have a table of the database, and in it another
password. -/
private theorem Value.exists_put_of_sameBut {whole whole' w : Value}
    (same : SameBut passwordKeys whole whole') (found : whole'.at? passwordKeys = some w) :
    ∃ entries inner old, find? "repository" entries = some (.table inner) ∧
      find? "password" inner = some old ∧ whole = .table entries ∧
      whole' = .table (put "repository" (.table (put "password" w inner)) entries) := by
  cases same with
  | under outside deep =>
    cases deep with
    | under inside last =>
      cases last with
      | here old new =>
        refine ⟨_, _, _, outside, inside, rfl, ?_⟩
        simp only [passwordKeys, at?, Entries.find?_put, if_true, Option.bind_some] at found
        rw [Option.some.inj found]

section Reading
variable {entries : Entries} {v w : Value} {password : String}

private theorem Reader.exists_text_or_error (v : Value) :
    (∃ t, text .layers v = .ok t) ∨ text .layers v = fail .invalidType := by
  cases v with
  | text t => exact .inl ⟨t, rfl⟩
  | letter c => exact .inl ⟨_, rfl⟩
  | _ => exact .inr rfl

namespace RepositorySettings
variable {s : RepositorySettings}

def withPassword (password : String) (s : RepositorySettings) : RepositorySettings :=
  { s with password := some password }

private theorem ignores_withPassword {field : Reader.Field RepositorySettings}
    (known : field ∈ fields)
    (other : field.name ≠ "password") : field.Ignores (withPassword password) ∧
      ∀ s, field.absent (withPassword password s) =
        (field.absent s).map (withPassword password) := by
  simp only [fields, List.mem_cons, List.not_mem_nil, or_false] at known
  rcases known with rfl | rfl | rfl | rfl | rfl | rfl | rfl | rfl
  case inr.inr.inl => exact absurd rfl other
  all_goals exact ⟨Reader.Field.ignores_required fun _ _ => rfl, fun _ => rfl⟩

private theorem field_of_password {field : Reader.Field RepositorySettings} (known : field ∈ fields)
    (named : field.name = "password") : field = .defaulting "password"
      (Reader.optional Reader.text) none fun v r => { r with password := v } := by
  simp only [fields, List.mem_cons, List.not_mem_nil, or_false] at known
  rcases known with rfl | rfl | rfl | rfl | rfl | rfl | rfl | rfl
  case inr.inr.inl => rfl
  all_goals exact absurd named (by decide)

private theorem optional_of_read (tidy : (Value.table entries).Tidy)
    (found : find? "password" entries = some v) (h : read .layers (.table entries) = .ok s) :
    Reader.optional Reader.text .layers v = .ok s.password := by
  have held := Part.all_hold follows rfl (by decide) tidy h
  simp only [parts, List.forall_mem_cons] at held
  obtain ⟨-, -, password, -⟩ := held
  change (Part.defaulting "password" (Reader.optional Reader.text) none
    RepositorySettings.password).Holds (find? "password" entries) s at password
  rw [found] at password
  exact Part.read_of_toOption password

/-- Settings that are read with another text as the password differ in the password only. -/
private theorem read_put (tidy : (Value.table entries).Tidy)
    (found : find? "password" entries = some v)
    (h : read .layers (.table entries) = .ok s) (meant : Reader.text .layers w = .ok password) :
    read .layers (.table (put "password" w entries)) = .ok (s.withPassword password) := by
  have given : w ≠ .null := by
    rintro rfl
    cases meant
  have changed : read .layers (.table (put "password" w entries)) =
      (read .layers (.table entries)).map (withPassword password) := by
    refine Reader.record_put (Value.tidy_table.mp tidy).ordered found ?_
      fun field => ignores_withPassword
    intro field known named r
    rw [field_of_password known named]
    change (fun held => { r with password := held }) <$> Reader.optional Reader.text .layers w =
      ((fun held => { r with password := held }) <$> Reader.optional Reader.text .layers v).map
        (withPassword password)
    rw [optional_of_read tidy found h, Reader.optional_text given, meant]
    rfl
  rw [changed, h]
  rfl

private theorem read_put_error (tidy : (Value.table entries).Tidy)
    (found : find? "password" entries = some v) (h : read .layers (.table entries) = .ok s)
    (given : w ≠ .null) (meant : Reader.text .layers w = Reader.fail .invalidType) :
    read .layers (.table (put "password" w entries)) = .error ⟨.invalidType, ["password"]⟩ := by
  refine Reader.record_put_error (e := .here .invalidType) (Value.tidy_table.mp tidy).ordered found
    ?_ h
  intro field known named r
  rw [field_of_password known named]
  change (fun held => { r with password := held }) <$> Reader.optional Reader.text .layers w = _
  rw [Reader.optional_text given, meant]
  rfl

end RepositorySettings

namespace Settings
variable {s : Settings} {whole whole' : Value}

def withPassword (password : String) (s : Settings) : Settings :=
  { s with repository := s.repository.withPassword password }

def withRepository (repository : RepositorySettings) (s : Settings) : Settings :=
  { s with repository := repository }

private theorem ignores_withRepository (repository : RepositorySettings)
    {field : Reader.Field Settings} (known : field ∈ fields) (other : field.name ≠ "repository") :
    field.Ignores (withRepository repository) ∧ ∀ s, field.absent (withRepository repository s) =
      (field.absent s).map (withRepository repository) := by
  simp only [fields, List.mem_cons, List.not_mem_nil, or_false] at known
  rcases known with rfl | rfl | rfl | rfl | rfl | rfl
  case inr.inr.inr.inr.inl => exact absurd rfl other
  all_goals exact ⟨Reader.Field.ignores_required fun _ _ => rfl, fun _ => rfl⟩

private theorem field_of_repository {field : Reader.Field Settings} (known : field ∈ fields)
    (named : field.name = "repository") : field = .required "repository" RepositorySettings.read
      fun v s => { s with repository := v } := by
  simp only [fields, List.mem_cons, List.not_mem_nil, or_false] at known
  rcases known with rfl | rfl | rfl | rfl | rfl | rfl
  case inr.inr.inr.inr.inl => rfl
  all_goals exact absurd named (by decide)

private theorem repository_of_read (tidy : (Value.table entries).Tidy)
    (found : find? "repository" entries = some v) (h : read .layers (.table entries) = .ok s) :
    RepositorySettings.read .layers v = .ok s.repository := by
  have held := Part.all_hold follows rfl (by decide) tidy h
  simp only [parts, List.forall_mem_cons] at held
  obtain ⟨-, -, -, -, repository, -⟩ := held
  obtain ⟨v', found', read⟩ := Part.exists_of_required repository
  cases found.symm.trans found'
  exact read

/-- What becomes of the settings when they are the same but for the password. -/
theorem read_sameBut (same : Value.SameBut passwordKeys whole whole') (tidy : whole.Tidy)
    (h : read .layers whole = .ok s) (found : whole'.at? passwordKeys = some w)
    (given : w ≠ .null) : read .layers whole' = match Reader.text .layers w with
      | .ok password => .ok (s.withPassword password)
      | .error _ => .error ⟨.invalidType, passwordKeys⟩ := by
  obtain ⟨entries, inner, old, outside, inside, rfl, rfl⟩ := Value.exists_put_of_sameBut same found
  have repository := repository_of_read tidy outside h
  have ordered := (Value.tidy_table.mp tidy).ordered
  have deep := (Value.tidy_table.mp tidy).find? outside
  rcases Reader.exists_text_or_error w with ⟨password, meant⟩ | refused
  · have read := RepositorySettings.read_put deep inside repository meant
    rw [meant]
    refine (Reader.record_put ordered outside ?_ fun field => ignores_withRepository
      (s.repository.withPassword password)).trans (congrArg (Except.map _) h)
    intro field known named r
    rw [field_of_repository known named]
    change (fun v => { r with repository := v }) <$> RepositorySettings.read .layers _ =
      ((fun v => { r with repository := v }) <$> RepositorySettings.read .layers _).map _
    rw [read, repository]
    rfl
  · have failed := RepositorySettings.read_put_error deep inside repository given refused
    rw [refused]
    refine Reader.record_put_error (e := ⟨.invalidType, ["password"]⟩) ordered outside ?_ h
    intro field known named r
    rw [field_of_repository known named]
    change (fun v => { r with repository := v }) <$> RepositorySettings.read .layers _ = _
    rw [failed]
    rfl

end Settings
end Reading

section Resolution
variable {password : String} {c : Configuration}

def Configuration.withPassword (password : String) (c : Configuration) : Configuration :=
  { c with repository := { c.repository with password := password } }

private theorem Settings.resolve_withPassword {s : Settings} (h : s.resolve = .ok c) :
    (s.withPassword password).resolve = .ok (c.withPassword password) := by
  obtain ⟨r, b, repository, blockchain, rfl⟩ := resolve_eq_ok.mp h
  obtain ⟨acceptable, rfl⟩ := RepositorySettings.resolve_eq_ok.mp repository
  exact resolve_eq_ok.mpr ⟨_, b, RepositorySettings.resolve_eq_ok.mpr
    ⟨⟨.inl nofun, acceptable.connected, acceptable.pool⟩, rfl⟩, blockchain, rfl⟩

private theorem Configuration.withPassword_inj {password' : String} :
    c.withPassword password = c.withPassword password' ↔ password = password' :=
  ⟨fun same => congrArg (fun c : Configuration => c.repository.password) same,
    fun same => by rw [same]⟩

end Resolution

section Layers
variable {before after : List Variable} {lower : List Value} {p q : String}

def Surroundings.withPassword (s : Surroundings) (before after : List Variable) (written : String) :
    Surroundings :=
  { s with variableList := before ++ passwordVariable written :: after }

private theorem settings_withPassword (written : String) :
    Variable.settings (before ++ passwordVariable written :: after) =
      merged (before.filterMap Variable.setting? ++
        .nested passwordKeys (passwordVariable written).meaning ::
          after.filterMap Variable.setting?) := by
  rw [Variable.settings, List.filterMap_append,
    List.filterMap_cons_some (setting?_passwordVariable written)]
  rfl

private theorem tidy_meaning (written : String) :
    (Value.nested passwordKeys (passwordVariable written).meaning).Tidy :=
  Value.tidy_nested passwordKeys (Literal.tidy_parse _)

/-- No variable that comes later says anything about the password. -/
def Uncovered (after : List Variable) : Prop :=
  ∀ x ∈ after, x.setting?.any (Value.decides passwordKeys) = false

private theorem Uncovered.silent (h : Uncovered after) :
    ∀ v ∈ after.filterMap Variable.setting?, v.decides passwordKeys = false := by
  intro v mem
  obtain ⟨x, given, made⟩ := List.mem_filterMap.mp mem
  have unsaid := h x given
  rw [made] at unsaid
  exact unsaid

/-- Another text of the variable changes what the variables say about the password, and nothing
else. -/
theorem sameBut_settings (before : List Variable) (uncovered : Uncovered after) (p q : String) :
    Value.SameBut passwordKeys (Variable.settings (before ++ passwordVariable q :: after))
      (Variable.settings (before ++ passwordVariable p :: after)) := by
  rw [settings_withPassword, settings_withPassword]
  exact .merged (Value.sameBut_nested _ _ _) (tidy_meaning q) (tidy_meaning p)
    Variable.tidy_of_mem Variable.tidy_of_mem uncovered.silent

private theorem leaf?_settings (uncovered : Uncovered after) (written : String) :
    (Variable.settings (before ++ passwordVariable written :: after)).leaf? passwordKeys =
      (passwordVariable written).meaning.leaf? [] := by
  have said := Value.decides_of_at?
    (Value.at?_nested passwordKeys (passwordVariable written).meaning)
  rw [settings_withPassword, Value.leaf?_merged_of_highest (tidy_meaning written)
    Variable.tidy_of_mem said uncovered.silent, Value.leaf?_nested]

/-- The same holds of all layers together, of which the variables are the highest. -/
private theorem sameBut_whole (before : List Variable) (uncovered : Uncovered after)
    (low : ∀ layer ∈ lower, layer.Tidy) (p q : String) :
    Value.SameBut passwordKeys
      (merged (lower ++ [Variable.settings (before ++ passwordVariable q :: after)]))
      (merged (lower ++ [Variable.settings (before ++ passwordVariable p :: after)])) :=
  .merged (sameBut_settings before uncovered p q) (Variable.tidy_settings _)
    (Variable.tidy_settings _) low (List.forall_mem_nil _) (List.forall_mem_nil _)

private theorem leaf?_whole (before : List Variable) (uncovered : Uncovered after)
    (lower : List Value) (written : String) :
    (merged (lower ++ [Variable.settings (before ++ passwordVariable written :: after)])).leaf?
      passwordKeys = (passwordVariable written).meaning.leaf? [] := by
  obtain ⟨found, reached⟩ := (sameBut_settings before uncovered written "").exists_at?
  rw [Value.leaf?_merged_of_highest (Variable.tidy_settings _) (List.forall_mem_nil _)
    (Value.decides_of_at? reached) (List.forall_mem_nil _), leaf?_settings uncovered]

/-- Values with the same leaf are read as the same text. -/
private theorem Reader.text_congr {v w : Value} (same : v.leaf? [] = w.leaf? []) :
    text .layers v = text .layers w := by
  rw [Value.leaf?_nil, Value.leaf?_nil] at same
  cases first : v.isTable with
  | false =>
    cases second : w.isTable with
    | false =>
      rw [first, second] at same
      rw [Option.some.inj same]
    | true =>
      rw [first, second] at same
      cases same
  | true =>
    cases second : w.isTable with
    | false =>
      rw [first, second] at same
      cases same
    | true =>
      obtain ⟨entries, rfl⟩ := Value.exists_table first
      obtain ⟨entries', rfl⟩ := Value.exists_table second
      rfl

/-- A leaf that is nothing is nothing elsewhere too. -/
private theorem Value.ne_null_of_leaf {v w : Value} (same : v.leaf? [] = w.leaf? [])
    (given : w ≠ .null) : v ≠ .null := by
  rintro rfl
  cases whole : w.isTable with
  | true =>
    rw [leaf?_nil, leaf?_nil, whole] at same
    cases same
  | false =>
    rw [leaf?_nil, leaf?_nil, whole] at same
    exact given (Option.some.inj same).symm

variable {s : Surroundings} {path : Option String} {environment : Environment} {c : Configuration}

/-- Loading comes to the same but for the password, which is what the text stands for. -/
theorem load_withPassword (uncovered : Uncovered after)
    (loaded : load (s.withPassword before after q) path = .ok (environment, c)) (p : String) :
    load (s.withPassword before after p) path =
      match Reader.text .layers (passwordVariable p).meaning with
      | .ok password => .ok (environment, c.withPassword password)
      | .error _ => .error (.load ⟨.invalidType, passwordKeys⟩) := by
  obtain ⟨selected, upper, settings, layers, read, named, resolved⟩ := load_eq_ok.mp loaded
  obtain ⟨usual, asked, here, there, rfl⟩ := upperLayers_eq_ok.mp layers
  have selected' : selectEnvironment (s.withPassword before after p) (path.getD usualFile) =
      .ok environment := selected
  have layers' : upperLayers (s.withPassword before after p) path =
      .ok [usual, asked, Variable.settings (before ++ passwordVariable p :: after)] :=
    upperLayers_eq_ok.mpr ⟨usual, asked, here, there, rfl⟩
  have sound := layers_sound environment here there
  have low : ∀ layer ∈ [environment.settings.toValue, usual, asked], layer.Tidy := by
    intro layer mem
    exact (sound layer (List.mem_append_left [_] mem)).1
  have same := sameBut_whole before uncovered low p q
  have leaf := leaf?_whole before uncovered [environment.settings.toValue, usual, asked] p
  obtain ⟨found, reached⟩ := same.exists_at?
  rw [Value.leaf?, reached] at leaf
  have tidy := Value.tidy_merged fun layer mem => (sound layer mem).1
  have given := Value.ne_null_of_leaf leaf (Literal.parse_ne_null _)
  rw [load_eq selected' layers']
  have changed := Settings.read_sameBut same tidy read reached given
  rw [Reader.text_congr leaf] at changed
  refine (congrArg (settled environment) changed).trans ?_
  cases Reader.text .layers (passwordVariable p).meaning with
  | error e => rfl
  | ok password =>
    have named' : (settings.withPassword password).environment = environment.label := named
    dsimp only
    rw [settled, if_pos named', Settings.resolve_withPassword resolved]
    rfl

end Layers

/-- What a text in the variable of the password does to a configuration that loads with some other
text there. The password becomes what the text stands for, whatever the layers below say. That is
the text itself just when it has no white space around it and is not read as anything else; plain
texts are such. A text that stands for no text is refused. -/
theorem load_password {s : Surroundings} {path : Option String} {before after : List Variable}
    {q : String} {environment : Environment} {c : Configuration} (uncovered : Uncovered after)
    (loaded : load (s.withPassword before after q) path = .ok (environment, c)) (p : String) :
    load (s.withPassword before after p) path =
      (match Reader.text .layers (passwordVariable p).meaning with
        | .ok password => .ok (environment, c.withPassword password)
        | .error _ => .error (.load ⟨.invalidType, passwordKeys⟩)) ∧
    (load (s.withPassword before after p) path = .ok (environment, c.withPassword p) ↔
      Text.trim p.toList = p.toList ∧ Literal.parse p = .text p) ∧
    (Literal.Plain p →
      load (s.withPassword before after p) path = .ok (environment, c.withPassword p)) := by
  have result := load_withPassword uncovered loaded p
  have verbatim : load (s.withPassword before after p) path = .ok (environment, c.withPassword p) ↔
      Reader.text .layers (passwordVariable p).meaning = .ok p := by
    rw [result]
    cases Reader.text .layers (passwordVariable p).meaning with
    | error e => exact ⟨nofun, nofun⟩
    | ok password =>
      rw [Except.ok.injEq, Prod.mk.injEq, and_iff_right rfl, Configuration.withPassword_inj,
        Except.ok.injEq]
  rw [Variable.meaning, passwordVariable, Literal.text_trim_iff] at verbatim
  exact ⟨result, verbatim, fun plain =>
    verbatim.mpr ⟨plain.trimmed, Literal.parse_of_plain plain⟩⟩

def onServer (written : String) : Surroundings :=
  (developing []).withPassword [⟨"SHUTTER_REPOSITORY__DRIVER", "mysql"⟩,
    ⟨"SHUTTER_REPOSITORY__USER", "shutter"⟩, ⟨"SHUTTER_REPOSITORY__DATABASE", "shutter"⟩]
    [⟨"SHUTTER_REPOSITORY__HOST", "localhost"⟩, ⟨"SHUTTER_REPOSITORY__PORT", "3306"⟩] written

private theorem withPassword_developing (variableList before after : List Variable)
    (written : String) : (developing variableList).withPassword before after written =
      developing (before ++ passwordVariable written :: after) :=
  rfl

private theorem exists_load_onServer {written password : String}
    (held : (load (onServer written) none).toOption.map (fun found =>
      (found.1, found.2.repository.driver, found.2.repository.password)) =
        some (.development, .mysql, password)) :
    ∃ c, load (onServer written) none = .ok (.development, c) ∧ c.repository.driver = .mysql ∧
      c.repository.password = password := by
  obtain ⟨environment, c, loaded, same⟩ := exists_of_toOption held
  obtain ⟨rfl, database⟩ := Prod.mk.inj same
  obtain ⟨driver, set⟩ := Prod.mk.inj database
  exact ⟨c, loaded, driver, set⟩

private theorem load_onServer_secret : ∃ c, load (onServer "secret") none = .ok (.development, c) ∧
    c.repository.driver = .mysql ∧ c.repository.password = "secret" := by
  refine exists_load_onServer ?_
  rw [onServer, withPassword_developing, load_developing]
  decide +kernel

theorem load_password_onServer : ∃ c, load (onServer "secret") none = .ok (.development, c) ∧
    Literal.Plain "12 monkeys" ∧
    load (onServer "12 monkeys") none =
      (match Reader.text .layers (passwordVariable "12 monkeys").meaning with
        | .ok password => .ok (.development, c.withPassword password)
        | .error _ => .error (.load ⟨.invalidType, passwordKeys⟩)) ∧
    Text.trim "12 monkeys".toList = "12 monkeys".toList ∧
    Literal.parse "12 monkeys" = .text "12 monkeys" ∧
    load (onServer "12 monkeys") none = .ok (.development, c.withPassword "12 monkeys") := by
  obtain ⟨c, loaded, -⟩ := load_onServer_secret
  have begun : "12 monkeys".toList.head? = some '1' := by decide
  have unmarked : ∀ c ∈ "12 monkeys".toList.head?, c ∉ ['{', '[', '"', '\''] := by
    rw [begun]
    rintro c ⟨⟩
    decide
  have plain : Literal.Plain "12 monkeys" :=
    ⟨by decide +kernel, unmarked, by decide +kernel, by decide +kernel⟩
  have uncovered : Uncovered [⟨"SHUTTER_REPOSITORY__HOST", "localhost"⟩,
      ⟨"SHUTTER_REPOSITORY__PORT", "3306"⟩] := by
    unfold Uncovered
    decide +kernel
  obtain ⟨result, verbatim, itself⟩ := load_password uncovered loaded "12 monkeys"
  obtain ⟨trimmed, parsed⟩ := verbatim.mp (itself plain)
  exact ⟨c, loaded, plain, result, trimmed, parsed, itself plain⟩

/-- A password of digits is refused, and one in quotes loses them. -/
theorem numeric_password_refused :
    (∃ c, load (onServer "secret") none = .ok (.development, c) ∧ c.repository.driver = .mysql ∧
      c.repository.password = "secret") ∧
    "12345" ≠ "" ∧ '\x00' ∉ "12345".toList ∧
    load (onServer "12345") none = .error (.load ⟨.invalidType, passwordKeys⟩) ∧
    ∃ c, load (onServer "\"12345\"") none = .ok (.development, c) ∧ c.repository.driver = .mysql ∧
      c.repository.password = "12345" := by
  refine ⟨load_onServer_secret, by decide, by decide, ?_, exists_load_onServer ?_⟩
  · rw [onServer, withPassword_developing, load_developing]
    decide +kernel
  · rw [onServer, withPassword_developing, load_developing]
    decide +kernel

end DecryptorNode.Config
