import DecryptorNode.Proofs.Config.Layering
import DecryptorNode.Proofs.Config.RecordParts
import DecryptorNode.Proofs.Config.Resolution

/-! The parts of a configuration and the keys that settings have. Every part is what the raw value
under its own keys resolves to. -/
namespace DecryptorNode.Config

section Leaves
variable {α : Type}

private theorem Reader.knows_text : Knows leafPaths text := knows_leaf nofun

private theorem Reader.knows_flag : Knows leafPaths flag := knows_leaf nofun

private theorem Reader.knows_natural {limit : Nat} :
    Knows leafPaths (natural limit) := knows_leaf nofun

private theorem Reader.knows_list {read : Reader α} :
    Knows leafPaths (list read) := knows_leaf nofun

private theorem Reader.knows_textAs {parse? : String → Option α} :
    Knows leafPaths (textAs parse?) :=
  knows_leaf nofun

private theorem Reader.knows_optional_text : Knows leafPaths (optional text) := knows_leaf nofun

/-- A choice is no table: one that names a variant has something in it that is not wanted. -/
private theorem Reader.knows_choice {choices : List (String × α)} :
    Knows leafPaths (choice choices) := by
  refine knows_leaf fun entries a h => ?_
  unfold choice at h
  split at h
  case h_1 same => cases same
  case h_2 layers same => cases layers
  case h_3 name v rest layers same =>
    rw [under_eq_ok] at h
    cases named : variant choices name with
    | error e =>
      rw [named] at h
      cases h
    | ok b =>
      rw [named] at h
      cases h
  case h_4 same => cases same
  case h_5 => cases h

theorem Reader.optional_text {v : Value} (given : v ≠ .null) :
    optional text .layers v = some <$> text .layers v := by
  cases v <;> first | rfl | exact absurd rfl given

theorem Part.read_of_toOption {read : Reader α} {v : Value} {a : α}
    (h : (read .layers v).toOption = some a) : read .layers v = .ok a := by
  cases settled : read .layers v with
  | error e =>
    rw [settled] at h
    cases h
  | ok found =>
    rw [settled] at h
    exact congrArg Except.ok (Option.some.inj h)

end Leaves

def fieldNames {σ : Type} (fields : List (Reader.Field σ)) : List String := fields.map (·.name)

/-- All parts of a record that is read are what their raw values come to. -/
theorem Part.all_hold {σ : Type} {parts : List (Part σ)} {fields : List (Reader.Field σ)}
    {blank r : σ} {v : Value} (follows : ∀ part ∈ parts, ∀ field ∈ fields, part.Follows field)
    (same : parts.map (·.name) = fieldNames fields) (distinct : (fieldNames fields).Nodup)
    (tidy : v.Tidy) (h : Reader.record blank fields .layers v = .ok r) :
    ∀ part ∈ parts, part.Holds (v.member? (fieldNames fields) part.name) r := by
  intro part mem
  have known : part.name ∈ fieldNames fields := by
    rw [← same]
    exact List.mem_map_of_mem mem
  exact Part.holds_of_record (follows part mem) distinct known tidy h

/-- Records with the same parts are the same. -/
def Part.Determine {σ : Type} (parts : List (Part σ)) : Prop :=
  ∀ r r', (∀ part ∈ parts, part.get r = part.get r') → r = r'

/-- If nothing is missing among the parts, raw values come to one record only. -/
private theorem Part.Determine.eq {σ : Type} {parts : List (Part σ)} (determine : Determine parts)
    (raw : Part σ → Option Value) {r r' : σ} (h : ∀ part ∈ parts, part.Holds (raw part) r)
    (h' : ∀ part ∈ parts, part.Holds (raw part) r') : r = r' :=
  determine r r' fun part mem => Option.some.inj ((h part mem).symm.trans (h' part mem))

section Records
open Reader.Field (knows_required knows_defaulting)

namespace LogSettings

def parts : List (Part LogSettings) :=
  [.required "level" Reader.text (·.level),
    .required "format" (Reader.choice LogFormat.choices) (·.format)]

def paths : List (List String) := recordPaths [("level", leafPaths), ("format", leafPaths)]

private theorem follows : ∀ part ∈ parts, ∀ field ∈ fields, part.Follows field := by
  simp only [parts, fields, List.forall_mem_cons, List.not_mem_nil, false_imp_iff, implies_true,
    and_true]
  repeat' apply And.intro
  all_goals first
    | exact Part.follows_own fun _ _ => rfl
    | exact Part.follows_other (by decide) fun _ _ => rfl

private theorem knows : Reader.Knows paths read :=
  Reader.knows_record (.cons ⟨rfl, knows_required Reader.knows_text⟩
    (.cons ⟨rfl, knows_required Reader.knows_choice⟩ .nil))

private theorem determine : Part.Determine parts := by
  intro s s' same
  simp only [parts, List.forall_mem_cons] at same
  rcases s with ⟨level, format⟩
  rcases s' with ⟨level', format'⟩
  obtain ⟨rfl, rfl, -⟩ := same
  rfl

end LogSettings

namespace MetricsSettings

def parts : List (Part MetricsSettings) :=
  [.required "enabled" Reader.flag (·.enabled),
    .required "bind_address" (Reader.textAs Internet.SocketAddress.parse?) (·.bindAddress)]

def telemetryFields : List (Reader.Field MetricsSettings) :=
  [.required "metrics" read fun v _ => v]

def telemetryParts : List (Part MetricsSettings) := [.required "metrics" read id]

def paths : List (List String) := recordPaths [("enabled", leafPaths), ("bind_address", leafPaths)]

private theorem follows : ∀ part ∈ parts, ∀ field ∈ fields, part.Follows field := by
  simp only [parts, fields, List.forall_mem_cons, List.not_mem_nil, false_imp_iff, implies_true,
    and_true]
  repeat' apply And.intro
  all_goals first
    | exact Part.follows_own fun _ _ => rfl
    | exact Part.follows_other (by decide) fun _ _ => rfl

private theorem knows : Reader.Knows paths read :=
  Reader.knows_record (.cons ⟨rfl, knows_required Reader.knows_flag⟩
    (.cons ⟨rfl, knows_required Reader.knows_textAs⟩ .nil))

private theorem determine : Part.Determine parts := by
  intro s s' same
  simp only [parts, List.forall_mem_cons] at same
  rcases s with ⟨enabled, bindAddress⟩
  rcases s' with ⟨enabled', bindAddress'⟩
  obtain ⟨rfl, rfl, -⟩ := same
  rfl

private theorem follows_telemetry :
    ∀ part ∈ telemetryParts, ∀ field ∈ telemetryFields, part.Follows field := by
  simp only [telemetryParts, telemetryFields, List.forall_mem_cons, List.not_mem_nil,
    false_imp_iff, implies_true, and_true]
  exact Part.follows_own fun _ _ => rfl

private theorem knows_telemetry : Reader.Knows (recordPaths [("metrics", paths)]) readTelemetry :=
  Reader.knows_record (.cons ⟨rfl, knows_required knows⟩ .nil)

end MetricsSettings

namespace RepositorySettings

def parts : List (Part RepositorySettings) :=
  [.required "driver" (Reader.choice Driver.choices) (·.driver),
    .required "user" Reader.text (·.user),
    .defaulting "password" (Reader.optional Reader.text) none (·.password),
    .required "database" Reader.text (·.database),
    .required "host" Reader.text (·.host),
    .required "port" (Reader.natural (2 ^ 16 - 1)) (·.tcpPort),
    .required "max_connections" (Reader.natural (2 ^ 32 - 1)) (·.maxConnections),
    .required "min_connections" (Reader.natural (2 ^ 32 - 1)) (·.minConnections)]

def paths : List (List String) :=
  recordPaths ((fieldNames fields).map fun name => (name, leafPaths))

theorem follows : ∀ part ∈ parts, ∀ field ∈ fields, part.Follows field := by
  simp only [parts, fields, List.forall_mem_cons, List.not_mem_nil, false_imp_iff, implies_true,
    and_true]
  repeat' apply And.intro
  all_goals first
    | exact Part.follows_own fun _ _ => rfl
    | exact Part.follows_own_defaulting fun _ _ => rfl
    | exact Part.follows_other (by decide) fun _ _ => rfl
    | exact Part.follows_other_defaulting (by decide) fun _ _ => rfl

private theorem knows : Reader.Knows paths read := by
  refine Reader.knows_record ?_
  have text {name : String} {set : String → RepositorySettings → RepositorySettings} :
      (Reader.Field.required name Reader.text set).Matches (name, leafPaths) :=
    ⟨rfl, knows_required Reader.knows_text⟩
  have natural {name : String} {limit : Nat} {set : Nat → RepositorySettings → RepositorySettings} :
      (Reader.Field.required name (Reader.natural limit) set).Matches (name, leafPaths) :=
    ⟨rfl, knows_required Reader.knows_natural⟩
  exact .cons ⟨rfl, knows_required Reader.knows_choice⟩ <| .cons text <|
    .cons ⟨rfl, knows_defaulting Reader.knows_optional_text⟩ <| .cons text <| .cons text <|
    .cons natural <| .cons natural <| .cons natural .nil

end RepositorySettings

namespace BlockchainSettings

def parts : List (Part BlockchainSettings) :=
  [.defaulting "rpc_endpoints" (Reader.list Reader.text) [] (·.rpcEndpoints),
    .required "keypers_config_list_address" Reader.text (·.keypersConfigList),
    .required "decryptors_config_list_address" Reader.text (·.decryptorsConfigList),
    .required "keypers_address" Reader.text (·.keypers),
    .required "decryptors_address" Reader.text (·.decryptors),
    .required "bls_public_key_registry_address" Reader.text (·.publicKeyRegistry),
    .required "bls_signature_registry_address" Reader.text (·.signatureRegistry),
    .required "finality_offset" word (·.finalityOffset),
    .required "poll_interval_ms" word (·.pollInterval),
    .required "max_blocks_per_fetch" word (·.maxBlocksPerFetch),
    .required "event_buffer" word (·.eventBuffer),
    .required "contract_call_timeout_ms" word (·.callTimeout)]

def paths : List (List String) :=
  recordPaths ((fieldNames fields).map fun name => (name, leafPaths))

private theorem follows : ∀ part ∈ parts, ∀ field ∈ fields, part.Follows field := by
  simp only [parts, fields, List.forall_mem_cons, List.not_mem_nil, false_imp_iff, implies_true,
    and_true]
  repeat' apply And.intro
  all_goals first
    | exact Part.follows_own fun _ _ => rfl
    | exact Part.follows_own_defaulting fun _ _ => rfl
    | exact Part.follows_other (by decide) fun _ _ => rfl
    | exact Part.follows_other_defaulting (by decide) fun _ _ => rfl

private theorem knows : Reader.Knows paths read := by
  refine Reader.knows_record ?_
  have text {name : String} {set : String → BlockchainSettings → BlockchainSettings} :
      (Reader.Field.required name Reader.text set).Matches (name, leafPaths) :=
    ⟨rfl, knows_required Reader.knows_text⟩
  have word {name : String} {set : Nat → BlockchainSettings → BlockchainSettings} :
      (Reader.Field.required name word set).Matches (name, leafPaths) :=
    ⟨rfl, knows_required Reader.knows_natural⟩
  exact .cons ⟨rfl, knows_defaulting Reader.knows_list⟩ <| .cons text <| .cons text <|
    .cons text <| .cons text <| .cons text <| .cons text <| .cons word <| .cons word <|
    .cons word <| .cons word <| .cons word .nil

end BlockchainSettings

namespace Settings

def nodeFields : List (Reader.Field Nat) :=
  [.required "instance_id" (Reader.natural Chain.maxWord) fun v _ => v]

def nodeParts : List (Part Nat) := [.required "instance_id" (Reader.natural Chain.maxWord) id]

def parts : List (Part Settings) :=
  [.required "environment" Reader.text (·.environment),
    .required "node" readNode (·.instanceId),
    .required "logger" LogSettings.read (·.log),
    .required "telemetry" MetricsSettings.readTelemetry (·.metrics),
    .required "repository" RepositorySettings.read (·.repository),
    .required "blockchain" BlockchainSettings.read (·.blockchain)]

def paths : List (List String) :=
  recordPaths [("environment", leafPaths), ("node", recordPaths [("instance_id", leafPaths)]),
    ("logger", LogSettings.paths), ("telemetry", recordPaths [("metrics", MetricsSettings.paths)]),
    ("repository", RepositorySettings.paths), ("blockchain", BlockchainSettings.paths)]

theorem follows : ∀ part ∈ parts, ∀ field ∈ fields, part.Follows field := by
  simp only [parts, fields, List.forall_mem_cons, List.not_mem_nil, false_imp_iff, implies_true,
    and_true]
  repeat' apply And.intro
  all_goals first
    | exact Part.follows_own fun _ _ => rfl
    | exact Part.follows_other (by decide) fun _ _ => rfl

private theorem follows_node : ∀ part ∈ nodeParts, ∀ field ∈ nodeFields, part.Follows field := by
  simp only [nodeParts, nodeFields, List.forall_mem_cons, List.not_mem_nil, false_imp_iff,
    implies_true, and_true]
  exact Part.follows_own fun _ _ => rfl

private theorem determine_node :
    Part.Determine nodeParts := fun _ _ same => same _ List.mem_cons_self

private theorem knows_node : Reader.Knows (recordPaths [("instance_id", leafPaths)]) readNode :=
  Reader.knows_record (.cons ⟨rfl, knows_required Reader.knows_natural⟩ .nil)

theorem knows : Reader.Knows paths read :=
  Reader.knows_record <| .cons ⟨rfl, knows_required Reader.knows_text⟩ <|
    .cons ⟨rfl, knows_required knows_node⟩ <| .cons ⟨rfl, knows_required LogSettings.knows⟩ <|
    .cons ⟨rfl, knows_required MetricsSettings.knows_telemetry⟩ <|
    .cons ⟨rfl, knows_required RepositorySettings.knows⟩ <|
    .cons ⟨rfl, knows_required BlockchainSettings.knows⟩ .nil

end Settings
end Records

section Resolved
variable (raw : String → Option Value)

namespace Repository

/-- A password that is left out or null is the empty one. -/
def passwordPart : Part Repository where
  name := "password"
  settle
    | none | some .null => some ""
    | some v => (Reader.text .layers v).toOption
  get := (·.password)

def parts : List (Part Repository) :=
  [.required "driver" (Reader.choice Driver.choices) (·.driver),
    .required "user" Reader.text (·.user), passwordPart,
    .required "database" Reader.text (·.database),
    .required "host" Reader.text (·.host),
    .required "port" (Reader.natural (2 ^ 16 - 1)) (·.tcpPort),
    .required "max_connections" (Reader.natural (2 ^ 32 - 1)) (·.maxConnections),
    .required "min_connections" (Reader.natural (2 ^ 32 - 1)) (·.minConnections)]

private theorem settle_password {found : Option Value} {password : Option String}
    (h : (Part.defaulting "password" (Reader.optional Reader.text) none
      RepositorySettings.password).settle found = some password) :
    passwordPart.settle found = some (password.getD "") := by
  cases found with
  | none =>
    cases h
    rfl
  | some v =>
    by_cases missing : v = .null
    · subst missing
      cases h
      rfl
    · have plain : passwordPart.settle (some v) = (Reader.text .layers v).toOption := by
        cases v <;> first | rfl | exact absurd rfl missing
      have read : Reader.optional Reader.text .layers v = .ok password := Part.read_of_toOption h
      rw [Reader.optional_text missing] at read
      rw [plain]
      cases text : Reader.text .layers v with
      | error e =>
        rw [text] at read
        cases read
      | ok t =>
        rw [text] at read
        cases read
        rfl

private theorem parts_hold {s : RepositorySettings} {r : Repository} (resolved : s.resolve = .ok r)
    (h : ∀ part ∈ RepositorySettings.parts, part.Holds (raw part.name) s) :
    ∀ part ∈ parts, part.Holds (raw part.name) r := by
  obtain ⟨-, rfl⟩ := RepositorySettings.resolve_eq_ok.mp resolved
  simp only [RepositorySettings.parts, List.forall_mem_cons] at h
  obtain ⟨driver, user, password, database, host, tcpPort, most, least, -⟩ := h
  simp only [parts, List.forall_mem_cons]
  exact ⟨driver, user, settle_password password, database, host, tcpPort, most, least, nofun⟩

private theorem determine : Part.Determine parts := by
  intro r r' same
  simp only [parts, List.forall_mem_cons] at same
  rcases r with ⟨driver, user, password, database, host, tcpPort, most, least⟩
  rcases r' with ⟨driver', user', password', database', host', tcpPort', most', least'⟩
  obtain ⟨rfl, rfl, rfl, rfl, rfl, rfl, rfl, rfl, -⟩ := same
  rfl

end Repository

namespace Blockchain
open Chain (Address)

def addressPart (name : String) (get : Blockchain → Address) : Part Blockchain where
  name := name
  settle raw := raw.bind fun v => (Reader.text .layers v).toOption.bind Address.parse?
  get := get

def parts : List (Part Blockchain) :=
  [.defaulting "rpc_endpoints" (Reader.list Reader.text) [] (·.rpcEndpoints),
    addressPart "keypers_config_list_address" (·.plan.contracts.keyperConfigs),
    addressPart "decryptors_config_list_address" (·.plan.contracts.decryptorConfigs),
    addressPart "keypers_address" (·.sequences.keypers),
    addressPart "decryptors_address" (·.sequences.decryptors),
    addressPart "bls_public_key_registry_address" (·.plan.contracts.publicKeyRegistry),
    addressPart "bls_signature_registry_address" (·.plan.contracts.signatureRegistry),
    .required "finality_offset" BlockchainSettings.word (·.plan.finalityOffset),
    .required "poll_interval_ms" BlockchainSettings.word (·.pollInterval),
    .required "max_blocks_per_fetch" BlockchainSettings.word (·.plan.maxBlocks),
    .required "event_buffer" BlockchainSettings.word (·.eventBuffer),
    .required "contract_call_timeout_ms" BlockchainSettings.word (·.sequences.timeout)]

private theorem address_holds {name : String} {found : Option Value} {s : BlockchainSettings}
    {b : Blockchain} {written : BlockchainSettings → String} {get : Blockchain → Address}
    (h : (Part.required name Reader.text written).Holds found s)
    (read : Address.parse? (written s) = some (get b)) : (addressPart name get).Holds found b := by
  obtain ⟨v, rfl, text⟩ := Option.bind_eq_some_iff.mp h
  change (Reader.text .layers v).toOption.bind Address.parse? = some (get b)
  rw [text]
  exact read

private theorem parts_hold {s : BlockchainSettings} {b : Blockchain} (resolved : s.resolve = .ok b)
    (h : ∀ part ∈ BlockchainSettings.parts, part.Holds (raw part.name) s) :
    ∀ part ∈ parts, part.Holds (raw part.name) b := by
  obtain ⟨-, contracts, keypers, decryptors, watched, fifth, sixth, rfl⟩ :=
    BlockchainSettings.resolve_eq_ok.mp resolved
  obtain ⟨first, second, third, fourth, -⟩ := BlockchainSettings.watched_eq_ok.mp watched
  simp only [BlockchainSettings.parts, List.forall_mem_cons] at h
  obtain ⟨endpoints, keyperConfigs, decryptorConfigs, keyperList, decryptorList, publicKeys,
    signatures, offset, interval, span, buffer, timeout, -⟩ := h
  simp only [parts, List.forall_mem_cons]
  exact ⟨endpoints, address_holds keyperConfigs first, address_holds decryptorConfigs second,
    address_holds keyperList fifth, address_holds decryptorList sixth,
    address_holds publicKeys third, address_holds signatures fourth, offset, interval, span,
    buffer, timeout, nofun⟩

private theorem determine : Part.Determine parts := by
  intro b b' same
  simp only [parts, List.forall_mem_cons] at same
  rcases b with ⟨endpoints, ⟨⟨first, second, third, fourth⟩, offset, span⟩,
    ⟨fifth, sixth, timeout⟩, interval, buffer⟩
  rcases b' with ⟨endpoints', ⟨⟨first', second', third', fourth'⟩, offset', span'⟩,
    ⟨fifth', sixth', timeout'⟩, interval', buffer'⟩
  obtain ⟨rfl, rfl, rfl, rfl, rfl, rfl, rfl, rfl, rfl, rfl, rfl, rfl, -⟩ := same
  rfl

end Blockchain

def Value.follow? : List (List String × String) → Value → Option Value
  | [], v => some v
  | (names, name) :: path, v => (v.member? names name).bind (follow? path)

private theorem Value.Tidy.member? {v w : Value} (h : v.Tidy) {names : List String} {name : String}
    (found : v.member? names name = some w) : w.Tidy := by
  cases v with
  | table entries => exact (Value.tidy_table.mp h).find? found
  | list values => exact h.inner w (List.of_mem_zip (Entries.mem_of_find? found)).2
  | _ => cases found

/-- All parts of a configuration are what the raw values under their own keys come to. -/
structure Configuration.Settled (whole : Value) (c : Configuration) : Prop where
  node : ∀ part ∈ Settings.nodeParts, part.Holds (whole.follow?
    [(fieldNames Settings.fields, "node"), (["instance_id"], part.name)]) c.instanceId
  log : ∀ part ∈ LogSettings.parts, part.Holds (whole.follow?
    [(fieldNames Settings.fields, "logger"), (fieldNames LogSettings.fields, part.name)]) c.log
  metrics : ∀ part ∈ MetricsSettings.parts, part.Holds (whole.follow?
    [(fieldNames Settings.fields, "telemetry"), (["metrics"], "metrics"),
      (fieldNames MetricsSettings.fields, part.name)]) c.metrics
  repository : ∀ part ∈ Repository.parts, part.Holds (whole.follow?
    [(fieldNames Settings.fields, "repository"),
      (fieldNames RepositorySettings.fields, part.name)]) c.repository
  blockchain : ∀ part ∈ Blockchain.parts, part.Holds (whole.follow?
    [(fieldNames Settings.fields, "blockchain"),
      (fieldNames BlockchainSettings.fields, part.name)]) c.blockchain

private theorem Value.follow?_single {v : Value} {names : List String} {name : String} :
    v.follow? [(names, name)] = v.member? names name := by
  rw [follow?]
  cases v.member? names name <;> rfl

private theorem Value.follow?_cons {v w : Value} {names : List String} {name : String}
    {path : List (List String × String)} (found : v.member? names name = some w) :
    v.follow? ((names, name) :: path) = w.follow? path := by
  rw [follow?, found, Option.bind_some]

theorem Part.exists_of_required {σ α : Type} {name : String} {read : Reader α} {get : σ → α}
    {found : Option Value} {r : σ} (h : (required name read get).Holds found r) :
    ∃ v, found = some v ∧ read .layers v = .ok (get r) := by
  obtain ⟨v, rfl, held⟩ := Option.bind_eq_some_iff.mp h
  exact ⟨v, rfl, read_of_toOption held⟩

/-- The parts of a record that stands in another are what the raw values in there come to. -/
private theorem Part.all_hold_inside {σ : Type} {parts : List (Part σ)}
    {fields : List (Reader.Field σ)}
    {blank r : σ} {v w : Value} {names : List String} {name : String}
    (follows : ∀ part ∈ parts, ∀ field ∈ fields, part.Follows field)
    (same : parts.map (·.name) = fieldNames fields) (distinct : (fieldNames fields).Nodup)
    (tidy : v.Tidy) (found : v.member? names name = some w)
    (h : Reader.record blank fields .layers w = .ok r) :
    ∀ part ∈ parts,
      part.Holds (v.follow? [(names, name), (fieldNames fields, part.name)]) r := by
  intro part mem
  rw [Value.follow?_cons found, Value.follow?_single]
  exact Part.all_hold follows same distinct (tidy.member? found) h part mem

namespace Configuration
variable {v : Value} {s : Settings} {c c' : Configuration}

/-- Settings that are read and resolve come to a configuration all of whose parts are settled by
their own raw values. -/
theorem settled_of_read (tidy : v.Tidy) (read : Settings.read .layers v = .ok s)
    (resolved : s.resolve = .ok c) : c.Settled v := by
  have whole := Part.all_hold Settings.follows rfl (by decide) tidy read
  simp only [Settings.parts, List.forall_mem_cons] at whole
  obtain ⟨-, node, log, telemetry, repository, blockchain, -⟩ := whole
  obtain ⟨r, b, resolves, resolves', rfl⟩ := Settings.resolve_eq_ok.mp resolved
  obtain ⟨nodeValue, nodeFound, nodeRead⟩ := Part.exists_of_required node
  obtain ⟨logValue, logFound, logRead⟩ := Part.exists_of_required log
  obtain ⟨repositoryValue, repositoryFound, repositoryRead⟩ := Part.exists_of_required repository
  obtain ⟨chainValue, chainFound, chainRead⟩ := Part.exists_of_required blockchain
  obtain ⟨telemetryValue, telemetryFound, telemetryRead⟩ := Part.exists_of_required telemetry
  have telemetryHeld : v.member? (fieldNames Settings.fields) "telemetry" = some telemetryValue :=
    telemetryFound
  have telemetryTidy := tidy.member? telemetryHeld
  have outer := Part.all_hold MetricsSettings.follows_telemetry rfl (by decide) telemetryTidy
    telemetryRead
  obtain ⟨metricsValue, metricsFound, metricsRead⟩ :=
    Part.exists_of_required (outer _ List.mem_cons_self)
  constructor
  case node =>
    exact Part.all_hold_inside Settings.follows_node rfl (by decide) tidy nodeFound nodeRead
  case log =>
    exact Part.all_hold_inside LogSettings.follows rfl (by decide) tidy logFound logRead
  case metrics =>
    intro part mem
    rw [Value.follow?_cons telemetryHeld]
    exact Part.all_hold_inside MetricsSettings.follows rfl (by decide) telemetryTidy metricsFound
      metricsRead part mem
  case repository =>
    have inner : ∀ part ∈ RepositorySettings.parts, part.Holds (v.follow?
        [(fieldNames Settings.fields, "repository"),
          (fieldNames RepositorySettings.fields, part.name)]) s.repository :=
      Part.all_hold_inside RepositorySettings.follows rfl (by decide) tidy repositoryFound
        repositoryRead
    exact Repository.parts_hold (fun name => v.follow? [(fieldNames Settings.fields, "repository"),
      (fieldNames RepositorySettings.fields, name)]) resolves inner
  case blockchain =>
    have inner : ∀ part ∈ BlockchainSettings.parts, part.Holds (v.follow?
        [(fieldNames Settings.fields, "blockchain"),
          (fieldNames BlockchainSettings.fields, part.name)]) s.blockchain :=
      Part.all_hold_inside BlockchainSettings.follows rfl (by decide) tidy chainFound chainRead
    exact Blockchain.parts_hold (fun name => v.follow? [(fieldNames Settings.fields, "blockchain"),
      (fieldNames BlockchainSettings.fields, name)]) resolves' inner

/-- Nothing else of a configuration is left open. -/
theorem Settled.eq (h : c.Settled v) (h' : c'.Settled v) : c = c' := by
  have node := Settings.determine_node.eq _ h.node h'.node
  have log := LogSettings.determine.eq _ h.log h'.log
  have metrics := MetricsSettings.determine.eq _ h.metrics h'.metrics
  have repository := Repository.determine.eq _ h.repository h'.repository
  have blockchain := Blockchain.determine.eq _ h.blockchain h'.blockchain
  cases c
  cases c'
  cases node
  cases log
  cases metrics
  cases repository
  cases blockchain
  rfl

end Configuration

end Resolved
end DecryptorNode.Config
