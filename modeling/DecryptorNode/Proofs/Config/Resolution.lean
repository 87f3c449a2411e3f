import DecryptorNode.Config.Settings
import DecryptorNode.Proofs.Chain.AddressText

/-! Which settings resolve, and what they come to. -/
namespace DecryptorNode.Config
open Chain (Address)

theorem mapError_eq_ok {ε δ α : Type} {f : ε → δ} {x : Except ε α} {a : α} :
    x.mapError f = .ok a ↔ x = .ok a := by
  cases x with
  | error e => exact ⟨nofun, nofun⟩
  | ok b =>
    have same {κ : Type} : (.ok b : Except κ α) = .ok a ↔ b = a :=
      ⟨Except.ok.inj, congrArg Except.ok⟩
    exact same.trans same.symm

namespace RepositorySettings
variable {s : RepositorySettings} {r : Repository}

/-- What the settings of the database must be. -/
structure Acceptable (s : RepositorySettings) : Prop where
  secret : s.password ≠ none ∨ s.driver = .sqlite
  connected : 1 ≤ s.maxConnections
  pool : s.minConnections ≤ s.maxConnections

private theorem passwordToUse_eq_ok {password : String} : s.passwordToUse = .ok password ↔
    (s.password ≠ none ∨ s.driver = .sqlite) ∧ password = s.password.getD "" := by
  unfold passwordToUse
  cases s.password with
  | some held => simp [eq_comm]
  | none => by_cases file : s.driver = .sqlite <;> simp [file, eq_comm]

/-- What the settings come to: themselves, with no password as an empty one. -/
theorem resolve_eq_ok : s.resolve = .ok r ↔ s.Acceptable ∧
    r = ⟨s.driver, s.user, s.password.getD "", s.database, s.host, s.tcpPort, s.maxConnections,
      s.minConnections⟩ := by
  have bounds : ¬ (s.maxConnections = 0 ∨ s.maxConnections < s.minConnections) ↔
      1 ≤ s.maxConnections ∧ s.minConnections ≤ s.maxConnections := by omega
  simp only [resolve, bind_eq_ok, passwordToUse_eq_ok]
  constructor
  · rintro ⟨password, ⟨secret, rfl⟩, checked⟩
    obtain ⟨connected, pool⟩ := bounds.mp fun outside => by
      rw [if_pos outside] at checked
      cases checked
    rw [if_neg (bounds.mpr ⟨connected, pool⟩)] at checked
    cases checked
    exact ⟨⟨secret, connected, pool⟩, rfl⟩
  · rintro ⟨⟨secret, connected, pool⟩, rfl⟩
    exact ⟨_, ⟨secret, rfl⟩, if_neg (bounds.mpr ⟨connected, pool⟩)⟩

private theorem exists_resolve : (∃ r, s.resolve = .ok r) ↔ s.Acceptable := by
  constructor
  · rintro ⟨r, resolved⟩
    exact (resolve_eq_ok.mp resolved).1
  · intro acceptable
    exact ⟨_, resolve_eq_ok.mpr ⟨acceptable, rfl⟩⟩

end RepositorySettings

namespace BlockchainSettings
variable {s : BlockchainSettings} {b : Blockchain}

def addresses (s : BlockchainSettings) : List String :=
  [s.keypersConfigList, s.decryptorsConfigList, s.publicKeyRegistry, s.signatureRegistry,
    s.keypers, s.decryptors]

/-- What the settings of the chain must be. -/
structure Acceptable (s : BlockchainSettings) : Prop where
  endpoint : s.rpcEndpoints ≠ []
  span : 1 ≤ s.maxBlocksPerFetch
  buffer : 1 ≤ s.eventBuffer
  wellFormed : ∀ text ∈ s.addresses, Address.WellFormed text
  distinct : Address.parse? s.publicKeyRegistry ≠ Address.parse? s.signatureRegistry

private theorem address_eq_ok {field value : String} {a : Address} :
    address field value = .ok a ↔ Address.parse? value = some a := by
  unfold address
  cases Address.parse? value <;> simp

theorem watched_eq_ok {contracts : Chain.WatchedContracts} : s.watched = .ok contracts ↔
    Address.parse? s.keypersConfigList = some contracts.keyperConfigs ∧
    Address.parse? s.decryptorsConfigList = some contracts.decryptorConfigs ∧
    Address.parse? s.publicKeyRegistry = some contracts.publicKeyRegistry ∧
    Address.parse? s.signatureRegistry = some contracts.signatureRegistry ∧
    contracts.publicKeyRegistry ≠ contracts.signatureRegistry := by
  simp only [watched, bind_eq_ok, address_eq_ok]
  constructor
  · rintro ⟨keypers, first, decryptors, second, publicKeys, third, signatures, fourth, checked⟩
    have distinct : publicKeys ≠ signatures := fun same => by
      rw [if_pos same] at checked
      cases checked
    rw [if_neg distinct] at checked
    cases checked
    exact ⟨first, second, third, fourth, distinct⟩
  · rintro ⟨first, second, third, fourth, distinct⟩
    exact ⟨_, first, _, second, _, third, _, fourth, if_neg distinct⟩

/-- What the settings come to: the contracts that were read, and everything else as it is. -/
theorem resolve_eq_ok : s.resolve = .ok b ↔
    (s.rpcEndpoints ≠ [] ∧ s.maxBlocksPerFetch ≠ 0 ∧ s.eventBuffer ≠ 0) ∧
    ∃ contracts keypers decryptors, s.watched = .ok contracts ∧
      Address.parse? s.keypers = some keypers ∧ Address.parse? s.decryptors = some decryptors ∧
      b = ⟨s.rpcEndpoints, ⟨contracts, s.finalityOffset, s.maxBlocksPerFetch⟩,
        ⟨keypers, decryptors, s.callTimeout⟩, s.pollInterval, s.eventBuffer⟩ := by
  unfold resolve
  by_cases bare : s.rpcEndpoints = []
  · simp [bare]
  by_cases still : s.maxBlocksPerFetch = 0
  · simp [bare, still]
  by_cases closed : s.eventBuffer = 0
  · simp [bare, still, closed]
  rw [if_neg bare, if_neg still, if_neg closed, and_iff_right ⟨bare, still, closed⟩]
  simp only [bind_eq_ok, address_eq_ok]
  constructor
  · rintro ⟨contracts, watched, keypers, first, decryptors, second, resolved⟩
    cases resolved
    exact ⟨contracts, keypers, decryptors, watched, first, second, rfl⟩
  · rintro ⟨contracts, keypers, decryptors, watched, first, second, rfl⟩
    exact ⟨contracts, watched, keypers, first, decryptors, second, rfl⟩

theorem eventBuffer_of_resolve (h : s.resolve = .ok b) :
    b.eventBuffer = s.eventBuffer ∧ 0 < b.eventBuffer := by
  obtain ⟨⟨-, -, buffer⟩, _, _, _, -, -, -, rfl⟩ := resolve_eq_ok.mp h
  exact ⟨rfl, Nat.pos_of_ne_zero buffer⟩

private theorem exists_resolve : (∃ b, s.resolve = .ok b) ↔ s.Acceptable := by
  constructor
  · rintro ⟨b, resolved⟩
    obtain ⟨⟨endpoint, span, buffer⟩, contracts, keypers, decryptors, watched, fifth, sixth, -⟩ :=
      resolve_eq_ok.mp resolved
    obtain ⟨first, second, third, fourth, distinct⟩ := watched_eq_ok.mp watched
    refine ⟨endpoint, Nat.one_le_iff_ne_zero.mpr span, Nat.one_le_iff_ne_zero.mpr buffer, ?_, ?_⟩
    · simp only [addresses, List.forall_mem_cons, ← Address.exists_parse?]
      exact ⟨⟨_, first⟩, ⟨_, second⟩, ⟨_, third⟩, ⟨_, fourth⟩, ⟨_, fifth⟩, ⟨_, sixth⟩, nofun⟩
    · rw [third, fourth]
      exact fun same => distinct (Option.some.inj same)
  · rintro ⟨endpoint, span, buffer, wellFormed, distinct⟩
    simp only [addresses, List.forall_mem_cons, ← Address.exists_parse?] at wellFormed
    obtain ⟨⟨keypers, first⟩, ⟨decryptors, second⟩, ⟨publicKeys, third⟩, ⟨signatures, fourth⟩,
      ⟨_, fifth⟩, ⟨_, sixth⟩, -⟩ := wellFormed
    rw [third, fourth] at distinct
    have watched : s.watched = .ok ⟨keypers, decryptors, publicKeys, signatures⟩ :=
      watched_eq_ok.mpr ⟨first, second, third, fourth, fun same => distinct (congrArg some same)⟩
    exact ⟨_, resolve_eq_ok.mpr ⟨⟨endpoint, Nat.one_le_iff_ne_zero.mp span,
      Nat.one_le_iff_ne_zero.mp buffer⟩, _, _, _, watched, fifth, sixth, rfl⟩⟩

end BlockchainSettings

namespace Settings
variable {s : Settings} {c : Configuration}

/-- What the settings of a node must be. -/
structure Acceptable (s : Settings) : Prop where
  repository : s.repository.Acceptable
  blockchain : s.blockchain.Acceptable

theorem resolve_eq_ok : s.resolve = .ok c ↔ ∃ repository blockchain,
    s.repository.resolve = .ok repository ∧ s.blockchain.resolve = .ok blockchain ∧
    c = ⟨s.instanceId, s.log, s.metrics, repository, blockchain⟩ := by
  simp only [resolve, bind_eq_ok, mapError_eq_ok]
  constructor
  · rintro ⟨repository, first, blockchain, second, resolved⟩
    cases resolved
    exact ⟨repository, blockchain, first, second, rfl⟩
  · rintro ⟨repository, blockchain, first, second, rfl⟩
    exact ⟨repository, first, blockchain, second, rfl⟩

theorem exists_resolve : (∃ c, s.resolve = .ok c) ↔ s.Acceptable := by
  constructor
  · rintro ⟨c, resolved⟩
    obtain ⟨repository, blockchain, first, second, -⟩ := resolve_eq_ok.mp resolved
    exact ⟨RepositorySettings.exists_resolve.mp ⟨_, first⟩,
      BlockchainSettings.exists_resolve.mp ⟨_, second⟩⟩
  · rintro ⟨repository, blockchain⟩
    obtain ⟨_, first⟩ := RepositorySettings.exists_resolve.mpr repository
    obtain ⟨_, second⟩ := BlockchainSettings.exists_resolve.mpr blockchain
    exact ⟨_, resolve_eq_ok.mpr ⟨_, _, first, second, rfl⟩⟩

end Settings
end DecryptorNode.Config
