import DecryptorNode.Config.Environment
import DecryptorNode.Proofs.Chain.RangePlanning
import DecryptorNode.Proofs.Config.Resolution
import DecryptorNode.Sync.Opening

/-! What a node with settings that resolve can rely on when it sets its synchronisation up: nothing
is out of bounds but possibly the room of the channel. -/
namespace DecryptorNode.Sync
open Chain (AddressReader Cursor Log Reply)
open Config (Blockchain BlockchainSettings Configuration Settings)

private theorem Channel.exists_ofRoom {room : Nat} :
    (∃ channel, Channel.ofRoom room = .ok channel) ↔ 0 < room ∧ room ≤ maxRoom := by
  unfold Channel.ofRoom
  by_cases positive : 0 < room
  · by_cases bounded : room ≤ maxRoom <;> simp [positive, bounded]
  · simp [positive]

private theorem Channel.ofRoom_of_maxRoom_lt {room : Nat} (large : maxRoom < room) :
    Channel.ofRoom room = .error .tooMuchRoom := by
  have positive : 0 < room := Nat.zero_lt_of_lt large
  rw [Channel.ofRoom, dif_pos positive, dif_neg (Nat.not_le.mpr large)]

section Setting
variable {b : Blockchain} {start : Cursor} {reader : AddressReader} {heads : List (Reply Nat)}
  {logs : List (Reply (List Log))} {s : Store}

private theorem Syncer.exists_ofSettings : (∃ syncer, Syncer.ofSettings b start = .ok syncer) ↔
    0 < b.eventBuffer ∧ b.eventBuffer ≤ maxRoom := by
  simp only [Syncer.ofSettings, bind_eq_ok, ← Channel.exists_ofRoom]
  constructor
  · rintro ⟨syncer, channel, opened, -⟩
    exact ⟨channel, opened⟩
  · rintro ⟨channel, opened⟩
    exact ⟨_, channel, opened, rfl⟩

private theorem Syncer.ofSettings_of_maxRoom_lt (large : maxRoom < b.eventBuffer) :
    Syncer.ofSettings b start = .error .tooMuchRoom := by
  rw [Syncer.ofSettings, Channel.ofRoom_of_maxRoom_lt large]
  rfl

/-- With room in the channel, a life is that of the plan in the settings. -/
theorem synchroniseAs_eq (positive : 0 < b.eventBuffer) (bounded : b.eventBuffer ≤ maxRoom) :
    synchroniseAs b reader heads logs s = .ok (synchronise b.plan reader heads logs s) := by
  obtain ⟨channel, opened⟩ := Channel.exists_ofRoom.mpr ⟨positive, bounded⟩
  unfold synchroniseAs synchronise
  rcases loadCursor s with ⟨e | cursor, s'⟩
  · rfl
  · dsimp only
    rw [Syncer.ofSettings, opened]
    rfl

/-- With too much asked for, there is no life but one that cannot read its position. -/
theorem synchroniseAs_of_maxRoom_lt (large : maxRoom < b.eventBuffer) {cursor : Cursor}
    (loaded : (loadCursor s).1 = .ok cursor) :
    synchroniseAs b reader heads logs s = .error .tooMuchRoom := by
  unfold synchroniseAs
  rcases ran : loadCursor s with ⟨e | position, s'⟩
  · rw [ran] at loaded
    cases loaded
  · dsimp only
    rw [Syncer.ofSettings_of_maxRoom_lt large]
    rfl

end Setting

/-- What a node relies on when it runs with these settings: the sums of every round stay within 64
bits, and each registry stands for a kind of credential of its own. -/
structure Reliable (b : Blockchain) : Prop where
  narrower : Chain.checkedSub b.plan.maxBlocks 1 = some (b.plan.maxBlocks - 1)
  rounds : ∀ block final range, final < Chain.maxWord →
    Chain.nextRange? block (some final) b.plan.maxBlocks = some range →
    Chain.Planned block final b.plan.maxBlocks range
  publicKeys :
    credentialOf? b.plan.contracts b.plan.contracts.publicKeyRegistry = some .publicKey
  signatures :
    credentialOf? b.plan.contracts b.plan.contracts.signatureRegistry = some .signature

private theorem reliable_of_resolve {s : BlockchainSettings} {b : Blockchain}
    (h : s.resolve = .ok b) : Reliable b := by
  obtain ⟨⟨-, span, -⟩, contracts, keypers, decryptors, watched, -, -, rfl⟩ :=
    BlockchainSettings.resolve_eq_ok.mp h
  obtain ⟨-, -, -, -, distinct⟩ := BlockchainSettings.watched_eq_ok.mp watched
  have positive : 1 ≤ s.maxBlocksPerFetch := Nat.one_le_iff_ne_zero.mpr span
  constructor
  case narrower => exact if_pos positive
  case rounds => exact fun block final range small => Chain.planned_of_nextRange? positive small
  case publicKeys => rw [credentialOf?, if_neg distinct, if_pos rfl]
  case signatures => rw [credentialOf?, if_pos rfl]

/-- The settings that resolve are the acceptable ones, and with them everything is set up as it is
meant to be, but for the room of the channel: more than a channel can have is accepted, and then the
program breaks off. -/
theorem resolved_settings_runnable (s : Settings) :
    ((∃ c, s.resolve = .ok c) ↔ s.Acceptable) ∧
    ∀ c, s.resolve = .ok c →
      Reliable c.blockchain ∧
      (∀ start, (∃ syncer, Syncer.ofSettings c.blockchain start = .ok syncer) ↔
        s.blockchain.eventBuffer ≤ maxRoom) ∧
      ∀ reader heads logs store,
        (s.blockchain.eventBuffer ≤ maxRoom →
          synchroniseAs c.blockchain reader heads logs store =
            .ok (synchronise c.blockchain.plan reader heads logs store)) ∧
        (maxRoom < s.blockchain.eventBuffer → ∀ cursor, (loadCursor store).1 = .ok cursor →
          synchroniseAs c.blockchain reader heads logs store = .error .tooMuchRoom) := by
  refine ⟨Settings.exists_resolve, fun c resolved => ?_⟩
  obtain ⟨repository, blockchain, -, settled, rfl⟩ := Settings.resolve_eq_ok.mp resolved
  obtain ⟨same, positive⟩ := BlockchainSettings.eventBuffer_of_resolve settled
  rw [← same]
  exact ⟨reliable_of_resolve settled,
    fun start => Syncer.exists_ofSettings.trans (and_iff_right positive),
    fun reader heads logs store =>
      ⟨synchroniseAs_eq positive, fun large cursor => synchroniseAs_of_maxRoom_lt large⟩⟩

private theorem exists_resolve_of_isSome {s : Settings}
    (accepted : s.resolve.toOption.isSome = true) : ∃ c, s.resolve = .ok c := by
  cases resolved : s.resolve with
  | error e =>
    rw [resolved] at accepted
    cases accepted
  | ok c => exact ⟨c, rfl⟩

/-- The settings that development starts from fit: they resolve, and every life with them is that of
the plan. -/
theorem development_settings_run :
    Config.Environment.development.settings.blockchain.eventBuffer ≤ maxRoom ∧
    ∃ c, Config.Environment.development.settings.resolve = .ok c ∧ Reliable c.blockchain ∧
      (∀ start, ∃ syncer, Syncer.ofSettings c.blockchain start = .ok syncer) ∧
      ∀ reader heads logs store, synchroniseAs c.blockchain reader heads logs store =
        .ok (synchronise c.blockchain.plan reader heads logs store) := by
  have fits : Config.Environment.development.settings.blockchain.eventBuffer ≤ maxRoom := by decide
  obtain ⟨-, runs⟩ := resolved_settings_runnable Config.Environment.development.settings
  obtain ⟨c, resolved⟩ := exists_resolve_of_isSome
    (s := Config.Environment.development.settings) (by decide +kernel)
  obtain ⟨reliable, built, lives⟩ := runs c resolved
  exact ⟨fits, c, resolved, reliable, fun start => (built start).mpr fits,
    fun reader heads logs store => (lives reader heads logs store).1 fits⟩

/-- The settings of a local chain with one more place in the channel than it can have. -/
def roomySettings : Settings :=
  let s := Config.Environment.development.settings
  { s with blockchain := { s.blockchain with eventBuffer := 2 ^ 61 } }

/-- They resolve, and no life comes of them, not even on an empty store. -/
theorem roomy_settings_break : roomySettings.blockchain.eventBuffer ≤ Chain.maxWord ∧
    ∃ c, roomySettings.resolve = .ok c ∧
      (∀ start, Syncer.ofSettings c.blockchain start = .error .tooMuchRoom) ∧
      ∀ reader heads logs,
        synchroniseAs c.blockchain reader heads logs .empty = .error .tooMuchRoom := by
  have large : maxRoom < 2 ^ 61 := by decide
  refine ⟨by decide, ?_⟩
  obtain ⟨c, resolved⟩ := exists_resolve_of_isSome (s := roomySettings) (by decide +kernel)
  obtain ⟨repository, blockchain, -, settled, rfl⟩ := Settings.resolve_eq_ok.mp resolved
  obtain ⟨same, -⟩ := BlockchainSettings.eventBuffer_of_resolve settled
  have beyond : maxRoom < blockchain.eventBuffer := same.symm ▸ large
  exact ⟨_, resolved, fun start => Syncer.ofSettings_of_maxRoom_lt beyond,
    fun reader heads logs => synchroniseAs_of_maxRoom_lt beyond rfl⟩

end DecryptorNode.Sync
