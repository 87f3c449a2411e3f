import DecryptorNode.Proofs.Store.QueryLaws
import DecryptorNode.Sync.Apply

/-! What the event handlers do to the tables that mirror the chain, as functions of these tables
alone. A handler that succeeds has done exactly that, whatever the state of the database; on a
sound database it succeeds whenever the function has a value. -/
namespace DecryptorNode.Store

/-- The tables that mirror the chain. -/
structure ChainTables where
  keyperSets : Table Int KeyperSetRow
  setMembers : Table MemberKey String
  identities : Table String IdentityRow

namespace Tables

def chain (t : Tables) : ChainTables := ⟨t.keyperSets, t.setMembers, t.identities⟩

def withChain (t : Tables) (c : ChainTables) : Tables :=
  { t with keyperSets := c.keyperSets, setMembers := c.setMembers, identities := c.identities }

end Tables
end DecryptorNode.Store

namespace DecryptorNode.Sync
open Chain (Address AddressReader AddressSet ChainEvent)
open Store (ChainTables Credential IdentityRow MemberKey Table Work Workspace)

def readable (reader : AddressReader) (set : AddressSet) (index : Nat) : Option (List Address) :=
  match (reader set index).reply with
  | .addresses l => some l
  | _ => none

def putMembers (activation : Int) : (position : Nat) → List Address → Table MemberKey String →
    Option (Table MemberKey String)
  | _, [], t => some t
  | position, a :: rest, t =>
    if position < 2 ^ 31 ∧ t.find? ⟨activation, position⟩ = none then
      putMembers activation (position + 1) rest (t.put ⟨activation, position⟩ a.text)
    else none

def standing (account : Address) (t : Table String IdentityRow) : ReconcileOutcome :=
  judge account ((t.find? account.text).map fun row =>
    ⟨account.text, row.publicKey, row.signature, row.verified⟩)

/-- The flag is raised if the account's credentials verify now. -/
def reconciled (account : Address) (t : Table String IdentityRow) : Table String IdentityRow :=
  match t.find? account.text with
  | none => t
  | some row =>
    if standing account t = .verified then t.put account.text { row with verified := true } else t

def registered (credential : Credential) (registration : Chain.Registration)
    (t : Table String IdentityRow) : Table String IdentityRow :=
  let account := registration.account
  reconciled account (t.put account.text
    (Store.Identities.setCredential credential registration.data
      ((t.find? account.text).getD Store.Identities.blank)))

/-- What an event makes of the tables that mirror the chain, if it can be recorded in them. -/
def recorded (contracts : Chain.WatchedContracts)
    (lists : AddressSet → Nat → Option (List Address)) (event : ChainEvent) (t : ChainTables) :
    Option ChainTables :=
  match event with
  | .keyperConfig config =>
    (lists .keypers config.index).bind fun keypers =>
      if config.activation < 2 ^ 63 ∧ config.threshold < 2 ^ 31 ∧
          t.keyperSets.find? config.activation = none then
        some { t with
          keyperSets := t.keyperSets.put config.activation
            ⟨Store.KeyperList.encode (keypers.map Address.text), config.threshold⟩ }
      else none
  | .decryptorConfig config =>
    (lists .decryptors config.index).bind fun members =>
      if config.activation < 2 ^ 63 then
        (putMembers config.activation 0 members t.setMembers).map fun rows =>
          { t with setMembers := rows }
      else none
  | .registered registration =>
    match credentialOf? contracts registration.registry with
    | some credential =>
      some { t with identities := registered credential registration t.identities }
    | none => some t
  | .unknown _ _ => some t

/-- A reader that knows more lists records the same. -/
theorem recorded_mono {contracts : Chain.WatchedContracts}
    {lists lists' : AddressSet → Nat → Option (List Address)} {event : ChainEvent}
    {t t' : ChainTables} (extends' : ∀ set index l, lists set index = some l →
      lists' set index = some l)
    (h : recorded contracts lists event t = some t') :
    recorded contracts lists' event t = some t' := by
  cases event with
  | keyperConfig config =>
    obtain ⟨l, read, h⟩ := Option.bind_eq_some_iff.mp h
    exact Option.bind_eq_some_iff.mpr ⟨l, extends' _ _ _ read, h⟩
  | decryptorConfig config =>
    obtain ⟨l, read, h⟩ := Option.bind_eq_some_iff.mp h
    exact Option.bind_eq_some_iff.mpr ⟨l, extends' _ _ _ read, h⟩
  | registered registration => exact h
  | unknown contract topic => exact h

section Parts
variable {w w' : Workspace}

theorem exec_activationNumber_eq_ok {n : Nat} {a : Int} :
    (activationNumber n).exec w = (.ok a, w') ↔ n < 2 ^ 63 ∧ a = n ∧ w = w' := by
  unfold activationNumber refuse
  by_cases fits : n < 2 ^ 63
  · rw [if_pos fits, and_iff_right fits, Work.exec_pure]
    simp [eq_comm]
  · rw [if_neg fits, Work.exec_throw]
    exact ⟨fun h => (by cases h), fun h => absurd h.1 fits⟩

theorem exec_thresholdNumber_eq_ok {n : Nat} {a : Int} :
    (thresholdNumber n).exec w = (.ok a, w') ↔ n < 2 ^ 31 ∧ a = n ∧ w = w' := by
  unfold thresholdNumber refuse
  by_cases fits : n < 2 ^ 31
  · rw [if_pos fits, and_iff_right fits, Work.exec_pure]
    simp [eq_comm]
  · rw [if_neg fits, Work.exec_throw]
    exact ⟨fun h => (by cases h), fun h => absurd h.1 fits⟩

theorem exec_notes (activity : List Telemetry.Activity) :
    (activity.forM (Work.note (ε := Halt))).exec w =
      (.ok (), { w with activity := activity.reverse ++ w.activity }) := by
  induction activity generalizing w with
  | nil => rfl
  | cons a rest ih =>
    change (Work.note (ε := Halt) a >>= fun _ => rest.forM Work.note).exec w = _
    rw [Work.exec_bind, Work.exec_note]
    dsimp only
    rw [ih, List.reverse_cons, List.append_assoc, List.singleton_append]

theorem exec_readAddresses_eq_ok {reader : AddressReader} {set : AddressSet} {index : Nat}
    {l : List Address} :
    (readAddresses reader set index).exec w = (.ok l, w') ↔ readable reader set index = some l ∧
      w' = { w with activity := (reader set index).activity.reverse ++ w.activity } := by
  unfold readAddresses readable refuse
  rw [Work.exec_bind, exec_notes]
  dsimp only
  cases (reader set index).reply <;> simp [eq_comm]

end Parts

/-- Work that does to the tables that mirror the chain what a function says, and to nothing else. -/
structure Records {α : Type} (work : Work Halt α) (effect : ChainTables → Option ChainTables) :
    Prop where
  sound : ∀ w a w', work.exec w = (.ok a, w') →
    (∃ c, effect w.tables.chain = some c ∧ w'.draft = w.draft.saved (w.tables.withChain c)) ∧
    (w'.connected = true → w.connected = true)
  complete : ∀ w c, w.Sound → effect w.tables.chain = some c →
    ∃ a w', work.exec w = (.ok a, w') ∧ w'.draft = w.draft.saved (w.tables.withChain c) ∧
      w'.lasts = none

theorem records_nothing : Records (pure ()) some where
  sound w a w' h := by
    cases h
    exact ⟨⟨w.tables.chain, rfl, rfl⟩, id⟩
  complete w c sound h := by
    cases h
    exact ⟨(), w, rfl, rfl, sound.lasting⟩

private theorem Records.discard {α : Type} {work : Work Halt α}
    {effect : ChainTables → Option ChainTables}
    (h : Records work effect) : Records (discard work) effect where
  sound w _ w' ran := by
    obtain ⟨a, ran⟩ := Work.exec_discard_eq_ok.mp ran
    exact h.sound w a w' ran
  complete w c sound value := by
    obtain ⟨a, w', ran, left⟩ := h.complete w c sound value
    exact ⟨(), w', Work.exec_discard_eq_ok.mpr ⟨a, ran⟩, left⟩

private theorem records_keyperSet (contracts : Chain.WatchedContracts) (reader : AddressReader)
    (config : Chain.KeyperConfig) :
    Records (recordKeyperSet reader config)
      (recorded contracts (readable reader) (.keyperConfig config)) where
  sound w a w' h := by
    cases a
    simp only [recordKeyperSet, stored, Work.exec_bind_eq_ok, exec_activationNumber_eq_ok,
      exec_thresholdNumber_eq_ok, exec_readAddresses_eq_ok, Work.exec_mapError_eq_ok,
      Store.KeyperSets.exec_insert_eq_ok] at h
    obtain ⟨_, _, ⟨activation, rfl, rfl⟩, _, _, ⟨threshold, rfl, rfl⟩, keypers, _, ⟨read, rfl⟩,
      connected, -, free, rfl⟩ := h
    refine ⟨⟨{ w.tables.chain with
      keyperSets := w.tables.keyperSets.put config.activation
        ⟨Store.KeyperList.encode (keypers.map Address.text), config.threshold⟩ }, ?_, rfl⟩,
      fun _ => connected⟩
    simp only [recorded, read, Option.bind_some]
    exact if_pos ⟨activation, threshold, free⟩
  complete w c sound value := by
    obtain ⟨keypers, read, value⟩ := Option.bind_eq_some_iff.mp value
    obtain ⟨⟨activation, threshold, free⟩, value⟩ := Option.ite_none_right_eq_some.mp value
    cases value
    refine ⟨(), ?_⟩
    simp only [recordKeyperSet, stored, Work.exec_bind_eq_ok, exec_activationNumber_eq_ok,
      exec_thresholdNumber_eq_ok, exec_readAddresses_eq_ok, Work.exec_mapError_eq_ok,
      Store.KeyperSets.exec_insert_eq_ok]
    exact ⟨_, ⟨_, _, ⟨activation, rfl, rfl⟩, _, _, ⟨threshold, rfl, rfl⟩, keypers, _, ⟨read, rfl⟩,
      sound.connected, sound.draft.canWrite _, free, rfl⟩, rfl, sound.spent⟩

theorem exec_recordMembers_cons {activation : Int} {size position : Nat} {a : Address}
    {rest : List Address} {w w' : Workspace} :
    (recordMembers activation size position (a :: rest)).exec w = (.ok (), w') ↔
      position < 2 ^ 31 ∧ ∃ u,
        (Store.DecryptorSets.insertMember ⟨activation, position, a.text⟩).exec w = (.ok (), u) ∧
        (recordMembers activation size (position + 1) rest).exec u = (.ok (), w') := by
  rw [recordMembers]
  dsimp only
  by_cases fits : position < 2 ^ 31
  · rw [if_neg (Nat.not_le.mpr fits)]
    simp only [Work.exec_bind_eq_ok, stored, Work.exec_mapError_eq_ok, fits, true_and]
    constructor
    · rintro ⟨_, u, inserted, h⟩
      exact ⟨u, inserted, h⟩
    · rintro ⟨u, inserted, h⟩
      exact ⟨(), u, inserted, h⟩
  · rw [if_pos (Nat.not_lt.mp fits), Work.exec_bind, refuse, Work.exec_throw]
    exact ⟨fun h => (by cases h), fun h => absurd h.1 fits⟩

private theorem records_members (activation : Int) (size position : Nat) (l : List Address) :
    Records (recordMembers activation size position l) fun c =>
      (putMembers activation position l c.setMembers).map fun m => { c with setMembers := m } := by
  induction l generalizing position with
  | nil => exact records_nothing
  | cons a rest ih =>
    constructor
    · intro w b w' h
      cases b
      obtain ⟨fits, u, inserted, h⟩ := exec_recordMembers_cons.mp h
      obtain ⟨connected, -, free, rfl⟩ := Store.DecryptorSets.exec_insertMember_eq_ok.mp inserted
      obtain ⟨⟨c, value, draft⟩, -⟩ := (ih (position + 1)).sound _ _ _ h
      refine ⟨⟨c, ?_, draft⟩, fun _ => connected⟩
      rw [putMembers, if_pos ⟨fits, free⟩]
      exact value
    · intro w c sound value
      rw [putMembers] at value
      split at value
      · rename_i possible
        obtain ⟨fits, free⟩ := possible
        have inserted : (Store.DecryptorSets.insertMember ⟨activation, position, a.text⟩).exec w =
            (.ok (), _) :=
          Store.DecryptorSets.exec_insertMember_eq_ok.mpr
            ⟨sound.connected, sound.draft.canWrite _, free, rfl⟩
        let t : Store.Tables := { w.tables with
          setMembers := w.tables.setMembers.put ⟨activation, position⟩ a.text }
        obtain ⟨b, w', h, left⟩ := (ih (position + 1)).complete ⟨w.draft.saved t, _, w.spent⟩ c
          (sound.later rfl sound.spent) value
        cases b
        exact ⟨(), w', exec_recordMembers_cons.mpr ⟨fits, _, inserted, h⟩, left⟩
      · cases value

private theorem records_decryptorSet (contracts : Chain.WatchedContracts) (reader : AddressReader)
    (config : Chain.DecryptorConfig) :
    Records (recordDecryptorSet reader config)
      (recorded contracts (readable reader) (.decryptorConfig config)) where
  sound w a w' h := by
    cases a
    simp only [recordDecryptorSet, Work.exec_bind_eq_ok, exec_activationNumber_eq_ok,
      exec_readAddresses_eq_ok] at h
    obtain ⟨_, _, ⟨activation, rfl, rfl⟩, members, _, ⟨read, rfl⟩, h⟩ := h
    obtain ⟨⟨c, value, draft⟩, lasting⟩ := (records_members _ _ _ _).sound _ _ _ h
    refine ⟨⟨c, ?_, draft⟩, lasting⟩
    simp only [recorded, read, Option.bind_some]
    rw [if_pos activation]
    exact value
  complete w c sound value := by
    obtain ⟨members, read, value⟩ := Option.bind_eq_some_iff.mp value
    obtain ⟨activation, value⟩ := Option.ite_none_right_eq_some.mp value
    obtain ⟨a, w', h, left⟩ :=
      (records_members config.activation members.length 0 members).complete
        { w with activity := (reader .decryptors config.index).activity.reverse ++ w.activity } c
        ⟨sound.draft, sound.lasting⟩ value
    refine ⟨a, w', ?_, left⟩
    simp only [recordDecryptorSet, Work.exec_bind_eq_ok, exec_activationNumber_eq_ok,
      exec_readAddresses_eq_ok]
    exact ⟨_, _, ⟨activation, rfl, rfl⟩, members, _, ⟨read, rfl⟩, h⟩

theorem judge_eq_verified_iff {account : Address} {identity : Option Store.Identity} :
    judge account identity = .verified ↔ ∃ i key signature, identity = some i ∧
      i.verified = false ∧ i.publicKey = some key ∧ i.signature = some signature ∧
      key ≠ [] ∧ signature ≠ [] ∧ Keys.verifySignature key signature account.bytes = true := by
  cases identity with
  | none => simp [judge]
  | some i =>
    obtain ⟨address, key, signature, verified⟩ := i
    unfold judge
    cases verified <;> cases key <;> cases signature <;> simp
    rename_i key signature
    cases key <;> cases signature <;> simp

theorem row_of_standing_verified {account : Address} {t : Table String IdentityRow}
    (h : standing account t = .verified) :
    ∃ row, t.find? account.text = some row ∧ row.verified = false := by
  obtain ⟨i, -, -, present, unverified, -⟩ := judge_eq_verified_iff.mp h
  obtain ⟨row, found, rfl⟩ := Option.map_eq_some_iff.mp present
  exact ⟨row, found, unverified⟩

theorem reconciled_of_verified {account : Address} {t : Table String IdentityRow}
    {row : IdentityRow} (found : t.find? account.text = some row)
    (verified : standing account t = .verified) :
    reconciled account t = t.put account.text { row with verified := true } := by
  simp only [reconciled, found, verified, ↓reduceIte]

theorem reconciled_of_not_verified {account : Address} {t : Table String IdentityRow}
    (h : standing account t ≠ .verified) : reconciled account t = t := by
  unfold reconciled
  split
  · rfl
  · rw [if_neg h]

theorem records_reconcile (account : Address) :
    Records (stored (reconcile account)) fun c =>
      some { c with identities := reconciled account c.identities } where
  sound w outcome w' h := by
    simp only [stored, Work.exec_mapError_eq_ok, reconcile, Work.exec_bind_eq_ok,
      Store.Identities.exec_get_eq_ok] at h
    obtain ⟨_, _, ⟨connected, -, rfl, rfl⟩, h⟩ := h
    refine ⟨⟨_, rfl, ?_⟩, fun _ => connected⟩
    by_cases verified : standing account w.tables.identities = .verified
    · obtain ⟨row, found, unverified⟩ := row_of_standing_verified verified
      rw [if_pos (by exact verified)] at h
      simp only [Work.exec_bind_eq_ok, Work.exec_discard_eq_ok] at h
      obtain ⟨_, _, ⟨n, marked⟩, _, _, noted, h⟩ := h
      obtain ⟨-, -, -, rfl⟩ := (Store.Identities.exec_markVerified_eq_ok (by exact found)
        unverified).mp marked
      cases noted
      cases h
      change _ = w.draft.saved
        { w.tables with identities := reconciled account w.tables.identities }
      rw [reconciled_of_verified found verified]
      rfl
    · rw [if_neg (by exact verified)] at h
      cases h
      change _ = w.draft.saved
        { w.tables with identities := reconciled account w.tables.identities }
      rw [reconciled_of_not_verified verified]
      rfl
  complete w c sound value := by
    cases value
    obtain ⟨activity, fetched⟩ : ∃ activity, (Store.Identities.get account.text).exec w =
        (.ok ((w.tables.identities.find? account.text).map _), ⟨w.draft, activity, none⟩) :=
      ⟨_, Store.Identities.exec_get_eq_ok.mpr
        ⟨sound.connected, sound.draft.canRead _, rfl, by rw [sound.spent]⟩⟩
    refine ⟨standing account w.tables.identities, ?_⟩
    simp only [stored, Work.exec_mapError_eq_ok, reconcile, Work.exec_bind_eq_ok]
    by_cases verified : standing account w.tables.identities = .verified
    · obtain ⟨row, found, unverified⟩ := row_of_standing_verified verified
      have marked := (Store.Identities.exec_markVerified_eq_ok (w := ⟨w.draft, activity, none⟩)
        found unverified).mpr ⟨rfl, sound.draft.canWrite _, rfl, rfl⟩
      refine ⟨⟨w.draft.saved { w.tables with
          identities := w.tables.identities.put account.text { row with verified := true } },
        .reconciled (standing account w.tables.identities).label ::
        .query Store.Identities.label "mark_signature_verified" (some 1) ::
          activity, none⟩, ⟨_, _, fetched, ?_⟩, ?_, rfl⟩
      · rw [if_pos (by exact verified)]
        simp only [Work.exec_bind_eq_ok, Work.exec_discard_eq_ok]
        exact ⟨(), _, ⟨1, marked⟩, (), _, rfl, rfl⟩
      · change _ = w.draft.saved
          { w.tables with identities := reconciled account w.tables.identities }
        rw [reconciled_of_verified found verified]
    · refine ⟨⟨w.draft, .reconciled (standing account w.tables.identities).label :: activity, none⟩,
        ⟨_, _, fetched, ?_⟩, ?_, rfl⟩
      · rw [if_neg (by exact verified)]
        rfl
      · change _ = w.draft.saved
          { w.tables with identities := reconciled account w.tables.identities }
        rw [reconciled_of_not_verified verified]
        rfl

private theorem records_credential (credential : Credential) (registration : Chain.Registration) :
    Records (recordCredential credential registration) fun c =>
      some { c with identities := registered credential registration c.identities } where
  sound w outcome w' h := by
    obtain ⟨_, u, stored, h⟩ := Work.exec_bind_eq_ok.mp h
    obtain ⟨connected, -, rfl⟩ :=
      Store.Identities.exec_upsert_eq_ok.mp (Work.exec_mapError_eq_ok.mp stored)
    obtain ⟨⟨c, value, draft⟩, -⟩ := (records_reconcile registration.account).sound _ _ _ h
    cases value
    exact ⟨⟨_, rfl, draft⟩, fun _ => connected⟩
  complete w c sound value := by
    cases value
    have stored : (Store.Identities.upsert registration.account.text credential
        registration.data).exec w = (.ok (), _) :=
      Store.Identities.exec_upsert_eq_ok.mpr ⟨sound.connected, sound.draft.canWrite _, rfl⟩
    obtain ⟨outcome, w', h, left⟩ := (records_reconcile registration.account).complete
      ⟨w.draft.saved _, _, w.spent⟩ _ (sound.later rfl sound.spent) rfl
    exact ⟨outcome, w', Work.exec_bind_eq_ok.mpr
      ⟨_, _, Work.exec_mapError_eq_ok.mpr stored, h⟩, left⟩

/-- A handled event is recorded in the tables that mirror the chain, and nowhere else. -/
theorem records_event (contracts : Chain.WatchedContracts) (reader : AddressReader)
    (event : ChainEvent) :
    Records (recordEvent contracts reader event)
      (recorded contracts (readable reader) event) := by
  cases event with
  | keyperConfig config => exact records_keyperSet contracts reader config
  | decryptorConfig config => exact records_decryptorSet contracts reader config
  | registered registration =>
    unfold recordEvent recorded
    dsimp only
    cases credentialOf? contracts registration.registry with
    | none => exact records_nothing
    | some credential => exact (records_credential credential registration).discard
  | unknown contract topic => exact records_nothing

end DecryptorNode.Sync
