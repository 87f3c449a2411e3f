import DecryptorNode.Proofs.Network.CallHalves

/-! What a verdict on a key can depend on. Of all that is stored it is only what the eon's key is
looked up as, and trouble with that lookup is never held against the sender: the checks that come
before it need no store, and what they let pass is ignored when the lookup fails. -/
namespace DecryptorNode.Store.EonKeys
open Telemetry (Activity)

/-- What the key of an eon is looked up as: its row if there is one, unless the table cannot be
read or the connection is lost. -/
def lookup (eon : Int) (d : Database) : Except StoreError (Option EonKeyEntry) :=
  if d.answers .eonKeys then
    .ok ((d.tables.eonKeys.find? eon).map fun row => ⟨eon, row.activation, row.publicKey⟩)
  else .error (.database none)

def lookupRecord : Except StoreError (Option EonKeyEntry) → Activity
  | .ok found => .query label "get" (some (if found.isSome then 1 else 0))
  | .error _ => .query label "get" none

private theorem direct_get (eon : Int) (s : Store) :
    Action.direct (get eon) s = (lookup eon s.database,
      ⟨s.database, lookupRecord (lookup eon s.database) :: s.activity⟩) := by
  have ran : ∃ left, (get eon).exec (.opened (.direct s.database) s.activity) =
      (lookup eon s.database,
        ⟨.direct s.database, lookupRecord (lookup eon s.database) :: s.activity, left⟩) := by
    have readable : (Workspace.opened (.direct s.database) s.activity).answers .eonKeys =
        s.database.answers .eonKeys := rfl
    rw [get, Work.exec_query, Workspace.run_of_read (run_read eon), readable, lookup]
    cases s.database.answers .eonKeys <;> exact ⟨_, rfl⟩
  obtain ⟨left, ran⟩ := ran
  exact Action.direct_eq_iff.mpr ⟨_, ran, rfl⟩

end DecryptorNode.Store.EonKeys

namespace DecryptorNode.Network
open Store (StoreError)
open Store.EonKeys (lookup lookupRecord)

/-- What can be said for a message without the store: it is for the instance, and its eon, epoch id
and key are well formed. -/
structure Presentable (instanceId : Nat) (m : DecryptionKey) : Prop where
  instanceId : m.instanceId = instanceId
  eon : 0 ≤ m.eon
  length : m.epochId.length = 32
  key : ∃ key, Keys.EpochSecretKey.ofBytes m.key = .ok key

namespace KeyHandler
variable {instanceId : Nat} {m : DecryptionKey}

private theorem wellFormed?_isSome :
    (wellFormed? instanceId m).isSome ↔ Presentable instanceId m := by
  constructor
  · intro h
    obtain ⟨⟨key, epoch⟩, parts⟩ := Option.isSome_iff_exists.mp h
    obtain ⟨mine, positive, ⟨length, -⟩, read⟩ := wellFormed?_eq_some.mp parts
    exact ⟨mine, positive, length, key, read⟩
  · rintro ⟨mine, positive, length, key, read⟩
    exact Option.isSome_of_eq_some
      (wellFormed?_eq_some.mpr ⟨mine, positive, ⟨length, rfl⟩, read⟩)

/-- The verdict on a message by what the key of its eon is looked up as. -/
def verdictOn (instanceId : Nat) (m : DecryptionKey)
    (looked : Except StoreError (Option Store.EonKeyEntry)) : Verdict :=
  match wellFormed? instanceId m with
  | none => .reject
  | some (key, epoch) => checkAgainst key epoch looked

private theorem validate_eq_verdictOn (instanceId : Nat) (m : DecryptionKey) (s : Store) :
    (validate instanceId m s).1 = verdictOn instanceId m (lookup m.eon s.database) := by
  rw [validate_eq, verdictOn]
  cases wellFormed? instanceId m with
  | none => rfl
  | some parts =>
    dsimp only
    rw [Store.EonKeys.direct_get]

/-- A message that is judged by the store leaves a record of the lookup, and no other does. -/
theorem activity_of_validate (instanceId : Nat) (m : DecryptionKey) (s : Store) :
    (validate instanceId m s).2.activity = if (wellFormed? instanceId m).isSome then
      lookupRecord (lookup m.eon s.database) :: s.activity else s.activity := by
  rw [validate_eq]
  cases wellFormed? instanceId m with
  | none => rfl
  | some parts =>
    dsimp only
    rw [Store.EonKeys.direct_get]
    rfl

section Verdicts
variable {looked : Except StoreError (Option Store.EonKeyEntry)}

private theorem verdictOn_of_not_presentable (h : ¬ Presentable instanceId m) :
    verdictOn instanceId m looked = .reject := by
  rw [← wellFormed?_isSome, Option.not_isSome_iff_eq_none] at h
  rw [verdictOn, h]

private theorem verdictOn_of_presentable (h : Presentable instanceId m) {key : Keys.EpochSecretKey}
    (read : Keys.EpochSecretKey.ofBytes m.key = .ok key) :
    verdictOn instanceId m looked = checkAgainst key ⟨m.epochId, h.length⟩ looked := by
  rw [verdictOn, wellFormed?_eq_some.mpr ⟨h.instanceId, h.eon, ⟨h.length, rfl⟩, read⟩]

/-- When the lookup fails, it is only decided whether the message is presentable. -/
private theorem verdictOn_error_eq_ignore (h : Presentable instanceId m) (e : StoreError) :
    verdictOn instanceId m (.error e) = .ignore := by
  obtain ⟨key, read⟩ := h.key
  exact verdictOn_of_presentable h read

private theorem verdictOn_eq_ignore : verdictOn instanceId m looked = .ignore ↔
    Presentable instanceId m ∧ ∃ e, looked = .error e := by
  constructor
  · intro ignored
    by_cases h : Presentable instanceId m
    · obtain ⟨key, read⟩ := h.key
      rw [verdictOn_of_presentable h read] at ignored
      unfold checkAgainst at ignored
      split at ignored
      · exact ⟨h, _, rfl⟩
      · cases ignored
      · split at ignored
        · cases ignored
        · split at ignored <;> cases ignored
    · rw [verdictOn_of_not_presentable h] at ignored
      cases ignored
  · rintro ⟨h, e, rfl⟩
    exact verdictOn_error_eq_ignore h e

private theorem verdictOn_eq_accept : verdictOn instanceId m looked = .accept ↔
    Presentable instanceId m ∧ ∃ key entry eonKey length,
      Keys.EpochSecretKey.ofBytes m.key = .ok key ∧ looked = .ok (some entry) ∧
      Keys.EonPublicKey.ofBytes entry.publicKey = .ok eonKey ∧
      key.verify eonKey ⟨m.epochId, length⟩ = true := by
  by_cases h : Presentable instanceId m
  · obtain ⟨key, read⟩ := h.key
    rw [verdictOn_of_presentable h read, checkAgainst_eq_accept, and_iff_right h]
    constructor
    · rintro ⟨entry, eonKey, found, fits⟩
      exact ⟨key, entry, eonKey, h.length, read, found, fits⟩
    · rintro ⟨key', entry, eonKey, _, read', found, fits⟩
      rw [read] at read'
      cases read'
      exact ⟨entry, eonKey, found, fits⟩
  · rw [verdictOn_of_not_presentable h]
    exact ⟨fun accepted => (by cases accepted), fun accepted => absurd accepted.1 h⟩

/-- A lookup that does not fail gets a message accepted or rejected. -/
private theorem verdictOn_ok_eq_reject {found : Option Store.EonKeyEntry}
    (refused : verdictOn instanceId m (.ok found) ≠ .accept) :
    verdictOn instanceId m (.ok found) = .reject := by
  cases judged : verdictOn instanceId m (.ok found) with
  | accept => exact absurd judged refused
  | reject => rfl
  | ignore =>
    obtain ⟨-, e, failed⟩ := verdictOn_eq_ignore.mp judged
    cases failed

private theorem verdictOn_of_unknown : verdictOn instanceId m (.ok none) = .reject := by
  refine verdictOn_ok_eq_reject fun taken => ?_
  obtain ⟨-, _, _, _, _, _, found, -⟩ := verdictOn_eq_accept.mp taken
  cases found

private theorem verdictOn_of_garbled {entry : Store.EonKeyEntry} {e : Keys.KeyError}
    (garbled : Keys.EonPublicKey.ofBytes entry.publicKey = .error e) :
    verdictOn instanceId m (.ok (some entry)) = .reject := by
  refine verdictOn_ok_eq_reject fun taken => ?_
  obtain ⟨-, _, _, _, _, _, found, read, -⟩ := verdictOn_eq_accept.mp taken
  cases found
  rw [garbled] at read
  cases read

private theorem verdictOn_of_unfit {entry : Store.EonKeyEntry} {eonKey : Keys.EonPublicKey}
    {key : Keys.EpochSecretKey} {length : m.epochId.length = 32}
    (read : Keys.EonPublicKey.ofBytes entry.publicKey = .ok eonKey)
    (readKey : Keys.EpochSecretKey.ofBytes m.key = .ok key)
    (unfit : key.verify eonKey ⟨m.epochId, length⟩ = false) :
    verdictOn instanceId m (.ok (some entry)) = .reject := by
  refine verdictOn_ok_eq_reject fun taken => ?_
  obtain ⟨-, _, _, _, _, readKey', found, read', fits⟩ := verdictOn_eq_accept.mp taken
  cases found
  rw [read] at read'
  cases read'
  rw [readKey] at readKey'
  cases readKey'
  rw [unfit] at fits
  cases fits

end Verdicts
end KeyHandler

/-- Trouble with the store never costs a sender anything, and lets no key in. All that a verdict
takes from the store is what the eon's key is looked up as. When that fails, a message is ignored,
unless nothing that could be stored would make it acceptable; and nothing but a lookup that was
made and failed gets a message ignored. An unknown eon, a stored key that does not read and a key
that does not fit it are reasons to reject. Whatever the verdict, the database stays as it was. -/
theorem lookup_failure_never_rejects (instanceId : Nat) (m : DecryptionKey) :
    let verdict (s : Store) := (KeyHandler.validate instanceId m s).1
    let looked (s : Store) := lookup m.eon s.database
    (∀ s s', looked s = looked s' → verdict s = verdict s') ∧
    (∀ s e, looked s = .error e → verdict s = .ignore ∨ verdict s = .reject) ∧
    (∀ s e, looked s = .error e → verdict s = .reject → ∀ s', verdict s' = .reject) ∧
    (∀ s s' e, verdict s = .accept → looked s' = .error e → verdict s' = .ignore) ∧
    (∀ s, verdict s = .ignore ↔ Presentable instanceId m ∧ ∃ e, looked s = .error e) ∧
    (∀ s, verdict s = .ignore → (KeyHandler.validate instanceId m s).2.activity =
      .query Store.EonKeys.label "get" none :: s.activity) ∧
    (∀ s, looked s = .ok none → verdict s = .reject) ∧
    (∀ s entry e, looked s = .ok (some entry) →
      Keys.EonPublicKey.ofBytes entry.publicKey = .error e → verdict s = .reject) ∧
    (∀ s entry eonKey key length, looked s = .ok (some entry) →
      Keys.EonPublicKey.ofBytes entry.publicKey = .ok eonKey →
      Keys.EpochSecretKey.ofBytes m.key = .ok key →
      key.verify eonKey ⟨m.epochId, length⟩ = false → verdict s = .reject) ∧
    (∀ s, verdict s = .accept ↔ Presentable instanceId m ∧ ∃ key entry eonKey length,
      Keys.EpochSecretKey.ofBytes m.key = .ok key ∧ looked s = .ok (some entry) ∧
      Keys.EonPublicKey.ofBytes entry.publicKey = .ok eonKey ∧
      key.verify eonKey ⟨m.epochId, length⟩ = true) ∧
    ∀ s, (KeyHandler.validate instanceId m s).2.database = s.database := by
  intro verdict looked
  have judged (s : Store) : verdict s = KeyHandler.verdictOn instanceId m (looked s) :=
    KeyHandler.validate_eq_verdictOn instanceId m s
  have ignored (s : Store) :=
    (judged s).symm ▸ @KeyHandler.verdictOn_eq_ignore instanceId m (looked s)
  have accepted (s : Store) :=
    (judged s).symm ▸ @KeyHandler.verdictOn_eq_accept instanceId m (looked s)
  have failing {s : Store} {e : StoreError} (failed : looked s = .error e)
      (h : Presentable instanceId m) : verdict s = .ignore := (ignored s).mpr ⟨h, e, failed⟩
  have hopeless (h : ¬ Presentable instanceId m) (s : Store) : verdict s = .reject :=
    (judged s).trans (KeyHandler.verdictOn_of_not_presentable h)
  refine ⟨?_, ?_, ?_, ?_, ignored, ?_, ?_, ?_, ?_, accepted,
    KeyHandler.database_of_validate instanceId m⟩
  · intro s s' same
    rw [judged, judged, same]
  · intro s e failed
    by_cases h : Presentable instanceId m
    · exact .inl (failing failed h)
    · exact .inr (hopeless h s)
  · intro s e failed rejected
    refine hopeless fun h => ?_
    rw [failing failed h] at rejected
    cases rejected
  · intro s s' e taken failed
    exact failing failed ((accepted s).mp taken).1
  · intro s passed
    obtain ⟨h, e, failed⟩ := (ignored s).mp passed
    rw [KeyHandler.activity_of_validate, if_pos (KeyHandler.wellFormed?_isSome.mpr h)]
    exact congrArg (lookupRecord · :: s.activity) failed
  · intro s unknown
    rw [judged, unknown, KeyHandler.verdictOn_of_unknown]
  · intro s entry e found garbled
    rw [judged, found, KeyHandler.verdictOn_of_garbled garbled]
  · intro s entry eonKey key length found read readKey unfit
    rw [judged, found, KeyHandler.verdictOn_of_unfit read readKey unfit]

end DecryptorNode.Network
