import DecryptorNode.Proofs.Sync.VerifiedFlags

/-! What one check of an account's identity does, whatever the tables hold. It always comes to an
outcome; all that it can write is the flag of the account's row, and only to raise it for
credentials that belong together. A second check finds nothing left to do. -/
namespace DecryptorNode.Sync
open Chain (Address)
open Store (IdentityRow Table Tables Work Workspace)

/-- What a check concludes that is repeated at once. -/
def ReconcileOutcome.repeated : ReconcileOutcome → ReconcileOutcome
  | .verified => .alreadyVerified
  | outcome => outcome

/-- The key and the signature are there, neither is empty, and they do not belong together. -/
def Disproven (account : Address) (row : IdentityRow) : Prop :=
  ∃ key signature, row.publicKey = some key ∧ row.signature = some signature ∧
    key ≠ [] ∧ signature ≠ [] ∧ Keys.verifySignature key signature account.bytes = false

/-- What a check makes of the tables, and what its outcome says about them. Rows in the order of
their keys, as a database has them, stay where they are. -/
structure Reconciles (account : Address) (before after : Tables) (outcome : ReconcileOutcome) :
    Prop where
  tables : after = { before with identities := after.identities }
  others : ∀ key, key ≠ account.text →
    after.identities.find? key = before.identities.find? key
  row : after.identities.find? account.text =
    (before.identities.find? account.text).map fun row =>
      { row with verified := row.verified || outcome = .verified }
  rows : before.identities.Ordered → after.identities.rows =
    before.identities.rows.map fun entry =>
      if entry.1 = account.text ∧ outcome = .verified then
        (entry.1, { entry.2 with verified := true })
      else entry
  changed : outcome = .verified ↔ after ≠ before
  verified : outcome = .verified ↔ ∃ row, before.identities.find? account.text = some row ∧
    row.verified = false ∧ Proven account row
  invalid : outcome = .invalid ↔ ∃ row, before.identities.find? account.text = some row ∧
    row.verified = false ∧ Disproven account row
  already : outcome = .alreadyVerified ↔ ∃ row,
    before.identities.find? account.text = some row ∧ row.verified = true
  flagged : (outcome = .alreadyVerified ∨ outcome = .verified) ↔
    ∃ row, after.identities.find? account.text = some row ∧ row.verified = true

variable {account : Address} {t : Table String IdentityRow}

section Standing

private theorem standing_eq_verified_iff : standing account t = .verified ↔
    ∃ row, t.find? account.text = some row ∧ row.verified = false ∧ Proven account row := by
  rw [standing, judge_eq_verified_iff]
  constructor
  · rintro ⟨_, key, signature, stored, flag, held⟩
    obtain ⟨row, found, rfl⟩ := Option.map_eq_some_iff.mp stored
    exact ⟨row, found, flag, key, signature, held⟩
  · rintro ⟨row, found, flag, key, signature, held⟩
    exact ⟨_, key, signature, Option.map_eq_some_iff.mpr ⟨row, found, rfl⟩, flag, held⟩

private theorem standing_eq_invalid_iff : standing account t = .invalid ↔
    ∃ row, t.find? account.text = some row ∧ row.verified = false ∧ Disproven account row := by
  unfold standing Disproven
  cases t.find? account.text with
  | none => simp [judge]
  | some row =>
    obtain ⟨key, signature, verified⟩ := row
    cases verified <;> cases key <;> cases signature <;> simp [judge]
    rename_i key signature
    cases key <;> cases signature <;> simp

private theorem standing_eq_alreadyVerified_iff : standing account t = .alreadyVerified ↔
    ∃ row, t.find? account.text = some row ∧ row.verified = true := by
  unfold standing
  cases t.find? account.text with
  | none => simp [judge]
  | some row =>
    obtain ⟨key, signature, verified⟩ := row
    cases verified <;> cases key <;> cases signature <;> simp [judge]
    split_ifs <;> simp

end Standing

private theorem outcome_of_reconcile {outcome : ReconcileOutcome} {w w' : Workspace}
    (h : (reconcile account).exec w = (.ok outcome, w')) :
    outcome = standing account w.tables.identities := by
  simp only [reconcile, Work.exec_bind_eq_ok, Store.Identities.exec_get_eq_ok] at h
  obtain ⟨_, _, ⟨-, -, rfl, rfl⟩, h⟩ := h
  split at h
  · simp only [Work.exec_bind_eq_ok] at h
    obtain ⟨_, _, -, _, _, -, h⟩ := h
    cases h
    rfl
  · cases h
    rfl

/-- On a sound database a check comes to the outcome that the row has coming. -/
theorem exec_reconcile (account : Address) (w : Workspace) (sound : w.Sound) : ∃ activity,
    (reconcile account).exec w = (.ok (standing account w.tables.identities),
      ⟨w.draft.saved { w.tables with
          identities := reconciled account w.tables.identities }, activity, none⟩) := by
  obtain ⟨outcome, ⟨draft, activity, lasts⟩, ran, written, lasting⟩ :=
    (records_reconcile account).complete w _ sound rfl
  rw [stored, Work.exec_mapError_eq_ok] at ran
  cases outcome_of_reconcile ran
  cases written
  cases lasting
  exact ⟨activity, ran⟩

section Effect

private theorem find?_reconciled_flag : (reconciled account t).find? account.text =
    (t.find? account.text).map fun row =>
      { row with verified := row.verified || standing account t = .verified } := by
  by_cases verified : standing account t = .verified
  · obtain ⟨row, found, -⟩ := row_of_standing_verified verified
    simp only [reconciled_of_verified found verified, Table.find?_put_self, found, verified,
      Option.map_some, decide_true, Bool.or_true]
  · simp only [reconciled_of_not_verified verified, verified, decide_false, Bool.or_false,
      Option.map_id']

private theorem rows_reconciled (ordered : t.Ordered) : (reconciled account t).rows =
    t.rows.map fun entry =>
      if entry.1 = account.text ∧ standing account t = .verified then
        (entry.1, { entry.2 with verified := true })
      else entry := by
  by_cases verified : standing account t = .verified
  · obtain ⟨row, found, -⟩ := row_of_standing_verified verified
    simp only [reconciled_of_verified found verified, verified, and_true]
    exact ordered.rows_put found fun row => { row with verified := true }
  · simp only [reconciled_of_not_verified verified, verified, and_false, if_false, List.map_id']

private theorem standing_eq_verified_iff_ne :
    standing account t = .verified ↔ reconciled account t ≠ t := by
  constructor
  · intro verified same
    obtain ⟨row, found, unverified⟩ := row_of_standing_verified verified
    have raised : (reconciled account t).find? account.text = _ := find?_reconciled_flag
    rw [same, found, verified, Option.map_some, Option.some.injEq] at raised
    have flag := congrArg IdentityRow.verified raised
    simp [unverified] at flag
  · intro different
    by_contra unverified
    exact different (reconciled_of_not_verified unverified)

private theorem flagged_reconciled_iff :
    (standing account t = .alreadyVerified ∨ standing account t = .verified) ↔
      ∃ row, (reconciled account t).find? account.text = some row ∧ row.verified = true := by
  rw [find?_reconciled_flag, standing_eq_alreadyVerified_iff]
  simp only [Option.map_eq_some_iff]
  constructor
  · rintro (⟨row, found, flag⟩ | verified)
    · exact ⟨_, ⟨row, found, rfl⟩, by rw [flag, Bool.true_or]⟩
    · obtain ⟨row, found, -⟩ := row_of_standing_verified verified
      exact ⟨_, ⟨row, found, rfl⟩, by simp [verified]⟩
  · rintro ⟨_, ⟨row, found, rfl⟩, flag⟩
    rcases (Bool.or_eq_true _ _).mp flag with earlier | now
    · exact .inl ⟨row, found, earlier⟩
    · exact .inr (of_decide_eq_true now)

/-- A raised flag is found raised, and where none was raised nothing has changed. -/
private theorem standing_reconciled_eq :
    standing account (reconciled account t) = (standing account t).repeated := by
  by_cases verified : standing account t = .verified
  · have flagged := flagged_reconciled_iff.mp (.inr verified)
    rw [verified]
    exact standing_eq_alreadyVerified_iff.mpr flagged
  · rw [reconciled_of_not_verified verified]
    cases outcome : standing account t with
    | verified => exact absurd outcome verified
    | alreadyVerified | incomplete | invalid => rfl

end Effect

private theorem reconciles_reconciled (account : Address) (tables : Tables) :
    Reconciles account tables { tables with identities := reconciled account tables.identities }
      (standing account tables.identities) where
  tables := rfl
  others _ other := find?_reconciled_of_ne other
  row := find?_reconciled_flag
  rows := rows_reconciled
  changed := by
    rw [standing_eq_verified_iff_ne]
    exact not_congr ⟨fun same => by rw [same], congrArg Tables.identities⟩
  verified := standing_eq_verified_iff
  invalid := standing_eq_invalid_iff
  already := standing_eq_alreadyVerified_iff
  flagged := flagged_reconciled_iff

/-- On a database that does not misbehave a check succeeds, whatever is stored and whatever the
credentials are worth. It does what `Reconciles` says and nothing else; repeated at once it changes
nothing more and finds as verified what it verified itself. -/
theorem reconcile_sound_idempotent (account : Address) (tables : Tables)
    (doomed autocommit : Bool) (activity : List Telemetry.Activity) :
    let holding (tables : Tables) (activity : List Telemetry.Activity) : Workspace :=
      ⟨⟨⟨tables, .none⟩, doomed, autocommit⟩, activity, none⟩
    ∃ outcome after once twice, Reconciles account tables after outcome ∧
      (reconcile account).exec (holding tables activity) = (.ok outcome, holding after once) ∧
      (reconcile account).exec (holding after once) =
        (.ok outcome.repeated, holding after twice) := by
  intro holding
  obtain ⟨once, first⟩ := exec_reconcile account (holding tables activity) ⟨rfl, rfl⟩
  let after : Tables := { tables with identities := reconciled account tables.identities }
  obtain ⟨twice, second⟩ := exec_reconcile account (holding after once) ⟨rfl, rfl⟩
  refine ⟨_, after, once, twice, reconciles_reconciled account tables, first, ?_⟩
  rw [second]
  change (Except.ok (standing account (reconciled account tables.identities)),
    holding { after with
      identities := reconciled account (reconciled account tables.identities) } twice) = _
  rw [standing_reconciled_eq, reconciled_of_not_verified (standing_reconciled account _)]

end DecryptorNode.Sync
