import DecryptorNode.Proofs.Chain.AddressText
import DecryptorNode.Proofs.Keys.UnitKey
import DecryptorNode.Proofs.Store.OrderedTables
import DecryptorNode.Proofs.Sync.CallRuns

/-! What the identities say about the past. The row of an account is a function of the account's own
registrations: it holds the latest of each credential, and its flag tells whether at some time the
latest two belonged together. -/
namespace DecryptorNode.Sync
open Chain (Address Registration Update)
open Store (Credential IdentityRow Table)

variable (contracts : Chain.WatchedContracts)

/-- The registration with one of the two registries that an item holds for an account. -/
def enrolment? (account : Address) (update : Update) : Option Registration :=
  match update.event with
  | some (.registered r) =>
    if r.account = account ∧
      (r.registry = contracts.publicKeyRegistry ∨ r.registry = contracts.signatureRegistry)
    then some r else none
  | _ => none

def history (account : Address) (us : List Update) : List Registration :=
  us.filterMap (enrolment? contracts account)

def latest (registry : Address) (rs : List Registration) : Option Bytes :=
  ((rs.filter fun r => r.registry = registry).getLast?).map (·.data)

/-- Whether both credentials are there, and the signature is one over the account's bytes. -/
def proves (account : Address) : Option Bytes → Option Bytes → Bool
  | some key, some signature => Keys.verifySignature key signature account.bytes
  | _, _ => false

/-- At some time the key that was the latest was proved by the signature that was the latest. -/
def Proved (account : Address) (rs : List Registration) : Prop :=
  ∃ past, past <+: rs ∧ proves account (latest contracts.publicKeyRegistry past)
    (latest contracts.signatureRegistry past) = true

/-- A row says about its account what its registrations come to. -/
structure Tells (account : Address) (rs : List Registration) (row : IdentityRow) : Prop where
  publicKey : row.publicKey = latest contracts.publicKeyRegistry rs
  signature : row.signature = latest contracts.signatureRegistry rs
  verified : row.verified = true ↔ Proved contracts account rs

def settled (account : Address) (row : IdentityRow) : IdentityRow :=
  { row with verified := row.verified || proves account row.publicKey row.signature }

def entered (r : Registration) (row : Option IdentityRow) : IdentityRow :=
  match credentialOf? contracts r.registry with
  | some credential => settled r.account
    (Store.Identities.setCredential credential r.data (row.getD Store.Identities.blank))
  | none => row.getD Store.Identities.blank

variable {contracts} {account : Address} {us vs : List Update} {rs : List Registration}
  {r : Registration} {t : Table String IdentityRow}

section Rows

/-- Nothing is proved by an empty credential. -/
theorem nonempty_of_verifySignature {key signature message : Bytes}
    (h : Keys.verifySignature key signature message = true) : key ≠ [] ∧ signature ≠ [] := by
  refine ⟨?_, ?_⟩ <;> rintro rfl
  · cases h
  · unfold Keys.verifySignature Keys.verifySignatureBy at h
    split at h
    · rename_i signed
      cases signed
    · cases h

theorem proves_eq_true_iff {key signature : Option Bytes} :
    proves account key signature = true ↔ ∃ k s, key = some k ∧ signature = some s ∧
      k ≠ [] ∧ s ≠ [] ∧ Keys.verifySignature k s account.bytes = true := by
  constructor
  · intro h
    unfold proves at h
    split at h
    · rename_i k s
      obtain ⟨key, signature⟩ := nonempty_of_verifySignature h
      exact ⟨k, s, rfl, rfl, key, signature, h⟩
    · cases h
  · rintro ⟨k, s, rfl, rfl, -, -, h⟩
    exact h

/-- To reconcile an account settles its row, if it has one. -/
private theorem find?_reconciled_text :
    (reconciled account t).find? account.text =
      (t.find? account.text).map (settled account) := by
  unfold reconciled
  cases found : t.find? account.text with
  | none => exact found
  | some row =>
    have standing_iff : standing account t = .verified ↔
        row.verified = false ∧ proves account row.publicKey row.signature = true := by
      rw [standing, found, judge_eq_verified_iff, proves_eq_true_iff]
      constructor
      · rintro ⟨_, k, s, same, flag, key, signature, h⟩
        cases same
        exact ⟨flag, k, s, key, signature, h⟩
      · rintro ⟨flag, k, s, key, signature, h⟩
        exact ⟨_, k, s, rfl, flag, key, signature, h⟩
    dsimp only
    by_cases verified : standing account t = .verified
    · obtain ⟨flag, proved⟩ := standing_iff.mp verified
      rw [if_pos verified, Table.find?_put_self, Option.map_some, settled, flag, proved]
      rfl
    · rw [if_neg verified, found, Option.map_some, settled]
      rw [standing_iff] at verified
      cases flag : row.verified with
      | true => rw [Bool.true_or, ← flag]
      | false =>
        rw [Bool.eq_false_iff.mpr fun proved => verified ⟨flag, proved⟩, Bool.or_false, ← flag]

theorem find?_reconciled_of_ne {key : String} (other : key ≠ account.text) :
    (reconciled account t).find? key = t.find? key := by
  unfold reconciled
  split
  · rfl
  · split
    · exact Table.find?_put_of_ne t _ other
    · rfl

theorem find?_registered_text {credential : Credential} :
    (registered credential r t).find? r.account.text = some (settled r.account
      (Store.Identities.setCredential credential r.data
        ((t.find? r.account.text).getD Store.Identities.blank))) := by
  rw [registered, find?_reconciled_text, Table.find?_put_self, Option.map_some]

theorem find?_registered_of_ne {credential : Credential} {key : String}
    (other : key ≠ r.account.text) : (registered credential r t).find? key = t.find? key := by
  rw [registered, find?_reconciled_of_ne other, Table.find?_put_of_ne t _ other]

private theorem credentialOf?_eq_none_iff {registry : Address} :
    credentialOf? contracts registry = none ↔
    ¬ (registry = contracts.publicKeyRegistry ∨ registry = contracts.signatureRegistry) := by
  unfold credentialOf?
  split
  · simp_all
  · split <;> simp_all

theorem of_enrolment? {u : Update} (h : enrolment? contracts account u = some r) :
    r.account = account ∧
      (r.registry = contracts.publicKeyRegistry ∨ r.registry = contracts.signatureRegistry) := by
  unfold enrolment? at h
  split at h
  · obtain ⟨mine, same⟩ := Option.ite_none_right_eq_some.mp h
    cases same
    exact mine
  · cases h

/-- An item changes the row of an account only by a registration of that account. -/
theorem find?_enrolled (u : Update) : (enrolled contracts t u).find? account.text =
    match enrolment? contracts account u with
    | some r => some (entered contracts r (t.find? account.text))
    | none => t.find? account.text := by
  unfold enrolled enrolment?
  cases u.event with
  | none => rfl
  | some event =>
    cases event with
    | keyperConfig config => rfl
    | decryptorConfig config => rfl
    | unknown contract topic => rfl
    | registered r =>
      dsimp only
      cases chosen : credentialOf? contracts r.registry with
      | none =>
        rw [if_neg fun h => credentialOf?_eq_none_iff.mp chosen h.2]
      | some credential =>
        by_cases mine : r.account = account
        · subst mine
          have known : r.registry = contracts.publicKeyRegistry ∨
              r.registry = contracts.signatureRegistry := by
            by_contra unknown
            rw [credentialOf?_eq_none_iff.mpr unknown] at chosen
            cases chosen
          rw [if_pos ⟨rfl, known⟩, find?_registered_text]
          simp only [entered, chosen]
        · rw [if_neg fun h => mine h.1]
          exact find?_registered_of_ne fun same => mine (Chain.Address.text_injective same).symm

end Rows

section Histories

theorem history_append :
    history contracts account (us ++ vs) =
      history contracts account us ++ history contracts account vs := List.filterMap_append

private theorem latest_concat (registry : Address) : latest registry (rs ++ [r]) =
    if r.registry = registry then some r.data else latest registry rs := by
  unfold latest
  rw [List.filter_append]
  by_cases here : r.registry = registry
  · rw [if_pos here, List.filter_cons_of_pos (by simpa using here), List.filter_nil,
      List.getLast?_concat, Option.map_some]
  · rw [if_neg here, List.filter_cons_of_neg (by simpa using here), List.filter_nil,
      List.append_nil]

private theorem proved_concat : Proved contracts account (rs ++ [r]) ↔ Proved contracts account rs ∨
    proves account (latest contracts.publicKeyRegistry (rs ++ [r]))
      (latest contracts.signatureRegistry (rs ++ [r])) = true := by
  unfold Proved
  constructor
  · rintro ⟨past, part, proved⟩
    rcases List.prefix_concat_iff.mp part with rfl | earlier
    · exact .inr proved
    · exact .inl ⟨past, earlier, proved⟩
  · rintro (⟨past, earlier, proved⟩ | proved)
    · exact ⟨past, earlier.trans (List.prefix_append _ _), proved⟩
    · exact ⟨_, List.prefix_rfl, proved⟩

private theorem tells_nil : Tells contracts account [] Store.Identities.blank where
  publicKey := rfl
  signature := rfl
  verified := by
    refine ⟨fun flag => (by cases flag), ?_⟩
    rintro ⟨past, part, proved⟩
    rw [List.prefix_nil.mp part] at proved
    cases proved

/-- A registration keeps a row up to date. -/
private theorem Tells.entered {row : IdentityRow} (h : Tells contracts account rs row)
    (distinct : contracts.publicKeyRegistry ≠ contracts.signatureRegistry)
    (mine : r.account = account)
    (known : r.registry = contracts.publicKeyRegistry ∨ r.registry = contracts.signatureRegistry) :
    Tells contracts account (rs ++ [r]) (Sync.entered contracts r (some row)) := by
  subst mine
  have credentials : ∃ c, credentialOf? contracts r.registry = some c ∧
      (Store.Identities.setCredential c r.data row).publicKey =
        latest contracts.publicKeyRegistry (rs ++ [r]) ∧
      (Store.Identities.setCredential c r.data row).signature =
        latest contracts.signatureRegistry (rs ++ [r]) ∧
      (Store.Identities.setCredential c r.data row).verified = row.verified := by
    rw [latest_concat, latest_concat, ← h.publicKey, ← h.signature, credentialOf?]
    rcases known with key | signature
    · have other : r.registry ≠ contracts.signatureRegistry := key ▸ distinct
      simp only [if_pos key, if_neg other]
      exact ⟨_, rfl, rfl, rfl, rfl⟩
    · have other : r.registry ≠ contracts.publicKeyRegistry := signature ▸ distinct.symm
      simp only [if_pos signature, if_neg other]
      exact ⟨_, rfl, rfl, rfl, rfl⟩
  obtain ⟨c, chosen, key, signature, flag⟩ := credentials
  rw [Sync.entered, chosen]
  refine ⟨key, signature, ?_⟩
  change (_ || proves r.account _ _) = true ↔ _
  rw [Option.getD_some, Bool.or_eq_true, key, signature, flag, h.verified, proved_concat]

private theorem Tells.unique {row row' : IdentityRow} (h : Tells contracts account rs row)
    (h' : Tells contracts account rs row') : row = row' := by
  have flags : row.verified = row'.verified := by
    rw [Bool.eq_iff_iff, h.verified, h'.verified]
  cases row
  cases row'
  cases h.publicKey.trans h'.publicKey.symm
  cases h.signature.trans h'.signature.symm
  cases flags
  rfl

/-- Each item that lands keeps every row up to date. -/
theorem row_tells (distinct : contracts.publicKeyRegistry ≠ contracts.signatureRegistry)
    (account : Address) (us : List Update) :
    match (us.foldl (enrolled contracts) .empty).find? account.text with
    | none => history contracts account us = []
    | some row => history contracts account us ≠ [] ∧
        Tells contracts account (history contracts account us) row := by
  -- The latest registration is the last one, so the items are taken from the end.
  induction us using List.reverseRecOn with
  | nil => rfl
  | append_singleton us u ih =>
    rw [List.foldl_append, List.foldl_cons, List.foldl_nil, find?_enrolled, history_append]
    cases carried : enrolment? contracts account u with
    | none =>
      have nothing : history contracts account [u] = [] := by simp [history, carried]
      rw [nothing, List.append_nil]
      exact ih
    | some r =>
      have one : history contracts account [u] = [r] := by simp [history, carried]
      obtain ⟨mine, known⟩ := of_enrolment? carried
      rw [one]
      refine ⟨List.append_ne_nil_of_right_ne_nil _ (List.cons_ne_nil r []), ?_⟩
      cases before : (us.foldl (enrolled contracts) .empty).find? account.text with
      | none =>
        rw [before] at ih
        rw [ih]
        exact tells_nil.entered distinct mine known
      | some row =>
        rw [before] at ih
        exact ih.2.entered distinct mine known

end Histories

section Tables

/-- An item only writes rows under the texts of accounts. -/
private theorem enrolled_preserves {P : Table String IdentityRow → Prop}
    (put : ∀ t (a : Address) row, P t → P (t.put a.text row)) (h : P t) (u : Update) :
    P (enrolled contracts t u) := by
  have reconciles (t : Table String IdentityRow) (a : Address) (h : P t) :
      P (reconciled a t) := by
    unfold reconciled
    split
    · exact h
    · split
      · exact put _ _ _ h
      · exact h
  unfold enrolled
  split
  · split
    · exact reconciles _ _ (put _ _ _ h)
    · exact h
  · exact h

private theorem identities_preserves {P : Table String IdentityRow → Prop}
    (put : ∀ t (a : Address) row, P t → P (t.put a.text row)) (h : P t) (us : List Update) :
    P (us.foldl (enrolled contracts) t) := by
  induction us generalizing t with
  | nil => exact h
  | cons u rest ih => exact ih (enrolled_preserves put h u)

theorem ordered_identities (us : List Update) :
    (us.foldl (enrolled contracts) .empty).Ordered :=
  identities_preserves (fun _ _ _ h => h.put _ _) Table.ordered_empty us

theorem accounts_of_identities (us : List Update) :
    ∀ entry ∈ (us.foldl (enrolled contracts) .empty).rows, ∃ a : Address, entry.1 = a.text := by
  refine identities_preserves (P := fun t => ∀ entry ∈ t.rows, ∃ a : Address, entry.1 = a.text)
    (fun t a row h entry mem => ?_) (fun entry mem => by cases mem) us
  rcases Table.mem_putRow mem with rfl | old
  · exact ⟨a, rfl⟩
  · exact h entry old

end Tables

/-- The row of an account that has registrations is the one that tells them. -/
theorem find?_of_tells (distinct : contracts.publicKeyRegistry ≠ contracts.signatureRegistry)
    {row : IdentityRow} (present : history contracts account us ≠ [])
    (tells : Tells contracts account (history contracts account us) row) :
    (us.foldl (enrolled contracts) .empty).find? account.text = some row := by
  have told := row_tells distinct account us
  split at told
  · exact absurd told present
  · rename_i found
    rw [found, told.2.unique tells]

/-- After any calls the identities are what the registrations that landed say. An account has a row
if it has a registration, one row only, and the row says what the account's own registrations come
to; two runs in which these agree leave one and the same row, whatever else they did. -/
theorem identities_tell_history
    (distinct : contracts.publicKeyRegistry ≠ contracts.signatureRegistry) (calls : List Call) :
    let past (run : List Call) (account : Address) :=
      history contracts account (landed contracts .empty run)
    let identities (run : List Call) := (called contracts .empty run).database.tables.identities
    (∀ account : Address,
      ((∃ row, (identities calls).find? account.text = some row) ↔ past calls account ≠ []) ∧
      (∀ row, (identities calls).find? account.text = some row →
        Tells contracts account (past calls account) row) ∧
      ∀ others, past others account = past calls account →
        (identities others).find? account.text = (identities calls).find? account.text) ∧
    ((identities calls).rows.map (·.1)).Nodup ∧
    ∀ entry ∈ (identities calls).rows, ∃ account : Address, entry.1 = account.text := by
  intro past identities
  have replayed (calls : List Call) : identities calls =
      (landed contracts .empty calls).foldl (enrolled contracts) .empty := identities_called
  have told (calls : List Call) (account : Address) :
      match (identities calls).find? account.text with
      | none => past calls account = []
      | some row => past calls account ≠ [] ∧ Tells contracts account (past calls account) row := by
    rw [replayed]
    exact row_tells distinct account _
  refine ⟨fun account => ⟨?_, ?_, ?_⟩, ?_, ?_⟩
  · have here := told calls account
    cases found : (identities calls).find? account.text with
    | none =>
      rw [found] at here
      exact ⟨fun ⟨row, h⟩ => (by cases h), fun h => absurd here h⟩
    | some row =>
      rw [found] at here
      exact ⟨fun _ => here.1, fun _ => ⟨row, rfl⟩⟩
  · intro row found
    have here := told calls account
    rw [found] at here
    exact here.2
  · intro others same
    have here := told calls account
    have there := told others account
    rw [same] at there
    cases found : (identities calls).find? account.text <;>
      cases found' : (identities others).find? account.text <;>
      rw [found] at here <;> rw [found'] at there
    · exact absurd here there.1
    · exact absurd there here.1
    · exact congrArg some (there.2.unique here.2)
  · rw [replayed]
    exact (ordered_identities _).nodup_keys
  · rw [replayed]
    exact accounts_of_identities _

theorem messagePoint_zero : Keys.messagePoint (Address.ofNat 0).bytes ≠ .infinity :=
  Curve.hashToCurve_ne_infinity (by decide +kernel)

/-- Both credentials of one account, the signature before the key. -/
theorem identities_tell_history_unit :
    let contracts : Chain.WatchedContracts := ⟨.ofNat 1, .ofNat 2, .ofNat 3, .ofNat 4⟩
    let account : Address := .ofNat 0
    let signature := Keys.unitSignature account.bytes
    let calls := soundCalls (steady fun _ _ => none)
      [⟨some (.registered ⟨.ofNat 4, account, signature⟩), 0, 0⟩,
        ⟨some (.registered ⟨.ofNat 3, account, Keys.unitKey⟩), 0, 1⟩]
    contracts.publicKeyRegistry ≠ contracts.signatureRegistry ∧
      (called contracts .empty calls).database.tables.identities.find? account.text =
        some ⟨some Keys.unitKey, some signature, true⟩ := by
  intro contracts account signature calls
  have verifies : Keys.verifySignature Keys.unitKey signature account.bytes = true :=
    Keys.verifySignature_unit messagePoint_zero
  obtain ⟨someKey, someSignature⟩ := nonempty_of_verifySignature verifies
  clear_value signature
  have distinct : contracts.publicKeyRegistry ≠ contracts.signatureRegistry := by decide
  have all : landed contracts .empty calls = _ := landed_registrations (by
    simp only [List.forall_mem_cons, List.not_mem_nil, false_imp_iff, implies_true, and_true]
    exact ⟨⟨fits_event _ (by decide) (by decide), _, rfl⟩,
      ⟨fits_event _ (by decide) (by decide), _, rfl⟩⟩)
  let rs : List Registration :=
    [⟨.ofNat 4, account, signature⟩, ⟨.ofNat 3, account, Keys.unitKey⟩]
  have past : history contracts account (landed contracts .empty calls) = rs := by
    rw [all]
    rfl
  refine ⟨distinct, ?_⟩
  obtain ⟨rows, -⟩ := identities_tell_history distinct calls
  obtain ⟨present, tells, -⟩ := rows account
  dsimp only at present tells
  rw [past] at present tells
  obtain ⟨row, found⟩ := present.mpr (List.cons_ne_nil _ _)
  have now : Tells contracts account rs ⟨some Keys.unitKey, some signature, true⟩ :=
    ⟨rfl, rfl, fun _ => ⟨rs, List.prefix_rfl, proves_eq_true_iff.mpr
      ⟨_, _, rfl, rfl, someKey, someSignature, verifies⟩⟩, fun _ => rfl⟩
  rw [found, (tells row found).unique now]

end DecryptorNode.Sync
