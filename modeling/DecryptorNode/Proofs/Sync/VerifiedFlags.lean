import DecryptorNode.Proofs.Sync.IdentityHistory

/-! What the flag of an identity is worth. It was raised by a call after which the account's key and
signature belonged together. It is not lowered when the account replaces one of them, so a row that
was verified can hold a pair that never was. -/
namespace DecryptorNode.Sync
open Chain (Address Registration)
open Store (IdentityRow Table)

variable (contracts : Chain.WatchedContracts)

def rowAfter (account : Address) (calls : List Call) : Option IdentityRow :=
  (called contracts .empty calls).database.tables.identities.find? account.text

def registeredIn (account : Address) (calls more : List Call) : List Registration :=
  history contracts account (landed contracts (called contracts .empty calls) more)

/-- The key and the signature are there, neither is empty, and they belong together. -/
def Proven (account : Address) (row : IdentityRow) : Prop :=
  ∃ key signature, row.publicKey = some key ∧ row.signature = some signature ∧
    key ≠ [] ∧ signature ≠ [] ∧ Keys.verifySignature key signature account.bytes = true

/-- One of some calls raised the flag of a row, and after it the row held a pair that belongs
together. The row holds the same unless the account registered anew since; both credentials it has
in any case. -/
structure Earned (account : Address) (calls : List Call) (row : IdentityRow) : Prop where
  complete : row.publicKey.isSome ∧ row.signature.isSome
  raised : ∃ before c after proof, calls = before ++ c :: after ∧
    (∀ old, rowAfter contracts account before = some old → old.verified = false) ∧
    rowAfter contracts account (before ++ [c]) = some proof ∧ proof.verified = true ∧
    Proven account proof ∧
    (registeredIn contracts account (before ++ [c]) after = [] → row = proof)

variable {contracts} {account : Address} {calls : List Call} {c : Call} {r : Registration}
  {row row' : IdentityRow}

/-- A call leaves the row of an account alone, or it brings one registration of the account. -/
private theorem rowAfter_concat (account : Address) (calls : List Call) (c : Call) :
    (registeredIn contracts account calls [c] = [] ∧
      rowAfter contracts account (calls ++ [c]) = rowAfter contracts account calls) ∨
    ∃ r, registeredIn contracts account calls [c] = [r] ∧ r.account = account ∧
      rowAfter contracts account (calls ++ [c]) =
        some (entered contracts r (rowAfter contracts account calls)) := by
  unfold rowAfter registeredIn
  rw [called_append, identities_called, landed]
  split
  · rw [landed, List.foldl_cons, List.foldl_nil, find?_enrolled]
    cases carried : enrolment? contracts account c.update with
    | none => exact .inl ⟨by simp [history, carried], rfl⟩
    | some r => exact .inr ⟨r, by simp [history, carried], (of_enrolment? carried).1, rfl⟩
  · exact .inl ⟨rfl, rfl⟩

/-- No registration takes a credential away. -/
private theorem complete_entered (h : row.publicKey.isSome ∧ row.signature.isSome) :
    (entered contracts r (some row)).publicKey.isSome ∧
      (entered contracts r (some row)).signature.isSome := by
  unfold entered
  split
  · rename_i credential _
    cases credential
    · exact ⟨rfl, h.2⟩
    · exact ⟨h.1, rfl⟩
  · exact h

/-- A flag that goes up is raised by a proof. -/
private theorem proven_entered {old : Option IdentityRow} (mine : r.account = account)
    (lowered : (old.getD Store.Identities.blank).verified = false)
    (verified : (entered contracts r old).verified = true) :
    Proven account (entered contracts r old) := by
  subst mine
  unfold entered at verified ⊢
  split at verified
  · rename_i credential _
    have kept : (Store.Identities.setCredential credential r.data
        (old.getD Store.Identities.blank)).verified = false := by
      cases credential <;> exact lowered
    rw [settled, kept, Bool.false_or] at verified
    exact proves_eq_true_iff.mp verified
  · rw [lowered] at verified
    cases verified

private theorem Earned.concat (h : Earned contracts account calls row)
    (complete : row'.publicKey.isSome ∧ row'.signature.isSome)
    (still : registeredIn contracts account calls [c] = [] → row' = row) :
    Earned contracts account (calls ++ [c]) row' := by
  obtain ⟨before, d, after, proof, rfl, lowered, found, verified, proven, same⟩ := h.raised
  refine ⟨complete, before, d, after ++ [c], proof, by simp, lowered, found, verified, proven, ?_⟩
  intro silent
  have whole : before ++ d :: after = (before ++ [d]) ++ after := by simp
  unfold registeredIn at silent
  rw [landed_append, ← called_append, ← whole, history_append, List.append_eq_nil_iff] at silent
  exact (still silent.2).trans (same silent.1)

private theorem Earned.now
    (lowered : ∀ old, rowAfter contracts account calls = some old → old.verified = false)
    (found : rowAfter contracts account (calls ++ [c]) = some row) (verified : row.verified = true)
    (proven : Proven account row) : Earned contracts account (calls ++ [c]) row := by
  refine ⟨?_, calls, c, [], row, rfl, lowered, found, verified, proven, fun _ => rfl⟩
  obtain ⟨key, signature, hasKey, hasSignature, -⟩ := proven
  rw [hasKey, hasSignature]
  exact ⟨rfl, rfl⟩

/-- Every row that is verified was earned. -/
theorem earned_of_verified (account : Address) (calls : List Call) :
    ∀ row, rowAfter contracts account calls = some row → row.verified = true →
      Earned contracts account calls row := by
  induction calls using List.reverseRecOn with
  | nil => exact fun row found => by cases found
  | append_singleton calls c ih =>
    intro row found verified
    rcases rowAfter_concat account calls c with ⟨silent, same⟩ | ⟨r, spoke, mine, now⟩
    · rw [same] at found
      have earned := ih row found verified
      exact earned.concat earned.complete fun _ => rfl
    · obtain rfl : entered contracts r (rowAfter contracts account calls) = row :=
        Option.some.inj (now.symm.trans found)
      -- A flag that was up before the registration was earned earlier, and one that was not is
      -- raised by this very call.
      cases flag : ((rowAfter contracts account calls).getD Store.Identities.blank).verified with
      | true =>
        obtain ⟨before, old⟩ : ∃ before, rowAfter contracts account calls = some before := by
          cases old : rowAfter contracts account calls with
          | none =>
            rw [old] at flag
            cases flag
          | some before => exact ⟨before, rfl⟩
        rw [old] at flag ⊢
        have earned := ih before old flag
        refine earned.concat (complete_entered earned.complete) fun silent => ?_
        rw [spoke] at silent
        cases silent
      | false =>
        refine .now (fun before old => ?_) now verified (proven_entered mine flag verified)
        rw [old] at flag
        exact flag

/-- A row that is verified was earned, whatever calls came before and after. -/
theorem verified_rows_were_earned (contracts : Chain.WatchedContracts) (calls : List Call) :
    ∀ entry ∈ (called contracts .empty calls).database.tables.identities.rows,
      entry.2.verified = true →
        ∃ account : Address, entry.1 = account.text ∧ Earned contracts account calls entry.2 := by
  intro entry mem verified
  have replayed : (called contracts .empty calls).database.tables.identities =
      (landed contracts .empty calls).foldl (enrolled contracts) .empty := identities_called
  obtain ⟨account, named⟩ := accounts_of_identities _ entry (replayed ▸ mem)
  have ordered : (called contracts .empty calls).database.tables.identities.Ordered :=
    replayed ▸ ordered_identities _
  have found : rowAfter contracts account calls = some entry.2 :=
    ordered.find?_eq_some_iff.mpr (named ▸ mem)
  exact ⟨account, named, earned_of_verified account calls entry.2 found verified⟩

/-- An account registers the key of secret one, a signature, and then another key. -/
def replacing (account : Address) (signature : Bytes) : List Call :=
  soundCalls (steady fun _ _ => none)
    [⟨some (.registered ⟨.ofNat 5, account, Keys.unitKey⟩), 40, 0⟩,
      ⟨some (.registered ⟨.ofNat 6, account, signature⟩), 40, 1⟩,
      ⟨some (.registered ⟨.ofNat 5, account, [7]⟩), 40, 2⟩]

private theorem rowAfter_replacing {signature : Bytes}
    (verifies : Keys.verifySignature Keys.unitKey signature account.bytes = true) :
    rowAfter ⟨.ofNat 1, .ofNat 2, .ofNat 5, .ofNat 6⟩ account (replacing account signature) =
      some ⟨some [7], some signature, true⟩ := by
  let contracts : Chain.WatchedContracts := ⟨.ofNat 1, .ofNat 2, .ofNat 5, .ofNat 6⟩
  obtain ⟨someKey, someSignature⟩ := nonempty_of_verifySignature verifies
  have all : landed contracts .empty (replacing account signature) = _ := landed_registrations (by
    simp only [List.forall_mem_cons, List.not_mem_nil, false_imp_iff, implies_true, and_true]
    exact ⟨⟨fits_event _ (by decide) (by decide), _, rfl⟩,
      ⟨fits_event _ (by decide) (by decide), _, rfl⟩,
      ⟨fits_event _ (by decide) (by decide), _, rfl⟩⟩)
  let proof : List Registration :=
    [⟨.ofNat 5, account, Keys.unitKey⟩, ⟨.ofNat 6, account, signature⟩]
  have past : history contracts account (landed contracts .empty (replacing account signature)) =
      proof ++ [⟨.ofNat 5, account, [7]⟩] := by
    rw [all]
    simp [history, enrolment?, contracts, proof]
  have tells : Tells contracts account
      (history contracts account (landed contracts .empty (replacing account signature)))
      ⟨some [7], some signature, true⟩ := by
    rw [past]
    exact ⟨rfl, rfl, fun _ => ⟨proof, List.prefix_append _ _, proves_eq_true_iff.mpr
      ⟨_, _, rfl, rfl, someKey, someSignature, verifies⟩⟩, fun _ => rfl⟩
  rw [rowAfter, identities_called]
  exact find?_of_tells (by decide) (by rw [past]; exact List.cons_ne_nil _ _) tells

theorem verified_rows_were_earned_replaced :
    let signature := Keys.unitSignature (Address.ofNat 0).bytes
    ∃ account : Address, (Address.ofNat 0).text = account.text ∧
      Earned ⟨.ofNat 1, .ofNat 2, .ofNat 5, .ofNat 6⟩ account (replacing (.ofNat 0) signature)
        ⟨some [7], some signature, true⟩ := by
  intro signature
  have found := rowAfter_replacing (Keys.verifySignature_unit messagePoint_zero)
  exact verified_rows_were_earned _ _ _ (Table.mem_of_find?_eq_some found) rfl

/-- The flag outlasts the key that earned it. -/
theorem verified_row_of_replaced_key :
    let signature := Keys.unitSignature (Address.ofNat 0).bytes
    rowAfter ⟨.ofNat 1, .ofNat 2, .ofNat 5, .ofNat 6⟩ (.ofNat 0) (replacing (.ofNat 0) signature) =
        some ⟨some [7], some signature, true⟩ ∧
      ¬ Proven (.ofNat 0) ⟨some [7], some signature, true⟩ := by
  intro signature
  refine ⟨rowAfter_replacing (Keys.verifySignature_unit messagePoint_zero), ?_⟩
  rintro ⟨key, _, same, -, -, -, h⟩
  cases same
  cases h

end DecryptorNode.Sync
