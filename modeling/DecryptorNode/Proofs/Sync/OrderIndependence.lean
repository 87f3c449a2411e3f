import DecryptorNode.Proofs.Sync.IdentityHistory

/-! Items in another order. Where no two items are about the same activation, and no account
registers one credential twice, the order of the items decides neither whether they can all be
applied nor what the tables hold afterwards. -/
namespace DecryptorNode.Sync
open Chain (Address AddressReader AddressSet Registration Update)
open Store (ChainTables IdentityRow KeyperSetRow MemberKey RowKey Table)

section Swaps
variable {α τ : Type} {f g h : τ → Option τ}

/-- Two changes that may fail come to the same in either order. -/
def Swaps (f g : τ → Option τ) : Prop := ∀ t, (f t).bind g = (g t).bind f

namespace Swaps

private theorem symm (s : Swaps f g) : Swaps g f := fun t => (s t).symm

private theorem some_right (f : τ → Option τ) : Swaps f some := by
  intro t
  rw [Option.bind_fun_some, Option.bind_some]

private theorem none_right (f : τ → Option τ) : Swaps f fun _ => none := by
  intro t
  rw [Option.bind_fun_none, Option.bind_none]

private theorem andThen (s : Swaps f g) (s' : Swaps f h) : Swaps f fun t => (g t).bind h := by
  intro t
  rw [← Option.bind_assoc, s t, Option.bind_assoc, Option.bind_assoc]
  exact congrArg _ (funext s')

end Swaps

def inOrder (effect : α → τ → Option τ) (l : List α) (t : τ) : Option τ :=
  l.foldl (fun o a => o.bind (effect a)) (some t)

private theorem inOrder_cons (effect : α → τ → Option τ) (a : α) (l : List α) (t : τ) :
    inOrder effect (a :: l) t = (effect a t).bind (inOrder effect l) := by
  rw [inOrder, List.foldl_cons, Option.bind_some]
  cases effect a t with
  | some t' => rfl
  | none =>
    rw [Option.bind_none]
    induction l with
    | nil => rfl
    | cons b rest ih => exact ih

private theorem inOrder_perm (effect : α → τ → Option τ) {l l' : List α} (p : l.Perm l')
    (swaps : ∀ a ∈ l, ∀ b ∈ l, a ≠ b → Swaps (effect a) (effect b)) (t : τ) :
    inOrder effect l t = inOrder effect l' t := by
  refine p.foldl_eq' (fun a memA b memB o => ?_) _
  by_cases same : a = b
  · rw [same]
  · cases o with
    | none => rfl
    | some t => exact swaps a memA b memB same t

end Swaps

section Insertion
variable {κ ρ : Type} [DecidableEq κ] [RowKey κ] [RowKey.Lawful κ]

def insertNew (key : κ) (row : ρ) (t : Table κ ρ) : Option (Table κ ρ) :=
  if t.find? key = none then some (t.put key row) else none

private theorem swaps_insertNew {key key' : κ} (row row' : ρ) (different : key ≠ key') :
    Swaps (insertNew key row) (insertNew key' row') := by
  intro t
  unfold insertNew
  by_cases free : t.find? key = none <;> by_cases free' : t.find? key' = none
  · rw [if_pos free, if_pos free', Option.bind_some, Option.bind_some,
      Table.find?_put_of_ne t row different.symm, Table.find?_put_of_ne t row' different,
      if_pos free, if_pos free', Table.put_comm t row row' different]
  · rw [if_pos free, if_neg free', Option.bind_some, Option.bind_none,
      Table.find?_put_of_ne t row different.symm, if_neg free']
  · rw [if_neg free, if_pos free', Option.bind_some, Option.bind_none,
      Table.find?_put_of_ne t row' different, if_neg free]
  · rw [if_neg free, if_neg free']
    rfl

private theorem putMembers_cons (activation : Int) (position : Nat) (a : Address)
    (rest : List Address)
    (t : Table MemberKey String) : putMembers activation position (a :: rest) t =
      if position < 2 ^ 31 then (insertNew ⟨activation, position⟩ a.text t).bind
        (putMembers activation (position + 1) rest) else none := by
  rw [putMembers, insertNew]
  by_cases fits : position < 2 ^ 31 <;> by_cases free : t.find? ⟨activation, position⟩ = none <;>
    simp [fits, free]

/-- Members can change places with every change with which their single rows can. -/
private theorem swaps_putMembers {f : Table MemberKey String → Option (Table MemberKey String)}
    {activation : Int} (s : ∀ position row, Swaps f (insertNew ⟨activation, position⟩ row))
    (position : Nat) (l : List Address) : Swaps f (putMembers activation position l) := by
  induction l generalizing position with
  | nil => exact Swaps.some_right f
  | cons a rest ih =>
    have cons : putMembers activation position (a :: rest) = fun t =>
        if position < 2 ^ 31 then (insertNew ⟨activation, position⟩ a.text t).bind
          (putMembers activation (position + 1) rest) else none :=
      funext (putMembers_cons activation position a rest)
    rw [cons]
    by_cases fits : position < 2 ^ 31
    · simp only [if_pos fits]
      exact (s _ _).andThen (ih _)
    · simp only [if_neg fits]
      exact Swaps.none_right f

end Insertion

section Effects
variable (lists : AddressSet → Nat → Option (List Address))

def keyperRow? (config : Chain.KeyperConfig) : Option KeyperSetRow :=
  (lists .keypers config.index).bind fun keypers =>
    if config.activation < 2 ^ 63 ∧ config.threshold < 2 ^ 31 then
      some ⟨Store.KeyperList.encode (keypers.map Address.text), config.threshold⟩
    else none

def keyperEffect (u : Update) : Table Int KeyperSetRow → Option (Table Int KeyperSetRow) :=
  match u.event with
  | some (.keyperConfig config) =>
    match keyperRow? lists config with
    | some row => insertNew (config.activation : Int) row
    | none => fun _ => none
  | _ => some

def members? (config : Chain.DecryptorConfig) : Option (List Address) :=
  if config.activation < 2 ^ 63 then lists .decryptors config.index else none

def memberEffect (u : Update) : Table MemberKey String → Option (Table MemberKey String) :=
  match u.event with
  | some (.decryptorConfig config) =>
    match members? lists config with
    | some members => putMembers config.activation 0 members
    | none => fun _ => none
  | _ => some

variable (contracts : Chain.WatchedContracts) {lists}

/-- An item acts on each of the three tables by itself. -/
private theorem recordedItem_eq (u : Update) (t : ChainTables) : recordedItem contracts lists u t =
    (keyperEffect lists u t.keyperSets).bind fun k => (memberEffect lists u t.setMembers).map
      fun m => ⟨k, m, enrolled contracts t.identities u⟩ := by
  unfold recordedItem keyperEffect memberEffect enrolled
  cases u.event with
  | none => rfl
  | some event =>
    cases event with
    | keyperConfig config =>
      dsimp only [recorded]
      unfold keyperRow?
      cases lists .keypers config.index with
      | none => rfl
      | some keypers =>
        simp only [Option.bind_some]
        by_cases fits : config.activation < 2 ^ 63 ∧ config.threshold < 2 ^ 31
        · simp only [if_pos fits, insertNew, ← and_assoc, and_iff_right fits]
          split <;> rfl
        · simp only [if_neg fits, ← and_assoc]
          exact if_neg fun h => fits h.1
    | decryptorConfig config =>
      dsimp only [recorded]
      unfold members?
      by_cases fits : config.activation < 2 ^ 63
      · simp only [if_pos fits, Option.bind_some]
        cases lists .decryptors config.index <;> rfl
      · simp only [if_neg fits, Option.bind_fun_none, Option.map_none]
    | registered r =>
      dsimp only [recorded]
      cases credentialOf? contracts r.registry <;> rfl
    | unknown contract topic => rfl

private theorem recordedAll_eq (us : List Update) (t : ChainTables) :
    recordedAll contracts lists us t =
    (inOrder (keyperEffect lists) us t.keyperSets).bind fun k =>
      (inOrder (memberEffect lists) us t.setMembers).map fun m =>
        ⟨k, m, us.foldl (enrolled contracts) t.identities⟩ := by
  induction us generalizing t with
  | nil => rfl
  | cons u rest ih =>
    rw [recordedAll, recordedItem_eq, inOrder_cons, inOrder_cons]
    cases keyperEffect lists u t.keyperSets with
    | none => rfl
    | some k =>
      cases memberEffect lists u t.setMembers with
      | none =>
        simp only [Option.bind_some, Option.map_none, Option.bind_none, Option.bind_fun_none]
      | some m =>
        simp only [Option.bind_some, Option.map_some, List.foldl_cons]
        exact ih _

end Effects

section Reordering
variable (contracts : Chain.WatchedContracts)

def keyperActivation? (u : Update) : Option Nat :=
  match u.event with
  | some (.keyperConfig config) => some config.activation
  | _ => none

def decryptorActivation? (u : Update) : Option Nat :=
  match u.event with
  | some (.decryptorConfig config) => some config.activation
  | _ => none

/-- At most one registration is with the registry. -/
def Once (registry : Address) (rs : List Registration) : Prop :=
  (rs.filter fun r => r.registry = registry).length ≤ 1

/-- No activation is configured twice by configurations of a kind, and no account registers twice
with a registry. -/
structure Unambiguous (us : List Update) : Prop where
  keypers : (us.filterMap keyperActivation?).Nodup
  decryptors : (us.filterMap decryptorActivation?).Nodup
  publicKeys : ∀ account, Once contracts.publicKeyRegistry (history contracts account us)
  signatures : ∀ account, Once contracts.signatureRegistry (history contracts account us)

variable {contracts} {lists : AddressSet → Nat → Option (List Address)} {us us' : List Update}
  {u v : Update}

def Apart {κ : Type} (key? : Update → Option κ) (u v : Update) : Prop :=
  ∀ k, key? u = some k → ∀ k', key? v = some k' → k ≠ k'

private theorem apart_of_nodup {κ : Type} {key? : Update → Option κ}
    (nodup : (us.filterMap key?).Nodup)
    (memU : u ∈ us) (memV : v ∈ us) (different : u ≠ v) : Apart key? u v := by
  have pairs : us.Pairwise (Apart key?) := List.pairwise_filterMap.mp nodup
  have : Std.Symm (Apart key?) := ⟨fun a b h k hk k' hk' => (h k' hk' k hk).symm⟩
  exact pairs.forall memU memV different

private theorem swaps_keyperEffect (apart : Apart keyperActivation? u v) :
    Swaps (keyperEffect lists u) (keyperEffect lists v) := by
  unfold Apart keyperActivation? at apart
  unfold keyperEffect
  split
  · rename_i config carriesU
    split
    · split
      · rename_i config' carriesV
        rw [carriesU, carriesV] at apart
        split
        · have keys : (config.activation : Int) ≠ config'.activation := fun same =>
            apart _ rfl _ rfl (Int.ofNat.inj same)
          exact swaps_insertNew _ _ keys
        · exact Swaps.none_right _
      · exact Swaps.some_right _
    · exact (Swaps.none_right _).symm
  · exact (Swaps.some_right _).symm

private theorem swaps_memberEffect (apart : Apart decryptorActivation? u v) :
    Swaps (memberEffect lists u) (memberEffect lists v) := by
  unfold Apart decryptorActivation? at apart
  unfold memberEffect
  split
  · rename_i config carriesU
    split
    · split
      · rename_i config' carriesV
        rw [carriesU, carriesV] at apart
        split
        · have keys (position position' : Int) : (⟨config'.activation, position⟩ : MemberKey) ≠
              ⟨config.activation, position'⟩ := fun same =>
            apart _ rfl _ rfl (Int.ofNat.inj (MemberKey.mk.inj same).1).symm
          exact swaps_putMembers (fun _ _ =>
            (swaps_putMembers (fun _ _ => swaps_insertNew _ _ (keys _ _)) _ _).symm) _ _
        · exact Swaps.none_right _
      · exact Swaps.some_right _
    · exact (Swaps.none_right _).symm
  · exact (Swaps.some_right _).symm

private theorem eq_of_perm_of_short {α : Type} {l l' : List α} (p : l.Perm l')
    (short : l.length ≤ 1) : l = l' := by
  match l, short with
  | [], _ => exact p.nil_eq
  | [a], _ => exact (List.perm_singleton.mp p.symm).symm

variable {registry account : Address} {rs rs' past : List Registration} {row : IdentityRow}

private theorem Once.perm (h : Once registry rs) (p : rs.Perm rs') : Once registry rs' := by
  rw [Once, ← (p.filter _).length_eq]
  exact h

private theorem Once.latest_perm (h : Once registry rs) (p : rs.Perm rs') :
    latest registry rs = latest registry rs' := by
  rw [latest, latest, eq_of_perm_of_short (p.filter _) h]

/-- What is registered once is the latest from then on. -/
private theorem Once.latest_of_prefix (h : Once registry rs) (part : past <+: rs) {data : Bytes}
    (there : latest registry past = some data) : latest registry rs = some data := by
  obtain ⟨r, last, -⟩ := Option.map_eq_some_iff.mp there
  have present : 0 < (past.filter fun r => r.registry = registry).length :=
    List.length_pos_of_mem (List.mem_of_getLast? last)
  have whole : (past.filter fun r => r.registry = registry) =
      rs.filter fun r => r.registry = registry :=
    (part.filter _).eq_of_length_le (Nat.le_trans h present)
  rw [← there, latest, latest, whole]

/-- Where nothing is registered twice, what was ever proved is what the latest two prove. -/
private theorem proved_iff_of_once (key : Once contracts.publicKeyRegistry rs)
    (signature : Once contracts.signatureRegistry rs) : Proved contracts account rs ↔
      proves account (latest contracts.publicKeyRegistry rs)
        (latest contracts.signatureRegistry rs) = true := by
  constructor
  · rintro ⟨past, part, proved⟩
    obtain ⟨k, s, hasKey, hasSignature, -⟩ := proves_eq_true_iff.mp proved
    rw [key.latest_of_prefix part hasKey, signature.latest_of_prefix part hasSignature]
    rwa [hasKey, hasSignature] at proved
  · exact fun proved => ⟨rs, List.prefix_rfl, proved⟩

private theorem Tells.perm (h : Tells contracts account rs row) (p : rs.Perm rs')
    (key : Once contracts.publicKeyRegistry rs) (signature : Once contracts.signatureRegistry rs) :
    Tells contracts account rs' row where
  publicKey := h.publicKey.trans (key.latest_perm p)
  signature := h.signature.trans (signature.latest_perm p)
  verified := by
    rw [h.verified, proved_iff_of_once key signature,
      proved_iff_of_once (key.perm p) (signature.perm p), key.latest_perm p,
      signature.latest_perm p]

private theorem find?_identities_perm
    (distinct : contracts.publicKeyRegistry ≠ contracts.signatureRegistry)
    (unambiguous : Unambiguous contracts us) (p : us.Perm us') {key : String}
    (found : (us.foldl (enrolled contracts) .empty).find? key = some row) :
    (us'.foldl (enrolled contracts) .empty).find? key = some row := by
  -- Registrations of one account do not change places with each other: between them the flag
  -- differs. The row is told by the whole history instead, which keeps its members.
  obtain ⟨account, rfl⟩ := accounts_of_identities us _
    ((ordered_identities us).find?_eq_some_iff.mp found)
  have told := row_tells distinct account us
  rw [found] at told
  have moved : (history contracts account us).Perm (history contracts account us') :=
    p.filterMap _
  refine find?_of_tells distinct (fun none => told.1 ?_) (told.2.perm moved
    (unambiguous.publicKeys account) (unambiguous.signatures account))
  rw [none] at moved
  exact moved.eq_nil

private theorem Unambiguous.perm (h : Unambiguous contracts us) (p : us.Perm us') :
    Unambiguous contracts us' where
  keypers := (p.filterMap _).nodup_iff.mp h.keypers
  decryptors := (p.filterMap _).nodup_iff.mp h.decryptors
  publicKeys account := (h.publicKeys account).perm (p.filterMap _)
  signatures account := (h.signatures account).perm (p.filterMap _)

/-- Unambiguous items come to the same in every order. -/
theorem recordedAll_perm (distinct : contracts.publicKeyRegistry ≠ contracts.signatureRegistry)
    (unambiguous : Unambiguous contracts us) (p : us.Perm us') :
    recordedAll contracts lists us emptyChain = recordedAll contracts lists us' emptyChain := by
  have keypers := inOrder_perm (keyperEffect lists) p (fun u hu v hv different =>
    swaps_keyperEffect (apart_of_nodup unambiguous.keypers hu hv different)) .empty
  have members := inOrder_perm (memberEffect lists) p (fun u hu v hv different =>
    swaps_memberEffect (apart_of_nodup unambiguous.decryptors hu hv different)) .empty
  have identities : us.foldl (enrolled contracts) .empty = us'.foldl (enrolled contracts) .empty :=
    (ordered_identities us).ext (ordered_identities us') fun key row =>
      ⟨find?_identities_perm distinct unambiguous p,
        find?_identities_perm distinct (unambiguous.perm p) p.symm⟩
  rw [recordedAll_eq, recordedAll_eq, emptyChain, keypers, members, identities]

end Reordering

/-- Unambiguous items can all be applied in one order if they can be applied in another, and then
the tables that mirror the chain hold the same. -/
theorem order_independent {contracts : Chain.WatchedContracts} {us us' : List Update}
    (distinct : contracts.publicKeyRegistry ≠ contracts.signatureRegistry)
    (unambiguous : Unambiguous contracts us) (same : us.Perm us') (reader : AddressReader) :
    let succeed (us : List Update) := landed contracts .empty (soundCalls reader us) = us
    let tables (us : List Update) :=
      (called contracts .empty (soundCalls reader us)).database.tables.chain
    (succeed us ↔ succeed us') ∧ (succeed us → tables us = tables us') := by
  intro succeed tables
  have recording : recordedAll contracts (readable reader) us emptyChain =
      recordedAll contracts (readable reader) us' emptyChain :=
    recordedAll_perm distinct unambiguous same
  have both : succeed us ↔ succeed us' := by
    have fits : (∀ u ∈ us, Fits u) ↔ ∀ u ∈ us', Fits u :=
      forall_congr' fun u => by rw [same.mem_iff]
    refine landed_soundCalls_iff.trans (Iff.trans ?_ landed_soundCalls_iff.symm)
    change (recordedAll contracts (readable reader) us emptyChain).isSome ∧ _ ↔
      (recordedAll contracts (readable reader) us' emptyChain).isSome ∧ _
    rw [recording, fits]
  refine ⟨both, fun all => Option.some.inj ?_⟩
  exact (chain_of_landed all).symm.trans (recording.trans (chain_of_landed (both.mp all)))

/-- A configuration of each kind and both credentials of an account, forwards and backwards. -/
theorem order_independent_reversed :
    let contracts : Chain.WatchedContracts := ⟨.ofNat 1, .ofNat 2, .ofNat 3, .ofNat 4⟩
    let account : Address := .ofNat 0
    let reader := steady fun _ _ => some [account]
    let us : List Update := [⟨some (.keyperConfig ⟨5, 0, 1⟩), 0, 0⟩,
      ⟨some (.decryptorConfig ⟨5, 0⟩), 0, 1⟩,
      ⟨some (.registered ⟨.ofNat 3, account, Keys.unitKey⟩), 0, 2⟩,
      ⟨some (.registered ⟨.ofNat 4, account, Keys.unitSignature account.bytes⟩), 0, 3⟩]
    let tables (us : List Update) :=
      (called contracts .empty (soundCalls reader us)).database.tables.chain
    contracts.publicKeyRegistry ≠ contracts.signatureRegistry ∧ Unambiguous contracts us ∧
      us.Perm us.reverse ∧ landed contracts .empty (soundCalls reader us.reverse) = us.reverse ∧
      tables us = tables us.reverse := by
  intro contracts account reader us tables
  have distinct : contracts.publicKeyRegistry ≠ contracts.signatureRegistry := by decide
  have unambiguous : Unambiguous contracts us := by
    have past (a : Address) : history contracts a us = if account = a then
        [⟨.ofNat 3, account, Keys.unitKey⟩,
          ⟨.ofNat 4, account, Keys.unitSignature account.bytes⟩] else [] := by
      by_cases mine : account = a
      · rw [if_pos mine, ← mine]
        rfl
      · simp [history, enrolment?, us, mine]
    refine ⟨List.nodup_singleton 5, List.nodup_singleton 5, fun a => ?_, fun a => ?_⟩ <;>
    · rw [past]
      split
      · exact Nat.le_refl 1
      · exact Nat.zero_le 1
  have all : landed contracts .empty (soundCalls reader us) = us := by
    refine landed_soundCalls_iff.mpr ⟨rfl, ?_⟩
    simp only [us, List.forall_mem_cons, List.not_mem_nil, false_imp_iff, implies_true, and_true]
    exact ⟨fits_event _ (by decide) (by decide), fits_event _ (by decide) (by decide),
      fits_event _ (by decide) (by decide), fits_event _ (by decide) (by decide)⟩
  obtain ⟨both, agree⟩ :=
    order_independent distinct unambiguous (List.reverse_perm us).symm reader
  exact ⟨distinct, unambiguous, (List.reverse_perm us).symm, both.mp all, agree all⟩

end DecryptorNode.Sync
