import DecryptorNode.Proofs.Bytes.Encodings
import DecryptorNode.Proofs.Keys.UnitKey
import DecryptorNode.Proofs.Network.CallHalves

/-! How far the keys of an epoch agree. Two accepted keys of one epoch agree in the bytes that are
read, and where these are all of them, nodes that hear the same messages in different orders store
the same keys. Bytes after the encoding are checked by nobody and stored all the same. -/
namespace DecryptorNode.Network
open Curve (G1 G2 fieldBytes)
open Store (Database EonKeyRow EpochKey Table)

/-- Keys that decode to different points of the curve which pair alike with the generator. A pairing
of groups of prime order that is bilinear and does not degenerate has none. -/
def Clash (key key' : Bytes) : Prop :=
  ∃ p q : G1, G1.decode key = .ok p ∧ G1.decode key' = .ok q ∧ p ≠ q ∧
    p.OnCurve G1.constant ∧ q.OnCurve G1.constant ∧
    Curve.pairing p G2.generator = Curve.pairing q G2.generator

section Points
variable {instanceId : Nat} {eonKeys : Table Int EonKeyRow} {m m' : DecryptionKey}

private theorem pairing_of_verify {key : Keys.EpochSecretKey} {eon : Keys.EonPublicKey}
    {epoch : Keys.EpochId} (h : key.verify eon epoch = true) :
    Curve.pairing key.point G2.generator = Curve.pairing epoch.point eon.point := by
  unfold Keys.EpochSecretKey.verify Keys.EpochSecretKey.verifyBy at h
  rw [Bool.and_eq_true] at h
  exact of_decide_eq_true h.2

/-- Genuine keys of one epoch begin with the same encoding, unless the pairing fails to tell their
points apart. -/
theorem Genuine.agree (h : Genuine instanceId eonKeys m) (h' : Genuine instanceId eonKeys m')
    (eon : m.eon = m'.eon) (epoch : m.epochId = m'.epochId) :
    m.key.take fieldBytes = m'.key.take fieldBytes ∨ Clash m.key m'.key := by
  obtain ⟨key, row, eonKey, read, finite, found, eonRead, fits⟩ := h.verified
  obtain ⟨key', row', eonKey', read', finite', found', eonRead', fits'⟩ := h'.verified
  obtain ⟨instanceId, eonNumber, epochId, bytes⟩ := m
  obtain ⟨instanceId', eonNumber', epochId', bytes'⟩ := m'
  cases eon
  cases epoch
  cases found.symm.trans found'
  cases eonRead.symm.trans eonRead'
  have decoded := Keys.EpochSecretKey.ofBytes_eq_ok.mp read
  have decoded' := Keys.EpochSecretKey.ofBytes_eq_ok.mp read'
  by_cases same : key.point = key'.point
  · left
    rw [G1.take_of_decode decoded finite, G1.take_of_decode decoded' finite', same]
  · right
    exact ⟨key.point, key'.point, decoded, decoded', same, G1.onCurve_of_decode decoded,
      G1.onCurve_of_decode decoded', (pairing_of_verify fits).trans (pairing_of_verify fits').symm⟩

end Points

section Hearing
variable {instanceId : Nat} {s : Store} {call : String × Bytes} {inbound : List (String × Bytes)}

@[simp] theorem eonKeys_keeping (d : Database) (m : DecryptionKey) :
    (keeping d m).tables.eonKeys = d.tables.eonKeys := by
  unfold keeping
  split <;> rfl

@[simp] theorem faults_keeping (d : Database) (m : DecryptionKey) :
    (keeping d m).faults = d.faults := by
  unfold keeping
  split <;> rfl

/-- After some messages the table has the first key of each epoch, or it was not to be had. -/
private theorem epochKeys_foldl_keeping (messages : List DecryptionKey) (d : Database) :
    (messages.foldl keeping d).tables.epochKeys =
      if takesKeys d then
        d.tables.epochKeys.putAll (messages.map fun m => (m.rowKey, m.key))
      else d.tables.epochKeys := by
  induction messages generalizing d with
  | nil => exact (ite_self _).symm
  | cons m rest ih =>
    have stays : takesKeys (keeping d m) = takesKeys d := by
      unfold takesKeys Database.canWrite Database.canRead
      rw [faults_keeping]
    rw [List.foldl_cons, ih, stays]
    split
    · rename_i takes
      rw [keeping, if_pos takes]
      rfl
    · rename_i refuses
      rw [keeping, if_neg refuses]

def admitted (instanceId : Nat) (s : Store) (call : String × Bytes) : Option DecryptionKey :=
  if ((nodeRouter instanceId).validate call.1 call.2 s).1 = .accept then
    DecryptionKey.decode? call.2
  else none

private theorem admitted_eq_some {m : DecryptionKey} : admitted instanceId s call = some m ↔
    call.1 = DecryptionKey.topic ∧ s.database.answers .eonKeys = true ∧
      DecryptionKey.decode? call.2 = some m ∧ Genuine instanceId s.database.tables.eonKeys m := by
  rw [admitted, Option.ite_none_right_eq_some, validate_eq_accept]
  constructor
  · rintro ⟨⟨topic, readable, m', read', genuine⟩, read⟩
    obtain rfl : m' = m := Option.some.inj (read'.symm.trans read)
    exact ⟨topic, readable, read, genuine⟩
  · rintro ⟨topic, readable, read, genuine⟩
    exact ⟨⟨topic, readable, m, read, genuine⟩, read⟩

/-- What is accepted depends on the eon keys and on whether they can be read. -/
private theorem admitted_congr {s' : Store} (eonKeys : s'.database.tables.eonKeys =
    s.database.tables.eonKeys) (faults : s'.database.faults = s.database.faults) :
    admitted instanceId s' call = admitted instanceId s call := by
  refine Option.ext fun m => ?_
  have readable : s'.database.answers .eonKeys = s.database.answers .eonKeys := by
    rw [Database.answers, Database.answers, Database.canRead, Database.canRead, faults]
  rw [admitted_eq_some, admitted_eq_some, eonKeys, readable]

/-- Processing a payload does to the database what handling the message does that it is accepted
as. -/
private theorem database_of_process (instanceId : Nat) (call : String × Bytes) (s : Store) :
    ((nodeRouter instanceId).process call.1 call.2 s).2.database =
      (admitted instanceId s call).elim s.database (keeping s.database) := by
  have judged := database_of_validate instanceId call.1 call.2 s
  rw [Router.process_eq]
  cases admission : admitted instanceId s call with
  | none =>
    have refused : ((nodeRouter instanceId).validate call.1 call.2 s).1 ≠ .accept := by
      intro accepted
      obtain ⟨topic, readable, m, read, genuine⟩ := (validate_eq_accept _ _ _ _).mp accepted
      rw [admitted_eq_some.mpr ⟨topic, readable, read, genuine⟩] at admission
      cases admission
    split
    · rfl
    · split
      · rename_i ran
        rw [ran] at refused
        exact absurd rfl refused
      · rename_i ran
        rw [ran] at judged
        exact judged
  | some m =>
    obtain ⟨topic, readable, read, genuine⟩ := admitted_eq_some.mp admission
    have accepted := (validate_eq_accept instanceId call.1 call.2 s).mpr
      ⟨topic, readable, m, read, genuine⟩
    have known : ((nodeRouter instanceId).find? call.1).isNone = false := by
      rw [find?_nodeRouter, if_pos topic.symm]
      rfl
    rw [known, if_neg Bool.false_ne_true]
    rcases ran : (nodeRouter instanceId).validate call.1 call.2 s with ⟨verdict, s'⟩
    rw [ran] at accepted judged
    dsimp only at accepted judged
    subst accepted
    dsimp only
    rw [topic, database_of_finish read, judged]
    rfl

def hear (instanceId : Nat) (s : Store) (inbound : List (String × Bytes)) : Store :=
  inbound.foldl (fun s call => ((nodeRouter instanceId).process call.1 call.2 s).2) s

private theorem database_of_hear (instanceId : Nat) (s : Store) (inbound : List (String × Bytes)) :
    (hear instanceId s inbound).database =
      (inbound.filterMap (admitted instanceId s)).foldl keeping s.database := by
  induction inbound generalizing s with
  | nil => rfl
  | cons call rest ih =>
    have step := database_of_process instanceId call s
    change (hear instanceId ((nodeRouter instanceId).process call.1 call.2 s).2 rest).database = _
    rw [ih]
    -- The rest is judged by the store after the first payload. Handling changes neither the eon
    -- keys nor how the database misbehaves, so the verdicts are those of the store before it.
    generalize ((nodeRouter instanceId).process call.1 call.2 s).2 = s' at step
    cases admission : admitted instanceId s call with
    | none =>
      rw [admission] at step
      change s'.database = s.database at step
      have same : admitted instanceId s' = admitted instanceId s := funext fun call =>
        admitted_congr (by rw [step]) (by rw [step])
      rw [List.filterMap_cons_none admission, same, step]
    | some m =>
      rw [admission] at step
      change s'.database = keeping s.database m at step
      have same : admitted instanceId s' = admitted instanceId s := funext fun call =>
        admitted_congr (by rw [step, eonKeys_keeping]) (by rw [step, faults_keeping])
      rw [List.filterMap_cons_some admission, same, step, List.foldl_cons]

def heardKeys (instanceId : Nat) (s : Store) (inbound : List (String × Bytes)) :
    Table EpochKey Bytes := (hear instanceId s inbound).database.tables.epochKeys

private theorem heardKeys_eq (instanceId : Nat) (s : Store) (inbound : List (String × Bytes)) :
    heardKeys instanceId s inbound =
      if takesKeys s.database then s.database.tables.epochKeys.putAll
        ((inbound.filterMap (admitted instanceId s)).map fun m => (m.rowKey, m.key))
      else s.database.tables.epochKeys := by
  rw [heardKeys, database_of_hear, epochKeys_foldl_keeping]

/-- Under each epoch that had no key stands the one that was accepted first. -/
theorem find?_heardKeys (fresh : s.database.tables.epochKeys = .empty)
    (takes : takesKeys s.database = true) (inbound : List (String × Bytes)) (key : EpochKey) :
    (heardKeys instanceId s inbound).find? key =
      ((inbound.filterMap (admitted instanceId s)).find? fun m => m.rowKey = key).map (·.key) := by
  rw [heardKeys_eq, if_pos takes, fresh, Table.find?_putAll]
  refine Option.none_or.trans ?_
  rw [Table.find?, List.find?_map, Option.map_map]
  rfl

private theorem DecryptionKey.rowKey_eq_iff {m m' : DecryptionKey} :
    m.rowKey = m'.rowKey ↔ m.eon = m'.eon ∧ m.epochId = m'.epochId := by
  rw [rowKey, rowKey, Store.EpochKeys.rowKey, Store.EpochKeys.rowKey, Store.EpochKey.mk.injEq]
  exact and_congr_right fun _ => ⟨Hex.text_injective, congrArg Hex.text⟩

/-- Nodes that start alike and process the same payloads in different orders have the same keys, as
far as accepted keys of one epoch agree. -/
theorem mapRows_heardKeys_perm {τ : Type} {f : Bytes → τ} {inbound' : List (String × Bytes)}
    (ordered : s.database.tables.epochKeys.Ordered) (reordered : inbound.Perm inbound')
    (agree : ∀ m ∈ inbound.filterMap (admitted instanceId s),
      ∀ m' ∈ inbound.filterMap (admitted instanceId s),
        m.eon = m'.eon → m.epochId = m'.epochId → f m.key = f m'.key) :
    (heardKeys instanceId s inbound).mapRows f = (heardKeys instanceId s inbound').mapRows f := by
  rw [heardKeys_eq, heardKeys_eq]
  split
  · refine Table.mapRows_putAll_perm ordered ((reordered.filterMap _).map _) ?_
    intro a here b there same
    obtain ⟨m, mem, rfl⟩ := List.mem_map.mp here
    obtain ⟨m', mem', rfl⟩ := List.mem_map.mp there
    obtain ⟨eon, epoch⟩ := DecryptionKey.rowKey_eq_iff.mp same
    exact agree m mem m' mem' eon epoch
  · rfl

/-- Stores that agree in what accepting and storing keys depends on. -/
structure Alike (s s' : Store) : Prop where
  eonKeys : s'.database.tables.eonKeys = s.database.tables.eonKeys
  epochKeys : s'.database.tables.epochKeys = s.database.tables.epochKeys
  faults : s'.database.faults = s.database.faults

private theorem heardKeys_congr {s' : Store} (alike : Alike s s')
    (inbound : List (String × Bytes)) :
    heardKeys instanceId s' inbound = heardKeys instanceId s inbound := by
  have same : admitted instanceId s' = admitted instanceId s := funext fun call =>
    admitted_congr alike.eonKeys alike.faults
  have takes : takesKeys s'.database = takesKeys s.database := by
    unfold takesKeys Database.canWrite Database.canRead
    rw [alike.faults]
  rw [heardKeys_eq, heardKeys_eq, same, takes, alike.epochKeys]

end Hearing

/-- Two accepted keys of one epoch of an eon begin with the same encoding, unless the pairing fails
to tell their points apart. A node without epoch keys that processes payloads stores for each epoch
the key that it accepts first, as it came. Let another node that holds the same eon keys process the
same payloads in a different order, and let none of them clash. Then both store keys of the same
epochs that begin with the same encodings; and they store the same keys, if no accepted key is
longer than its encoding. -/
theorem accepted_keys_agree (instanceId : Nat) (s : Store) :
    (∀ m m', (KeyHandler.validate instanceId m s).1 = .accept →
      (KeyHandler.validate instanceId m' s).1 = .accept → m.eon = m'.eon → m.epochId = m'.epochId →
      m.key.take fieldBytes = m'.key.take fieldBytes ∨ Clash m.key m'.key) ∧
    (s.database.tables.epochKeys = .empty → ∀ inbound,
      (takesKeys s.database = true → ∀ key, (heardKeys instanceId s inbound).find? key =
        ((inbound.filterMap (admitted instanceId s)).find? fun m => m.rowKey = key).map (·.key)) ∧
      ∀ s' inbound', Alike s s' → inbound.Perm inbound' →
        (∀ m ∈ inbound.filterMap (admitted instanceId s),
          ∀ m' ∈ inbound.filterMap (admitted instanceId s), ¬ Clash m.key m'.key) →
        (heardKeys instanceId s inbound).mapRows (·.take fieldBytes) =
          (heardKeys instanceId s' inbound').mapRows (·.take fieldBytes) ∧
        ((∀ m ∈ inbound.filterMap (admitted instanceId s), m.key.length ≤ fieldBytes) →
          heardKeys instanceId s inbound = heardKeys instanceId s' inbound')) := by
  refine ⟨fun m m' accepted accepted' eon epoch => ?_,
    fun fresh inbound => ⟨fun takes => find?_heardKeys fresh takes inbound,
      fun s' inbound' alike reordered apart => ?_⟩⟩
  · exact ((KeyHandler.accepts_iff _ _ _).mp accepted).2.agree
      ((KeyHandler.accepts_iff _ _ _).mp accepted').2 eon epoch
  · have ordered : s.database.tables.epochKeys.Ordered := fresh ▸ Table.ordered_empty
    have agree : ∀ m ∈ inbound.filterMap (admitted instanceId s),
        ∀ m' ∈ inbound.filterMap (admitted instanceId s),
          m.eon = m'.eon → m.epochId = m'.epochId →
            m.key.take fieldBytes = m'.key.take fieldBytes := by
      intro m mem m' mem' eon epoch
      obtain ⟨_, -, admission⟩ := List.mem_filterMap.mp mem
      obtain ⟨_, -, admission'⟩ := List.mem_filterMap.mp mem'
      obtain ⟨-, -, -, genuine⟩ := admitted_eq_some.mp admission
      obtain ⟨-, -, -, genuine'⟩ := admitted_eq_some.mp admission'
      exact (genuine.agree genuine' eon epoch).resolve_right (apart m mem m' mem')
    rw [heardKeys_congr alike]
    refine ⟨mapRows_heardKeys_perm ordered reordered agree, fun short => ?_⟩
    have whole := mapRows_heardKeys_perm (f := id) ordered reordered
      fun m mem m' mem' eon epoch => by
        have same := agree m mem m' mem' eon epoch
        rwa [List.take_of_length_le (short m mem), List.take_of_length_le (short m' mem')] at same
    rwa [Table.mapRows_id, Table.mapRows_id] at whole

section Released
variable {epoch : Keys.EpochId} {more more' : Bytes}

def unitNode : Store :=
  ⟨⟨{ Store.Tables.empty with eonKeys := Table.empty.put 7 ⟨1000, Keys.unitKey⟩ }, .none⟩, []⟩

/-- The message with the key that secret one releases for an epoch, and more bytes after it. -/
def released (epoch : Keys.EpochId) (more : Bytes) : DecryptionKey :=
  ⟨42, 7, epoch.bytes, Keys.unitRelease epoch ++ more⟩

private theorem rowKey_released : (released epoch more).rowKey = ⟨7, Hex.text epoch.bytes⟩ := rfl

private theorem ofBytes_released (more : Bytes) (finite : epoch.point ≠ .infinity) :
    Keys.EpochSecretKey.ofBytes (released epoch more).key = .ok ⟨epoch.point⟩ := by
  unfold released
  exact Keys.ofBytes_unitRelease finite more

/-- Whatever stands after the key, the message is genuine. -/
private theorem genuine_released (finite : epoch.point ≠ .infinity) :
    Genuine 42 unitNode.database.tables.eonKeys (released epoch more) := by
  have held : unitNode.database.tables.eonKeys.find? 7 = some ⟨1000, Keys.unitKey⟩ :=
    Table.find?_put_self _ _ _
  have read := ofBytes_released more finite
  have fits := Keys.verify_unitRelease finite
  generalize (⟨epoch.point⟩ : Keys.EpochSecretKey) = key at read fits
  exact ⟨rfl, Int.natCast_nonneg 7, epoch.length_eq, key, ⟨1000, Keys.unitKey⟩, ⟨G2.generator⟩,
    read, KeyHandler.point_of_verify fits, held, Keys.eonKey_unitKey, fits⟩

private theorem not_clash_released (finite : epoch.point ≠ .infinity) :
    ¬ Clash (released epoch more).key (released epoch more').key := by
  have decoded := Keys.EpochSecretKey.ofBytes_eq_ok.mp (ofBytes_released more finite)
  have decoded' := Keys.EpochSecretKey.ofBytes_eq_ok.mp (ofBytes_released more' finite)
  generalize (⟨epoch.point⟩ : Keys.EpochSecretKey).point = point at decoded decoded'
  rintro ⟨p, q, read, read', different, -⟩
  cases decoded.symm.trans read
  cases decoded'.symm.trans read'
  exact different rfl

private theorem unitRelease_zero : Keys.unitRelease (.ofNat 0) =
    [202, 74, 59, 168, 31, 152, 190, 14, 201, 37, 209, 210, 21, 175, 110, 192, 30, 77, 75, 151, 114,
      37, 65, 109, 121, 201, 183, 218, 55, 82, 151, 8] := by
  rw [Keys.unitRelease_eq]
  decide +kernel

private theorem point_zero : (Keys.EpochId.ofNat 0).point ≠ .infinity := by
  intro neutral
  have written := unitRelease_zero
  rw [Keys.unitRelease_eq, neutral] at written
  exact absurd written (by decide)

private theorem decode?_released : DecryptionKey.decode? (released (.ofNat 0) []).encode =
      some (released (.ofNat 0) []) ∧
    DecryptionKey.decode? (released (.ofNat 0) [0]).encode = some (released (.ofNat 0) [0]) := by
  unfold released
  rw [unitRelease_zero]
  decide +kernel

def incoming (m : DecryptionKey) : String × Bytes := (DecryptionKey.topic, m.encode)

private theorem admitted_released (listed : more = [] ∨ more = [0]) :
    admitted 42 unitNode (incoming (released (.ofNat 0) more)) =
      some (released (.ofNat 0) more) := by
  refine admitted_eq_some.mpr ⟨rfl, rfl, ?_, genuine_released point_zero⟩
  rcases listed with rfl | rfl
  · exact decode?_released.1
  · exact decode?_released.2

private theorem accepts_released :
    (KeyHandler.validate 42 (released (.ofNat 0) more) unitNode).1 = .accept :=
  (KeyHandler.accepts_iff _ _ _).mpr ⟨rfl, genuine_released point_zero⟩

/-- A key comes as it is and with a byte more; or it comes as it is, and something else does that is
no message. -/
theorem accepted_keys_agree_released :
    let bare := released (.ofNat 0) []
    let longer := released (.ofNat 0) [0]
    (bare.key.take fieldBytes = longer.key.take fieldBytes ∨ Clash bare.key longer.key) ∧
    (heardKeys 42 unitNode [incoming bare, incoming longer]).mapRows (·.take fieldBytes) =
      (heardKeys 42 unitNode [incoming longer, incoming bare]).mapRows (·.take fieldBytes) ∧
    heardKeys 42 unitNode [incoming bare, (DecryptionKey.topic, [])] =
      heardKeys 42 unitNode [(DecryptionKey.topic, []), incoming bare] := by
  intro bare longer
  have both : [incoming bare, incoming longer].filterMap (admitted 42 unitNode) =
      [bare, longer] := by
    rw [List.filterMap_cons_some (admitted_released (.inl rfl)),
      List.filterMap_cons_some (admitted_released (.inr rfl)), List.filterMap_nil]
  have single : [incoming bare, (DecryptionKey.topic, [])].filterMap (admitted 42 unitNode) =
      [bare] := by
    have noise : admitted 42 unitNode (DecryptionKey.topic, []) = none :=
      Option.eq_none_iff_forall_ne_some.mpr fun m read =>
        absurd (admitted_eq_some.mp read).2.2.1 (by decide +revert)
    rw [List.filterMap_cons_some (admitted_released (.inl rfl)), List.filterMap_cons_none noise,
      List.filterMap_nil]
  have alike : Alike unitNode unitNode := ⟨rfl, rfl, rfl⟩
  refine ⟨(accepted_keys_agree 42 unitNode).1 bare longer accepts_released accepts_released rfl rfl,
    (((accepted_keys_agree 42 unitNode).2 rfl _).2 unitNode _ alike (.swap _ _ _) ?_).1,
    (((accepted_keys_agree 42 unitNode).2 rfl _).2 unitNode _ alike (.swap _ _ _) ?_).2 ?_⟩
  · rw [both]
    intro m mem m' mem'
    rcases List.mem_pair.mp mem with rfl | rfl <;> rcases List.mem_pair.mp mem' with rfl | rfl <;>
      exact not_clash_released point_zero
  · rw [single]
    intro m mem m' mem'
    cases List.mem_singleton.mp mem
    cases List.mem_singleton.mp mem'
    exact not_clash_released point_zero
  · rw [single]
    intro m mem
    cases List.mem_singleton.mp mem
    exact (congrArg List.length ((List.append_nil _).trans unitRelease_zero)).le

/-- The first of two keys of an epoch is the one that is stored. -/
private theorem find?_heardKeys_released {first second : Bytes} (listed : first = [] ∨ first = [0])
    (listed' : second = [] ∨ second = [0]) :
    (heardKeys 42 unitNode [incoming (released (.ofNat 0) first),
      incoming (released (.ofNat 0) second)]).find? (released (.ofNat 0) []).rowKey =
        some (released (.ofNat 0) first).key := by
  have one : (released (.ofNat 0) first).rowKey = (released (.ofNat 0) []).rowKey := by
    rw [rowKey_released, rowKey_released]
  rw [find?_heardKeys rfl rfl, List.filterMap_cons_some (admitted_released listed),
    List.filterMap_cons_some (admitted_released listed'), List.find?_cons_of_pos, Option.map_some]
  exact decide_eq_true one

/-- Accepted keys of one epoch need not be the same bytes, and the order in which they come decides
which of them is stored. -/
theorem accepted_keys_differ :
    let bare := released (.ofNat 0) []
    let longer := released (.ofNat 0) [0]
    (KeyHandler.validate 42 bare unitNode).1 = .accept ∧
    (KeyHandler.validate 42 longer unitNode).1 = .accept ∧
    bare.eon = longer.eon ∧ bare.epochId = longer.epochId ∧ bare.key ≠ longer.key ∧
    ¬ Clash bare.key longer.key ∧ unitNode.database.tables.epochKeys = .empty ∧
    heardKeys 42 unitNode [incoming bare, incoming longer] ≠
      heardKeys 42 unitNode [incoming longer, incoming bare] := by
  intro bare longer
  have different : bare.key ≠ longer.key := by
    intro same
    have lengths := congrArg List.length same
    simp [bare, longer, released] at lengths
  refine ⟨accepts_released, accepts_released, rfl, rfl, different,
    not_clash_released point_zero, rfl, fun same => different ?_⟩
  have here := find?_heardKeys_released (.inl rfl) (.inr rfl)
  rw [same, find?_heardKeys_released (.inr rfl) (.inl rfl)] at here
  exact (Option.some.inj here).symm

end Released
end DecryptorNode.Network
