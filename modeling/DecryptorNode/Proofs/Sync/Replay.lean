import DecryptorNode.Proofs.Chain.LogChronicle
import DecryptorNode.Proofs.Sync.AtomicApplication

/-! Running the handlers over the events of a set of logs, and stores that hold what such a run
leaves. Applying the item that comes next takes such a store to one that holds it. -/
namespace DecryptorNode.Sync
open Chain (Address AddressReader AddressSet Chronicle Cursor Follows LogSet Update)
open Store (ChainTables Database Tables Work Workspace)

def steadyReply : Option (List Address) → Chain.AddressReply
  | some l => .addresses l
  | none => .stalled

def steady (lists : AddressSet → Nat → Option (List Address)) : AddressReader :=
  fun set index => ⟨[], steadyReply (lists set index)⟩

theorem readable_steady (lists : AddressSet → Nat → Option (List Address)) :
    readable (steady lists) = lists := by
  funext set index
  unfold readable steady
  dsimp only
  cases lists set index <;> rfl

def recordAll (contracts : Chain.WatchedContracts) (reader : AddressReader) (us : List Update) :
    Work Halt Unit :=
  us.forM fun u => u.event.forM (recordEvent contracts reader)

def recordedAll (contracts : Chain.WatchedContracts)
    (lists : AddressSet → Nat → Option (List Address)) :
    List Update → ChainTables → Option ChainTables
  | [], t => some t
  | u :: rest, t => (recordedItem contracts lists u t).bind (recordedAll contracts lists rest)

variable {contracts : Chain.WatchedContracts} {lists : AddressSet → Nat → Option (List Address)}
  {L : LogSet}

private theorem recordedAll_append (us vs : List Update) (t : ChainTables) :
    recordedAll contracts lists (us ++ vs) t =
      (recordedAll contracts lists us t).bind (recordedAll contracts lists vs) := by
  induction us generalizing t with
  | nil => rfl
  | cons u rest ih =>
    change (recordedItem contracts lists u t).bind _ =
      ((recordedItem contracts lists u t).bind _).bind _
    rw [Option.bind_assoc]
    exact congrArg _ (funext ih)

/-- Only events are recorded. -/
private theorem recordedAll_occurrences (us : List Update) (t : ChainTables) :
    recordedAll contracts lists (Chain.occurrences us) t = recordedAll contracts lists us t := by
  induction us generalizing t with
  | nil => rfl
  | cons u rest ih =>
    unfold Chain.occurrences at ih ⊢
    cases present : u.event with
    | none =>
      rw [List.filter_cons_of_neg (by simp [present]), ih, recordedAll, recordedItem, present]
      rfl
    | some event =>
      rw [List.filter_cons_of_pos (by simp [present])]
      exact congrArg _ (funext ih)

private theorem Records.seq {work work' : Work Halt Unit}
    {effect effect' : ChainTables → Option ChainTables}
    (h : Records work effect) (h' : Records work' effect') :
    Records (work >>= fun _ => work') fun t => (effect t).bind effect' where
  sound w a w' ran := by
    obtain ⟨_, u, first, second⟩ := Work.exec_bind_eq_ok.mp ran
    obtain ⟨⟨c, value, draft⟩, earlier⟩ := h.sound w _ u first
    obtain ⟨⟨c', value', draft'⟩, later⟩ := h'.sound u a w' second
    rw [Workspace.tables, draft] at value' draft'
    exact ⟨⟨c', Option.bind_eq_some_iff.mpr ⟨c, value, value'⟩, draft'⟩,
      fun connected => earlier (later connected)⟩
  complete w c' sound value := by
    obtain ⟨c, value, value'⟩ := Option.bind_eq_some_iff.mp value
    obtain ⟨a, u, first, draft, lasting⟩ := h.complete w c sound value
    have tables : u.tables = w.tables.withChain c := by
      rw [Workspace.tables, draft]
      rfl
    obtain ⟨b, w', second, draft', lasting'⟩ :=
      h'.complete u c' (sound.later draft lasting) (by rw [tables]; exact value')
    refine ⟨b, w', Work.exec_bind_eq_ok.mpr ⟨a, u, first, second⟩, ?_, lasting'⟩
    rw [draft', tables, draft]
    rfl

theorem records_all (contracts : Chain.WatchedContracts) (reader : AddressReader)
    (us : List Update) :
    Records (recordAll contracts reader us) (recordedAll contracts (readable reader) us) := by
  induction us with
  | nil => exact records_nothing
  | cons u rest ih => exact (records_item contracts reader u).seq ih

def emptyChain : ChainTables := ⟨.empty, .empty, .empty⟩

/-- The tables hold a position, and besides it what the handlers make of all events before it. -/
def Consistent (contracts : Chain.WatchedContracts) (L : LogSet)
    (lists : AddressSet → Nat → Option (List Address)) (t : Tables) (cursor : Cursor) : Prop :=
  (∃ position, Store.Progress.held t = .ok position ∧ cursor = position.getD .start) ∧
    ∃ us, Chronicle contracts L .start cursor us ∧
      recordedAll contracts lists us emptyChain = some t.chain

theorem consistent_empty : Consistent contracts L lists .empty .start :=
  ⟨⟨none, rfl, rfl⟩, [], .nil, rfl⟩

private theorem recordedItem_mono {lists' : AddressSet → Nat → Option (List Address)}
    {update : Update} {t t' : ChainTables} (agrees : ∀ set index l, lists set index = some l →
      lists' set index = some l)
    (h : recordedItem contracts lists update t = some t') :
    recordedItem contracts lists' update t = some t' := by
  unfold recordedItem at h ⊢
  split at h
  · exact h
  · exact recorded_mono agrees h

/-- An item of the stream that is applied takes the tables to what holds after it. -/
theorem Consistent.applied {reader : AddressReader} {update : Update} {cursor next : Cursor}
    {before after : Database} (h : Consistent contracts L lists before.tables cursor)
    (follows : Follows contracts L cursor update)
    (agrees : ∀ set index l, readable reader set index = some l → lists set index = some l)
    (applied : Applied contracts (readable reader) update next before after) :
    Consistent contracts L lists after.tables update.after := by
  obtain ⟨-, us, chronicle, replayed⟩ := h
  obtain rfl := Chain.Update.after_of_nextCursor? applied.next
  refine ⟨⟨some update.after, ?_, rfl⟩, us ++ Chain.occurrences [update],
    chronicle.append follows.tells (Cursor.start_le _) (Cursor.le_of_lt follows.moves), ?_⟩
  · rw [applied.tables]
    exact Store.Progress.held_put
  · rw [recordedAll_append, replayed, Option.bind_some]
    rw [recordedAll_occurrences]
    exact Option.bind_eq_some_iff.mpr ⟨_, recordedItem_mono agrees applied.recorded, rfl⟩

end DecryptorNode.Sync
