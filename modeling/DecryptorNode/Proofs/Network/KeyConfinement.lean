import DecryptorNode.Proofs.Network.CallHalves
import DecryptorNode.Proofs.Store.Separation

/-! Messages are about keys alone: judging and handling them neither reads nor writes what follows
the chain. -/
namespace DecryptorNode.Network
open Store (Apart OnKeys)
variable (instanceId : Nat)

/-- A router whose handlers are confined to keys is confined to keys. -/
theorem Router.onKeys_process (r : Router) (topic : String) (payload : Bytes)
    (confined : ∀ h, r.find? topic = some h → OnKeys (h.validate payload) ∧
      OnKeys (h.handle payload)) : OnKeys (r.process topic payload) := by
  cases known : r.find? topic with
  | none =>
    have refused : r.process topic payload = fun s => (.error (.unknownTopic topic), s) := by
      funext s
      rw [process_eq, known]
      rfl
    rw [refused]
    exact .pure _
  | some h =>
    obtain ⟨validates, handles⟩ := confined h known
    have judges : OnKeys (judge h topic payload) :=
      validates.recording fun verdict => [.validated topic verdict.label]
    have counts : OnKeys (countHandled topic (h.handle payload)) :=
      handles.recording fun result => [.handled topic result.toBool]
    -- What happens to a message after its verdict.
    let next (verdict : Verdict) (s : Store) :
        Except NetworkError (Verdict × List Outbound) × Store :=
      if verdict = .accept then
        ((countHandled topic (h.handle payload) s).1.map fun out => (verdict, out),
          (countHandled topic (h.handle payload) s).2)
      else (.ok (verdict, []), s)
    have shape : r.process topic payload = fun s =>
        next (judge h topic payload s).1 (judge h topic payload s).2 := by
      funext s
      rw [process_eq, validate, finish, known]
      dsimp only
      rcases judge h topic payload s with ⟨_ | _ | _, s'⟩ <;> rfl
    rw [shape]
    apply judges.andThen
    intro verdict
    cases verdict with
    | accept =>
      exact counts.andThen fun result => .pure (result.map fun out => (Verdict.accept, out))
    | reject => exact .pure _
    | ignore => exact .pure _

private theorem KeyHandler.onKeys_validate (m : DecryptionKey) :
    OnKeys (validate instanceId m) := by
  constructor
  · intro records past s
    rw [validate_eq, validate_eq]
    cases wellFormed? instanceId m with
    | none => rfl
    | some parts =>
      have alike : Apart records.join (Store.Action.direct (Store.EonKeys.get m.eon)) :=
        .direct (Store.EonKeys.apart_get m.eon)
      simp only [alike past s]
  · exact fun s => congrArg Store.Database.faults (database_of_validate instanceId m s)

theorem KeyHandler.onKeys_handle (m : DecryptionKey) : OnKeys (handle m) := by
  constructor
  · intro records
    apply Apart.transaction
    exact (((Store.EpochKeys.apart_insert _).mapError _).discard).bind fun _ => .pure _
  · intro s
    rw [database_of_handle]
    unfold keeping
    split <;> rfl

/-- Processing a message neither reads nor writes what follows the chain, whatever comes of it. -/
theorem onKeys_process (topic : String) (payload : Bytes) :
    OnKeys ((nodeRouter instanceId).process topic payload) := by
  apply Router.onKeys_process
  intro h known
  rw [find?_nodeRouter] at known
  obtain ⟨-, known⟩ := Option.ite_none_right_eq_some.mp known
  cases known
  unfold Handler.onPayloads keyHandler
  dsimp only
  cases DecryptionKey.decode? payload with
  | none => exact ⟨.pure _, .pure _⟩
  | some m => exact ⟨KeyHandler.onKeys_validate instanceId m, KeyHandler.onKeys_handle m⟩

end DecryptorNode.Network
