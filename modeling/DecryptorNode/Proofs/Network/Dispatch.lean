import DecryptorNode.Proofs.Network.CallHalves
import DecryptorNode.Proofs.Store.OrderedTables
import Mathlib.Data.List.Induction

/-! A payload goes to the handler that was registered last for its topic, and to no other. It is
handled only if it decodes and its message is accepted, and then it is handled once. -/
namespace DecryptorNode.Network
open Store (RowKey Table)
open Telemetry (Activity)

/-- A handler of messages of some type. -/
structure AnyHandler where
  {μ : Type}
  handler : Handler μ

namespace Router

def table (r : Router) : Table String PayloadHandler := ⟨r.handlers⟩

private theorem put_eq_putRow (topic : String) (h : PayloadHandler)
    (handlers : List (String × PayloadHandler)) :
    put topic h handlers = Table.putRow topic h handlers := by
  induction handlers with
  | nil => rfl
  | cons entry rest ih =>
    obtain ⟨t, other⟩ := entry
    simp only [put, Table.putRow, RowKey.before, ih, decide_eq_true_eq]

@[simp] theorem table_register {μ : Type} (r : Router) (h : Handler μ) :
    (r.register h).table = r.table.put h.topic h.onPayloads :=
  congrArg Table.mk (put_eq_putRow _ _ _)

private theorem find?_eq (r : Router) (topic : String) : r.find? topic = r.table.find? topic := rfl

private theorem mem_topics (r : Router) (topic : String) :
    topic ∈ r.topics ↔ (r.find? topic).isSome := by
  rw [← not_iff_not, Option.not_isSome_iff_eq_none, find?_eq, Table.find?_eq_none_iff]
  simp only [topics, table, List.mem_map, not_exists, not_and, ne_eq]

def ofHandlers (hs : List AnyHandler) : Router := hs.foldl (fun r h => r.register h.handler) empty

def lastFor? (hs : List AnyHandler) (topic : String) : Option AnyHandler :=
  hs.reverse.find? fun h => h.handler.topic = topic

private theorem ofHandlers_concat (hs : List AnyHandler) (h : AnyHandler) :
    ofHandlers (hs ++ [h]) = (ofHandlers hs).register h.handler := by
  simp [ofHandlers]

private theorem lastFor?_concat (hs : List AnyHandler) (h : AnyHandler) (topic : String) :
    lastFor? (hs ++ [h]) topic = if h.handler.topic = topic then some h else lastFor? hs topic := by
  by_cases same : h.handler.topic = topic <;> simp [lastFor?, same]

private theorem lastFor?_eq_none_iff (hs : List AnyHandler) (topic : String) :
    lastFor? hs topic = none ↔ ∀ h ∈ hs, h.handler.topic ≠ topic := by
  simp [lastFor?]

private theorem ordered_ofHandlers (hs : List AnyHandler) : (ofHandlers hs).table.Ordered := by
  induction hs using List.reverseRecOn with
  | nil => exact Table.ordered_empty
  | append_singleton hs h ih =>
    rw [ofHandlers_concat, table_register]
    exact ih.put _ _

/-- Registering a handler takes its topic from the one that had it, and no other topic. -/
theorem find?_ofHandlers (hs : List AnyHandler) (topic : String) :
    (ofHandlers hs).find? topic = (lastFor? hs topic).map fun h => h.handler.onPayloads := by
  induction hs using List.reverseRecOn with
  | nil => rfl
  | append_singleton hs h ih =>
    rw [ofHandlers_concat, lastFor?_concat, find?_eq, table_register, Table.find?_put, ← find?_eq,
      ih]
    split <;> rfl

private theorem pairwise_topics (hs : List AnyHandler) : (ofHandlers hs).topics.Pairwise (· < ·) :=
  List.pairwise_map.mpr ((ordered_ofHandlers hs).imp fun before => of_decide_eq_true before)

private theorem mem_topics_ofHandlers (hs : List AnyHandler) (topic : String) :
    topic ∈ (ofHandlers hs).topics ↔ ∃ h ∈ hs, h.handler.topic = topic := by
  rw [mem_topics, find?_ofHandlers, Option.isSome_map, ← not_iff_not,
    Option.not_isSome_iff_eq_none, lastFor?_eq_none_iff]
  simp

/-- A store in which one more thing was counted. -/
def counting (a : Activity) (s : Store) : Store := { s with activity := a :: s.activity }

section Payloads
variable {r : Router} {topic : String} {μ : Type} {h : Handler μ}

theorem validate_of_find? (found : r.find? topic = some h.onPayloads) (payload : Bytes)
    (s : Store) :
    r.validate topic payload s = match h.decode? payload with
      | none => (.reject, counting (.validated topic "reject") s)
      | some m => ((h.validate m s).1,
          counting (.validated topic (h.validate m s).1.label) (h.validate m s).2) := by
  simp only [validate, found, judge_eq, Handler.validate_onPayloads]
  cases h.decode? payload <;> rfl

theorem finish_of_find? (found : r.find? topic = some h.onPayloads) {payload : Bytes} {m : μ}
    (read : h.decode? payload = some m) (s : Store) :
    r.finish topic payload s =
      ((h.handle m s).1, counting (.handled topic (h.handle m s).1.toBool) (h.handle m s).2) := by
  simp only [finish, found, countHandled_eq, Handler.handle_onPayloads, read]
  rfl

theorem process_of_find? (found : r.find? topic = some h.onPayloads) (payload : Bytes)
    (s : Store) :
    r.process topic payload s = match r.validate topic payload s with
      | (.accept, s') => ((r.finish topic payload s').1.map (.accept, ·),
          (r.finish topic payload s').2)
      | (verdict, s') => (.ok (verdict, []), s') := by
  rw [process_eq, found]
  rfl

end Payloads

/-- Processing gives the verdict that validating gives, and messages only with acceptance. -/
theorem process_verdict (r : Router) (topic : String) (payload : Bytes) (s : Store) :
    match (r.process topic payload s).1 with
    | .ok (verdict, out) =>
      verdict = (r.validate topic payload s).1 ∧ (verdict = .accept ∨ out = [])
    | .error e => e = .unknownTopic topic ∧ topic ∉ r.topics ∨
      (r.validate topic payload s).1 = .accept := by
  rw [process_eq, mem_topics]
  cases r.find? topic with
  | none => exact .inl ⟨rfl, Bool.false_ne_true⟩
  | some h =>
    rw [Option.isNone_some, if_neg Bool.false_ne_true]
    rcases r.validate topic payload s with ⟨verdict, s'⟩
    cases verdict with
    | accept =>
      dsimp only
      cases (r.finish topic payload s').1 with
      | error e => exact .inr rfl
      | ok out => exact ⟨rfl, .inl rfl⟩
    | reject => exact ⟨rfl, .inr rfl⟩
    | ignore => exact ⟨rfl, .inr rfl⟩

/-- What routing does after any registrations. The handlers are arbitrary functions of the message
and the store, so what they did to the store tells which of them ran, on what message and how
often. -/
theorem dispatch_exact (hs : List AnyHandler) (topic : String) (payload : Bytes) (s : Store) :
    ((ofHandlers hs).topics.Pairwise (· < ·) ∧
      ∀ t, t ∈ (ofHandlers hs).topics ↔ ∃ h ∈ hs, h.handler.topic = t) ∧
    (match lastFor? hs topic with
    | none => topic ∉ (ofHandlers hs).topics ∧
      (ofHandlers hs).validate topic payload s = (.ignore, s) ∧
      (ofHandlers hs).process topic payload s = (.error (.unknownTopic topic), s)
    | some ⟨h⟩ => match h.decode? payload with
      | none =>
        let rejected := counting (.validated topic "reject") s
        (ofHandlers hs).validate topic payload s = (.reject, rejected) ∧
        (ofHandlers hs).process topic payload s = (.ok (.reject, []), rejected)
      | some m =>
        let (verdict, seen) := h.validate m s
        let judged := counting (.validated topic verdict.label) seen
        (ofHandlers hs).validate topic payload s = (verdict, judged) ∧
        (ofHandlers hs).process topic payload s =
          if verdict = .accept then
            let (result, handled) := h.handle m judged
            (result.map (.accept, ·), counting (.handled topic result.toBool) handled)
          else (.ok (verdict, []), judged)) ∧
    match ((ofHandlers hs).process topic payload s).1 with
    | .ok (verdict, out) =>
      verdict = ((ofHandlers hs).validate topic payload s).1 ∧ (verdict = .accept ∨ out = [])
    | .error e => e = .unknownTopic topic ∧ topic ∉ (ofHandlers hs).topics ∨
      ((ofHandlers hs).validate topic payload s).1 = .accept := by
  refine ⟨⟨pairwise_topics hs, mem_topics_ofHandlers hs⟩, ?_, process_verdict _ topic payload s⟩
  have found := find?_ofHandlers hs topic
  cases charge : lastFor? hs topic with
  | none =>
    rw [charge] at found
    refine ⟨?_, ?_, ?_⟩
    · rw [mem_topics, found]
      exact Bool.false_ne_true
    · simp only [validate, found]
      rfl
    · rw [process_eq, found]
      rfl
  | some h =>
    obtain ⟨h⟩ := h
    rw [charge] at found
    have judged := validate_of_find? found payload s
    have processed := process_of_find? found payload s
    dsimp only
    cases read : h.decode? payload with
    | none =>
      rw [read] at judged
      refine ⟨judged, ?_⟩
      rw [processed, judged]
    | some m =>
      rw [read] at judged
      refine ⟨judged, ?_⟩
      rw [processed, judged]
      dsimp only
      cases verdict : (h.validate m s).1 with
      | accept =>
        dsimp only
        rw [finish_of_find? found read]
        rfl
      | reject => rfl
      | ignore => rfl

end Router
end DecryptorNode.Network
