import DecryptorNode.Network.Message
import DecryptorNode.Store.Work

/-! Messages from other nodes, dispatched by topic to handlers. -/
namespace DecryptorNode.Network

/-- Invalid messages cost their sender; those that cannot be judged now do not. -/
inductive Verdict where
  | accept : Verdict
  | reject : Verdict
  | ignore : Verdict
  deriving DecidableEq, Repr

def Verdict.label : Verdict → String
  | .accept => "accept"
  | .reject => "reject"
  | .ignore => "ignore"

abbrev Handling := ExceptT NetworkError (StateM Store)

/-- A handler of the messages of one topic. -/
structure Handler (μ : Type) where
  topic : String
  decode? : Bytes → Option μ
  validate : μ → StateM Store Verdict
  handle : μ → Handling (List Outbound)

/-- A handler by its effect on payloads. -/
structure PayloadHandler where
  validate : Bytes → StateM Store Verdict
  handle : Bytes → Handling (List Outbound)

def Handler.onPayloads {μ : Type} (h : Handler μ) : PayloadHandler where
  validate payload :=
    match h.decode? payload with
    | some m => h.validate m
    | none => pure .reject
  handle payload :=
    match h.decode? payload with
    | some m => h.handle m
    | none => throw (.decode h.topic)

/-- At most one handler for each topic, by topic in order. -/
structure Router where
  handlers : List (String × PayloadHandler)

namespace Router

def empty : Router := ⟨[]⟩

def put (topic : String) (h : PayloadHandler) :
    List (String × PayloadHandler) → List (String × PayloadHandler)
  | [] => [(topic, h)]
  | (t, other) :: rest =>
    if topic = t then (topic, h) :: rest
    else if topic < t then (topic, h) :: (t, other) :: rest
    else (t, other) :: put topic h rest

def register {μ : Type} (r : Router) (h : Handler μ) : Router :=
  ⟨put h.topic h.onPayloads r.handlers⟩

def topics (r : Router) : List String := r.handlers.map (·.1)

def find? (r : Router) (topic : String) : Option PayloadHandler :=
  (r.handlers.find? fun entry => entry.1 = topic).map (·.2)

def judge (h : PayloadHandler) (topic : String) (payload : Bytes) : StateM Store Verdict := do
  let verdict ← h.validate payload
  modify fun s => { s with activity := .validated topic verdict.label :: s.activity }
  return verdict

/-- The verdict on a payload. Topics without a handler are ignored. -/
def validate (r : Router) (topic : String) (payload : Bytes) : StateM Store Verdict :=
  match r.find? topic with
  | none => pure .ignore
  | some h => judge h topic payload

def countHandled (topic : String) (handling : Handling (List Outbound)) :
    Handling (List Outbound) := fun s =>
  let (result, s) := handling s
  (result, { s with activity := .handled topic result.toBool :: s.activity })

/-- Validates a payload and handles it if it is accepted. -/
def process (r : Router) (topic : String) (payload : Bytes) :
    Handling (Verdict × List Outbound) := do
  match r.find? topic with
  | none => throw (.unknownTopic topic)
  | some h =>
    let verdict ← (judge h topic payload : StateM Store Verdict)
    if verdict = .accept then
      return (verdict, ← countHandled topic (h.handle payload))
    else return (verdict, [])

end Router
end DecryptorNode.Network
