import DecryptorNode.Network.Json.Token

/-! JSON values, read from tokens by a machine that keeps the open arrays and objects in a list, so
that nesting has no limit. -/
namespace DecryptorNode.Network.Json

/-- Names of members and texts keep their escapes. -/
inductive Value where
  | object : List (Bytes × Value) → Value
  | array : List Value → Value
  | text : Bytes → Value
  | integer : (negative : Bool) → Nat → Value
  | fraction : Value
  | literal : Literal → Value

/-- An array or an object that waits for the value inside it, with what it holds in reverse. -/
inductive Frame where
  | array : List Value → Frame
  | member : List (Bytes × Value) → Bytes → Frame

/-- What may follow, inside which open arrays and objects. -/
inductive State where
  | value : List Frame → State
  | arrayStart : List Frame → State
  | arrayNext : List Value → List Frame → State
  | objectStart : List Frame → State
  | memberName : List (Bytes × Value) → List Frame → State
  | colon : List (Bytes × Value) → Bytes → List Frame → State
  | objectNext : List (Bytes × Value) → List Frame → State
  | finished : Value → State

namespace State

def deliver (v : Value) : List Frame → State
  | [] => .finished v
  | .array before :: outer => .arrayNext (v :: before) outer
  | .member before name :: outer => .objectNext ((name, v) :: before) outer

def begin? (outer : List Frame) : Token → Option State
  | .openObject => some (.objectStart outer)
  | .openArray => some (.arrayStart outer)
  | .text t => some (deliver (.text t) outer)
  | .integer negative n => some (deliver (.integer negative n) outer)
  | .fraction => some (deliver .fraction outer)
  | .literal l => some (deliver (.literal l) outer)
  | _ => none

def step? : State → Token → Option State
  | .value outer, t => begin? outer t
  | .arrayStart outer, .closeArray => some (deliver (.array []) outer)
  | .arrayStart outer, t => begin? (.array [] :: outer) t
  | .arrayNext before outer, .comma => some (.value (.array before :: outer))
  | .arrayNext before outer, .closeArray => some (deliver (.array before.reverse) outer)
  | .objectStart outer, .closeObject => some (deliver (.object []) outer)
  | .objectStart outer, .text name => some (.colon [] name outer)
  | .memberName before outer, .text name => some (.colon before name outer)
  | .colon before name outer, .colon => some (.value (.member before name :: outer))
  | .objectNext before outer, .comma => some (.memberName before outer)
  | .objectNext before outer, .closeObject => some (deliver (.object before.reverse) outer)
  | _, _ => none

def value? : State → Option Value
  | .finished v => some v
  | _ => none

end State

def Value.ofTokens? (tokens : List Token) : Option Value :=
  (tokens.foldlM State.step? (.value [])).bind State.value?

def Value.parse? (payload : Bytes) : Option Value :=
  (tokens? payload).bind Value.ofTokens?

end DecryptorNode.Network.Json
