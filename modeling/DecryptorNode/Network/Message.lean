import DecryptorNode.Network.Json.Text
import DecryptorNode.Chain.Address

/-! Messages that nodes exchange, each carried on one topic as JSON. -/
namespace DecryptorNode.Network

/-- The decryption key of one epoch of an eon. -/
structure DecryptionKey where
  instanceId : Nat
  eon : Int
  epochId : Bytes
  key : Bytes
  deriving DecidableEq, Repr

namespace DecryptionKey

def topic : String := "decryptionKey"

def fieldNames : List String := ["instanceID", "eon", "epochID", "key"]

def ofJson? (v : Json.Value) : Option DecryptionKey := do
  match ← v.record? fieldNames with
  | [instanceId, eon, epochId, key] =>
    let instanceId ← instanceId.natural? Chain.maxWord
    let eon ← eon.signed?
    let epochId ← epochId.hexBytes?
    return ⟨instanceId, eon, epochId, ← key.hexBytes?⟩
  | _ => none

def decode? (payload : Bytes) : Option DecryptionKey :=
  (Json.Value.parse? payload).bind ofJson?

/-- The written form, without spaces and in the order of the fields. -/
def text (m : DecryptionKey) : String :=
  "\x7b\"instanceID\":" ++ toString m.instanceId ++ ",\"eon\":" ++ toString m.eon ++
    ",\"epochID\":\"" ++ Hex.text m.epochId ++ "\",\"key\":\"" ++ Hex.text m.key ++ "\"\x7d"

def encode (m : DecryptionKey) : Bytes := Bytes.ofString m.text

end DecryptionKey

/-- A message ready to publish. -/
structure Outbound where
  topic : String
  payload : Bytes
  deriving DecidableEq

def DecryptionKey.outbound (m : DecryptionKey) : Outbound := ⟨topic, m.encode⟩

inductive NetworkError where
  | decode : String → NetworkError
  | unknownTopic : String → NetworkError
  | handler : String → NetworkError
  deriving DecidableEq, Repr

def NetworkError.message : NetworkError → String
  | .decode topic => "Failed to decode message on topic " ++ topic
  | .unknownTopic topic => "No handler registered for topic " ++ topic
  | .handler topic => "Handler for topic " ++ topic ++ " failed"

end DecryptorNode.Network
