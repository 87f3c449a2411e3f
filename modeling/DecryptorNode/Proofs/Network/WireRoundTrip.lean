import DecryptorNode.Proofs.Network.Dispatch
import DecryptorNode.Proofs.Network.JsonTokens
import DecryptorNode.Proofs.Network.KeyConfinement

/-! A decryption key that is sent arrives as it was: the text it is written as is read back as the
same message, whatever its bytes, up to the limits of its two numbers. So to route the text is to
judge and handle the message. -/
namespace DecryptorNode.Network
open Bytes (ofChars ofString)
open Json (Lexes PlainText Token Value member)
open Telemetry (Activity)

namespace DecryptionKey

/-- The message can be sent: its numbers are ones of 64 bits, without sign and with sign. -/
structure Fits (m : DecryptionKey) : Prop where
  instanceId : m.instanceId ≤ Chain.maxWord
  least : -2 ^ 63 ≤ m.eon
  greatest : m.eon < 2 ^ 63

def tokens (m : DecryptionKey) : List Token :=
  [.openObject, .text (ofChars "instanceID".toList), .colon, .integer false m.instanceId, .comma,
    .text (ofChars "eon".toList), .colon, .integer (decide (m.eon < 0)) m.eon.natAbs, .comma,
    .text (ofChars "epochID".toList), .colon, .text (ofChars (Hex.encode m.epochId)), .comma,
    .text (ofChars "key".toList), .colon, .text (ofChars (Hex.encode m.key)), .closeObject]

def members (m : DecryptionKey) : List (List Char × Value) :=
  [("instanceID".toList, .integer false m.instanceId),
    ("eon".toList, .integer (decide (m.eon < 0)) m.eon.natAbs),
    ("epochID".toList, .text (ofChars (Hex.encode m.epochId))),
    ("key".toList, .text (ofChars (Hex.encode m.key)))]

def value (m : DecryptionKey) : Value := .object (m.members.map fun v => (ofChars v.1, v.2))

private theorem ofTokens?_tokens (m : DecryptionKey) :
    Value.ofTokens? m.tokens = some m.value := rfl

private theorem plain_hex (bytes : Bytes) : PlainText (Hex.encode bytes) :=
  Hex.forall_mem_encode (by decide) bytes

/-- The written form, with the numbers and texts apart from what stands between them. -/
private theorem encode_eq (m : DecryptionKey) : m.encode =
    0x7B :: member "instanceID" (Json.numeral m.instanceId ++
      0x2C :: member "eon" (ofString (toString m.eon) ++
        0x2C :: member "epochID" (0x22 :: (ofChars (Hex.encode m.epochId) ++
          0x22 :: 0x2C :: member "key" (0x22 :: (ofChars (Hex.encode m.key) ++
            [0x22, 0x7D])))))) := by
  have opening : ofString "\x7b\"instanceID\":" = 0x7B :: member "instanceID" [] := by
    rw [Bytes.ofString_eq_ofChars (by decide)]
    rfl
  have eon : ofString ",\"eon\":" = 0x2C :: member "eon" [] := by
    rw [Bytes.ofString_eq_ofChars (by decide)]
    rfl
  have epochId : ofString ",\"epochID\":\"" = 0x2C :: member "epochID" [0x22] := by
    rw [Bytes.ofString_eq_ofChars (by decide)]
    rfl
  have key : ofString "\",\"key\":\"" = 0x22 :: 0x2C :: member "key" [0x22] := by
    rw [Bytes.ofString_eq_ofChars (by decide)]
    rfl
  have closing : ofString "\"\x7d" = [0x22, 0x7D] := by
    rw [Bytes.ofString_eq_ofChars (by decide)]
    rfl
  change ofString (_ ++ toString m.instanceId ++ _ ++ toString m.eon ++ _ ++ Hex.text m.epochId ++
    _ ++ Hex.text m.key ++ _) = _
  simp only [Bytes.ofString_append, opening, eon, epochId, key, closing, Json.ofString_toString,
    Hex.ofString_text, List.append_assoc, List.cons_append, List.nil_append, Json.member_append]

private theorem lexes_encode (m : DecryptionKey) : Lexes m.encode m.tokens := by
  have comma {rest : Bytes} {tokens : List Token} (h : Lexes rest tokens) :
      Lexes (0x2C :: rest) (.comma :: tokens) := .mark rfl rfl h
  rw [encode_eq]
  refine .mark rfl rfl (.member (by decide) ?_)
  refine .natural (Json.endsNumber_comma _) m.instanceId (comma (.member (by decide) ?_))
  refine .integer (Json.endsNumber_comma _) m.eon (comma (.member (by decide) ?_))
  refine .text (plain_hex m.epochId) (comma (.member (by decide) ?_))
  exact .text (plain_hex m.key) (.mark rfl rfl .nil)

private theorem parse?_encode (m : DecryptionKey) : Value.parse? m.encode = some m.value := by
  rw [Value.parse?, (lexes_encode m).tokens?, Option.bind_some, ofTokens?_tokens]

/-- A signed number of 64 bits is read as itself. -/
theorem signed?_integer {i : Int} (least : -2 ^ 63 ≤ i) (greatest : i < 2 ^ 63) :
    (Value.integer (decide (i < 0)) i.natAbs).signed? = some i := by
  rcases Int.lt_or_le i 0 with negative | natural
  · have sized : 0 < i.natAbs ∧ i.natAbs ≤ 2 ^ 63 := by omega
    rw [decide_eq_true negative, Value.signed?, if_pos sized]
    exact congrArg some (by omega)
  · have sized : i.natAbs < 2 ^ 63 := by omega
    rw [decide_eq_false (by omega), Value.signed?, if_pos sized]
    exact congrArg some (by omega)

private theorem hexBytes?_hex (bytes : Bytes) :
    (Value.text (ofChars (Hex.encode bytes))).hexBytes? = some bytes := by
  rw [Value.hexBytes?, Value.characters?, Json.characters?_plain (plain_hex bytes),
    Option.bind_some, Hex.decode_encode]

private theorem record?_value (m : DecryptionKey) :
    m.value.record? fieldNames = some (m.members.map (·.2)) := by
  have plain : ∀ v ∈ m.members, PlainText v.1 := by
    simp only [members, List.forall_mem_cons]
    exact ⟨by decide, by decide, by decide, by decide, by simp⟩
  have named := Json.namedMembers?_ofChars plain
  have found : fieldNames.mapM (Value.only? m.members) = some (m.members.map (·.2)) := by
    simp [Value.only?, fieldNames, members]
  rw [value, Value.record?, named]
  exact found

/-- A message that can be sent is read back as it was. -/
theorem decode?_encode {m : DecryptionKey} (fits : m.Fits) : decode? m.encode = some m := by
  have instanceId : (Value.integer false m.instanceId).natural? Chain.maxWord = some m.instanceId :=
    if_pos fits.instanceId
  rw [decode?, parse?_encode, Option.bind_some, ofJson?, record?_value]
  simp only [members, List.map_cons, List.map_nil, Option.bind_eq_bind, Option.bind_some,
    instanceId, signed?_integer fits.least fits.greatest, hexBytes?_hex]
  rfl

private theorem ofChars_hex_injective {a b : Bytes}
    (same : ofChars (Hex.encode a) = ofChars (Hex.encode b)) : a = b := by
  have read := hexBytes?_hex a
  rw [same, hexBytes?_hex] at read
  exact (Option.some.inj read).symm

/-- No two messages are written alike, not even ones that cannot be sent. -/
theorem encode_injective : Function.Injective encode := by
  intro m m' same
  have scanned := (lexes_encode m).tokens?
  rw [same, (lexes_encode m').tokens?] at scanned
  simp only [tokens, Option.some.injEq, List.cons.injEq, Token.text.injEq, Token.integer.injEq,
    decide_eq_decide, true_and, and_true] at scanned
  obtain ⟨instanceId, ⟨sign, size⟩, epochId, key⟩ := scanned
  have eon : m.eon = m'.eon := by omega
  obtain ⟨_, _, _, _⟩ := m
  obtain ⟨_, _, _, _⟩ := m'
  exact DecryptionKey.mk.injEq .. ▸ ⟨instanceId.symm, eon, (ofChars_hex_injective epochId).symm,
    (ofChars_hex_injective key).symm⟩

end DecryptionKey

/-- A message that is judged and, if it is accepted, handled without being sent. -/
def KeyHandler.receive (instanceId : Nat) (m : DecryptionKey) (s : Store) :
    Except NetworkError (Verdict × List Outbound) × Store :=
  match validate instanceId m s with
  | (.accept, s) => ((handle m s).1.map (.accept, ·), (handle m s).2)
  | (verdict, s) => (.ok (verdict, []), s)

/-- Handling does not depend on what was counted before. -/
private theorem KeyHandler.handle_counting (m : DecryptionKey) (a : Activity) (s : Store) :
    (handle m (Router.counting a s)).1 = (handle m s).1 ∧
      (handle m (Router.counting a s)).2.database = (handle m s).2.database := by
  rw [Store.OnKeys.eq (onKeys_handle m) s, Store.OnKeys.eq (onKeys_handle m)]
  exact ⟨rfl, rfl⟩

section Routing
variable {m : DecryptionKey} (instanceId : Nat) (s : Store)

/-- A payload that decodes is judged and handled as its message is. Only what is counted differs. -/
private theorem process_of_decode? {payload : Bytes}
    (read : DecryptionKey.decode? payload = some m) :
    let routed := (nodeRouter instanceId).process DecryptionKey.topic payload s
    ((nodeRouter instanceId).validate DecryptionKey.topic payload s).1 =
        (KeyHandler.validate instanceId m s).1 ∧
      routed.1 = (KeyHandler.receive instanceId m s).1 ∧
      routed.2.database = (KeyHandler.receive instanceId m s).2.database := by
  have found : (nodeRouter instanceId).find? DecryptionKey.topic =
      some (keyHandler instanceId).onPayloads := by
    rw [find?_nodeRouter, if_pos rfl]
  have taken : (keyHandler instanceId).decode? payload = some m := read
  have judged : (nodeRouter instanceId).validate DecryptionKey.topic payload s =
      ((KeyHandler.validate instanceId m s).1, Router.counting
        (.validated DecryptionKey.topic (KeyHandler.validate instanceId m s).1.label)
        (KeyHandler.validate instanceId m s).2) := by
    rw [Router.validate_of_find? found, taken]
    rfl
  dsimp only
  rw [Router.process_of_find? found, judged, KeyHandler.receive]
  refine ⟨rfl, ?_⟩
  rcases KeyHandler.validate instanceId m s with ⟨verdict, s'⟩
  cases verdict with
  | reject => exact ⟨rfl, rfl⟩
  | ignore => exact ⟨rfl, rfl⟩
  | accept =>
    dsimp only
    rw [Router.finish_of_find? found taken]
    obtain ⟨result, database⟩ :=
      KeyHandler.handle_counting m (.validated DecryptionKey.topic Verdict.accept.label) s'
    exact ⟨congrArg _ result, database⟩

end Routing

/-- Whatever message is sent arrives as it is, and no other message is sent as the same bytes. A
node judges the bytes as it judges the message, and ends up with the same database. -/
theorem wire_round_trip {m : DecryptionKey} (fits : m.Fits) :
    DecryptionKey.decode? m.encode = some m ∧
    (∀ m' : DecryptionKey, m'.encode = m.encode → m' = m) ∧
    ∀ (instanceId : Nat) (s : Store),
      let routed := (nodeRouter instanceId).process DecryptionKey.topic m.encode s
      ((nodeRouter instanceId).validate DecryptionKey.topic m.encode s).1 =
          (KeyHandler.validate instanceId m s).1 ∧
        routed.1 = (KeyHandler.receive instanceId m s).1 ∧
        routed.2.database = (KeyHandler.receive instanceId m s).2.database :=
  ⟨DecryptionKey.decode?_encode fits, fun _ same => DecryptionKey.encode_injective same,
    fun instanceId s => process_of_decode? instanceId s (DecryptionKey.decode?_encode fits)⟩

def outermost : DecryptionKey := ⟨Chain.maxWord, -2 ^ 63, [0x00, 0xFF], []⟩

theorem wire_round_trip_outermost :
    outermost.Fits ∧ DecryptionKey.decode? outermost.encode = some outermost := by
  have fits : outermost.Fits := ⟨by decide, by decide, by decide⟩
  exact ⟨fits, (wire_round_trip fits).1⟩

end DecryptorNode.Network
