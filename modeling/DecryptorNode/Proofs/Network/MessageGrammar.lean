import DecryptorNode.Proofs.Network.JsonReading
import DecryptorNode.Proofs.Network.JsonRecords
import DecryptorNode.Proofs.Network.WireRoundTrip
import Mathlib.Logic.Relation

/-! The payloads that are decryption keys. A payload is decoded exactly if it spells one JSON value
that holds the fields of a message, and then as that message. What peers may write differently makes
no difference, and whatever else is written is refused. -/
namespace DecryptorNode.Network
open Json (Blank Denotes Recased Record Spelled Stands Value Variant)

section Fields
variable {v : Value}

private theorem natural?_eq_some {limit n : Nat} :
    v.natural? limit = some n ↔ v = .integer false n ∧ n ≤ limit := by
  constructor
  · intro h
    unfold Value.natural? at h
    split at h
    · obtain ⟨fits, same⟩ := Option.ite_none_right_eq_some.mp h
      cases same
      exact ⟨rfl, fits⟩
    · cases h
  · rintro ⟨rfl, fits⟩
    exact if_pos fits

/-- Zero with a sign is no integer. -/
private theorem signed?_eq_some {i : Int} : v.signed? = some i ↔
    v = .integer (decide (i < 0)) i.natAbs ∧ -2 ^ 63 ≤ i ∧ i < 2 ^ 63 := by
  constructor
  · intro h
    unfold Value.signed? at h
    split at h
    · rename_i n
      obtain ⟨fits, same⟩ := Option.ite_none_right_eq_some.mp h
      cases same
      have natural : ¬ (n : Int) < 0 := by omega
      refine ⟨by rw [decide_eq_false natural, Int.natAbs_natCast], by omega, by omega⟩
    · rename_i n
      obtain ⟨fits, same⟩ := Option.ite_none_right_eq_some.mp h
      cases same
      have negative : -(n : Int) < 0 := by omega
      refine ⟨by rw [decide_eq_true negative, Int.natAbs_neg, Int.natAbs_natCast], by omega,
        by omega⟩
    · cases h
  · rintro ⟨rfl, least, greatest⟩
    exact DecryptionKey.signed?_integer least greatest

def SpellsHex (raw bytes : Bytes) : Prop :=
  ∃ chars, Denotes raw chars ∧ chars.map Char.toLower = Hex.encode bytes

private theorem hexBytes?_eq_some {bytes : Bytes} :
    v.hexBytes? = some bytes ↔ ∃ raw, v = .text raw ∧ SpellsHex raw bytes := by
  rw [Value.hexBytes?, Option.bind_eq_some_iff]
  constructor
  · rintro ⟨chars, read, decoded⟩
    cases v with
    | text raw =>
      exact ⟨raw, rfl, chars, Json.characters?_eq_some.mp read, Hex.decode_eq_some.mp decoded⟩
    | _ => cases read
  · rintro ⟨raw, rfl, chars, denotes, spelled⟩
    exact ⟨chars, Json.characters?_eq_some.mpr denotes, Hex.decode_eq_some.mpr spelled⟩

private theorem SpellsHex.recased {raw bytes : Bytes} (h : SpellsHex raw bytes)
    (recased : Recased (.text raw) v) : ∃ raw', v = .text raw' ∧ SpellsHex raw' bytes := by
  cases recased with
  | refl => exact ⟨raw, rfl, h⟩
  | text denotes denotes' same =>
    obtain ⟨chars, denoted, spelled⟩ := h
    cases denoted.unique denotes
    exact ⟨_, rfl, _, denotes', same.symm.trans spelled⟩

/-- No number for an instance: it has a sign, a fraction, an exponent or quotes, or is too large. -/
inductive NoWord : Value → Prop
  | float : NoWord .fraction
  | quoted (raw : Bytes) : NoWord (.text raw)
  | negative (n : Nat) : NoWord (.integer true n)
  | large {n : Nat} (beyond : Chain.maxWord < n) : NoWord (.integer false n)

/-- No number for an eon. -/
inductive NoSigned : Value → Prop
  | float : NoSigned .fraction
  | quoted (raw : Bytes) : NoSigned (.text raw)
  | minusZero : NoSigned (.integer true 0)
  | above {n : Nat} (beyond : 2 ^ 63 ≤ n) : NoSigned (.integer false n)
  | below {n : Nat} (beyond : 2 ^ 63 < n) : NoSigned (.integer true n)

/-- No bytes: an odd number of digits, something that is no digit, or no text. -/
inductive NoHex : Value → Prop
  | float : NoHex .fraction
  | integer (negative : Bool) (n : Nat) : NoHex (.integer negative n)
  | odd {raw : Bytes} {chars : List Char} (denotes : Denotes raw chars)
      (odd : chars.length % 2 = 1) : NoHex (.text raw)
  | foreign {raw : Bytes} {chars : List Char} {c : Char} (denotes : Denotes raw chars)
      (mem : c ∈ chars) (foreign : ∀ n < 16, c.toLower ≠ Hex.digit n) : NoHex (.text raw)

private theorem not_noWord {n : Nat} (fits : n ≤ Chain.maxWord) : ¬ NoWord (.integer false n) := by
  rintro (_ | _ | _ | beyond)
  exact absurd fits (Nat.not_le.mpr beyond)

private theorem not_noSigned {i : Int} (least : -2 ^ 63 ≤ i) (greatest : i < 2 ^ 63) :
    ¬ NoSigned (.integer (decide (i < 0)) i.natAbs) := by
  intro flawed
  -- The sign is computed, so the cases of the value are told apart by equations.
  generalize written : Value.integer (decide (i < 0)) i.natAbs = v at flawed
  cases flawed with
  | float | quoted => cases written
  | minusZero =>
    obtain ⟨negative, size⟩ := Value.integer.inj written
    have := of_decide_eq_true negative
    omega
  | above beyond =>
    obtain ⟨natural, size⟩ := Value.integer.inj written
    have := of_decide_eq_false natural
    omega
  | below beyond =>
    obtain ⟨negative, size⟩ := Value.integer.inj written
    have := of_decide_eq_true negative
    omega

private theorem SpellsHex.not_noHex {raw bytes : Bytes} (h : SpellsHex raw bytes) :
    ¬ NoHex (.text raw) := by
  obtain ⟨chars, denoted, spelled⟩ := h
  intro flawed
  cases flawed with
  | odd denotes odd =>
    cases denoted.unique denotes
    have length := congrArg List.length spelled
    rw [List.length_map, Hex.length_encode] at length
    omega
  | foreign denotes mem foreign =>
    cases denoted.unique denotes
    have digits : ∀ d ∈ Hex.encode bytes, ∃ n < 16, d = Hex.digit n :=
      Hex.forall_mem_encode (fun n small => ⟨n, small, rfl⟩) bytes
    obtain ⟨n, small, same⟩ := digits _ (spelled ▸ List.mem_map_of_mem mem)
    exact foreign n small same

end Fields

namespace DecryptionKey

/-- The value holds the fields of the message. -/
inductive Carries (m : DecryptionKey) (v : Value) : Prop
  | intro {epochId key : Bytes} (fits : m.Fits) (epoch : SpellsHex epochId m.epochId)
      (secret : SpellsHex key m.key)
      (record : Record fieldNames v [.integer false m.instanceId,
        .integer (decide (m.eon < 0)) m.eon.natAbs, .text epochId, .text key])

/-- The value holds no message: not each field once, or one with a value that it cannot have. -/
inductive Flawed : Value → Prop
  | length {values : List Value} (other : values.length ≠ fieldNames.length) :
      Flawed (.array values)
  | miscounted {members : List (Bytes × Value)} {name : String} (known : name ∈ fieldNames)
      (other : (Json.called name members).length ≠ 1) : Flawed (.object members)
  | word {whole v : Value} (stands : Stands fieldNames "instanceID" v whole) (misfit : NoWord v) :
      Flawed whole
  | signed {whole v : Value} (stands : Stands fieldNames "eon" v whole) (misfit : NoSigned v) :
      Flawed whole
  | hex {whole v : Value} {name : String} (bytes : name = "epochID" ∨ name = "key")
      (stands : Stands fieldNames name v whole) (misfit : NoHex v) : Flawed whole

section Values
variable {m : DecryptionKey} {v v' : Value}

private theorem ofJson?_eq_some : ofJson? v = some m ↔ Carries m v := by
  constructor
  · intro h
    obtain ⟨values, record, h⟩ := Option.bind_eq_some_iff.mp h
    split at h
    · obtain ⟨instanceId, first, eon, second, epochId, third, key, fourth, same⟩ := by
        simpa only [Option.bind_eq_bind, Option.bind_eq_some_iff] using h
      cases same
      obtain ⟨rfl, small⟩ := natural?_eq_some.mp first
      obtain ⟨rfl, least, greatest⟩ := signed?_eq_some.mp second
      obtain ⟨_, rfl, epoch⟩ := hexBytes?_eq_some.mp third
      obtain ⟨_, rfl, secret⟩ := hexBytes?_eq_some.mp fourth
      exact ⟨⟨small, least, greatest⟩, epoch, secret, Json.record?_eq_some.mp record⟩
    · cases h
  · rintro ⟨fits, epoch, secret, record⟩
    have first := natural?_eq_some.mpr ⟨rfl, fits.instanceId⟩
    have second := signed?_eq_some.mpr ⟨rfl, fits.least, fits.greatest⟩
    have third := hexBytes?_eq_some.mpr ⟨_, rfl, epoch⟩
    have fourth := hexBytes?_eq_some.mpr ⟨_, rfl, secret⟩
    rw [ofJson?, Json.record?_eq_some.mpr record]
    simp only [Option.bind_eq_bind, Option.bind_some, first, second, third, fourth]
    rfl

private theorem Carries.of_recased (h : Carries m v) (kept : ∀ values, Record fieldNames v values →
    ∃ values', Record fieldNames v' values' ∧ List.Forall₂ Recased values values') :
    Carries m v' := by
  obtain ⟨fits, epoch, secret, record⟩ := h
  obtain ⟨_, record', recased⟩ := kept _ record
  -- Numbers are not touched, and the texts spell the same bytes.
  obtain _ | ⟨first, _ | ⟨second, _ | ⟨third, _ | ⟨fourth, _ | _⟩⟩⟩⟩ := recased
  cases first
  cases second
  obtain ⟨epochId, rfl, epoch⟩ := epoch.recased third
  obtain ⟨key, rfl, secret⟩ := secret.recased fourth
  exact ⟨fits, epoch, secret, record'⟩

private theorem carries_iff_of_variant (h : Variant fieldNames v v') : Carries m v ↔ Carries m v' :=
  ⟨fun carries => carries.of_recased fun _ => h.record,
    fun carries => carries.of_recased fun _ => h.record_of_record⟩

private theorem Carries.not_flawed (h : Carries m v) : ¬ Flawed v := by
  obtain @⟨epochId, key, fits, epoch, secret, record⟩ := h
  intro flawed
  cases flawed with
  | length other =>
    cases record
    exact other rfl
  | miscounted known other =>
    cases record with
    | object _ fields =>
      obtain ⟨w, -, raw, alone⟩ := Json.exists_once fields known
      exact other (congrArg List.length alone)
  | word stands misfit =>
    have place := record.mem_zip stands
    obtain rfl : _ = Value.integer false m.instanceId := by simpa [fieldNames] using place
    exact not_noWord fits.instanceId misfit
  | signed stands misfit =>
    have place := record.mem_zip stands
    obtain rfl : _ = Value.integer (decide (m.eon < 0)) m.eon.natAbs := by
      simpa [fieldNames] using place
    exact not_noSigned fits.least fits.greatest misfit
  | hex bytes stands misfit =>
    have place := record.mem_zip stands
    rcases bytes with rfl | rfl
    · obtain rfl : _ = Value.text epochId := by simpa [fieldNames] using place
      exact epoch.not_noHex misfit
    · obtain rfl : _ = Value.text key := by simpa [fieldNames] using place
      exact secret.not_noHex misfit

end Values

section Payloads
variable {m : DecryptionKey} {v v' : Value} {payload payload' : Bytes}

private theorem decode?_of_spelled (h : Spelled v.tokens payload) :
    decode? payload = ofJson? v := by
  rw [decode?, Value.parse?_eq_some.mpr h, Option.bind_some]

private theorem decode?_eq_some :
    decode? payload = some m ↔ ∃ v, Spelled v.tokens payload ∧ Carries m v := by
  simp only [decode?, Option.bind_eq_some_iff, Value.parse?_eq_some, ofJson?_eq_some]

private theorem decode?_blanks {before after : Bytes} (blank : Blank before)
    (blank' : Blank after) : decode? (before ++ (payload ++ after)) = decode? payload := by
  refine Option.ext fun m => ?_
  simp only [decode?_eq_some, Spelled.blank_left blank, Spelled.blank_right blank']

/-- Changes that keep the record, one after the other, keep the message or the refusal. -/
private theorem ofJson?_congr (h : Relation.EqvGen (Variant fieldNames) v v') :
    ofJson? v = ofJson? v' := by
  induction h with
  | rel v v' changed =>
    refine Option.ext fun m => ?_
    rw [ofJson?_eq_some, ofJson?_eq_some, carries_iff_of_variant changed]
  | refl v => rfl
  | symm v v' _ ih => exact ih.symm
  | trans u v w _ _ ih ih' => exact ih.trans ih'

private theorem ofJson?_of_flawed (h : Flawed v) : ofJson? v = none :=
  Option.eq_none_iff_forall_ne_some.mpr fun _ read => (ofJson?_eq_some.mp read).not_flawed h

end Payloads

/-- A payload is decoded as a message exactly if it spells one JSON value, with any nesting, that
holds the fields of the message. Blanks around it, the order of members, members of other names and
the case of hexadecimal text make no difference, and a payload of which a field is missing, repeated
or of a value that it cannot have is refused. -/
theorem acceptance_grammar :
    (∀ payload m, decode? payload = some m ↔ ∃ v, Spelled v.tokens payload ∧ Carries m v) ∧
    (∀ payload before after, Blank before → Blank after →
      decode? (before ++ (payload ++ after)) = decode? payload) ∧
    (∀ payload payload' v v', Spelled v.tokens payload → Spelled v'.tokens payload' →
      Relation.EqvGen (Variant fieldNames) v v' → decode? payload = decode? payload') ∧
    ∀ payload v, Spelled v.tokens payload → Flawed v → decode? payload = none := by
  refine ⟨fun _ _ => decode?_eq_some, fun _ _ _ => decode?_blanks, ?_, ?_⟩
  · intro payload payload' v v' spelled spelled' same
    rw [decode?_of_spelled spelled, decode?_of_spelled spelled', ofJson?_congr same]
  · intro payload v spelled flawed
    rw [decode?_of_spelled spelled, ofJson?_of_flawed flawed]

example :
    let payload := "\x7b\"key\":\"fF\", \"other\":[[1e9]], \"\\u0065on\":-1, " ++
      "\"instanceID\":7, \"epochID\":\"\"\x7d"
    decode? (Bytes.ofString payload) = some ⟨7, -1, [], [0xFF]⟩ := by
  decide +kernel

end DecryptionKey
end DecryptorNode.Network
