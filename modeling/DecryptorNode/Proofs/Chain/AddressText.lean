import DecryptorNode.Chain.Address
import DecryptorNode.Proofs.Bytes.HexReading

/-! The written form of an address reads back as the address, capitals or not, so no two addresses
have one text. What reads as an address at all is forty digits with or without a marker. -/
namespace DecryptorNode

private theorem Keccak.length_digest (message : Bytes) : (Keccak.digest message).length = 32 := by
  unfold Keccak.digest
  dsimp only
  simp only [List.length_flatMap, Bytes.length_ofNatLE, List.map_const', List.sum_replicate_nat,
    List.length_take, Vector.length_toList]
  rfl

namespace Chain.Address

/-- The case of digits is no part of what they say. -/
theorem decode_raise (bytes : Bytes) (mask : List Char) (long : 2 * bytes.length ≤ mask.length) :
    Hex.decode (raise (Hex.encode bytes) mask) = some bytes := by
  induction bytes generalizing mask with
  | nil => rfl
  | cons b rest ih =>
    have raised (n : Nat) (h : n < 16) (c : Char) :
        Hex.value? (if '8' ≤ c then (Hex.digit n).toUpper else Hex.digit n) = some n := by
      split
      · exact Hex.value?_toUpper_digit n h
      · exact Hex.value?_digit n h
    match mask, long with
    | m :: m' :: others, long =>
      refine Hex.decode_cons (raised _ (Hex.high_lt b) m) (raised _ (Hex.low_lt b) m') ?_
      refine ih others ?_
      simp only [List.length_cons] at long
      omega

private theorem ofBytes?_bytes (a : Address) : ofBytes? a.bytes = some a := by
  have bound : a.number.val < 256 ^ 20 := a.number.isLt
  have size : a.bytes.length = 20 := Bytes.length_ofNat _ _
  rw [ofBytes?, if_pos size, bytes, Bytes.toNat_ofNat, Nat.mod_eq_of_lt bound]
  exact congrArg some (congrArg mk (Fin.ofNat_val_eq_self a.number))

theorem toList_text (a : Address) : a.text.toList = '0' :: 'x' :: a.checksummed := by
  simp [text]

/-- The written form reads back. -/
theorem parse?_text (a : Address) : parse? a.text = some a := by
  have long : 2 * a.bytes.length ≤
      (Hex.encode (Keccak.digest (Bytes.ofString (String.ofList a.digits)))).length := by
    rw [Hex.length_encode, Keccak.length_digest, bytes, Bytes.length_ofNat]
    decide
  unfold parse?
  simp only [toList_text]
  change (Hex.decode a.checksummed).bind ofBytes? = some a
  rw [checksummed, digits, decode_raise _ _ (by exact long), Option.bind_some, ofBytes?_bytes]

/-- The property of the written form that its marker has, and each digit in both cases. -/
theorem forall_mem_text {p : Char → Prop} (marker : p '0' ∧ p 'x')
    (digits : ∀ n < 16, p (Hex.digit n) ∧ p (Hex.digit n).toUpper) (a : Address) :
    ∀ c ∈ a.text.toList, p c := by
  rw [toList_text, List.forall_mem_cons, List.forall_mem_cons]
  refine ⟨marker.1, marker.2, fun c mem => ?_⟩
  obtain ⟨i, inside, rfl⟩ := List.getElem_of_mem mem
  obtain ⟨plain, raised⟩ := Hex.forall_mem_encode (p := fun c => p c ∧ p c.toUpper) digits a.bytes _
    (List.getElem_mem (l := a.digits) (n := i) (by
      simp only [checksummed, raise, List.length_zipWith] at inside
      omega))
  simp only [checksummed, raise, List.getElem_zipWith]
  split
  · exact raised
  · exact plain

theorem text_injective {a b : Address} (h : a.text = b.text) : a = b := by
  have read := parse?_text a
  rw [h, parse?_text] at read
  exact (Option.some.inj read).symm

/-- Forty hexadecimal digits, after a marker or without one. -/
def WellFormed (text : String) : Prop := ∃ digits : List Char,
  digits.length = 40 ∧ (∀ c ∈ digits, Hex.IsDigit c) ∧
  (text.toList = digits ∨ text.toList = '0' :: 'x' :: digits ∨ text.toList = '0' :: 'X' :: digits)

def unmarked (chars : List Char) : List Char :=
  match chars with
  | '0' :: 'x' :: rest => rest
  | '0' :: 'X' :: rest => rest
  | other => other

private theorem eq_unmarked_or (chars : List Char) : chars = unmarked chars ∨
    chars = '0' :: 'x' :: unmarked chars ∨ chars = '0' :: 'X' :: unmarked chars := by
  fun_cases unmarked chars with
  | case1 rest => exact .inr (.inl rfl)
  | case2 rest => exact .inr (.inr rfl)
  | case3 => exact .inl rfl

private theorem exists_ofBytes? {digits : List Char} :
    (∃ a, (Hex.decode digits).bind ofBytes? = some a) ↔
      digits.length = 40 ∧ ∀ c ∈ digits, Hex.IsDigit c := by
  rw [← Hex.exists_decode (n := 20)]
  constructor
  · rintro ⟨a, read⟩
    obtain ⟨bytes, decoded, spelled⟩ := Option.bind_eq_some_iff.mp read
    exact ⟨bytes, decoded, (Option.ite_none_right_eq_some.mp spelled).1⟩
  · rintro ⟨bytes, decoded, size⟩
    exact ⟨_, Option.bind_eq_some_iff.mpr ⟨bytes, decoded, if_pos size⟩⟩

/-- What reads as an address. -/
theorem exists_parse? {text : String} : (∃ a, parse? text = some a) ↔ WellFormed text := by
  change (∃ a, (Hex.decode (unmarked text.toList)).bind ofBytes? = some a) ↔ _
  rw [exists_ofBytes?]
  constructor
  · rintro ⟨size, digits⟩
    exact ⟨_, size, digits, eq_unmarked_or _⟩
  · rintro ⟨digits, size, hexadecimal, written | written | written⟩
    · have bare : unmarked digits = digits := by
        fun_cases unmarked digits with
        | case1 rest => exact absurd (hexadecimal 'x' (by simp)) (by decide)
        | case2 rest => exact absurd (hexadecimal 'X' (by simp)) (by decide)
        | case3 => rfl
      rw [written, bare]
      exact ⟨size, hexadecimal⟩
    · rw [written]
      exact ⟨size, hexadecimal⟩
    · rw [written]
      exact ⟨size, hexadecimal⟩

end Chain.Address
end DecryptorNode
