import DecryptorNode.Bytes.Hex

/-! The two number codes of byte strings and their hexadecimal text lose nothing: reading gives back
what was written. -/
namespace DecryptorNode

/-- Steps that can fail succeed together if each does. -/
theorem bind_eq_ok {ε α β : Type} {x : Except ε α} {f : α → Except ε β} {b : β} :
    (x >>= f) = .ok b ↔ ∃ a, x = .ok a ∧ f a = .ok b := by
  cases x with
  | error e => exact ⟨fun h => (by cases h), fun ⟨a, h, _⟩ => by cases h⟩
  | ok a => exact ⟨fun h => ⟨a, rfl, h⟩, fun ⟨_, same, h⟩ => by cases same; exact h⟩

namespace Bytes

/-- A number comes back as far as its digits fit. -/
theorem toNatLE_ofNatLE (width n : Nat) : toNatLE (ofNatLE width n) = n % 256 ^ width := by
  induction width generalizing n with
  | zero => exact (Nat.mod_one n).symm
  | succ w ih =>
    have low : (UInt8.ofNat (n % 256)).toNat = n % 256 :=
      UInt8.toNat_ofNat_of_lt' (Nat.mod_lt n (by decide))
    rw [ofNatLE, toNatLE, ih, low, Nat.pow_succ, Nat.mul_comm (256 ^ w), Nat.mod_mul]

private theorem ofNatLE_toNatLE (bytes : Bytes) : ofNatLE bytes.length (toNatLE bytes) = bytes := by
  induction bytes with
  | nil => rfl
  | cons b rest ih =>
    have small : b.toNat < 256 := b.toNat_lt
    have low : (b.toNat + 256 * toNatLE rest) % 256 = b.toNat := by omega
    have high : (b.toNat + 256 * toNatLE rest) / 256 = toNatLE rest := by omega
    rw [List.length_cons, toNatLE, ofNatLE, low, high, ih, UInt8.ofNat_toNat]

/-- The written form of a number is the one string of its width that reads as the number. -/
theorem eq_ofNatLE_iff {bytes : Bytes} {width n : Nat} (fits : n < 256 ^ width) :
    bytes = ofNatLE width n ↔ bytes.length = width ∧ toNatLE bytes = n := by
  constructor
  · rintro rfl
    exact ⟨length_ofNatLE width n, by rw [toNatLE_ofNatLE, Nat.mod_eq_of_lt fits]⟩
  · rintro ⟨rfl, rfl⟩
    exact (ofNatLE_toNatLE bytes).symm

private theorem toNat_reverse (bytes : Bytes) : toNat bytes.reverse = toNatLE bytes := by
  induction bytes with
  | nil => rfl
  | cons b rest ih =>
    rw [toNatLE, ← ih, toNat, toNat, List.reverse_cons, List.foldl_append]
    change _ * 256 + b.toNat = _
    omega

theorem toNat_ofNat (width n : Nat) : toNat (ofNat width n) = n % 256 ^ width := by
  rw [ofNat, toNat_reverse, toNatLE_ofNatLE]

end Bytes

namespace Hex

theorem value?_digit : ∀ n < 16, value? (digit n) = some n := by decide

/-- Capital digits have the same value. -/
theorem value?_toUpper_digit : ∀ n < 16, value? (digit n).toUpper = some n := by decide

@[simp] theorem length_encode (bytes : Bytes) : (encode bytes).length = 2 * bytes.length := by
  induction bytes with
  | nil => rfl
  | cons b rest ih =>
    simp only [encode, List.length_cons, ih]
    omega

/-- Two digits of the right values read as the byte that they were written for. -/
theorem decode_cons {high low : Char} {b : UInt8} {rest : List Char} {bytes : Bytes}
    (h : value? high = some (b.toNat / 16)) (l : value? low = some (b.toNat % 16))
    (others : decode rest = some bytes) : decode (high :: low :: rest) = some (b :: bytes) := by
  have whole : 16 * (b.toNat / 16) + b.toNat % 16 = b.toNat := Nat.div_add_mod _ _
  simp only [decode, h, l, others, Option.bind_eq_bind, Option.bind_some, whole, UInt8.ofNat_toNat]
  rfl

theorem high_lt (b : UInt8) : b.toNat / 16 < 16 := by
  have small : b.toNat < 256 := b.toNat_lt
  omega

theorem low_lt (b : UInt8) : b.toNat % 16 < 16 := Nat.mod_lt _ (by decide)

@[simp] theorem decode_encode (bytes : Bytes) : decode (encode bytes) = some bytes := by
  induction bytes with
  | nil => rfl
  | cons b rest ih =>
    exact decode_cons (value?_digit _ (high_lt b)) (value?_digit _ (low_lt b)) ih

theorem text_injective {a b : Bytes} (h : text a = text b) : a = b := by
  have same : encode a = encode b := String.ofList_injective h
  have read := decode_encode a
  rw [same, decode_encode] at read
  exact (Option.some.inj read).symm

end Hex
end DecryptorNode
