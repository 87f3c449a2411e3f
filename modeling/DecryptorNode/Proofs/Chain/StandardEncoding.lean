import DecryptorNode.Chain.Abi
import DecryptorNode.Proofs.Bytes.Encodings

/-! Values in the contract data encoding read back as they were written, wherever they stand and
whatever follows them. A word is found again among any bytes; byte strings and lists are found by
the place in the head, so their rules are stated for every place the head can give. -/
namespace DecryptorNode.Chain.Abi
variable {data : Bytes} {place : Nat}

@[simp] theorem length_encodeNumber (n : Nat) : (encodeNumber n).length = wordBytes :=
  Bytes.length_ofNat wordBytes n

@[simp] theorem length_encodeAddress (a : Address) : (encodeAddress a).length = wordBytes :=
  length_encodeNumber a.number.val

private theorem length_flatMap_encodeAddress (addresses : List Address) :
    (addresses.flatMap encodeAddress).length = wordBytes * addresses.length := by
  induction addresses with
  | nil => rfl
  | cons a rest ih =>
    rw [List.flatMap_cons, List.length_append, ih, length_encodeAddress, List.length_cons,
      Nat.mul_succ, Nat.add_comm]

private theorem sliceAt?_append (before slice after : Bytes) :
    sliceAt? (before ++ (slice ++ after)) before.length slice.length = some slice := by
  have room : before.length + slice.length ≤ (before ++ (slice ++ after)).length := by
    simp only [List.length_append]
    omega
  rw [sliceAt?, if_pos room, List.drop_left, List.take_left]

private theorem sliceAt?_of_short {length : Nat} (short : data.length < place + length) :
    sliceAt? data place length = none :=
  if_neg (by omega)

section Words

variable (before after : Bytes)

private theorem wordAt?_encodeNumber {n : Nat} (standing : before.length = place)
    (fits : n < 2 ^ 256) : wordAt? (before ++ (encodeNumber n ++ after)) place = some n := by
  have slice := sliceAt?_append before (encodeNumber n) after
  rw [length_encodeNumber, standing] at slice
  rw [wordAt?, slice, Option.map_some, encodeNumber, Bytes.toNat_ofNat]
  exact congrArg some (Nat.mod_eq_of_lt fits)

private theorem wordAt?_of_short (short : data.length < place + wordBytes) :
    wordAt? data place = none := by
  rw [wordAt?, sliceAt?_of_short short]
  rfl

theorem numberAt?_encodeNumber {n : Nat} (standing : before.length = place) (fits : n ≤ maxWord) :
    numberAt? (before ++ (encodeNumber n ++ after)) place = some n := by
  have small : n < 2 ^ 64 := Nat.lt_of_le_pred (by decide) fits
  rw [numberAt?, wordAt?_encodeNumber _ _ standing (by omega), Option.map_some,
    Nat.mod_eq_of_lt small]

theorem numberAt?_of_short (short : data.length < place + wordBytes) :
    numberAt? data place = none := by
  rw [numberAt?, wordAt?_of_short short]
  rfl

theorem addressAt?_encodeAddress (a : Address) (standing : before.length = place) :
    addressAt? (before ++ (encodeAddress a ++ after)) place = some a := by
  have small : a.number.val < 2 ^ 256 := Nat.lt_trans a.number.isLt (by decide)
  rw [addressAt?, encodeAddress, wordAt?_encodeNumber _ _ standing small]
  exact congrArg (some ∘ Address.mk) (Fin.ofNat_val_eq_self a.number)

theorem sizeAt?_encodeNumber {n : Nat} (standing : before.length = place) (fits : n ≤ maxWord) :
    sizeAt? (before ++ (encodeNumber n ++ after)) place = some n := by
  have small : n < 2 ^ 64 := Nat.lt_of_le_pred (by decide) fits
  rw [sizeAt?, wordAt?_encodeNumber _ _ standing (by omega)]
  exact Option.filter_some_pos (decide_eq_true fits)

private theorem sizeAt?_of_short (short : data.length < place + wordBytes) :
    sizeAt? data place = none := by
  rw [sizeAt?, wordAt?_of_short short]
  rfl

end Words

/-- A byte string is found where the head says, past its length and before its padding. -/
theorem bytesAt?_encodeBytes {before after bytes : Bytes} {head : Nat}
    (pointed : sizeAt? (before ++ (encodeBytes bytes ++ after)) head = some before.length)
    (fits : bytes.length ≤ maxWord) :
    bytesAt? (before ++ (encodeBytes bytes ++ after)) head = some bytes := by
  have parts : before ++ (encodeBytes bytes ++ after) =
      before ++ (encodeNumber bytes.length ++ (bytes ++ (padding bytes.length ++ after))) := by
    simp only [encodeBytes, List.append_assoc]
  rw [parts] at pointed ⊢
  have length := sizeAt?_encodeNumber before (bytes ++ (padding bytes.length ++ after)) rfl fits
  have content := sliceAt?_append (before ++ encodeNumber bytes.length) bytes
    (padding bytes.length ++ after)
  rw [List.length_append, length_encodeNumber, List.append_assoc] at content
  simp only [bytesAt?, pointed, length, Option.bind_eq_bind, Option.bind_some, content]

theorem bytesAt?_of_short {head : Nat} (short : data.length < head + wordBytes) :
    bytesAt? data head = none := by
  simp only [bytesAt?, sizeAt?_of_short short, Option.bind_eq_bind, Option.bind_none]

private theorem addressesFrom?_encodeAddress (before after : Bytes) (addresses : List Address)
    (standing : before.length = place) :
    addressesFrom? (before ++ (addresses.flatMap encodeAddress ++ after)) addresses.length place =
      some addresses := by
  induction addresses generalizing before place with
  | nil => rfl
  | cons a rest ih =>
    have next : (before ++ encodeAddress a).length = place + wordBytes := by
      rw [List.length_append, length_encodeAddress, standing]
    have first := addressAt?_encodeAddress before (rest.flatMap encodeAddress ++ after) a standing
    have others := ih (before ++ encodeAddress a) next
    rw [List.append_assoc] at others
    rw [List.flatMap_cons, List.append_assoc, List.length_cons, addressesFrom?, first, others]
    rfl

/-- An answer that is one list reads as the list, in its order. -/
theorem addressListAt?_encodeAddressList (addresses : List Address) (after : Bytes)
    (fits : addresses.length ≤ maxWord) :
    addressListAt? (encodeAddressList addresses ++ after) 0 = some addresses := by
  let words := addresses.flatMap encodeAddress
  have parts : encodeAddressList addresses ++ after =
      encodeNumber wordBytes ++ (encodeNumber addresses.length ++ (words ++ after)) := by
    simp only [encodeAddressList, encodeAddresses, List.append_assoc, words]
  have heads : (encodeNumber wordBytes ++ encodeNumber addresses.length).length =
      wordBytes + wordBytes := by
    simp only [List.length_append, length_encodeNumber]
  have pointed : sizeAt? _ 0 = some wordBytes := sizeAt?_encodeNumber []
    (encodeNumber addresses.length ++ (words ++ after)) rfl (by decide)
  have length := sizeAt?_encodeNumber (encodeNumber wordBytes) (words ++ after)
    (length_encodeNumber _) fits
  have listed := addressesFrom?_encodeAddress _ after addresses heads
  rw [List.append_assoc] at listed
  have enough : addresses.length ≤ (encodeAddressList addresses ++ after).length := by
    rw [parts]
    simp only [List.length_append, words, length_flatMap_encodeAddress, wordBytes]
    omega
  rw [parts] at enough ⊢
  rw [List.nil_append] at pointed
  simp only [addressListAt?, pointed, length, Option.bind_eq_bind, Option.bind_some, if_pos enough]
  exact listed

end DecryptorNode.Chain.Abi
