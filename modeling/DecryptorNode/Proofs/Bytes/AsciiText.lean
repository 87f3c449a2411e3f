import DecryptorNode.Bytes.Utf8
import DecryptorNode.Proofs.Bytes.Encodings

/-! Texts of ASCII characters: one byte stands for each of them, both ways. -/
namespace DecryptorNode

private theorem toList_loop (bytes : ByteArray) (i : Nat) (seen : Bytes) :
    ByteArray.toList.loop bytes i seen = seen.reverse ++ bytes.data.toList.drop i := by
  fun_induction ByteArray.toList.loop bytes i seen with
  | case1 i seen more ih =>
    have inside : i < bytes.data.toList.length := by simpa using more
    have here : bytes.get! i = bytes.data[i]! := by cases bytes; rfl
    rw [ih, List.drop_eq_getElem_cons inside, here, getElem!_pos bytes.data i more]
    simp
  | case2 i seen done =>
    rw [List.drop_eq_nil_of_le (by simpa using done)]
    simp

namespace Bytes

private theorem ofString_eq (text : String) : ofString text = text.toByteArray.data.toList := by
  rw [ofString, String.toUTF8_eq_toByteArray, ByteArray.toList, toList_loop]
  rfl

@[simp] theorem ofString_append (s t : String) :
    ofString (s ++ t) = ofString s ++ ofString t := by
  simp [ofString_eq]

def Ascii (c : Char) : Prop := c.toNat < 128

instance (c : Char) : Decidable (Ascii c) := inferInstanceAs (Decidable (_ < _))

def AsciiText (chars : List Char) : Prop := ∀ c ∈ chars, Ascii c

-- Found by its shape, the instance could be one that goes through all characters there are.
instance (chars : List Char) : Decidable (AsciiText chars) := List.decidableBAll _ _

def ofChar (c : Char) : UInt8 := UInt8.ofNat c.toNat

def ofChars (chars : List Char) : Bytes := chars.map ofChar

@[simp] theorem ofChars_nil : ofChars [] = [] := rfl

@[simp] theorem ofChars_cons (c : Char) (chars : List Char) :
    ofChars (c :: chars) = ofChar c :: ofChars chars := rfl

private theorem utf8EncodeChar_eq {c : Char} (ascii : Ascii c) :
    String.utf8EncodeChar c = [ofChar c] := by
  have small : c.val.toNat ≤ 127 := Nat.le_of_lt_succ ascii
  exact if_pos small

theorem ofString_ofList {chars : List Char} (ascii : AsciiText chars) :
    ofString (String.ofList chars) = ofChars chars := by
  rw [ofString_eq, String.toByteArray_ofList, List.utf8Encode, List.toList_data_toByteArray]
  induction chars with
  | nil => rfl
  | cons c rest ih =>
    obtain ⟨here, others⟩ := List.forall_mem_cons.mp ascii
    rw [List.flatMap_cons, utf8EncodeChar_eq here, ih others]
    rfl

theorem ofString_eq_ofChars {text : String} (ascii : AsciiText text.toList) :
    ofString text = ofChars text.toList := by
  have written := ofString_ofList ascii
  rwa [String.ofList_toList] at written

theorem toNat_ofChar {c : Char} (ascii : Ascii c) : (ofChar c).toNat = c.toNat :=
  UInt8.toNat_ofNat_of_lt' (Nat.lt_trans ascii (by decide))

end Bytes

namespace Utf8
open Bytes

theorem decode?_ofChars {chars : List Char} (ascii : AsciiText chars) :
    decode? (ofChars chars) = some chars := by
  induction chars with
  | nil => rfl
  | cons c rest ih =>
    obtain ⟨here, others⟩ := List.forall_mem_cons.mp ascii
    have small : ofChar c < 0x80 := by
      rw [UInt8.lt_iff_toNat_lt, toNat_ofChar here]
      exact here
    have read : charFrom? 0 (ofChar c).toNat = some c := by
      rw [toNat_ofChar here, charFrom?, dif_pos ⟨c.valid, Nat.zero_le _⟩]
      rfl
    rw [ofChars_cons, decode?.eq_def]
    dsimp only
    rw [if_pos small, read, ih others]
    rfl

end Utf8

namespace Hex
open Bytes

private theorem ascii_digit : ∀ n < 16, Ascii (digit n) := by decide

/-- The property of hexadecimal text that its sixteen digits have. -/
theorem forall_mem_encode {p : Char → Prop} (digits : ∀ n < 16, p (digit n)) (bytes : Bytes) :
    ∀ c ∈ encode bytes, p c := by
  induction bytes with
  | nil => simp [encode]
  | cons b rest ih =>
    simp only [encode, List.forall_mem_cons]
    exact ⟨digits _ (high_lt b), digits _ (low_lt b), ih⟩

theorem ofString_text (bytes : Bytes) : ofString (text bytes) = ofChars (encode bytes) :=
  ofString_ofList (forall_mem_encode ascii_digit bytes)

end Hex
end DecryptorNode
