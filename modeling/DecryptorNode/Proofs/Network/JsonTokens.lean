import DecryptorNode.Network.Json.Text
import DecryptorNode.Proofs.Bytes.AsciiText
import Mathlib.Data.List.TakeDrop

/-! What is written as JSON is scanned as the tokens it was written for: marks, texts of plain
characters, and whole numbers of any size. A number is known to end only by the byte after it. -/
namespace DecryptorNode.Network.Json
open Bytes (Ascii AsciiText ofChar ofChars ofString)

/-- The bytes are written for the tokens. They are scanned so behind any others, in as many steps
as there are bytes. -/
def Lexes (bytes : Bytes) (tokens : List Token) : Prop :=
  ∀ steps seen, bytes.length ≤ steps →
    tokensWithin steps seen bytes = some (seen.reverse ++ tokens)

theorem Lexes.tokens? {bytes : Bytes} {tokens : List Token} (h : Lexes bytes tokens) :
    tokens? bytes = some tokens :=
  h _ [] (Nat.le_refl _)

theorem Lexes.nil : Lexes [] [] := by
  intro steps seen _
  simp [tokensWithin]

/-- A token is followed by what the scan of it leaves. -/
theorem Lexes.cons {b : UInt8} {rest left : Bytes} {token : Token} {tokens : List Token}
    (inked : isSpace b = false) (scanned : scanToken b rest = some (token, left))
    (shorter : left.length ≤ rest.length) (h : Lexes left tokens) :
    Lexes (b :: rest) (token :: tokens) := by
  intro steps seen enough
  cases steps with
  | zero => simp at enough
  | succ steps =>
    have room : left.length ≤ steps := by
      rw [List.length_cons] at enough
      omega
    rw [tokensWithin, if_neg (by simp [inked]), scanned]
    simp [h steps (token :: seen) room]

theorem Lexes.mark {b : UInt8} {rest : Bytes} {token : Token} {tokens : List Token}
    (inked : isSpace b = false) (known : marks.lookup b = some token) (h : Lexes rest tokens) :
    Lexes (b :: rest) (token :: tokens) := by
  refine .cons inked ?_ (Nat.le_refl _) h
  simp only [scanToken, known]

section Texts

/-- The characters that a text can hold as they are: ASCII, but for controls, quote and
backslash. -/
def Plain (c : Char) : Prop := 0x20 ≤ c.toNat ∧ c.toNat < 128 ∧ c.toNat ≠ 0x22 ∧ c.toNat ≠ 0x5C

instance (c : Char) : Decidable (Plain c) := inferInstanceAs (Decidable (_ ∧ _))

private theorem Plain.ascii {c : Char} (h : Plain c) : Ascii c := h.2.1

def PlainText (chars : List Char) : Prop := ∀ c ∈ chars, Plain c

instance (chars : List Char) : Decidable (PlainText chars) := List.decidableBAll _ _

variable {chars : List Char}

private theorem PlainText.ascii (plain : PlainText chars) : AsciiText chars :=
  fun c mem => (plain c mem).ascii

private theorem Plain.ofChar_ne {c : Char} (h : Plain c) {b : UInt8} (other : c.toNat ≠ b.toNat) :
    ofChar c ≠ b := by
  rintro rfl
  exact other (Bytes.toNat_ofChar h.ascii).symm

theorem scanText_quote (seen rest : Bytes) :
    scanText seen (0x22 :: rest) = some (seen.reverse, rest) := by
  rw [scanText.eq_def]
  rfl

private theorem scanText_plain (plain : PlainText chars) (seen rest : Bytes) :
    scanText seen (ofChars chars ++ 0x22 :: rest) =
      some (seen.reverse ++ ofChars chars, rest) := by
  induction chars generalizing seen with
  | nil => simp [scanText_quote]
  | cons c chars ih =>
    obtain ⟨here, others⟩ := List.forall_mem_cons.mp plain
    have quote : ofChar c ≠ 0x22 := here.ofChar_ne here.2.2.1
    have backslash : ofChar c ≠ 0x5C := here.ofChar_ne here.2.2.2
    have visible : ¬ ofChar c < 0x20 := by
      rw [UInt8.lt_iff_toNat_lt, Bytes.toNat_ofChar here.ascii, Nat.not_lt]
      exact here.1
    rw [Bytes.ofChars_cons, List.cons_append, scanText.eq_def]
    dsimp only
    rw [if_neg quote, if_neg visible, if_neg backslash, ih others]
    simp

private theorem unescape?_plain (plain : PlainText chars) :
    unescape? (ofChars chars) = some (ofChars chars) := by
  induction chars with
  | nil => rfl
  | cons c chars ih =>
    obtain ⟨here, others⟩ := List.forall_mem_cons.mp plain
    have backslash : ofChar c ≠ 0x5C := here.ofChar_ne here.2.2.2
    rw [Bytes.ofChars_cons, unescape?.eq_def]
    dsimp only
    rw [if_pos backslash, ih others]
    rfl

theorem characters?_plain (plain : PlainText chars) :
    characters? (ofChars chars) = some chars := by
  rw [characters?, unescape?_plain plain, Option.bind_some,
    Utf8.decode?_ofChars plain.ascii]

theorem namedMembers?_ofChars {members : List (List Char × Value)}
    (plain : ∀ m ∈ members, PlainText m.1) :
    Value.namedMembers? (members.map fun m => (ofChars m.1, m.2)) = some members := by
  induction members with
  | nil => rfl
  | cons m members ih =>
    obtain ⟨here, others⟩ := List.forall_mem_cons.mp plain
    have rest := ih others
    rw [Value.namedMembers?] at rest ⊢
    rw [List.map_cons, List.mapM_cons, rest]
    dsimp only
    rw [characters?_plain here]
    rfl

theorem scanToken_quote (rest : Bytes) :
    scanToken 0x22 rest = (scanText [] rest).map fun (text, rest) => (.text text, rest) := rfl

theorem Lexes.text {rest : Bytes} {tokens : List Token} (plain : PlainText chars)
    (h : Lexes rest tokens) :
    Lexes (0x22 :: (ofChars chars ++ 0x22 :: rest)) (.text (ofChars chars) :: tokens) := by
  refine .cons rfl ?_ ?_ h
  · rw [scanToken_quote, scanText_plain plain]
    rfl
  · simp only [List.length_append, List.length_cons]
    omega

def member (name : String) (rest : Bytes) : Bytes :=
  0x22 :: (ofChars name.toList ++ 0x22 :: 0x3A :: rest)

theorem member_append (name : String) (a b : Bytes) :
    member name a ++ b = member name (a ++ b) := by
  simp [member]

theorem Lexes.member {name : String} {rest : Bytes} {tokens : List Token}
    (plain : PlainText name.toList) (h : Lexes rest tokens) :
    Lexes (member name rest) (.text (ofChars name.toList) :: .colon :: tokens) :=
  .text plain (.mark rfl rfl h)

end Texts

section Numbers

def EndsNumber : Bytes → Prop
  | [] => True
  | b :: _ => isDigit b = false ∧ b ≠ 0x2E ∧ b ≠ 0x65 ∧ b ≠ 0x45

theorem endsNumber_comma (rest : Bytes) : EndsNumber (0x2C :: rest) :=
  ⟨rfl, by decide, by decide, by decide⟩

private theorem toNat_of_isDigit {c : Char} (digit : c.isDigit = true) :
    48 ≤ c.toNat ∧ c.toNat ≤ 57 := by
  simpa [Char.isDigit, UInt32.le_iff_toNat_le] using digit

private theorem ascii_of_isDigit {c : Char} (digit : c.isDigit = true) : Ascii c :=
  Nat.lt_of_le_of_lt (toNat_of_isDigit digit).2 (by decide)

private theorem isDigit_ofChar {c : Char} (digit : c.isDigit = true) :
    isDigit (ofChar c) = true := by
  simpa [isDigit, UInt8.le_iff_toNat_le, Bytes.toNat_ofChar (ascii_of_isDigit digit)] using
    toNat_of_isDigit digit

private theorem isDigit_of_mem_toDigits {n : Nat} {c : Char} (mem : c ∈ Nat.toDigits 10 n) :
    c.isDigit = true :=
  Nat.isDigit_of_mem_toDigits (by decide) (Nat.le_refl _) mem

def numeral (n : Nat) : Bytes := ofChars (Nat.toDigits 10 n)

theorem ofString_toString (n : Nat) : ofString (toString n) = numeral n := by
  rw [Nat.toString_eq_ofList_toDigits]
  exact Bytes.ofString_ofList fun c mem => ascii_of_isDigit (isDigit_of_mem_toDigits mem)

private theorem isDigit_of_mem_numeral {n : Nat} {b : UInt8} (mem : b ∈ numeral n) :
    isDigit b = true := by
  obtain ⟨c, written, rfl⟩ := List.mem_map.mp mem
  exact isDigit_ofChar (isDigit_of_mem_toDigits written)

private theorem numeral_ne_nil (n : Nat) : numeral n ≠ [] := by
  simp [numeral, ofChars, Nat.toDigits_ne_nil]

private theorem foldl_ofChars {chars : List Char} (digits : ∀ c ∈ chars, c.isDigit = true)
    (n : Nat) : (ofChars chars).foldl (fun n b => n * 10 + (b.toNat - 0x30)) n =
      Nat.ofDigitChars 10 chars n := by
  induction chars generalizing n with
  | nil => rfl
  | cons c chars ih =>
    obtain ⟨here, others⟩ := List.forall_mem_cons.mp digits
    rw [Bytes.ofChars_cons, List.foldl_cons, ih others, Nat.ofDigitChars_cons,
      Bytes.toNat_ofChar (ascii_of_isDigit here), Nat.mul_comm]
    rfl

/-- No number is too large to be read as itself. -/
private theorem decimal_numeral (n : Nat) : decimal (numeral n) = n := by
  rw [decimal, numeral, foldl_ofChars fun c => isDigit_of_mem_toDigits,
    Nat.ofDigitChars_ten_toDigits]

/-- The first digit of a number is that of its tenth, as long as there is one. -/
private theorem head?_toDigits {n : Nat} (positive : 0 < n) :
    (Nat.toDigits 10 n).head? ≠ some '0' := by
  induction n using Nat.strongRecOn with
  | _ n ih =>
    by_cases small : n < 10
    · simp [Nat.toDigits_of_lt_base small, Nat.digitChar_eq_zero]
      omega
    · have tenth := ih (n / 10) (by omega) (by omega)
      rw [Nat.toDigits_of_base_le (by decide) (Nat.not_lt.mp small)]
      cases digits : Nat.toDigits 10 (n / 10) with
      | nil => exact absurd digits Nat.toDigits_ne_nil
      | cons c rest => simpa [digits] using tenth

private theorem ofChar_eq_zero {c : Char} (digit : c.isDigit = true) (zero : ofChar c = 0x30) :
    c = '0' := by
  have code : c.toNat = 48 := by
    rw [← Bytes.toNat_ofChar (ascii_of_isDigit digit), zero]
    rfl
  rw [← Char.ofNat_toNat c, code]

private theorem head?_numeral {n : Nat} (positive : 0 < n) : (numeral n).head? ≠ some 0x30 := by
  have nonzero := head?_toDigits positive
  have digits := fun c => isDigit_of_mem_toDigits (n := n) (c := c)
  rw [numeral]
  cases written : Nat.toDigits 10 n with
  | nil => simp
  | cons c rest =>
    rw [written] at nonzero digits
    intro zero
    have same : c = '0' := ofChar_eq_zero (digits c (by simp)) (Option.some.inj zero)
    exact nonzero (by rw [same]; rfl)

private theorem scanDigits_numeral {rest : Bytes} (ends : EndsNumber rest) (n : Nat) :
    scanDigits (numeral n ++ rest) = some (numeral n, rest) := by
  have digits : ∀ b ∈ numeral n, isDigit b = true := fun b => isDigit_of_mem_numeral
  have stops : rest.takeWhile isDigit = [] ∧ rest.dropWhile isDigit = rest := by
    cases rest with
    | nil => simp
    | cons b rest => simp [ends.1]
  rw [scanDigits, List.span_eq_takeWhile_dropWhile, List.takeWhile_append_of_pos digits,
    List.dropWhile_append_of_pos digits, stops.1, stops.2, List.append_nil]
  cases written : numeral n with
  | nil => exact absurd written (numeral_ne_nil n)
  | cons b more => rfl

private theorem scanFraction_of_ends {rest : Bytes} (ends : EndsNumber rest) :
    scanFraction rest = some (false, rest) := by
  cases rest with
  | nil => rfl
  | cons b rest => simp [scanFraction, ends.2.1]

theorem scanExponent_of_ends {rest : Bytes} (ends : EndsNumber rest) :
    scanExponent rest = some (false, rest) := by
  cases rest with
  | nil => rfl
  | cons b rest => simp [scanExponent, ends.2.2.1, ends.2.2.2]

private theorem scanNumber_numeral {rest : Bytes} (ends : EndsNumber rest) (negative : Bool)
    (n : Nat) : scanNumber negative (numeral n ++ rest) = some (.integer negative n, rest) := by
  have unpadded : 1 < (numeral n).length → (numeral n).head? ≠ some 0x30 := by
    rcases Nat.eq_zero_or_pos n with rfl | positive
    · exact fun long => absurd long (by decide)
    · exact fun _ => head?_numeral positive
  simpa [scanNumber, scanDigits_numeral ends, scanFraction_of_ends ends,
    scanExponent_of_ends ends, decimal_numeral] using unpadded

/-- A digit is neither space nor mark, and begins neither a text nor a negative number. -/
theorem scanToken_digit {b : UInt8} (digit : isDigit b = true) (rest : Bytes) :
    isSpace b = false ∧ scanToken b rest = scanNumber false (b :: rest) := by
  have other (c : UInt8) (h : isDigit c = false) : b ≠ c := by
    rintro rfl
    rw [digit] at h
    cases h
  have unmarked : marks.lookup b = none := by
    refine List.lookup_eq_none_iff.mpr fun p mem => ?_
    have marked : isDigit p.1 = false := by
      revert p
      decide
    simpa using other p.1 marked
  constructor
  · simp [isSpace, other 0x20 rfl, other 0x09 rfl, other 0x0A rfl,
      other 0x0D rfl]
  · simp [scanToken, unmarked, other 0x22 rfl, other 0x2D rfl, digit]

theorem Lexes.natural {rest : Bytes} {tokens : List Token} (ends : EndsNumber rest) (n : Nat)
    (h : Lexes rest tokens) : Lexes (numeral n ++ rest) (.integer false n :: tokens) := by
  have scanned := scanNumber_numeral ends false n
  have digits := fun b => isDigit_of_mem_numeral (n := n) (b := b)
  cases written : numeral n with
  | nil => exact absurd written (numeral_ne_nil n)
  | cons b more =>
    rw [written] at scanned digits
    obtain ⟨inked, begins⟩ := scanToken_digit (digits b (by simp)) (more ++ rest)
    exact .cons inked (begins.trans scanned) (by simp) h

private theorem Lexes.negative {rest : Bytes} {tokens : List Token} (ends : EndsNumber rest)
    (n : Nat)
    (h : Lexes rest tokens) : Lexes (0x2D :: (numeral n ++ rest)) (.integer true n :: tokens) :=
  .cons rfl (scanNumber_numeral ends true n) (by simp) h

/-- An integer is written by its sign, if it is negative, and its size. -/
theorem Lexes.integer {rest : Bytes} {tokens : List Token} (ends : EndsNumber rest) (i : Int)
    (h : Lexes rest tokens) :
    Lexes (ofString (toString i) ++ rest) (.integer (decide (i < 0)) i.natAbs :: tokens) := by
  cases i with
  | ofNat n =>
    have written : ofString (toString (Int.ofNat n)) = numeral n := ofString_toString n
    rw [written]
    exact .natural ends n h
  | negSucc n =>
    have written : ofString (toString (Int.negSucc n)) = 0x2D :: numeral (n + 1) := by
      rw [← ofString_toString, show toString (Int.negSucc n) = "-" ++ toString (n + 1) from rfl,
        Bytes.ofString_append]
      exact congrArg (· ++ _) (Bytes.ofString_ofList (by decide))
    rw [written, decide_eq_true (Int.negSucc_lt_zero n)]
    exact .negative ends (n + 1) h

end Numbers
end DecryptorNode.Network.Json
