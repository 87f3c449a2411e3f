import DecryptorNode.Network.Json.Text
import DecryptorNode.Proofs.Bytes.HexReading
import DecryptorNode.Proofs.Bytes.Utf8Text

/-! The characters that a text denotes. Each is written as itself or escaped, and a text is read as
the characters that it denotes and no others: an escape never joins with the bytes around it. -/
namespace DecryptorNode.Network.Json
open Utf8 (encodeNumber isTail)

/-- The ways to write a character with a backslash. A character beyond those of one code unit takes
two, its halves. -/
inductive Escape : Bytes → Char → Prop
  | simple {e b : UInt8} (known : (e, b) ∈ simpleEscapes) :
      Escape [0x5C, e] (Char.ofNat b.toNat)
  | unit {h₁ h₂ h₃ h₄ : UInt8} {c : Char} (digits : codeUnit? h₁ h₂ h₃ h₄ = some c.toNat) :
      Escape [0x5C, 0x75, h₁, h₂, h₃, h₄] c
  | halves {h₁ h₂ h₃ h₄ l₁ l₂ l₃ l₄ : UInt8} {high low : Nat} {c : Char}
      (digits : codeUnit? h₁ h₂ h₃ h₄ = some high) (digits' : codeUnit? l₁ l₂ l₃ l₄ = some low)
      (first : isHighHalf high = true) (second : isLowHalf low = true)
      (whole : c.toNat = 0x10000 + (high - 0xD800) * 0x400 + (low - 0xDC00)) :
      Escape [0x5C, 0x75, h₁, h₂, h₃, h₄, 0x5C, 0x75, l₁, l₂, l₃, l₄] c

/-- The text between two quotes denotes the characters. -/
inductive Denotes : Bytes → List Char → Prop
  | nil : Denotes [] []
  | plain {c : Char} {raw : Bytes} {chars : List Char} (other : c ≠ '\\') :
      Denotes raw chars → Denotes (String.utf8EncodeChar c ++ raw) (c :: chars)
  | escape {lexeme raw : Bytes} {c : Char} {chars : List Char} (escaped : Escape lexeme c) :
      Denotes raw chars → Denotes (lexeme ++ raw) (c :: chars)

section Units

private theorem hexValue?_lt {b : UInt8} {n : Nat} (h : hexValue? b = some n) : n < 16 :=
  (Hex.value?_eq_some.mp h).1

private theorem codeUnit?_lt {a b c d : UInt8} {n : Nat} (h : codeUnit? a b c d = some n) :
    n < 0x10000 := by
  simp only [codeUnit?, Option.bind_eq_bind, Option.bind_eq_some_iff] at h
  obtain ⟨i, first, j, second, k, third, l, fourth, same⟩ := h
  cases same
  have := hexValue?_lt first
  have := hexValue?_lt second
  have := hexValue?_lt third
  have := hexValue?_lt fourth
  omega

/-- A code unit that is no half is the number of a character, and so is the number of two halves. -/
private theorem exists_char {n : Nat} (h : n < 0xD800 ∨ 0xE000 ≤ n ∧ n < 0x110000) :
    ∃ c : Char, c.toNat = n := by
  have valid : n.isValidChar := h.imp id fun ⟨least, greatest⟩ => ⟨by omega, greatest⟩
  exact ⟨Char.ofNatAux n valid, UInt32.toNat_ofNatLT ..⟩

private theorem isHighHalf_iff {n : Nat} : isHighHalf n = true ↔ 0xD800 ≤ n ∧ n < 0xDC00 := by
  simp [isHighHalf]

private theorem isLowHalf_iff {n : Nat} : isLowHalf n = true ↔ 0xDC00 ≤ n ∧ n < 0xE000 := by
  simp [isLowHalf]

end Units

section Unescaping
variable {raw bytes : Bytes}

private theorem unescape?_backslash (raw : Bytes) : unescape? (0x5C :: raw) = match raw with
    | e :: rest =>
      if e ≠ 0x75 then (simpleEscapes.lookup e).bind fun c => (unescape? rest).map (c :: ·)
      else match rest with
        | h₁ :: h₂ :: h₃ :: h₄ :: rest => (codeUnit? h₁ h₂ h₃ h₄).bind fun unit =>
          if isHighHalf unit then match rest with
            | s :: u :: l₁ :: l₂ :: l₃ :: l₄ :: rest => (codeUnit? l₁ l₂ l₃ l₄).bind fun low =>
              if s = 0x5C ∧ u = 0x75 ∧ isLowHalf low then
                (unescape? rest).map (encodeNumber
                  (0x10000 + (unit - 0xD800) * 0x400 + (low - 0xDC00)) ++ ·)
              else none
            | _ => none
          else if isLowHalf unit then none
          else (unescape? rest).map (encodeNumber unit ++ ·)
        | _ => none
    | [] => none := by
  rw [unescape?.eq_def]
  simp only [Option.bind_eq_bind, Option.map_eq_bind]
  rfl

private theorem unescape?_cons {b : UInt8} (other : b ≠ 0x5C) (raw : Bytes) :
    unescape? (b :: raw) = (unescape? raw).map (b :: ·) := by
  rw [unescape?.eq_def]
  exact if_pos other

/-- Bytes other than a backslash stay as they are. -/
private theorem unescape?_append {plain : Bytes} (others : ∀ b ∈ plain, b ≠ 0x5C) (raw : Bytes) :
    unescape? (plain ++ raw) = (unescape? raw).map (plain ++ ·) := by
  induction plain with
  | nil => simp
  | cons b more ih =>
    obtain ⟨other, others⟩ := List.forall_mem_cons.mp others
    rw [List.cons_append, unescape?_cons other, ih others, Option.map_map]
    rfl

/-- An escape becomes the bytes of its character. -/
private theorem unescape?_escape {lexeme : Bytes} {c : Char} (h : Escape lexeme c) (raw : Bytes) :
    unescape? (lexeme ++ raw) = (unescape? raw).map (String.utf8EncodeChar c ++ ·) := by
  cases h with
  | simple known =>
    rename_i e b
    obtain ⟨other, found, written⟩ : e ≠ 0x75 ∧ simpleEscapes.lookup e = some b ∧
        String.utf8EncodeChar (Char.ofNat b.toNat) = [b] := by
      simp only [simpleEscapes, List.mem_cons, Prod.mk.injEq, List.not_mem_nil, or_false] at known
      rcases known with ⟨rfl, rfl⟩ | ⟨rfl, rfl⟩ | ⟨rfl, rfl⟩ | ⟨rfl, rfl⟩ | ⟨rfl, rfl⟩ |
        ⟨rfl, rfl⟩ | ⟨rfl, rfl⟩ | ⟨rfl, rfl⟩ <;> exact ⟨by decide, rfl, rfl⟩
    rw [List.cons_append, List.cons_append, unescape?_backslash]
    simp only [if_pos other, found, written, Option.bind_some, List.nil_append,
      List.singleton_append]
  | unit digits =>
    have one : isHighHalf c.toNat = false ∧ isLowHalf c.toNat = false := by
      rw [← Bool.not_eq_true, ← Bool.not_eq_true, isHighHalf_iff, isLowHalf_iff]
      rcases c.valid with low | high
      · change c.toNat < 0xD800 at low
        omega
      · change 0xDFFF < c.toNat ∧ _ at high
        omega
    simp only [List.cons_append, List.nil_append]
    rw [unescape?_backslash]
    simp [digits, one, Utf8.encodeNumber_toNat]
  | halves digits digits' first second whole =>
    simp only [List.cons_append, List.nil_append]
    rw [unescape?_backslash]
    simp [digits, digits', first, second, ← whole, Utf8.encodeNumber_toNat]

/-- After a backslash an escape is complete, or nothing is read. -/
private theorem exists_escape (h : unescape? (0x5C :: raw) = some bytes) :
    ∃ lexeme c rest, Escape lexeme c ∧ 0x5C :: raw = lexeme ++ rest := by
  rw [unescape?_backslash] at h
  split at h
  · split at h
    · rename_i e rest _
      obtain ⟨b, listed, -⟩ := Option.bind_eq_some_iff.mp h
      obtain ⟨before, after, parts, -⟩ := List.lookup_eq_some_iff.mp listed
      have known : (e, b) ∈ simpleEscapes := parts ▸ List.mem_append_right _ List.mem_cons_self
      exact ⟨_, _, rest, .simple known, rfl⟩
    · rename_i letter
      obtain rfl := Decidable.not_not.mp letter
      split at h
      · obtain ⟨unit, digits, h⟩ := Option.bind_eq_some_iff.mp h
        have top := codeUnit?_lt digits
        split at h
        · rename_i first
          split at h
          · obtain ⟨low, digits', h⟩ := Option.bind_eq_some_iff.mp h
            obtain ⟨⟨rfl, rfl, second⟩, h⟩ := Option.ite_none_right_eq_some.mp h
            have bounds := isHighHalf_iff.mp first
            have bounds' := isLowHalf_iff.mp second
            obtain ⟨c, whole⟩ := @exists_char
              (0x10000 + (unit - 0xD800) * 0x400 + (low - 0xDC00)) (by omega)
            exact ⟨_, c, _, .halves digits digits' first second whole, rfl⟩
          · cases h
        · rename_i notHigh
          obtain ⟨notLow, h⟩ := Option.ite_none_left_eq_some.mp h
          rw [isHighHalf_iff] at notHigh
          rw [isLowHalf_iff] at notLow
          obtain ⟨c, rfl⟩ := @exists_char unit (by omega)
          exact ⟨_, c, _, .unit digits, rfl⟩
      · cases h
  · cases h

private theorem exists_of_unescape?_backslash (h : unescape? (0x5C :: raw) = some bytes) :
    ∃ lexeme c rest more, Escape lexeme c ∧ 0x5C :: raw = lexeme ++ rest ∧
      unescape? rest = some more ∧ bytes = String.utf8EncodeChar c ++ more := by
  obtain ⟨lexeme, c, rest, escaped, parts⟩ := exists_escape h
  rw [parts, unescape?_escape escaped] at h
  obtain ⟨more, read, same⟩ := Option.map_eq_some_iff.mp h
  exact ⟨lexeme, c, rest, more, escaped, parts, read, same.symm⟩

end Unescaping

section Characters
variable {raw : Bytes} {chars : List Char}

/-- The first byte of a character continues none, and all that follow do. Only a backslash begins
as one. -/
structure Led (c : Char) (lead : UInt8) (tails : Bytes) : Prop where
  starts : isTail lead = false
  follow : ∀ b ∈ tails, isTail b = true
  backslash : lead = 0x5C ↔ c = '\\'

private theorem led_ofNat {c : Char} {k : Nat} {tails : Bytes}
    (lead : k < 0x80 ∨ 0xC0 ≤ k ∧ k < 256)
    (single : k < 0x80 ∧ k = c.toNat ∨ 0x80 ≤ k ∧ 0x80 ≤ c.toNat)
    (follow : ∀ b ∈ tails, isTail b = true) : Led c (UInt8.ofNat k) tails := by
  have size : (UInt8.ofNat k).toNat = k :=
    UInt8.toNat_ofNat_of_lt' (by change k < 256; omega)
  have code : c = '\\' ↔ c.toNat = 0x5C :=
    ⟨fun same => same ▸ rfl, fun same => by rw [← Char.ofNat_toNat c, same]⟩
  refine ⟨?_, follow, ?_⟩
  · rw [← Bool.not_eq_true, Utf8.isTail_iff, size]
    omega
  · rw [← UInt8.toNat_inj, size, code]
    change k = 0x5C ↔ _
    omega

private theorem exists_led (c : Char) :
    ∃ lead tails, String.utf8EncodeChar c = lead :: tails ∧ Led c lead tails := by
  have top := Utf8.toNat_lt c
  rw [← Utf8.encodeNumber_toNat]
  by_cases one : c.toNat < 0x80
  · exact ⟨_, _, Utf8.encodeNumber_one one,
      led_ofNat (by omega) (by omega) (List.forall_mem_nil _)⟩
  · by_cases two : c.toNat < 0x800
    · exact ⟨_, _, Utf8.encodeNumber_two (by omega) two,
        led_ofNat (by omega) (by omega) (by simp [Utf8.isTail_tail])⟩
    · by_cases three : c.toNat < 0x10000
      · exact ⟨_, _, Utf8.encodeNumber_three (by omega) three,
          led_ofNat (by omega) (by omega) (by simp [Utf8.isTail_tail])⟩
      · exact ⟨_, _, Utf8.encodeNumber_four (by omega),
          led_ofNat (by omega) (by omega) (by simp [Utf8.isTail_tail])⟩

private theorem not_backslash_of_isTail {b : UInt8} (h : isTail b = true) : b ≠ 0x5C := by
  rintro rfl
  cases h

/-- What is replaced by the bytes of a character is read as that character. -/
private theorem characters?_append {lexeme : Bytes} {c : Char}
    (replaced : unescape? (lexeme ++ raw) = (unescape? raw).map (String.utf8EncodeChar c ++ ·)) :
    characters? (lexeme ++ raw) = (characters? raw).map (c :: ·) := by
  rw [characters?, replaced, characters?]
  cases unescape? raw with
  | none => rfl
  | some bytes => exact Utf8.decode?_append c bytes

private theorem characters?_plain_append {c : Char} (other : c ≠ '\\') (raw : Bytes) :
    characters? (String.utf8EncodeChar c ++ raw) = (characters? raw).map (c :: ·) := by
  obtain ⟨lead, tails, written, led⟩ := exists_led c
  have others : ∀ b ∈ String.utf8EncodeChar c, b ≠ 0x5C := by
    rw [written]
    exact List.forall_mem_cons.mpr
      ⟨mt led.backslash.mp other, fun b mem => not_backslash_of_isTail (led.follow b mem)⟩
  exact characters?_append (unescape?_append others raw)

/-- The bytes that continue a character stand there themselves. An escape begins another one. -/
private theorem exists_of_unescape?_tails {tails more : Bytes}
    (follow : ∀ b ∈ tails, isTail b = true) (h : unescape? raw = some (tails ++ more)) :
    ∃ rest, raw = tails ++ rest ∧ unescape? rest = some more := by
  induction tails generalizing raw with
  | nil => exact ⟨raw, rfl, h⟩
  | cons t tails ih =>
    obtain ⟨first, others⟩ := List.forall_mem_cons.mp follow
    cases raw with
    | nil => cases h
    | cons b raw =>
      by_cases backslash : b = 0x5C
      · subst backslash
        obtain ⟨-, c, -, after, -, -, -, same⟩ := exists_of_unescape?_backslash h
        obtain ⟨lead, _, written, led⟩ := exists_led c
        rw [written] at same
        obtain ⟨rfl, -⟩ := List.cons.inj same
        exact absurd first (Bool.eq_false_iff.mp led.starts)
      · rw [unescape?_cons backslash] at h
        obtain ⟨bytes, read, same⟩ := Option.map_eq_some_iff.mp h
        cases same
        obtain ⟨rest, rfl, left⟩ := ih others read
        exact ⟨rest, rfl, left⟩

private theorem eq_nil_of_characters? (h : characters? raw = some []) : raw = [] := by
  obtain ⟨bytes, read, decoded⟩ := Option.bind_eq_some_iff.mp h
  obtain rfl : bytes = [] := Utf8.decode?_eq_some.mp decoded
  cases raw with
  | nil => rfl
  | cons b raw =>
    by_cases backslash : b = 0x5C
    · subst backslash
      obtain ⟨-, c, -, after, -, -, -, same⟩ := exists_of_unescape?_backslash read
      obtain ⟨lead, _, written, -⟩ := exists_led c
      rw [written] at same
      cases same
    · rw [unescape?_cons backslash] at read
      obtain ⟨_, -, impossible⟩ := Option.map_eq_some_iff.mp read
      cases impossible

/-- The first character is written there as itself or escaped. -/
private theorem exists_of_characters?_cons {c : Char} (h : characters? raw = some (c :: chars)) :
    ∃ lexeme rest, raw = lexeme ++ rest ∧ characters? rest = some chars ∧
      (lexeme = String.utf8EncodeChar c ∧ c ≠ '\\' ∨ Escape lexeme c) := by
  obtain ⟨bytes, read, decoded⟩ := Option.bind_eq_some_iff.mp h
  obtain rfl := Utf8.decode?_eq_some.mp decoded
  have others := Utf8.decode?_eq_some.mpr (rfl : Utf8.encode chars = _)
  rw [Utf8.encode_cons] at read
  obtain ⟨lead, tails, written, led⟩ := exists_led c
  cases raw with
  | nil =>
    rw [written] at read
    cases read
  | cons b raw =>
    -- An escape brings all bytes of its character, any other byte only the first of them.
    by_cases backslash : b = 0x5C
    · subst backslash
      obtain ⟨lexeme, c', rest, more, escaped, parts, left, same⟩ :=
        exists_of_unescape?_backslash read
      have first := Utf8.decode?_append c' more
      rw [← same, Utf8.decode?_append, others, Option.map_some] at first
      obtain ⟨chars', decoded', same'⟩ := Option.map_eq_some_iff.mp first.symm
      cases same'
      exact ⟨lexeme, rest, parts, by rw [characters?, left, Option.bind_some, decoded'],
        .inr escaped⟩
    · rw [unescape?_cons backslash, written] at read
      obtain ⟨bytes, read, same⟩ := Option.map_eq_some_iff.mp read
      obtain ⟨rfl, rfl⟩ := List.cons.inj same
      obtain ⟨rest, rfl, left⟩ := exists_of_unescape?_tails led.follow read
      exact ⟨_, rest, by rw [written, List.cons_append],
        by rw [characters?, left, Option.bind_some, others],
        .inl ⟨rfl, mt led.backslash.mpr backslash⟩⟩

/-- A text is read as characters if, and only if, it denotes them. -/
theorem characters?_eq_some : characters? raw = some chars ↔ Denotes raw chars := by
  constructor
  · intro h
    induction chars generalizing raw with
    | nil =>
      rw [eq_nil_of_characters? h]
      exact .nil
    | cons c chars ih =>
      obtain ⟨lexeme, rest, rfl, read, ⟨rfl, other⟩ | escaped⟩ := exists_of_characters?_cons h
      · exact .plain other (ih read)
      · exact .escape escaped (ih read)
  · intro h
    induction h with
    | nil => rfl
    | plain other _ ih => rw [characters?_plain_append other, ih, Option.map_some]
    | escape escaped _ ih =>
      rw [characters?_append (unescape?_escape escaped _), ih, Option.map_some]

end Characters
end DecryptorNode.Network.Json
