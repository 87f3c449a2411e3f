import DecryptorNode.Proofs.Network.JsonTokens
import Mathlib.Data.List.Chain

/-! How JSON is spelled. A payload spells tokens one after the other, with blanks before, between
and after them. What is scanned was spelled so; and tokens that are spelled are scanned, as long as
no two stand together of which neither is a mark, for a number ends only where something else
begins. -/
namespace DecryptorNode.Network.Json

/-- What can stand between the quotes of a text: visible bytes, and escapes that are complete. -/
inductive TextBody : Bytes → Prop
  | nil : TextBody []
  | plain {b : UInt8} {rest : Bytes} (visible : ¬ b < 0x20) (quote : b ≠ 0x22)
      (backslash : b ≠ 0x5C) : TextBody rest → TextBody (b :: rest)
  | escape {e : UInt8} {rest : Bytes} (known : (simpleEscapes.lookup e).isSome) :
      TextBody rest → TextBody (0x5C :: e :: rest)
  | unit {h₁ h₂ h₃ h₄ : UInt8} {rest : Bytes}
      (digits : isHexDigit h₁ && isHexDigit h₂ && isHexDigit h₃ && isHexDigit h₄) :
      TextBody rest → TextBody (0x5C :: 0x75 :: h₁ :: h₂ :: h₃ :: h₄ :: rest)

/-- One digit or more. -/
structure Digits (digits : Bytes) : Prop where
  some : digits ≠ []
  all : ∀ b ∈ digits, isDigit b = true

/-- The digits of a whole number, which zero leads only when it is alone. -/
structure Whole (digits : Bytes) : Prop extends Digits digits where
  unpadded : 1 < digits.length → digits.head? ≠ Option.some 0x30

/-- The fraction of a number, or nothing. -/
inductive Decimals : Bytes → Prop
  | none : Decimals []
  | some {digits : Bytes} : Digits digits → Decimals (0x2E :: digits)

/-- The exponent of a number, with or without a sign, or nothing. -/
inductive Exponent : Bytes → Prop
  | none : Exponent []
  | unsigned {letter : UInt8} {digits : Bytes} (letters : letter = 0x65 ∨ letter = 0x45) :
      Digits digits → Exponent (letter :: digits)
  | signed {letter s : UInt8} {digits : Bytes} (letters : letter = 0x65 ∨ letter = 0x45)
      (signs : s = 0x2B ∨ s = 0x2D) : Digits digits → Exponent (letter :: s :: digits)

def sign : (negative : Bool) → Bytes
  | true => [0x2D]
  | false => []

/-- The spellings of a token. -/
inductive Lexeme : Token → Bytes → Prop
  | mark {b : UInt8} {t : Token} (known : (b, t) ∈ marks) : Lexeme t [b]
  | text {body : Bytes} : TextBody body → Lexeme (.text body) (0x22 :: (body ++ [0x22]))
  | integer (negative : Bool) {digits : Bytes} :
      Whole digits → Lexeme (.integer negative (decimal digits)) (sign negative ++ digits)
  | fraction (negative : Bool) {digits decimals exponent : Bytes}
      (more : decimals ≠ [] ∨ exponent ≠ []) :
      Whole digits → Decimals decimals → Exponent exponent →
      Lexeme .fraction (sign negative ++ (digits ++ (decimals ++ exponent)))
  | word {word : Bytes} {literal : Literal} (known : (word, literal) ∈ words) :
      Lexeme (.literal literal) word

def Blank (bytes : Bytes) : Prop := ∀ b ∈ bytes, isSpace b = true

/-- The bytes spell the tokens. -/
inductive Spelled : List Token → Bytes → Prop
  | nil {blank : Bytes} : Blank blank → Spelled [] blank
  | cons {t : Token} {tokens : List Token} {blank lexeme rest : Bytes} : Blank blank →
      Lexeme t lexeme → Spelled tokens rest → Spelled (t :: tokens) (blank ++ (lexeme ++ rest))

section Texts
variable {seen bytes text rest : Bytes}

private theorem scanText_sound (h : scanText seen bytes = some (text, rest)) :
    ∃ body, TextBody body ∧ text = seen.reverse ++ body ∧ bytes = body ++ 0x22 :: rest := by
  fun_induction scanText seen bytes with
  | case2 seen rest =>
    cases h
    exact ⟨[], .nil, (List.append_nil _).symm, rfl⟩
  | case5 seen e rest known _ _ ih =>
    obtain ⟨body, well, rfl, rfl⟩ := ih h
    exact ⟨_, .escape known well, by simp, rfl⟩
  | case6 seen h₁ h₂ h₃ h₄ rest digits _ _ _ ih =>
    obtain ⟨body, well, rfl, rfl⟩ := ih h
    exact ⟨_, .unit digits well, by simp, rfl⟩
  | case10 seen b rest quote visible backslash ih =>
    obtain ⟨body, well, rfl, rfl⟩ := ih h
    exact ⟨_, .plain visible quote backslash well, by simp, rfl⟩
  | _ => cases h

private theorem scanText_complete {body : Bytes} (well : TextBody body) (seen rest : Bytes) :
    scanText seen (body ++ 0x22 :: rest) = some (seen.reverse ++ body, rest) := by
  induction well generalizing seen with
  | nil => rw [List.nil_append, scanText_quote, List.append_nil]
  | plain visible quote backslash _ ih =>
    rw [List.cons_append, scanText.eq_def]
    dsimp only
    rw [if_neg quote, if_neg visible, if_neg backslash, ih]
    simp
  | escape known _ ih =>
    rw [List.cons_append, List.cons_append, scanText.eq_def]
    dsimp only
    rw [if_neg (by decide), if_neg (by decide), if_pos rfl, if_pos known, ih]
    simp
  | unit digits _ ih =>
    simp only [List.cons_append]
    rw [scanText.eq_def]
    dsimp only
    rw [if_neg (by decide), if_neg (by decide), if_pos rfl, if_neg (by decide), if_pos rfl,
      if_pos digits, ih]
    simp

end Texts

section Numbers
variable {bytes rest : Bytes}

def NoDigit (bytes : Bytes) : Prop := ∀ b ∈ bytes.head?, isDigit b = false

private theorem scanDigits_sound {digits : Bytes} (h : scanDigits bytes = some (digits, rest)) :
    Digits digits ∧ bytes = digits ++ rest := by
  rw [scanDigits, List.span_eq_takeWhile_dropWhile] at h
  have parts : bytes.takeWhile isDigit ++ bytes.dropWhile isDigit = bytes :=
    List.takeWhile_append_dropWhile
  split at h
  · cases h
  · rename_i present
    cases h
    exact ⟨⟨fun none => present _ (by rw [none]),
      List.all_eq_true.mp List.all_takeWhile⟩, parts.symm⟩

private theorem scanDigits_complete {digits : Bytes} (well : Digits digits) (ends : NoDigit rest) :
    scanDigits (digits ++ rest) = some (digits, rest) := by
  have stops : rest.takeWhile isDigit = [] ∧ rest.dropWhile isDigit = rest := by
    cases rest with
    | nil => exact ⟨rfl, rfl⟩
    | cons b rest =>
      have first : isDigit b = false := ends b rfl
      simp [first]
  rw [scanDigits, List.span_eq_takeWhile_dropWhile, List.takeWhile_append_of_pos well.all,
    List.dropWhile_append_of_pos well.all, stops.1, stops.2, List.append_nil]
  split
  · rename_i none
    exact absurd (Prod.mk.inj none).1 well.some
  · rfl

private theorem scanFraction_sound {found : Bool} (h : scanFraction bytes = some (found, rest)) :
    ∃ decimals, Decimals decimals ∧ bytes = decimals ++ rest ∧ found = !decimals.isEmpty := by
  unfold scanFraction at h
  split at h
  · split at h
    · rename_i b more dot
      obtain ⟨⟨digits, left⟩, scanned, same⟩ := Option.map_eq_some_iff.mp h
      cases same
      obtain ⟨well, rfl⟩ := scanDigits_sound scanned
      exact ⟨0x2E :: digits, .some well, by rw [dot, List.cons_append], rfl⟩
    · cases h
      exact ⟨[], .none, rfl, rfl⟩
  · cases h
    exact ⟨[], .none, rfl, rfl⟩

private theorem scanFraction_complete {decimals : Bytes} (well : Decimals decimals)
    (ends : NoDigit rest) (noDot : rest.head? ≠ some 0x2E) :
    scanFraction (decimals ++ rest) = some (!decimals.isEmpty, rest) := by
  cases well with
  | none =>
    cases rest with
    | nil => rfl
    | cons b rest =>
      have other : b ≠ 0x2E := fun same => noDot (congrArg some same)
      exact if_neg other
  | some well =>
    rw [List.cons_append, scanFraction, if_pos rfl, scanDigits_complete well ends]
    rfl

private theorem scanExponent_sound {found : Bool} (h : scanExponent bytes = some (found, rest)) :
    ∃ exponent, Exponent exponent ∧ bytes = exponent ++ rest ∧ found = !exponent.isEmpty := by
  unfold scanExponent at h
  split at h
  · rename_i b more
    split at h
    · rename_i marked
      have letters : b = 0x65 ∨ b = 0x45 := by simpa using marked
      obtain ⟨⟨digits, left⟩, scanned, same⟩ := Option.map_eq_some_iff.mp h
      cases same
      split at scanned
      · rename_i s more
        split at scanned
        · rename_i signed
          obtain ⟨well, rfl⟩ := scanDigits_sound scanned
          exact ⟨b :: s :: digits, .signed letters (by simpa using signed) well, rfl, rfl⟩
        · obtain ⟨well, unsigned⟩ := scanDigits_sound scanned
          exact ⟨b :: digits, .unsigned letters well, by rw [unsigned, List.cons_append], rfl⟩
      · cases scanned
    · cases h
      exact ⟨[], .none, rfl, rfl⟩
  · cases h
    exact ⟨[], .none, rfl, rfl⟩

private theorem EndsNumber.noDigit (ends : EndsNumber rest) : NoDigit rest := by
  cases rest with
  | nil => exact fun b none => by cases none
  | cons b rest => exact fun _ same => Option.some.inj same ▸ ends.1

private theorem EndsNumber.head?_ne (ends : EndsNumber rest) : rest.head? ≠ some 0x2E := by
  cases rest with
  | nil => exact fun none => by cases none
  | cons b rest => exact fun same => ends.2.1 (Option.some.inj same)

/-- The first of some digits is no sign. -/
private theorem Digits.exists_cons {digits : Bytes} (well : Digits digits) :
    ∃ b more, digits = b :: more ∧ (b = 0x2B || b = 0x2D) = false := by
  cases digits with
  | nil => exact absurd rfl well.some
  | cons b more =>
    refine ⟨b, more, rfl, Bool.eq_false_iff.mpr fun signed => ?_⟩
    have digit := well.all b List.mem_cons_self
    rcases (show b = 0x2B ∨ b = 0x2D by simpa using signed) with rfl | rfl <;> cases digit

private theorem scanExponent_complete {exponent : Bytes} (well : Exponent exponent)
    (ends : EndsNumber rest) :
    scanExponent (exponent ++ rest) = some (!exponent.isEmpty, rest) := by
  cases well with
  | none => exact scanExponent_of_ends ends
  | unsigned letters well =>
    rename_i letter digits
    have scanned := scanDigits_complete well ends.noDigit
    obtain ⟨b, more, rfl, unsigned⟩ := well.exists_cons
    have marked : (letter = 0x65 || letter = 0x45) = true := by simpa using letters
    rw [List.cons_append, List.cons_append, scanExponent, if_pos marked]
    rw [List.cons_append] at scanned
    simp [unsigned, scanned]
  | signed letters signs well =>
    rename_i letter s digits
    have marked : (letter = 0x65 || letter = 0x45) = true := by simpa using letters
    have signed : (s = 0x2B || s = 0x2D) = true := by simpa using signs
    rw [List.cons_append, List.cons_append, scanExponent, if_pos marked]
    simp only [signed, if_true, scanDigits_complete well ends.noDigit]
    rfl

/-- The spelling of a number without its sign, by whether it has a fraction or an exponent. -/
structure Unsigned (negative : Bool) (t : Token) (digits decimals exponent : Bytes) : Prop where
  whole : Whole digits
  fraction : Decimals decimals
  power : Exponent exponent
  token : t = if !decimals.isEmpty || !exponent.isEmpty then .fraction
    else .integer negative (decimal digits)

private theorem Unsigned.lexeme {negative : Bool} {t : Token} {digits decimals exponent : Bytes}
    (h : Unsigned negative t digits decimals exponent) :
    Lexeme t (sign negative ++ (digits ++ (decimals ++ exponent))) := by
  rw [h.token]
  split
  · rename_i more
    exact .fraction negative (by simpa using more) h.whole h.fraction h.power
  · rename_i none
    obtain ⟨rfl, rfl⟩ : decimals = [] ∧ exponent = [] := by simpa using none
    rw [List.append_nil, List.append_nil]
    exact .integer negative h.whole

private theorem scanNumber_sound {negative : Bool} {t : Token}
    (h : scanNumber negative bytes = some (t, rest)) : ∃ digits decimals exponent,
      Unsigned negative t digits decimals exponent ∧
        bytes = digits ++ (decimals ++ exponent) ++ rest := by
  simp only [scanNumber, Option.bind_eq_bind, Option.bind_eq_some_iff] at h
  obtain ⟨⟨digits, left⟩, scanned, h⟩ := h
  obtain ⟨well, rfl⟩ := scanDigits_sound scanned
  split at h
  · cases h
  · rename_i unpadded
    obtain ⟨⟨f, left⟩, scanned, ⟨e, left⟩, scanned', same⟩ := by
      simpa only [Option.bind_eq_some_iff] using h
    obtain ⟨decimals, wellDecimals, rfl, rfl⟩ := scanFraction_sound scanned
    obtain ⟨exponent, wellExponent, rfl, rfl⟩ := scanExponent_sound scanned'
    cases same
    refine ⟨digits, decimals, exponent, ⟨⟨well, fun long first => unpadded ?_⟩, wellDecimals,
      wellExponent, rfl⟩, by simp⟩
    simp [long, first]

private theorem scanNumber_complete {negative : Bool} {t : Token} {digits decimals exponent : Bytes}
    (h : Unsigned negative t digits decimals exponent) (ends : EndsNumber rest) :
    scanNumber negative (digits ++ (decimals ++ exponent) ++ rest) = some (t, rest) := by
  have lettered : NoDigit (exponent ++ rest) ∧ (exponent ++ rest).head? ≠ some 0x2E := by
    cases h.power with
    | none => exact ⟨ends.noDigit, ends.head?_ne⟩
    | unsigned letters _ => rcases letters with rfl | rfl <;> simp [NoDigit, isDigit]
    | signed letters _ _ => rcases letters with rfl | rfl <;> simp [NoDigit, isDigit]
  have dotted : NoDigit (decimals ++ (exponent ++ rest)) := by
    cases h.fraction with
    | none => exact lettered.1
    | some _ => simp [NoDigit, isDigit]
  have padded : (1 < digits.length && digits.head? == some 0x30) = false := by
    simpa using h.whole.unpadded
  rw [List.append_assoc, List.append_assoc, scanNumber,
    scanDigits_complete h.whole.toDigits dotted]
  simp only [Option.bind_eq_bind, Option.bind_some, padded,
    scanFraction_complete h.fraction lettered.1 lettered.2,
    scanExponent_complete h.power ends, h.token]
  rfl

end Numbers

section Tokens
variable {b : UInt8} {bytes rest left : Bytes} {t : Token} {tokens : List Token}

private theorem scanWord_sound (h : scanWord bytes = some (t, left)) :
    ∃ lexeme, Lexeme t lexeme ∧ bytes = lexeme ++ left := by
  obtain ⟨⟨word, literal⟩, known, h⟩ := List.exists_of_findSome?_eq_some h
  obtain ⟨begins, same⟩ := Option.ite_none_right_eq_some.mp h
  cases same
  obtain ⟨more, rfl⟩ := List.isPrefixOf_iff_prefix.mp begins
  exact ⟨word, .word known, by rw [List.drop_left]⟩

private theorem scanToken_sound (h : scanToken b rest = some (t, left)) :
    ∃ lexeme, Lexeme t lexeme ∧ b :: rest = lexeme ++ left := by
  unfold scanToken at h
  split at h
  · rename_i known
    cases h
    obtain ⟨before, after, parts, -⟩ := List.lookup_eq_some_iff.mp known
    exact ⟨[b], .mark (by rw [parts]; simp), rfl⟩
  · split at h
    · rename_i quote
      obtain ⟨⟨body, left⟩, scanned, same⟩ := Option.map_eq_some_iff.mp h
      cases same
      obtain ⟨body, well, rfl, rfl⟩ := scanText_sound scanned
      exact ⟨_, .text well, by simp [quote]⟩
    · split at h
      · rename_i minus
        obtain ⟨digits, decimals, exponent, well, rfl⟩ := scanNumber_sound h
        exact ⟨_, well.lexeme, by simp [sign, minus]⟩
      · split at h
        · obtain ⟨digits, decimals, exponent, well, same⟩ := scanNumber_sound h
          exact ⟨_, well.lexeme, same⟩
        · exact scanWord_sound h

private theorem blank_nil : Blank [] := List.forall_mem_nil _

private theorem Spelled.space (space : isSpace b = true) (h : Spelled tokens rest) :
    Spelled tokens (b :: rest) := by
  cases h with
  | nil blank => exact .nil (List.forall_mem_cons.mpr ⟨space, blank⟩)
  | cons blank lexeme others =>
    exact .cons (List.forall_mem_cons.mpr ⟨space, blank⟩) lexeme others

private theorem tokensWithin_sound {steps : Nat} {seen : List Token}
    (h : tokensWithin steps seen bytes = some tokens) :
    ∃ more, tokens = seen.reverse ++ more ∧ Spelled more bytes := by
  fun_induction tokensWithin steps seen bytes with
  | case1 steps seen =>
    cases h
    exact ⟨[], (List.append_nil _).symm, .nil blank_nil⟩
  | case2 => cases h
  | case3 steps seen b rest space ih =>
    obtain ⟨more, same, spelled⟩ := ih h
    exact ⟨more, same, spelled.space space⟩
  | case4 steps seen b rest _ token left scanned ih =>
    obtain ⟨more, same, spelled⟩ := ih h
    obtain ⟨lexeme, well, parts⟩ := scanToken_sound scanned
    refine ⟨token :: more, by simpa using same, ?_⟩
    rw [parts]
    exact .cons blank_nil well spelled
  | case5 => cases h

theorem spelled_of_tokens? (h : tokens? bytes = some tokens) : Spelled tokens bytes := by
  obtain ⟨more, rfl, spelled⟩ := tokensWithin_sound h
  exact spelled

def Token.isMark (t : Token) : Bool := marks.any fun mark => mark.2 = t

/-- Of two neighbours one is a mark. -/
def Parted (tokens : List Token) : Prop :=
  tokens.IsChain fun a b => a.isMark = true ∨ b.isMark = true

private theorem endsNumber_of_space (space : isSpace b = true) : EndsNumber (b :: rest) := by
  have spaces : b = 0x20 ∨ b = 0x09 ∨ b = 0x0A ∨ b = 0x0D := by
    simpa [isSpace, or_assoc] using space
  rcases spaces with rfl | rfl | rfl | rfl <;> exact ⟨rfl, by decide, by decide, by decide⟩

private theorem endsNumber_of_mark (known : (b, t) ∈ marks) : EndsNumber (b :: rest) := by
  have apart : ∀ mark ∈ marks, isDigit mark.1 = false ∧ mark.1 ≠ 0x2E ∧ mark.1 ≠ 0x65 ∧
      mark.1 ≠ 0x45 := by decide
  exact apart _ known

/-- A token that is no mark has no spelling of a mark, and a mark has no other. -/
private theorem Lexeme.of_isMark {lexeme : Bytes} (h : Lexeme t lexeme) (mark : t.isMark = true) :
    ∃ b, (b, t) ∈ marks ∧ lexeme = [b] := by
  cases h with
  | mark known => exact ⟨_, known, rfl⟩
  | _ => cases mark

private theorem Spelled.endsNumber (h : Spelled tokens rest)
    (begins : ∀ t ∈ tokens.head?, t.isMark = true) : EndsNumber rest := by
  have blanks {blank more : Bytes} (blank' : Blank blank) (ends : EndsNumber more) :
      EndsNumber (blank ++ more) := by
    cases blank with
    | nil => exact ends
    | cons b others => exact endsNumber_of_space (blank' b List.mem_cons_self)
  cases h with
  | nil blank =>
    have ends := @blanks _ [] blank trivial
    rwa [List.append_nil] at ends
  | cons blank lexeme others =>
    obtain ⟨b, known, rfl⟩ := lexeme.of_isMark (begins _ rfl)
    exact blanks blank (endsNumber_of_mark known)

private theorem scanToken_word {word : Bytes} {literal : Literal} (known : (word, literal) ∈ words)
    (rest : Bytes) : ∃ b more, word = b :: more ∧ isSpace b = false ∧
      scanToken b (more ++ rest) = some (.literal literal, rest) := by
  simp only [words, List.mem_cons, Prod.mk.injEq, List.not_mem_nil, or_false] at known
  obtain ⟨rfl, rfl⟩ | ⟨rfl, rfl⟩ | ⟨rfl, rfl⟩ := known <;> exact ⟨_, _, rfl, rfl, rfl⟩

private theorem scanToken_number {negative : Bool} {digits decimals exponent : Bytes}
    (h : Unsigned negative t digits decimals exponent) (ends : EndsNumber rest) :
    ∃ b more, sign negative ++ (digits ++ (decimals ++ exponent)) = b :: more ∧
      isSpace b = false ∧ scanToken b (more ++ rest) = some (t, rest) := by
  have scanned := scanNumber_complete h ends
  cases negative with
  | true => exact ⟨0x2D, _, rfl, rfl, scanned⟩
  | false =>
    obtain ⟨b, more, rfl, -⟩ := h.whole.exists_cons
    obtain ⟨inked, begins⟩ := scanToken_digit (h.whole.all b List.mem_cons_self)
      (more ++ (decimals ++ exponent) ++ rest)
    exact ⟨b, more ++ (decimals ++ exponent), rfl, inked, begins.trans scanned⟩

/-- A token that is spelled is scanned, if nothing follows that a number would go on with. -/
private theorem scanToken_complete {lexeme : Bytes} (h : Lexeme t lexeme)
    (ends : t.isMark = false → EndsNumber rest) : ∃ b more, lexeme = b :: more ∧
      isSpace b = false ∧ scanToken b (more ++ rest) = some (t, rest) := by
  cases h with
  | mark known =>
    rename_i b
    have clear : ∀ mark ∈ marks, isSpace mark.1 = false ∧ marks.lookup mark.1 = some mark.2 := by
      decide
    obtain ⟨inked, found⟩ := clear _ known
    exact ⟨b, [], rfl, inked, by simp only [scanToken, found, List.nil_append]⟩
  | text well =>
    rename_i body
    refine ⟨0x22, body ++ [0x22], rfl, rfl, ?_⟩
    rw [scanToken_quote, List.append_assoc, List.singleton_append, scanText_complete well]
    rfl
  | integer negative well =>
    have number : Unsigned negative _ _ [] [] := ⟨well, .none, .none, rfl⟩
    have scanned := scanToken_number number (ends rfl)
    rwa [List.append_nil, List.append_nil] at scanned
  | fraction negative more well decimals exponent =>
    have number : Unsigned negative _ _ _ _ :=
      ⟨well, decimals, exponent, (if_pos (by simpa [or_iff_not_imp_left] using more)).symm⟩
    exact scanToken_number number (ends rfl)
  | word known => exact scanToken_word known rest

private theorem Lexes.space (space : isSpace b = true) (h : Lexes rest tokens) :
    Lexes (b :: rest) tokens := by
  intro steps seen enough
  cases steps with
  | zero => simp at enough
  | succ steps =>
    rw [tokensWithin, if_pos space]
    exact h steps seen (Nat.le_of_succ_le_succ enough)

private theorem Lexes.blank {blank : Bytes} (spaces : Blank blank) (h : Lexes rest tokens) :
    Lexes (blank ++ rest) tokens := by
  induction blank with
  | nil => exact h
  | cons b more ih =>
    obtain ⟨space, others⟩ := List.forall_mem_cons.mp spaces
    exact (ih others).space space

/-- Tokens that are spelled are scanned. -/
theorem Spelled.lexes (h : Spelled tokens bytes) (parted : Parted tokens) : Lexes bytes tokens := by
  induction h with
  | nil blank =>
    have scanned := Lexes.blank blank .nil
    rwa [List.append_nil] at scanned
  | cons blank lexeme others ih =>
    rename_i t tokens _ _ rest
    obtain ⟨apart, parted⟩ := List.isChain_cons.mp parted
    -- After a token that is no mark comes a blank, a mark or the end: a number goes on with none.
    have ends (unmarked : t.isMark = false) : EndsNumber rest :=
      others.endsNumber fun next first =>
        (apart next first).resolve_left (by rw [unmarked]; exact Bool.false_ne_true)
    obtain ⟨b, more, rfl, inked, scanned⟩ := scanToken_complete lexeme ends
    exact .blank blank (.cons inked scanned (by simp) (ih parted))

theorem tokens?_eq_some (parted : Parted tokens) :
    tokens? bytes = some tokens ↔ Spelled tokens bytes :=
  ⟨spelled_of_tokens?, fun h => (h.lexes parted).tokens?⟩

end Tokens

section Blanks
variable {bytes rest blank : Bytes} {t : Token} {tokens : List Token}

private theorem isSpace_of_isDigit {b : UInt8} (digit : isDigit b = true) : isSpace b = false :=
  (scanToken_digit digit []).1

/-- No spelling begins or ends with a blank. -/
private theorem Lexeme.inked {lexeme : Bytes} (h : Lexeme t lexeme) :
    (∃ b more, lexeme = b :: more ∧ isSpace b = false) ∧
      ∃ more b, lexeme = more ++ [b] ∧ isSpace b = false := by
  constructor
  · obtain ⟨b, more, same, inked, -⟩ := @scanToken_complete [] t lexeme h fun _ => trivial
    exact ⟨b, more, same, inked⟩
  · have digits (before : Bytes) {digits : Bytes} (well : Digits digits) :
        ∃ more b, before ++ digits = more ++ [b] ∧ isSpace b = false := by
      have parts := List.dropLast_append_getLast well.some
      refine ⟨before ++ digits.dropLast, digits.getLast well.some, ?_,
        isSpace_of_isDigit (well.all _ (List.getLast_mem well.some))⟩
      rw [List.append_assoc, parts]
    cases h with
    | mark known =>
      have clear : ∀ mark ∈ marks, isSpace mark.1 = false := by decide
      exact ⟨[], _, rfl, clear _ known⟩
    | text _ => exact ⟨0x22 :: _, 0x22, rfl, rfl⟩
    | integer negative well => exact digits _ well.toDigits
    | fraction negative more well fraction power =>
      rename_i whole decimals exponent
      cases power with
      | none =>
        cases fraction with
        | none => simp at more
        | some well =>
          have ends := digits (sign negative ++ (whole ++ [0x2E])) well
          simpa using ends
      | @unsigned letter _ _ well =>
        have ends := digits (sign negative ++ (whole ++ (decimals ++ [letter]))) well
        simpa using ends
      | @signed letter s _ _ _ well =>
        have ends := digits (sign negative ++ (whole ++ (decimals ++ [letter, s]))) well
        simpa using ends
    | word known =>
      simp only [words, List.mem_cons, Prod.mk.injEq, List.not_mem_nil, or_false] at known
      obtain ⟨rfl, rfl⟩ | ⟨rfl, rfl⟩ | ⟨rfl, rfl⟩ := known
      · exact ⟨[0x74, 0x72, 0x75], 0x65, rfl, rfl⟩
      · exact ⟨[0x66, 0x61, 0x6C, 0x73], 0x65, rfl, rfl⟩
      · exact ⟨[0x6E, 0x75, 0x6C], 0x6C, rfl, rfl⟩

private theorem Blank.append {more : Bytes} (h : Blank blank) (h' : Blank more) :
    Blank (blank ++ more) :=
  List.forall_mem_append.mpr ⟨h, h'⟩

theorem Spelled.blank_left (spaces : Blank blank) :
    Spelled tokens (blank ++ bytes) ↔ Spelled tokens bytes := by
  constructor
  · intro h
    generalize whole : blank ++ bytes = text at h
    cases h with
    | nil spaces' =>
      rw [← whole] at spaces'
      exact .nil (List.forall_mem_append.mp spaces').2
    | cons spaces' lexeme others =>
      rcases List.append_eq_append_iff.mp whole with ⟨more, rfl, same⟩ | ⟨more, rfl, same⟩
      · rw [same]
        exact .cons (List.forall_mem_append.mp spaces').2 lexeme others
      · cases more with
        | nil =>
          rw [← List.nil_append bytes, ← same]
          exact .cons blank_nil lexeme others
        | cons b more =>
          obtain ⟨⟨c, left, rfl, inked⟩, -⟩ := lexeme.inked
          have first : isSpace b = true := spaces b (by simp)
          rw [← (List.cons.inj same).1, inked] at first
          cases first
  · intro h
    cases h with
    | nil spaces' => exact .nil (spaces.append spaces')
    | cons spaces' lexeme others =>
      rw [← List.append_assoc]
      exact .cons (spaces.append spaces') lexeme others

theorem Spelled.blank_right (spaces : Blank blank) :
    Spelled tokens (bytes ++ blank) ↔ Spelled tokens bytes := by
  constructor
  · intro h
    generalize whole : bytes ++ blank = text at h
    induction h generalizing bytes with
    | nil spaces' =>
      rw [← whole] at spaces'
      exact .nil (List.forall_mem_append.mp spaces').1
    | @cons _ _ blank' lexeme' rest spaces' lexeme others ih =>
      rw [← List.append_assoc] at whole
      rcases List.append_eq_append_iff.mp whole with ⟨more, parts, same⟩ | ⟨more, rfl, same⟩
      -- The blanks cannot reach into the token, for it does not end with one.
      · obtain ⟨-, left, c, rfl, inked⟩ := lexeme.inked
        rcases List.eq_nil_or_concat' more with rfl | ⟨more, b, rfl⟩
        · have empty : Spelled _ [] := ih same
          rw [List.append_nil] at parts
          rw [← parts, ← List.append_nil (left ++ [c])]
          exact .cons spaces' lexeme empty
        · have last : isSpace b = true := spaces b (by simp [same])
          rw [← List.append_assoc, ← List.append_assoc] at parts
          have whose : c = b := by simpa using (List.append_inj' parts rfl).2
          rw [← whose, inked] at last
          cases last
      · rw [List.append_assoc]
        exact .cons spaces' lexeme (ih same.symm)
  · intro h
    induction h with
    | nil spaces' => exact .nil (spaces'.append spaces)
    | cons spaces' lexeme others ih =>
      rw [List.append_assoc, List.append_assoc]
      exact .cons spaces' lexeme ih

end Blanks
end DecryptorNode.Network.Json
