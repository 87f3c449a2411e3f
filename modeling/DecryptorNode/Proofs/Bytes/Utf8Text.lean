import DecryptorNode.Bytes.Utf8

/-! Text and its bytes. What reads as characters is exactly what they are written as, so every text
has one written form and no other byte string reads as it. -/
namespace DecryptorNode.Utf8

def encode (chars : List Char) : Bytes := chars.flatMap String.utf8EncodeChar

theorem encode_cons (c : Char) (chars : List Char) :
    encode (c :: chars) = String.utf8EncodeChar c ++ encode chars :=
  List.flatMap_cons

section Numbers
variable {n : Nat}

def tail (n : Nat) : UInt8 := UInt8.ofNat (0x80 + n % 64)

theorem encodeNumber_one (h : n < 0x80) : encodeNumber n = [UInt8.ofNat n] := if_pos h

theorem encodeNumber_two (least : 0x80 ≤ n) (h : n < 0x800) :
    encodeNumber n = [UInt8.ofNat (0xC0 + n / 64), tail n] := by
  simp only [encodeNumber, if_neg (Nat.not_lt.mpr least), if_pos h, tail]

theorem encodeNumber_three (least : 0x800 ≤ n) (h : n < 0x10000) :
    encodeNumber n = [UInt8.ofNat (0xE0 + n / 4096), tail (n / 64), tail n] := by
  have more : ¬ n < 0x80 := by omega
  simp only [encodeNumber, if_neg more, if_neg (Nat.not_lt.mpr least), if_pos h, tail]

theorem encodeNumber_four (least : 0x10000 ≤ n) : encodeNumber n =
    [UInt8.ofNat (0xF0 + n / 262144), tail (n / 4096), tail (n / 64), tail n] := by
  have more : ¬ n < 0x80 := by omega
  have more' : ¬ n < 0x800 := by omega
  simp only [encodeNumber, if_neg more, if_neg more', if_neg (Nat.not_lt.mpr least), tail]

end Numbers

theorem toNat_lt (c : Char) : c.toNat < 0x110000 := by
  rcases c.valid with low | high
  · exact Nat.lt_trans low (by decide)
  · exact high.2

/-- The two ways to write a character agree. -/
theorem encodeNumber_toNat (c : Char) : encodeNumber c.toNat = String.utf8EncodeChar c := by
  have top := toNat_lt c
  have continued (k : Nat) : UInt8.ofNat (k % 64 + 128) = tail k := by rw [tail, Nat.add_comm]
  have written : String.utf8EncodeChar c =
      if c.toNat ≤ 127 then [UInt8.ofNat c.toNat]
      else if c.toNat ≤ 2047 then [UInt8.ofNat (c.toNat / 64 % 32 + 192), tail c.toNat]
      else if c.toNat ≤ 65535 then
        [UInt8.ofNat (c.toNat / 4096 % 16 + 224), tail (c.toNat / 64), tail c.toNat]
      else [UInt8.ofNat (c.toNat / 262144 % 8 + 240), tail (c.toNat / 4096),
        tail (c.toNat / 64), tail c.toNat] := by
    simp only [← continued]
    rfl
  rw [written]
  by_cases one : c.toNat < 0x80
  · rw [encodeNumber_one one, if_pos (by omega)]
  · by_cases two : c.toNat < 0x800
    · have lead : c.toNat / 64 % 32 + 192 = 0xC0 + c.toNat / 64 := by omega
      rw [encodeNumber_two (by omega) two, if_neg (by omega), if_pos (by omega), lead]
    · by_cases three : c.toNat < 0x10000
      · have lead : c.toNat / 4096 % 16 + 224 = 0xE0 + c.toNat / 4096 := by omega
        rw [encodeNumber_three (by omega) three, if_neg (by omega), if_neg (by omega),
          if_pos (by omega), lead]
      · have lead : c.toNat / 262144 % 8 + 240 = 0xF0 + c.toNat / 262144 := by omega
        rw [encodeNumber_four (by omega), if_neg (by omega), if_neg (by omega),
          if_neg (by omega), lead]

private theorem charFrom?_eq_some {least n : Nat} {c : Char} :
    charFrom? least n = some c ↔ c.toNat = n ∧ least ≤ n := by
  unfold charFrom?
  constructor
  · intro h
    obtain ⟨⟨valid, enough⟩, same⟩ := Option.dite_none_right_eq_some.mp h
    cases same
    exact ⟨UInt32.toNat_ofNatLT .., enough⟩
  · rintro ⟨rfl, enough⟩
    rw [dif_pos ⟨c.valid, enough⟩]
    rfl

section Tails
variable {b : UInt8}

theorem isTail_iff : isTail b = true ↔ 0x80 ≤ b.toNat ∧ b.toNat ≤ 0xBF := by
  simp [isTail, UInt8.le_iff_toNat_le]

private theorem toNat_tail (n : Nat) : (tail n).toNat = 0x80 + n % 64 :=
  UInt8.toNat_ofNat_of_lt' (by
    have := Nat.mod_lt n (show 64 > 0 by decide)
    change _ < 256
    omega)

theorem isTail_tail (n : Nat) : isTail (tail n) = true := by
  rw [isTail_iff, toNat_tail]
  omega

private theorem tailBits_tail (n : Nat) : tailBits (tail n) = n % 64 := by
  rw [tailBits, toNat_tail]
  omega

private theorem tail_eq (h : isTail b = true) {n : Nat} (bits : n % 64 = tailBits b) :
    tail n = b := by
  rw [isTail_iff] at h
  rw [tailBits] at bits
  rw [← UInt8.toNat_inj, toNat_tail]
  omega

end Tails

private theorem decode?_cons (a : UInt8) (rest : Bytes) : decode? (a :: rest) = if a < 0x80 then
    (charFrom? 0 a.toNat).bind fun c => (decode? rest).map (c :: ·)
  else if a < 0xE0 then match rest with
    | b :: rest => if isTail b then
        (charFrom? 0x80 ((a.toNat - 0xC0) * 64 + tailBits b)).bind fun c =>
          (decode? rest).map (c :: ·)
      else none
    | _ => none
  else if a < 0xF0 then match rest with
    | b :: c :: rest => if isTail b && isTail c then
        (charFrom? 0x800 ((a.toNat - 0xE0) * 4096 + tailBits b * 64 + tailBits c)).bind fun c =>
          (decode? rest).map (c :: ·)
      else none
    | _ => none
  else match rest with
    | b :: c :: d :: rest => if a < 0xF8 && isTail b && isTail c && isTail d then
        (charFrom? 0x10000 ((a.toNat - 0xF0) * 262144 + tailBits b * 4096 + tailBits c * 64 +
          tailBits d)).bind fun c => (decode? rest).map (c :: ·)
      else none
    | _ => none := by
  rw [decode?.eq_def]
  simp only [Option.bind_eq_bind, Option.map_eq_bind]
  rfl

/-- A written character is read off the front. -/
theorem decode?_append (c : Char) (rest : Bytes) :
    decode? (String.utf8EncodeChar c ++ rest) = (decode? rest).map (c :: ·) := by
  have top := toNat_lt c
  have lead {k : Nat} (h : k < 256) : (UInt8.ofNat k).toNat = k := UInt8.toNat_ofNat_of_lt' h
  have read {least n : Nat} (same : n = c.toNat) (h : least ≤ c.toNat) :
      charFrom? least n = some c := charFrom?_eq_some.mpr ⟨same.symm, by omega⟩
  rw [← encodeNumber_toNat]
  by_cases one : c.toNat < 0x80
  · rw [encodeNumber_one one, List.singleton_append, decode?_cons,
      if_pos (by rw [UInt8.lt_iff_toNat_lt, lead (by omega)]; exact one), lead (by omega),
      read rfl (Nat.zero_le _), Option.bind_some]
  · by_cases two : c.toNat < 0x800
    · have size := lead (k := 0xC0 + c.toNat / 64) (by omega)
      rw [encodeNumber_two (by omega) two, List.cons_append, List.singleton_append, decode?_cons]
      simp only [UInt8.lt_iff_toNat_lt, size, isTail_tail, tailBits_tail, if_true]
      rw [if_neg (by change ¬ _ < 0x80; omega), if_pos (by change _ < 0xE0; omega),
        read (by omega) (by omega), Option.bind_some]
    · by_cases three : c.toNat < 0x10000
      · have size := lead (k := 0xE0 + c.toNat / 4096) (by omega)
        rw [encodeNumber_three (by omega) three, List.cons_append, List.cons_append,
          List.singleton_append, decode?_cons]
        simp only [UInt8.lt_iff_toNat_lt, size, isTail_tail, tailBits_tail, Bool.and_self, if_true]
        rw [if_neg (by change ¬ _ < 0x80; omega), if_neg (by change ¬ _ < 0xE0; omega),
          if_pos (by change _ < 0xF0; omega), read (by omega) (by omega), Option.bind_some]
      · have size := lead (k := 0xF0 + c.toNat / 262144) (by omega)
        rw [encodeNumber_four (by omega), List.cons_append, List.cons_append, List.cons_append,
          List.singleton_append, decode?_cons]
        simp only [UInt8.lt_iff_toNat_lt, size, isTail_tail, tailBits_tail, Bool.and_true]
        have long : 0xF0 + c.toNat / 262144 < UInt8.toNat 0xF8 := by change _ < 0xF8; omega
        rw [if_neg (by change ¬ _ < 0x80; omega), if_neg (by change ¬ _ < 0xE0; omega),
          if_neg (by change ¬ _ < 0xF0; omega), if_pos (decide_eq_true long),
          read (by omega) (by omega), Option.bind_some]

/-- What reads as characters begins with the first of them. -/
private theorem exists_of_decode?_cons {a : UInt8} {rest : Bytes} {chars : List Char}
    (h : decode? (a :: rest) = some chars) : ∃ c left others,
      a :: rest = String.utf8EncodeChar c ++ left ∧ chars = c :: others ∧
        decode? left = some others := by
  have lead {k : Nat} (same : k = a.toNat) : UInt8.ofNat k = a := by rw [same, UInt8.ofNat_toNat]
  have bits (b : UInt8) : tailBits b < 64 := Nat.mod_lt _ (by decide)
  have found {least n : Nat} {left : Bytes}
      (h : ((charFrom? least n).bind fun c => (decode? left).map (c :: ·)) = some chars)
      (begins : least ≤ n → a :: rest = encodeNumber n ++ left) :
      ∃ c left others, a :: rest = String.utf8EncodeChar c ++ left ∧ chars = c :: others ∧
        decode? left = some others := by
    obtain ⟨c, read, h⟩ := Option.bind_eq_some_iff.mp h
    obtain ⟨others, decoded, rfl⟩ := Option.map_eq_some_iff.mp h
    obtain ⟨rfl, enough⟩ := charFrom?_eq_some.mp read
    exact ⟨c, left, others, by rw [begins enough, encodeNumber_toNat], rfl, decoded⟩
  -- The least number for each length rules out forms that are longer than needed.
  rw [decode?_cons] at h
  by_cases one : a < 0x80
  · rw [if_pos one] at h
    refine found h fun _ => ?_
    rw [encodeNumber_one (UInt8.lt_iff_toNat_lt.mp one), UInt8.ofNat_toNat, List.singleton_append]
  rw [if_neg one] at h
  rw [UInt8.lt_iff_toNat_lt] at one
  change ¬ a.toNat < 0x80 at one
  by_cases two : a < 0xE0
  · rw [if_pos two] at h
    replace two : a.toNat < 0xE0 := UInt8.lt_iff_toNat_lt.mp two
    match rest, h with
    | b :: left, h =>
      obtain ⟨tail₁, h⟩ := Option.ite_none_right_eq_some.mp h
      refine found h fun least => ?_
      have := bits b
      rw [encodeNumber_two least (by omega), lead (by omega), tail_eq tail₁ (by omega)]
      rfl
  rw [if_neg two] at h
  rw [UInt8.lt_iff_toNat_lt] at two
  change ¬ a.toNat < 0xE0 at two
  by_cases three : a < 0xF0
  · rw [if_pos three] at h
    replace three : a.toNat < 0xF0 := UInt8.lt_iff_toNat_lt.mp three
    match rest, h with
    | b :: c :: left, h =>
      obtain ⟨tails, h⟩ := Option.ite_none_right_eq_some.mp h
      obtain ⟨tail₁, tail₂⟩ := Bool.and_eq_true_iff.mp tails
      refine found h fun least => ?_
      have := bits b
      have := bits c
      rw [encodeNumber_three least (by omega), lead (by omega), tail_eq tail₁ (by omega),
        tail_eq tail₂ (by omega)]
      rfl
  rw [if_neg three] at h
  rw [UInt8.lt_iff_toNat_lt] at three
  change ¬ a.toNat < 0xF0 at three
  match rest, h with
  | b :: c :: d :: left, h =>
    obtain ⟨tails, h⟩ := Option.ite_none_right_eq_some.mp h
    simp only [Bool.and_eq_true, decide_eq_true_eq] at tails
    obtain ⟨⟨⟨four, tail₁⟩, tail₂⟩, tail₃⟩ := tails
    replace four : a.toNat < 0xF8 := UInt8.lt_iff_toNat_lt.mp four
    refine found h fun least => ?_
    have := bits b
    have := bits c
    have := bits d
    rw [encodeNumber_four least, lead (by omega), tail_eq tail₁ (by omega),
      tail_eq tail₂ (by omega), tail_eq tail₃ (by omega)]
    rfl

/-- Reading is the inverse of writing, on all byte strings. -/
theorem decode?_eq_some {bytes : Bytes} {chars : List Char} :
    decode? bytes = some chars ↔ bytes = encode chars := by
  induction chars generalizing bytes with
  | nil =>
    constructor
    · intro h
      cases bytes with
      | nil => rfl
      | cons a rest =>
        obtain ⟨c, left, others, -, impossible, -⟩ := exists_of_decode?_cons h
        cases impossible
    · rintro rfl
      rfl
  | cons c others ih =>
    constructor
    · intro h
      cases bytes with
      | nil => cases h
      | cons a rest =>
        obtain ⟨_, left, _, begins, same, decoded⟩ := exists_of_decode?_cons h
        cases same
        rw [begins, ih.mp decoded, encode_cons]
    · rintro rfl
      rw [encode_cons, decode?_append, ih.mpr rfl, Option.map_some]

end DecryptorNode.Utf8
