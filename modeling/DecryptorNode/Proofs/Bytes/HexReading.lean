import DecryptorNode.Proofs.Bytes.AsciiText

/-! What reads as hexadecimal text: the written form of the bytes, and the same with some letters as
capitals, and nothing else. -/
namespace DecryptorNode.Hex

/-- A digit with its value, in either case, is one that is written for it in lowercase. -/
theorem value?_eq_some {c : Char} {n : Nat} :
    value? c = some n ↔ n < 16 ∧ c.toLower = digit n := by
  have ascii : ∀ k < 128, (∀ n < 16, value? (Char.ofNat k) = some n ↔
      (Char.ofNat k).toLower = digit n) ∧ ∀ n ∈ value? (Char.ofNat k), n < 16 := by
    decide +kernel
  -- Characters from 128 on are no digits and have no other case here.
  by_cases small : c.toNat < 128
  · obtain ⟨same, bound⟩ := ascii c.toNat small
    rw [Char.ofNat_toNat] at same bound
    exact ⟨fun h => ⟨bound n h, (same n (bound n h)).mp h⟩, fun ⟨below, h⟩ => (same n below).mpr h⟩
  · have beyond (d : Char) (h : d.toNat < 128) : ¬ c ≤ d := by
      rw [Char.le_def, UInt32.le_iff_toNat_le]
      exact fun below => small (Nat.lt_of_le_of_lt below h)
    have refused : value? c = none := by
      simp only [value?, beyond '9' (by decide), beyond 'f' (by decide), beyond 'F' (by decide),
        and_false, if_false]
    have kept : c.toLower = c := dif_neg fun capital =>
      beyond 'Z' (by decide) (Char.le_def.mpr capital.2)
    have digits : ∀ n < 16, (digit n).toNat < 128 := by decide
    rw [refused, kept]
    constructor
    · intro h
      cases h
    · rintro ⟨below, rfl⟩
      exact absurd (digits n below) small

/-- Text reads as the bytes whose written form it is, up to the case of the letters. -/
theorem decode_eq_some {chars : List Char} {bytes : Bytes} :
    decode chars = some bytes ↔ chars.map Char.toLower = encode bytes := by
  fun_induction decode chars generalizing bytes with
  | case1 => cases bytes <;> simp [encode]
  | case2 c => cases bytes <;> simp [encode]
  | case3 high low rest ih =>
    simp only [Option.bind_eq_bind, Option.bind_eq_some_iff]
    constructor
    · rintro ⟨h, first, l, second, others, read, same⟩
      cases same
      obtain ⟨small, first⟩ := value?_eq_some.mp first
      obtain ⟨small', second⟩ := value?_eq_some.mp second
      have whole : (UInt8.ofNat (16 * h + l)).toNat = 16 * h + l :=
        UInt8.toNat_ofNat_of_lt' (by change _ < 256; omega)
      have high' : (16 * h + l) / 16 = h := by omega
      have low' : (16 * h + l) % 16 = l := by omega
      rw [encode, whole, high', low', List.map_cons, List.map_cons, first, second, ih.mp read]
    · intro h
      cases bytes with
      | nil => cases h
      | cons b others =>
        obtain ⟨first, h⟩ := List.cons.inj h
        obtain ⟨second, h⟩ := List.cons.inj h
        have whole : 16 * (b.toNat / 16) + b.toNat % 16 = b.toNat := Nat.div_add_mod _ _
        refine ⟨_, value?_eq_some.mpr ⟨high_lt b, first⟩, _,
          value?_eq_some.mpr ⟨low_lt b, second⟩, others, ih.mpr h, ?_⟩
        rw [whole, UInt8.ofNat_toNat]
        rfl

def IsDigit (c : Char) : Prop := ('0' ≤ c ∧ c ≤ '9') ∨ ('a' ≤ c ∧ c ≤ 'f') ∨ ('A' ≤ c ∧ c ≤ 'F')

private theorem exists_value? {c : Char} : (∃ n, value? c = some n) ↔ IsDigit c := by
  unfold value? IsDigit
  by_cases decimal : '0' ≤ c ∧ c ≤ '9'
  · simp [decimal]
  · by_cases small : 'a' ≤ c ∧ c ≤ 'f'
    · simp [decimal, small]
    · by_cases capital : 'A' ≤ c ∧ c ≤ 'F' <;> simp [decimal, small, capital]

instance (c : Char) : Decidable (IsDigit c) := inferInstanceAs (Decidable (_ ∨ _))

/-- What reads as a number of bytes: two digits for each. -/
theorem exists_decode {chars : List Char} {n : Nat} :
    (∃ bytes, decode chars = some bytes ∧ bytes.length = n) ↔
      chars.length = 2 * n ∧ ∀ c ∈ chars, IsDigit c := by
  fun_induction decode chars generalizing n with
  | case1 => cases n <;> simp
  | case2 c =>
    simp only [reduceCtorEq, false_and, exists_false, List.length_singleton, false_iff]
    omega
  | case3 high low rest ih =>
    simp only [Option.bind_eq_bind, Option.bind_eq_some_iff]
    constructor
    · rintro ⟨bytes, ⟨h, first, l, second, others, read, same⟩, size⟩
      cases same
      obtain ⟨even, digits⟩ := ih.mp ⟨others, read, rfl⟩
      constructor
      · simp only [List.length_cons] at size ⊢
        omega
      · rw [List.forall_mem_cons, List.forall_mem_cons]
        exact ⟨exists_value?.mp ⟨h, first⟩, exists_value?.mp ⟨l, second⟩, digits⟩
    · rintro ⟨size, digits⟩
      rw [List.forall_mem_cons, List.forall_mem_cons] at digits
      obtain ⟨⟨h, first⟩, ⟨l, second⟩, digits⟩ :=
        And.imp exists_value?.mpr (And.imp_left exists_value?.mpr) digits
      cases n with
      | zero => simp at size
      | succ n =>
        simp only [List.length_cons] at size
        obtain ⟨others, read, long⟩ := (ih (n := n)).mpr ⟨by omega, digits⟩
        exact ⟨_, ⟨h, first, l, second, others, read, rfl⟩, congrArg (· + 1) long⟩

end DecryptorNode.Hex
