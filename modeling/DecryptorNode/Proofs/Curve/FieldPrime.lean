import DecryptorNode.Bytes
import DecryptorNode.Curve.Group
import Mathlib.Data.List.Prime
import Mathlib.FieldTheory.Finite.Basic
import Mathlib.NumberTheory.LucasPrimality
import Mathlib.Tactic.NormNum.Prime

/-! The order of the base field is prime, and minus three is no cube in the field, so no point of
the curve has zero as its second coordinate. -/
namespace DecryptorNode.Curve

section Power
variable {M : Type} [Monoid M]

private theorem powerBits_eq_pow (bits : Nat) (a : M) {n : Nat} (h : n < 2 ^ bits) :
    powerBits bits a n = a ^ n := by
  induction bits generalizing a n with
  | zero =>
    obtain rfl : n = 0 := Nat.lt_one_iff.mp h
    exact (pow_zero a).symm
  | succ bits ih =>
    have half : n / 2 < 2 ^ bits := by
      rw [Nat.pow_succ] at h
      omega
    rw [powerBits, ih (a * a) half, ← pow_two, ← pow_mul]
    split
    · rename_i odd
      rw [← pow_succ]
      exact congrArg (a ^ ·) (by omega)
    · rename_i even
      exact congrArg (a ^ ·) (by omega)

theorem power_eq_pow (a : M) (n : Nat) : power a n = a ^ n :=
  powerBits_eq_pow _ a Nat.lt_log2_self

end Power

/-- What Lucas's test needs to know of a number: one less than the number with its prime factors
and their exponents, and a residue of that order. -/
structure Lucas where
  pred : Nat
  root : Nat
  factors : List (Nat × Nat)

namespace Lucas

/-- The test, by factors that are known to be primes. -/
def Passes (primes : List Nat) (c : Lucas) : Prop :=
  (∀ f ∈ c.factors, f.1 ∈ primes) ∧ (c.factors.map fun f => f.1 ^ f.2).prod = c.pred ∧
    power (c.root : ZMod (c.pred + 1)) c.pred = 1 ∧
    ∀ f ∈ c.factors, power (c.root : ZMod (c.pred + 1)) (c.pred / f.1) ≠ 1

instance (primes : List Nat) (c : Lucas) : Decidable (c.Passes primes) :=
  inferInstanceAs (Decidable (_ ∧ _))

def Chain : List Nat → List Lucas → Prop
  | _, [] => True
  | primes, c :: rest => c.Passes primes ∧ Chain ((c.pred + 1) :: primes) rest

instance decidableChain : (primes : List Nat) → (chain : List Lucas) →
    Decidable (Chain primes chain)
  | _, [] => inferInstanceAs (Decidable True)
  | primes, c :: rest =>
    have := decidableChain ((c.pred + 1) :: primes) rest
    inferInstanceAs (Decidable (_ ∧ _))

private theorem Passes.prime {primes : List Nat} {c : Lucas} (h : c.Passes primes)
    (known : ∀ q ∈ primes, q.Prime) : (c.pred + 1).Prime := by
  obtain ⟨proved, product, whole, parts⟩ := h
  refine lucas_primality (c.pred + 1) (c.root : ZMod (c.pred + 1)) ?_ fun q prime divides => ?_
  · rw [Nat.add_sub_cancel, ← power_eq_pow]
    exact whole
  · rw [Nat.add_sub_cancel] at divides ⊢
    rw [← product] at divides
    obtain ⟨_, mem, divides⟩ := (Prime.dvd_prod_iff prime.prime).mp divides
    obtain ⟨f, factor, rfl⟩ := List.mem_map.mp mem
    have same : q = f.1 := (Nat.prime_dvd_prime_iff_eq prime (known _ (proved f factor))).mp
      (prime.dvd_of_dvd_pow divides)
    rw [same, ← power_eq_pow]
    exact parts f factor

theorem Chain.prime {primes : List Nat} {chain : List Lucas} (h : Chain primes chain)
    (known : ∀ q ∈ primes, q.Prime) : ∀ c ∈ chain, (c.pred + 1).Prime := by
  induction chain generalizing primes with
  | nil => exact fun c mem => by cases mem
  | cons c rest ih =>
    obtain ⟨first, others⟩ := h
    have prime := first.prime known
    intro d mem
    rcases List.mem_cons.mp mem with rfl | later
    · exact prime
    · exact ih others (List.forall_mem_cons.mpr ⟨prime, known⟩) d later

end Lucas

def smallPrimes : List Nat :=
  [2, 3, 5, 7, 11, 13, 17, 19, 29, 31, 37, 41, 47, 67, 73, 83, 89, 107, 109, 127, 223, 229, 233,
    271, 311, 379, 449, 661, 823, 853, 911, 983, 1231, 1637, 11003]

theorem prime_of_mem_smallPrimes : ∀ q ∈ smallPrimes, q.Prime := by
  unfold smallPrimes
  simp only [List.forall_mem_cons, List.not_mem_nil, false_imp_iff, implies_true, and_true]
  norm_num

/-- The other primes on which the order of the field rests, each after those that prove it. -/
def fieldChain : { chain : List Lucas // Lucas.Chain smallPrimes chain } :=
  ⟨[⟨2220, 2, [(2, 2), (3, 1), (5, 1), (37, 1)]⟩,
    ⟨3556, 2, [(2, 2), (7, 1), (127, 1)]⟩,
    ⟨3690, 2, [(2, 1), (3, 2), (5, 1), (41, 1)]⟩,
    ⟨4998, 3, [(2, 1), (3, 1), (7, 2), (17, 1)]⟩,
    ⟨13326, 3, [(2, 1), (3, 1), (2221, 1)]⟩,
    ⟨327598, 19, [(2, 1), (19, 1), (37, 1), (233, 1)]⟩,
    ⟨1853640, 17, [(2, 3), (3, 2), (5, 1), (19, 1), (271, 1)]⟩,
    ⟨4562086, 5, [(2, 1), (17, 1), (109, 1), (1231, 1)]⟩,
    ⟨173171038, 13, [(2, 1), (73, 1), (89, 1), (13327, 1)]⟩,
    ⟨405928798, 22, [(2, 1), (11, 1), (3691, 1), (4999, 1)]⟩,
    ⟨1263766530, 10, [(2, 1), (3, 1), (5, 1), (13, 1), (911, 1), (3557, 1)]⟩,
    ⟨35385462868, 2, [(2, 2), (7, 1), (1263766531, 1)]⟩,
    ⟨11465965000, 3, [(2, 3), (5, 4), (7, 1), (327599, 1)]⟩,
    ⟨2480874801745590, 6, [(2, 1), (3, 2), (5, 1), (19, 1), (41, 1), (35385462869, 1)]⟩,
    ⟨13427688667394608761327070753331941386768, 17,
      [(2, 4), (3, 1), (7, 1), (11, 1), (1853641, 1), (4562087, 1), (173171039, 1),
        (2480874801745591, 1)]⟩,
    ⟨fieldModulus - 1, 3,
      [(2, 1), (3, 2), (13, 1), (29, 1), (67, 1), (229, 1), (311, 1), (983, 1), (11003, 1),
        (405928799, 1), (11465965001, 1), (13427688667394608761327070753331941386769, 1)]⟩],
    by decide +kernel⟩

private theorem prime_fieldModulus : fieldModulus.Prime :=
  fieldChain.property.prime prime_of_mem_smallPrimes ⟨fieldModulus - 1, 3, _⟩
    (List.mem_of_getLast? rfl)

instance : Fact fieldModulus.Prime := ⟨prime_fieldModulus⟩

/-- The third part of the exponent that takes every residue to one tells cubes from others. -/
private theorem power_minus_three :
    power (-3 : ZMod fieldModulus) ((fieldModulus - 1) / 3) ≠ 1 := by
  decide +kernel

private theorem cube_add_three_ne_zero (x : ZMod fieldModulus) : x * x * x + 3 ≠ 0 := by
  intro zero
  have nonzero : x ≠ 0 := by
    rintro rfl
    exact absurd zero (by decide +kernel)
  have cube : x ^ 3 = -3 := by
    rw [pow_succ, pow_two]
    exact eq_neg_of_add_eq_zero_left zero
  refine power_minus_three ?_
  rw [power_eq_pow, ← cube, ← pow_mul]
  exact ZMod.pow_card_sub_one_eq_one nonzero

/-- No point of the curve is its own opposite but infinity. -/
theorem G1.rightSide_ne_zero (x : Fp) : G1.rightSide x ≠ 0 := cube_add_three_ne_zero x

end DecryptorNode.Curve
