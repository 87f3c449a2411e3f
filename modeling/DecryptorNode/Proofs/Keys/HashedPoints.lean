import DecryptorNode.Keys.Epoch
import DecryptorNode.Keys.Signature
import DecryptorNode.Proofs.Curve.TrialSearch

/-! The points that messages and epochs hash to. Both kinds are found by the same search, and no
trial of the one hashes the bytes of a trial of the other: a domain, a counter and a message are
read off the bytes that are hashed. -/
namespace DecryptorNode.Keys
open Curve (FirstPoint hashToCurve? trialInput)

def hashDomains : List Bytes := [signatureDomain, epochDomain]

section Inputs
variable {domain domain' message message' : Bytes} {counter counter' : Nat}

/-- Where the two domains are both still in their common length, they differ. -/
theorem hashDomains_apart : ∀ d ∈ hashDomains, ∀ d' ∈ hashDomains,
    9 ≤ d.length ∧ (d.take 9 = d'.take 9 → d = d') := by
  decide +kernel

private theorem take_trialInput (long : 9 ≤ domain.length) :
    (trialInput domain message counter).take 9 = domain.take 9 := by
  rw [trialInput, List.append_assoc, List.take_append_of_le_length long]

private theorem counter_injective (small : counter < 2 ^ 32) (small' : counter' < 2 ^ 32)
    (h : Bytes.ofNat 4 counter = Bytes.ofNat 4 counter') : counter = counter' := by
  have same := congrArg Bytes.toNat h
  rwa [Bytes.toNat_ofNat, Bytes.toNat_ofNat, Nat.mod_eq_of_lt small,
    Nat.mod_eq_of_lt small'] at same

/-- The bytes of a trial tell its domain, its counter and its message. -/
theorem trialInput_injective (known : domain ∈ hashDomains) (known' : domain' ∈ hashDomains)
    (small : counter < 2 ^ 32) (small' : counter' < 2 ^ 32)
    (h : trialInput domain message counter = trialInput domain' message' counter') :
    domain = domain' ∧ counter = counter' ∧ message = message' := by
  obtain ⟨long, apart⟩ := hashDomains_apart domain known domain' known'
  obtain ⟨long', -⟩ := hashDomains_apart domain' known' domain known
  have front := congrArg (List.take 9) h
  rw [take_trialInput long, take_trialInput long'] at front
  have same := apart front
  subst same
  obtain ⟨numbered, rest⟩ := List.append_inj h (by simp)
  exact ⟨rfl, counter_injective small small' (List.append_cancel_left numbered), rest⟩

end Inputs

/-- The first point of a message is over its digest. -/
private theorem exists_digest_of_point {domain message : Bytes} {x y : Curve.Fp}
    (h : Curve.hashToCurve domain message = .affine x y) : ∃ counter < 2 ^ 32,
      x.val = Bytes.toNat (Keccak.digest (trialInput domain message counter)) %
        Curve.fieldModulus := by
  have finite : Curve.hashToCurve domain message ≠ .infinity := by
    rw [h]
    exact fun contra => by cases contra
  obtain ⟨counter, _, _, same, first⟩ :=
    Curve.hashToCurve?_eq_some_iff.mp (Curve.hashToCurve?_of_ne_infinity finite)
  rw [h] at same
  cases same
  exact ⟨counter, first.counted, first.coordinate⟩

/-- A message hashes to the point of its first counter that has one, and to no point only if no
counter has one. The trials of messages and epochs hash different bytes; so where a message and an
epoch hash to one point, two digests of different bytes agree modulo the order of the field. -/
theorem hashing_first_and_apart (domain message : Bytes) :
    (∀ p, hashToCurve? domain message = some p ↔
      ∃ counter x y, p = .affine x y ∧ FirstPoint domain message counter x y) ∧
    ((hashToCurve? domain message).isSome ↔ ∃ counter < 2 ^ 32, ∃ x y : Curve.Fp,
      x.val = Bytes.toNat (Keccak.digest (trialInput domain message counter)) %
        Curve.fieldModulus ∧ y * y = x * x * x + 3) ∧
    (∀ d ∈ hashDomains, ∀ d' ∈ hashDomains, ∀ c < 2 ^ 32, ∀ c' < 2 ^ 32, ∀ m m',
      trialInput d m c = trialInput d' m' c' → d = d' ∧ c = c' ∧ m = m') ∧
    ∀ signed (epoch : EpochId), messagePoint signed = epoch.point →
      messagePoint signed ≠ .infinity → ∃ c < 2 ^ 32, ∃ c' < 2 ^ 32,
        trialInput signatureDomain signed c ≠ trialInput epochDomain epoch.bytes c' ∧
        Bytes.toNat (Keccak.digest (trialInput signatureDomain signed c)) ≡
          Bytes.toNat (Keccak.digest (trialInput epochDomain epoch.bytes c'))
          [MOD Curve.fieldModulus] := by
  refine ⟨fun p => Curve.hashToCurve?_eq_some_iff, Curve.isSome_hashToCurve?_iff,
    fun d known d' known' c small c' small' m m' => trialInput_injective known known' small small',
    fun signed epoch coincide finite => ?_⟩
  cases point : messagePoint signed with
  | infinity => exact absurd point finite
  | affine x y =>
    obtain ⟨c, small, digest⟩ := exists_digest_of_point point
    obtain ⟨c', small', digest'⟩ := exists_digest_of_point (coincide.symm.trans point)
    refine ⟨c, small, c', small', fun same => ?_, digest.symm.trans digest'⟩
    have epochs : epochDomain ∈ hashDomains := List.mem_cons_of_mem _ List.mem_cons_self
    have one := (trialInput_injective List.mem_cons_self epochs small small' same).1
    exact absurd one (by decide +kernel)

end DecryptorNode.Keys
