import DecryptorNode.Proofs.Curve.CanonicalPoints
import DecryptorNode.Proofs.Keys.UnitKey

/-! The keys and signatures that travel as compressed points have one encoding each. What they are
read from begins with that encoding, and what follows it is not part of them. Only a released key
may be the neutral point; it alone is read from many encodings. -/
namespace DecryptorNode.Keys
open Curve (Fp G1 G2 Point)

/-- A kind of values that travel as compressed points, with both directions of the encoding. -/
structure PointFormat where
  {F κ : Type}
  size : Nat
  ofBytes : Bytes → Except KeyError κ
  toBytes : κ → Bytes
  point : κ → Point F

namespace PointFormat

def blsPublicKey : PointFormat :=
  ⟨64, BlsPublicKey.ofBytes, BlsPublicKey.toBytes, BlsPublicKey.point⟩

def eonPublicKey : PointFormat :=
  ⟨64, EonPublicKey.ofBytes, EonPublicKey.toBytes, EonPublicKey.point⟩

def blsSignature : PointFormat :=
  ⟨32, BlsSignature.ofBytes, BlsSignature.toBytes, BlsSignature.point⟩

def epochSecretKey : PointFormat :=
  ⟨32, EpochSecretKey.ofBytes, EpochSecretKey.toBytes, EpochSecretKey.point⟩

variable (f : PointFormat)

/-- The bytes are accepted, as a value that is not the neutral point. -/
def Reads (bytes : Bytes) (key : f.κ) : Prop := f.ofBytes bytes = .ok key ∧ f.point key ≠ .infinity

/-- The neutral point is never accepted. -/
def Finite : Prop := ∀ bytes key, f.ofBytes bytes = .ok key → f.point key ≠ .infinity

/-- There is one way to write a value, and every other way to send it only adds to that. -/
structure Canonical : Prop where
  accepts : ∃ bytes key, f.Reads bytes key
  leading : ∀ bytes key, f.Reads bytes key → f.toBytes key = bytes.take f.size
  length : ∀ key, (f.toBytes key).length = f.size
  reads_leading : ∀ bytes key, f.Reads bytes key → f.ofBytes (bytes.take f.size) = .ok key
  agree : ∀ bytes bytes' key key', f.Reads bytes key → f.ofBytes bytes' = .ok key' →
    (key = key' ↔ bytes.take f.size = bytes'.take f.size)
  idempotent : ∀ bytes key, f.ofBytes bytes = .ok key → f.ofBytes (f.toBytes key) = .ok key

variable {f}

/-- All of it follows where the finite values are read from the bytes that begin with their
encoding. The neutral point has to be looked at apart. -/
private theorem canonical_of_reads_iff (valid : f.κ → Prop)
    (reads_iff : ∀ {bytes key}, f.Reads bytes key ↔ valid key ∧ bytes.take f.size = f.toBytes key)
    (length : ∀ key, (f.toBytes key).length = f.size) (accepts : ∃ key, valid key)
    (neutral : ∀ {bytes key}, f.ofBytes bytes = .ok key → f.point key = .infinity →
      f.ofBytes (f.toBytes key) = .ok key) :
    f.Canonical := by
  have whole (key : f.κ) : (f.toBytes key).take f.size = f.toBytes key :=
    List.take_of_length_le (length key).le
  constructor
  case accepts =>
    obtain ⟨key, good⟩ := accepts
    exact ⟨f.toBytes key, key, reads_iff.mpr ⟨good, whole key⟩⟩
  case leading =>
    intro bytes key read
    exact (reads_iff.mp read).2.symm
  case length => exact length
  case reads_leading =>
    intro bytes key read
    obtain ⟨good, leading⟩ := reads_iff.mp read
    exact (reads_iff.mpr ⟨good, by rwa [List.take_take, Nat.min_self]⟩).1
  case agree =>
    intro bytes bytes' key key' read read'
    obtain ⟨good, leading⟩ := reads_iff.mp read
    constructor
    · rintro rfl
      rw [leading, (reads_iff.mp ⟨read', read.2⟩).2]
    · intro same
      have again : f.Reads bytes' key := reads_iff.mpr ⟨good, same ▸ leading⟩
      exact Except.ok.inj (again.1.symm.trans read')
  case idempotent =>
    intro bytes key read
    by_cases finite : f.point key = .infinity
    · exact neutral read finite
    · exact (reads_iff.mpr ⟨(reads_iff.mp ⟨read, finite⟩).1, whole key⟩).1

/-- The kinds that must not be neutral are read from what decodes to a finite point. -/
private theorem finite_and_canonical (decode : Bytes → Except Curve.DecodeError (Point f.F))
    (valid : f.κ → Prop)
    (ofBytes_eq_ok : ∀ {bytes key}, f.ofBytes bytes = .ok key ↔
      decode bytes = .ok (f.point key) ∧ f.point key ≠ .infinity)
    (decode_iff : ∀ {bytes key},
      (decode bytes = .ok (f.point key) ∧ f.point key ≠ .infinity) ↔
        valid key ∧ bytes.take f.size = f.toBytes key)
    (length : ∀ key, (f.toBytes key).length = f.size) (accepts : ∃ key, valid key) :
    f.Finite ∧ f.Canonical := by
  have finite : f.Finite := fun _ _ read => (ofBytes_eq_ok.mp read).2
  refine ⟨finite, canonical_of_reads_iff valid ?_ length accepts ?_⟩
  · intro bytes key
    rw [Reads, and_iff_left_of_imp (finite bytes key), ofBytes_eq_ok, decode_iff]
  · intro bytes key read neutral
    exact absurd neutral (finite bytes key read)

private theorem blsPublicKey_canonical : blsPublicKey.Finite ∧ blsPublicKey.Canonical :=
  finite_and_canonical G2.decode (fun key => key.point.HasGroupOrder G2.constant)
    BlsPublicKey.ofBytes_eq_ok G2.decode_finite_iff (fun key => G2.length_encode key.point)
    ⟨⟨G2.generator⟩, G2.hasGroupOrder_generator⟩

private theorem eonPublicKey_canonical : eonPublicKey.Finite ∧ eonPublicKey.Canonical :=
  finite_and_canonical G2.decode (fun key => key.point.HasGroupOrder G2.constant)
    EonPublicKey.ofBytes_eq_ok G2.decode_finite_iff (fun key => G2.length_encode key.point)
    ⟨⟨G2.generator⟩, G2.hasGroupOrder_generator⟩

private theorem blsSignature_canonical : blsSignature.Finite ∧ blsSignature.Canonical :=
  finite_and_canonical G1.decode (fun key => key.point.HasGroupOrder G1.constant)
    BlsSignature.ofBytes_eq_ok G1.decode_finite_iff (fun key => G1.length_encode key.point)
    ⟨⟨.affine 1 2⟩, G1.hasGroupOrder_one_two⟩

/-- Behind the mark of infinity any coordinate is read as the neutral key. -/
private theorem ofBytes_eq_neutral_iff {bytes : Bytes} :
    EpochSecretKey.ofBytes bytes = .ok ⟨.infinity⟩ ↔
      ∃ x, bytes.take 32 = Curve.writeFlagged x .infinity :=
  EpochSecretKey.ofBytes_eq_ok.trans G1.decode_eq_infinity_iff

private theorem epochSecretKey_canonical : epochSecretKey.Canonical := by
  refine canonical_of_reads_iff (fun key => key.point.HasGroupOrder G1.constant)
    ?_ (fun key => G1.length_encode key.point) ⟨⟨.affine 1 2⟩, G1.hasGroupOrder_one_two⟩ ?_
  · intro bytes key
    exact (and_congr_left' EpochSecretKey.ofBytes_eq_ok).trans G1.decode_finite_iff
  · intro bytes key _ neutral
    have same : key = ⟨.infinity⟩ := congrArg EpochSecretKey.mk neutral
    subst same
    refine ofBytes_eq_neutral_iff.mpr ⟨0, ?_⟩
    exact List.take_of_length_le (G1.length_encode .infinity).le

end PointFormat

/-- Each kind has one encoding for a finite value. The neutral point is accepted as a released key
only, from every coordinate that the mark of infinity can stand beside, and is written as one of
these encodings. -/
theorem encodings_canonical :
    (PointFormat.blsPublicKey.Finite ∧ PointFormat.blsPublicKey.Canonical) ∧
    (PointFormat.eonPublicKey.Finite ∧ PointFormat.eonPublicKey.Canonical) ∧
    (PointFormat.blsSignature.Finite ∧ PointFormat.blsSignature.Canonical) ∧
    PointFormat.epochSecretKey.Canonical ∧
    (∀ bytes, EpochSecretKey.ofBytes bytes = .ok ⟨.infinity⟩ ↔
      ∃ x, bytes.take 32 = Curve.writeFlagged x .infinity) ∧
    EpochSecretKey.toBytes ⟨.infinity⟩ = Curve.writeFlagged 0 .infinity :=
  ⟨PointFormat.blsPublicKey_canonical, PointFormat.eonPublicKey_canonical,
    PointFormat.blsSignature_canonical, PointFormat.epochSecretKey_canonical,
    fun _ => PointFormat.ofBytes_eq_neutral_iff, rfl⟩

end DecryptorNode.Keys
