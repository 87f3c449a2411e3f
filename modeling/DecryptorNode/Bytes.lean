/-! Byte strings and the two ways to read one as a number. -/
namespace DecryptorNode

-- Powers are those of core, whatever algebra is in scope.
attribute [instance (high + 1), default_instance (high + 1)] instPowNat

abbrev Bytes := List UInt8

namespace Bytes

/-- The number whose base-256 digits are the bytes, most significant first. -/
def toNat (bytes : Bytes) : Nat :=
  bytes.foldl (fun n b => n * 256 + b.toNat) 0

/-- The number whose base-256 digits are the bytes, least significant first. -/
def toNatLE : Bytes → Nat
  | [] => 0
  | b :: rest => b.toNat + 256 * toNatLE rest

def ofNatLE : (width : Nat) → Nat → Bytes
  | 0, _ => []
  | w + 1, n => UInt8.ofNat (n % 256) :: ofNatLE w (n / 256)

/-- The low width base-256 digits of a number, most significant first. -/
def ofNat (width n : Nat) : Bytes := (ofNatLE width n).reverse

def ofString (text : String) : Bytes := text.toUTF8.toList

/-- The order of byte strings by their first difference; a proper beginning comes first. -/
def lessThan : Bytes → Bytes → Bool
  | [], [] => false
  | [], _ :: _ => true
  | _ :: _, [] => false
  | a :: as, b :: bs => a < b || (a == b && lessThan as bs)

@[simp] theorem length_ofNatLE (width n : Nat) : (ofNatLE width n).length = width := by
  induction width generalizing n with
  | zero => rfl
  | succ w ih => simp [ofNatLE, ih]

@[simp] theorem length_ofNat (width n : Nat) : (ofNat width n).length = width := by
  simp [ofNat]

end Bytes
end DecryptorNode
