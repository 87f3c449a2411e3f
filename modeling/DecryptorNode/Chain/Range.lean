import DecryptorNode.Chain.Address

/-! Planning which blocks to fetch next. -/
namespace DecryptorNode.Chain

/-- Blocks from the first to the last, both included. -/
structure BlockRange where
  first : Nat
  last : Nat
  deriving DecidableEq, Repr

def BlockRange.size (r : BlockRange) : Nat := r.last - r.first + 1

def finalized? (head offset : Nat) : Option Nat :=
  if offset ≤ head then some (head - offset) else none

def saturatingAdd (a b : Nat) : Nat := min (a + b) maxWord

/-- At most the given number of blocks from a block on, up to the finalized one. -/
def nextRange? (block : Nat) (finalized : Option Nat) (maxBlocks : Nat) : Option BlockRange :=
  match finalized with
  | none => none
  | some final =>
    if final < block then none
    else some ⟨block, min (saturatingAdd block (maxBlocks - 1)) final⟩

end DecryptorNode.Chain
