/-! Whole numbers as binary floating point numbers of 53 bits, and the shortest decimal text that
reads back as the same number. -/
namespace DecryptorNode.Decimal

def precision : Nat := 53

/-- The distance of neighbouring numbers of the size of a given one, at least one. -/
def spacing (n : Nat) : Nat := 2 ^ (n.log2 + 1 - precision)

/-- The nearest number of the precision; a tie goes to the even significand. -/
def nearest (n : Nat) : Nat :=
  let unit := spacing n
  let below := n / unit
  let rest := n % unit
  if unit < 2 * rest ∨ (2 * rest = unit ∧ below % 2 = 1) then (below + 1) * unit
  else below * unit

/-- Whether a whole number reads back as n, which has the precision and is at least 2 ^ 53. Below
a power of two the neighbour is half as far away. -/
def readsAs (n candidate : Nat) : Bool :=
  let unit := spacing n
  let gapBelow := if n = 2 ^ n.log2 then unit else 2 * unit
  let low := 4 * n - gapBelow
  let high := 4 * n + 2 * unit
  let c := 4 * candidate
  if n / unit % 2 = 0 then low ≤ c && c ≤ high else low < c && c < high

/-- The nearer of the two multiples of a power of ten around n, if one reads back. -/
def onGrid? (n power : Nat) : Option Nat :=
  let low := n / power * power
  let high := low + power
  match readsAs n low, readsAs n high with
  | true, true => some (if n - low ≤ high - n then low else high)
  | true, false => some low
  | false, true => some high
  | false, false => none

def shortestFrom (n : Nat) : (places : Nat) → Nat
  | 0 => n
  | places + 1 => (onGrid? n (10 ^ (places + 1))).getD (shortestFrom n places)

/-- The whole number of the fewest digits, zeros at the end not counted, that reads back as n. -/
def shortest (n : Nat) : Nat :=
  if n < 2 ^ precision then n else shortestFrom n (n.log2 / 3 + 1)

def text (n : Nat) : String := toString (shortest n)

end DecryptorNode.Decimal
