import DecryptorNode.Bytes.Hex
import DecryptorNode.Text.Scan

/-! Text between double quotes, in which a backslash begins an escape. -/
namespace DecryptorNode.Text.Quoted

/-- Characters that may stand for themselves: all but the control characters, of which the tab is
allowed. -/
def isPlain (c : Char) : Bool := c = '\t' || (' ' ≤ c && c ≠ '\x7F')

/-- What is inside the quotes, as it is written, up to the first quote that no backslash
protects. -/
def scan : Scan (List Char)
  | [] => none
  | '"' :: rest => some ([], rest)
  | '\\' :: c :: rest => (scan rest).map fun (body, rest) => ('\\' :: c :: body, rest)
  | c :: rest => (scan rest).map fun (body, rest) => (c :: body, rest)

def simpleEscapes : List (Char × Char) :=
  [('"', '"'), ('\\', '\\'), ('b', '\x08'), ('t', '\t'), ('n', '\n'), ('f', '\x0C'), ('r', '\r')]

def character? (digits : List Char) : Option Char := do
  let values ← digits.mapM Hex.value?
  let n := values.foldl (fun n d => n * 16 + d) 0
  if h : n.isValidChar then some (Char.ofNatAux n h) else none

def unescape? : List Char → Option (List Char)
  | [] => some []
  | c :: rest =>
    if c ≠ '\\' then if isPlain c then (unescape? rest).map (c :: ·) else none
    else match rest with
      | 'u' :: a :: b :: c :: d :: rest => do
        return (← character? [a, b, c, d]) :: (← unescape? rest)
      | 'U' :: a :: b :: c :: d :: e :: f :: g :: h :: rest => do
        return (← character? [a, b, c, d, e, f, g, h]) :: (← unescape? rest)
      | e :: rest => do return (← simpleEscapes.lookup e) :: (← unescape? rest)
      | [] => none

/-- The text after an opening quote, up to its closing one; both stand in one line. -/
def text : Scan String := fun cs => do
  let (body, rest) ← scan cs
  return (String.ofList (← unescape? body), rest)

end DecryptorNode.Text.Quoted
