import DecryptorNode.Bytes.Hex
import DecryptorNode.Config.Value
import DecryptorNode.Text.Scan

/-! Numbers, dates and words of TOML, each one piece of text without spaces, save that a space may
stand between a date and a time. -/
namespace DecryptorNode.Config.Toml

/-- The number that digits of a base spell, going on from the digits before them. Underscores
may stand between two digits. -/
def grouped? (base : Nat) : (afterDigit : Bool) → (before : Nat) → List Char → Option Nat
  | afterDigit, n, [] => if afterDigit then some n else none
  | afterDigit, n, c :: rest =>
    if c = '_' then if afterDigit then grouped? base false n rest else none
    else do
      let d ← Hex.value? c
      if d < base then grouped? base true (n * base + d) rest else none

def decimal? (cs : List Char) : Option Nat :=
  match cs with
  | '0' :: _ :: _ => none
  | _ => grouped? 10 false 0 cs

/-- An integer of 64 bits, without a sign unless it is decimal. -/
def integer? (cs : List Char) : Option Int := do
  let n ← match cs with
    | '0' :: 'x' :: digits => do pure (((← grouped? 16 false 0 digits) : Nat) : Int)
    | '0' :: 'o' :: digits => do pure (((← grouped? 8 false 0 digits) : Nat) : Int)
    | '0' :: 'b' :: digits => do pure (((← grouped? 2 false 0 digits) : Nat) : Int)
    | _ => do
      let (negative, digits) := Text.signed cs
      let n ← decimal? digits
      pure (if negative then -(n : Int) else n)
  if -2 ^ 63 ≤ n ∧ n < 2 ^ 63 then some n else none

/-- Where decimal numbers begin to be rounded to infinity: half a step above the largest finite
binary number of 53 bits. -/
def infinite : Nat := 2 ^ 1024 - 2 ^ 970

def overflows (n : Nat) (exponent : Int) : Bool :=
  if n = 0 then false
  else if 400 < exponent then true
  else if 0 ≤ exponent then infinite ≤ n * 10 ^ exponent.toNat
  else
    let shift := (-exponent).toNat
    if n.log2 < shift then false else infinite * 10 ^ shift ≤ n

def fractionParts (cs : List Char) : List Char × Option (List Char) × Option (List Char) :=
  let isMark (c : Char) : Bool := c = 'e' || c = 'E'
  let (mantissa, power) := cs.span fun c => !isMark c
  let (whole, fraction) := mantissa.span (· ≠ '.')
  (whole, if fraction = [] then none else some (fraction.drop 1),
    if power = [] then none else some (power.drop 1))

/-- Whether a text is a number with a fraction or an exponent, or one of the words for what is no
finite number. A number too large is refused, unless it is negative. -/
def isFraction (cs : List Char) : Bool :=
  let (negative, digits) := Text.signed cs
  if digits = ['i', 'n', 'f'] || digits = ['n', 'a', 'n'] then true
  else
    let (whole, fraction, power) := fractionParts digits
    let checked : Option Bool := do
      discard (decimal? whole)
      if fraction = none ∧ power = none then none
      let places ← match fraction with
        | none => some []
        | some places => do discard (grouped? 10 false 0 places); pure (places.filter (· ≠ '_'))
      let exponent ← match power with
        | none => some (0 : Int)
        | some power => do
          let (down, power) := Text.signed power
          let n ← grouped? 10 false 0 power
          pure (if down then -(n : Int) else n)
      let n ← grouped? 10 false 0 (whole ++ places)
      return negative || !overflows n (exponent - places.length)
    checked.getD false

def fixed? (width : Nat) (cs : List Char) : Option Nat :=
  if cs.length = width ∧ cs.all Char.isDigit then grouped? 10 false 0 cs else none

def daysIn (year month : Nat) : Nat :=
  if month = 2 then if year % 4 = 0 ∧ (year % 100 ≠ 0 ∨ year % 400 = 0) then 29 else 28
  else if month ∈ [4, 6, 9, 11] then 30
  else 31

def isDate (cs : List Char) : Bool :=
  match cs with
  | [y₁, y₂, y₃, y₄, '-', m₁, m₂, '-', d₁, d₂] =>
    match fixed? 4 [y₁, y₂, y₃, y₄], fixed? 2 [m₁, m₂], fixed? 2 [d₁, d₂] with
    | some year, some month, some day =>
      1 ≤ month && month ≤ 12 && 1 ≤ day && day ≤ daysIn year month
    | _, _, _ => false
  | _ => false

def isClock (cs : List Char) : Bool :=
  match cs with
  | [h₁, h₂, ':', m₁, m₂] => (fixed? 2 [h₁, h₂]).any (· < 24) && (fixed? 2 [m₁, m₂]).any (· < 60)
  | _ => false

/-- A time of day with seconds, of which there may be sixty. -/
def isTime (cs : List Char) : Bool :=
  match cs.drop 5 with
  | ':' :: s₁ :: s₂ :: fraction =>
    isClock (cs.take 5) && (fixed? 2 [s₁, s₂]).any (· ≤ 60) &&
      (match fraction with
        | [] => true
        | '.' :: places => places ≠ [] && places.all Char.isDigit
        | _ => false)
  | _ => false

def isOffsetTime (cs : List Char) : Bool :=
  let (time, offset) := cs.span fun c => c.isDigit || c = ':' || c = '.'
  isTime time && (match offset with
    | [] => true
    | ['Z'] | ['z'] => true
    | '+' :: clock | '-' :: clock => isClock clock
    | _ => false)

def isMoment (cs : List Char) : Bool :=
  isTime cs || (isDate (cs.take 10) && (match cs.drop 10 with
    | [] => true
    | 'T' :: time | 't' :: time | ' ' :: time => isOffsetTime time
    | _ => false))

def momentKey : String := "$__toml_private_datetime"

def atom? (cs : List Char) : Option Value :=
  if cs = ['t', 'r', 'u', 'e'] then some (.flag true)
  else if cs = ['f', 'a', 'l', 's', 'e'] then some (.flag false)
  else if isMoment cs then some (.table [(momentKey, .text (String.ofList cs))])
  else match integer? cs with
    | some n => some (.integer n)
    | none => if isFraction cs then some .fraction else none

def isAtomic (c : Char) : Bool :=
  c.isAlphanum || c = '_' || c = '+' || c = '-' || c = '.' || c = ':'

/-- The piece at the front of a text. A time after a date and a space belongs to it. -/
def atomText (cs : List Char) : List Char × List Char :=
  let (first, rest) := cs.span isAtomic
  match rest with
  | ' ' :: a :: b :: ':' :: _ =>
    if isDate first && a.isDigit && b.isDigit then
      let (time, rest) := rest.tail.span isAtomic
      (first ++ ' ' :: time, rest)
    else (first, rest)
  | _ => (first, rest)

end DecryptorNode.Config.Toml
