import DecryptorNode.Bytes.Utf8
import DecryptorNode.Internet.Host

/-! Which texts are absolute URLs. Schemes of the web need a host; others may do without. -/
namespace DecryptorNode.Internet.Url

def isForbidden (c : Char) : Bool :=
  c ∈ ['\x00', '\t', '\n', '\r', ' ', '#', '/', ':', '<', '>', '?', '@', '[', '\\', ']', '^', '|']

def isForbiddenInDomain (c : Char) : Bool :=
  isForbidden c || c = '%' || c.toNat < 0x20 || c = '\x7F'

def percentDecoded : List Char → Bytes
  | [] => []
  | '%' :: a :: b :: rest =>
    match Hex.value? a, Hex.value? b with
    | some h, some l => UInt8.ofNat (16 * h + l) :: percentDecoded rest
    | _, _ => 0x25 :: percentDecoded (a :: b :: rest)
  | c :: rest => Utf8.encodeNumber c.toNat ++ percentDecoded rest

/-- The number that a part of an older internet address spells in decimal, octal or hexadecimal
digits. -/
def part? (cs : List Char) : Option Nat :=
  let read (base : Nat) (digits : List Char) : Option Nat :=
    if digits.all (isDigit base) then some (spelled base digits) else none
  match cs with
  | [] => none
  | '0' :: 'x' :: digits | '0' :: 'X' :: digits => read 16 digits
  | '0' :: d :: digits => read 8 (d :: digits)
  | digits => read 10 digits

/-- Whether numbers are the parts of an older address: the last one fills the bytes that are
left. -/
def areParts (ns : List Nat) : Bool :=
  ns.length ≤ 4 && ns.dropLast.all (· < 256) &&
    ns.getLast?.any fun last => last < 256 ^ (5 - ns.length)

/-- The parts of a domain. A dot at the end adds none. -/
def labels (cs : List Char) : List (List Char) :=
  let parts := cs.splitOn '.'
  if parts.getLast? = some [] ∧ 1 < parts.length then parts.dropLast else parts

def endsInNumber (parts : List (List Char)) : Bool :=
  match parts.getLast? with
  | none => false
  | some last => last ≠ [] && (last.all Char.isDigit || (part? last).isSome)

def isDomain (cs : List Char) : Bool :=
  match Utf8.decode? (percentDecoded cs) with
  | none => false
  | some cs =>
    cs ≠ [] && !cs.any isForbiddenInDomain &&
      (if endsInNumber (labels cs) then ((labels cs).mapM part?).any areParts else true)

def isBracketed (cs : List Char) : Bool :=
  match cs.getLast?, Host6.scan (cs.tail.dropLast) with
  | some ']', some (_, []) => true
  | _, _ => false

/-- A host: for schemes of the web a domain, otherwise any characters that are not forbidden. -/
def isHost (web : Bool) (cs : List Char) : Bool :=
  match cs with
  | '[' :: _ => isBracketed cs
  | _ => if web then isDomain cs else !cs.any isForbidden

def isPort (cs : List Char) : Bool :=
  cs.all Char.isDigit && spelled 10 cs ≤ 0xFFFF

/-- Splits a host from the number of a server at the first colon outside brackets. -/
def splitPort : (inside : Bool) → List Char → List Char × Option (List Char)
  | _, [] => ([], none)
  | inside, c :: rest =>
    if c = ':' ∧ ¬inside then ([], some rest)
    else
      let inside := if c = '[' then true else if c = ']' then false else inside
      let (host, tcpPort) := splitPort inside rest
      (c :: host, tcpPort)

def afterLast (mark : Char) (cs : List Char) : Bool × List Char :=
  (cs.contains mark, (cs.reverse.takeWhile (· ≠ mark)).reverse)

/-- A user, a host and a server on it, of which only a host of the web is needed. What names a user
or a server names a host too. -/
def isAuthority (web : Bool) (cs : List Char) : Bool :=
  let (named, server) := afterLast '@' cs
  let (host, tcpPort) := splitPort false server
  if host = [] then !web && !named && tcpPort.isNone
  else isHost web host && tcpPort.all isPort

def webSchemes : List String := ["http", "https", "ws", "wss", "ftp"]

def isRest (scheme : String) (cs : List Char) : Bool :=
  if scheme ∈ webSchemes then
    let authority := cs.dropWhile fun c => c = '/' || c = '\\'
    isAuthority true (authority.takeWhile fun c => c ∉ ['/', '\\', '?', '#'])
  else match cs with
    | '/' :: '/' :: cs =>
      let authority := cs.takeWhile fun c => c ∉ ['/', '?', '#']
      if scheme = "file" then authority = [] || isHost true authority
      else isAuthority false authority
    | _ => true

/-- An absolute URL: a scheme, a colon and what the scheme asks for. Spaces around it and line
breaks inside do not count. -/
def isAbsolute (text : String) : Bool :=
  let isOuter (c : Char) : Bool := c.toNat ≤ 0x20
  let trimmed := ((text.toList.dropWhile isOuter).reverse.dropWhile isOuter).reverse
  let cs := trimmed.filter fun c => c ∉ ['\t', '\n', '\r']
  match cs.span (· ≠ ':') with
  | (c :: scheme, ':' :: rest) =>
    c.isAlpha && scheme.all (fun d => d.isAlphanum || d = '+' || d = '-' || d = '.') &&
      isRest (String.ofList ((c :: scheme).map Char.toLower)) rest
  | _ => false

end DecryptorNode.Internet.Url
