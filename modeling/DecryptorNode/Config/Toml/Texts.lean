import DecryptorNode.Text.Quoted

/-! Texts in TOML: between single or double quotes, in one line or over several between three of
them. Line ends are single line feeds here. -/
namespace DecryptorNode.Config.Toml

open Text (Scan)
open Text.Quoted (isPlain)

def literal : Scan String := fun cs =>
  match cs.span fun c => isPlain c && c ≠ '\'' with
  | (body, '\'' :: rest) => some (String.ofList body, rest)
  | _ => none

/-- The closing three quotes, before which two more may belong to the text. -/
def closing? (quote : Char) (cs : List Char) : Option (List Char × List Char) :=
  let count := (cs.takeWhile (· = quote)).length
  if count < 3 then none
  else
    let inside := min (count - 3) 2
    some (List.replicate inside quote, cs.drop (inside + 3))

/-- What stands before the closing quotes. With escapes, a backslash protects what follows it. -/
def scanLines (quote : Char) (escapes : Bool) : Scan (List Char)
  | [] => none
  | c :: rest =>
    match closing? quote (c :: rest) with
    | some found => some found
    | none =>
      if escapes && c = '\\' then
        match rest with
        | d :: rest => (scanLines quote escapes rest).map fun (body, rest) => (c :: d :: body, rest)
        | [] => none
      else (scanLines quote escapes rest).map fun (body, rest) => (c :: body, rest)

def endsLine (cs : List Char) : Bool :=
  (cs.dropWhile fun c => c = ' ' || c = '\t').head? == some '\n'

/-- Joins the lines that end in a backslash with what follows the white space after it. -/
def joinLines : (skipping : Bool) → List Char → List Char
  | _, [] => []
  | skipping, c :: rest =>
    if skipping && (c = ' ' || c = '\t' || c = '\n') then joinLines true rest
    else if c = '\\' then
      if endsLine rest then joinLines true rest
      else match rest with
        | d :: rest => c :: d :: joinLines false rest
        | [] => [c]
    else c :: joinLines false rest

def unescapeLines? (body : List Char) : Option (List Char) := do
  let lines ← ((joinLines false body).splitOn '\n').mapM Text.Quoted.unescape?
  return List.intercalate ['\n'] lines

/-- The lines between three quotes, without the line end right after the opening ones. -/
def textLines (quote : Char) (escapes : Bool) : Scan String := fun cs => do
  let (body, rest) ← scanLines quote escapes (match cs with
    | '\n' :: cs => cs
    | cs => cs)
  let body ← if escapes then unescapeLines? body
    else if body.all fun c => isPlain c || c = '\n' then some body else none
  return (String.ofList body, rest)

def text : Scan String
  | '"' :: '"' :: '"' :: rest => textLines '"' true rest
  | '\'' :: '\'' :: '\'' :: rest => textLines '\'' false rest
  | '"' :: rest => Text.Quoted.text rest
  | '\'' :: rest => literal rest
  | _ => none

end DecryptorNode.Config.Toml
