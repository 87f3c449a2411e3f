/-! Lists of texts in one text, separated by commas. -/
namespace DecryptorNode.Store.KeyperList

def join : List (List Char) → List Char
  | [] => []
  | [text] => text
  | text :: rest => text ++ ',' :: join rest

def pieces : List Char → List (List Char)
  | [] => [[]]
  | c :: rest =>
    if c = ',' then [] :: pieces rest
    else match pieces rest with
      | [] => [[c]]
      | piece :: others => (c :: piece) :: others

def split (text : List Char) : List (List Char) := (pieces text).filter (· ≠ [])

def encode (texts : List String) : String := String.ofList (join (texts.map String.toList))

def decode (text : String) : List String := (split text.toList).map String.ofList

end DecryptorNode.Store.KeyperList
