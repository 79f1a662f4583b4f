/-
# Writing JSON

A document is written without blanks. Quotes, backslashes and control characters
are escaped, all other characters stand for themselves.
-/
import CountedHeap.Json

namespace CountedHeap
namespace Json

/-- The escape of a code below 32: four hexadecimal digits, the first two zero. -/
def controlEscape (n : Nat) : List Char :=
  ['\\', 'u', '0', '0', Nat.digitChar (n / 16), Nat.digitChar (n % 16)]

def quoteChar (c : Char) : List Char :=
  if c = '"' ∨ c = '\\' then ['\\', c] else if c.toNat < 0x20 then controlEscape c.toNat else [c]

/-- A text that stands for no characters is written as the replacement character. -/
def quote (s : Option String) : List Char :=
  '"' :: ((s.getD "\ufffd").toList.flatMap quoteChar ++ ['"'])

/-- Texts with commas between them. -/
def commaSeparated : List (List Char) → List Char
  | [] => []
  | [x] => x
  | x :: rest => x ++ ',' :: commaSeparated rest

mutual

def chars : Json → List Char
  | .null => ['n', 'u', 'l', 'l']
  | .bool true => ['t', 'r', 'u', 'e']
  | .bool false => ['f', 'a', 'l', 's', 'e']
  | .int n => (toString n).toList
  | .real text => text.toList
  | .str s => quote s
  | .arr items => '[' :: (commaSeparated (itemChars items) ++ [']'])
  | .obj fields => '{' :: (commaSeparated (fieldChars fields) ++ ['}'])

def itemChars : List Json → List (List Char)
  | [] => []
  | j :: rest => chars j :: itemChars rest

def fieldChars : List (Option String × Json) → List (List Char)
  | [] => []
  | (name, j) :: rest => (quote name ++ ':' :: chars j) :: fieldChars rest

end

/-- The text of a document. -/
def render (j : Json) : String := String.ofList (chars j)

end Json
end CountedHeap
