import Tableau.Json.Basic

/-!
Writing JSON text, without blanks.
-/

namespace Tableau

namespace Json

/-- The last two hexadecimal digits of a number below 256. -/
def hexPair (value : Nat) : List Char :=
  [Nat.digitChar (value / 16 % 16), Nat.digitChar (value % 16)]

/-- A character inside a string: quotes, backslashes and control characters are
escaped. -/
def escapeChar (c : Char) : List Char :=
  if c = '"' then ['\\', '"']
  else if c = '\\' then ['\\', '\\']
  else if c.toNat < 32 then '\\' :: 'u' :: '0' :: '0' :: hexPair c.toNat
  else [c]

def quoted (text : String) : String :=
  String.ofList ('"' :: text.toList.flatMap escapeChar ++ ['"'])

def numberText : JsonNumber → String
  | .integer value => toString value
  | .amount value => value.text

mutual

/-- The text of a value. -/
def print : Json → String
  | null => "null"
  | bool value => if value then "true" else "false"
  | number value => numberText value
  | string value => quoted value
  | list items => "[" ++ printItems items ++ "]"
  | record members => "\x7b" ++ printMembers members ++ "\x7d"
  | unreadable => "null"

def printItems : List Json → String
  | [] => ""
  | [item] => item.print
  | item :: rest => item.print ++ "," ++ printItems rest

def printMembers : List (JsonKey × Json) → String
  | [] => ""
  | [(key, value)] => quoted key.text ++ ":" ++ value.print
  | (key, value) :: rest =>
      quoted key.text ++ ":" ++ value.print ++ "," ++ printMembers rest

end

end Json

end Tableau
