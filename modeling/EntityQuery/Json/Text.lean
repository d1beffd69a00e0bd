import EntityQuery.Binary64.Text
import EntityQuery.Json

/-!
# Writing JSON text

The compact text of a JSON value: no blanks, members in their order, and no escapes but the
necessary ones.
-/

namespace EntityQuery.Json

/-- A character inside a string.  Quotes, backslashes and control characters are escaped. -/
def escaped (c : Char) : String :=
  if c = '"' then "\\\""
  else if c = '\\' then "\\\\"
  else if c = '\n' then "\\n"
  else if c = '\r' then "\\r"
  else if c = '\t' then "\\t"
  else if c.toNat = 8 then "\\b"
  else if c.toNat = 12 then "\\f"
  else if c.toNat < 32 then "\\u" ++ String.ofList ((Hex.padded 4 c.toNat).map Hex.digitChar)
  else c.toString

def quoted (s : String) : String :=
  "\"" ++ s.foldl (fun text c => text ++ escaped c) "" ++ "\""

mutual

def text : Json → String
  | null => "null"
  | bool true => "true"
  | bool false => "false"
  | int n => toString n
  | float x => String.ofList x.compactText
  | string s => quoted s
  | array items => "[" ++ textOfItems items ++ "]"
  | object members => "\x7b" ++ textOfMembers members ++ "\x7d"

def textOfItems : List Json → String
  | [] => ""
  | [item] => item.text
  | item :: items => item.text ++ "," ++ textOfItems items

def textOfMembers : List (String × Json) → String
  | [] => ""
  | [(name, value)] => quoted name ++ ":" ++ value.text
  | (name, value) :: members => quoted name ++ ":" ++ value.text ++ "," ++ textOfMembers members

end

end EntityQuery.Json
