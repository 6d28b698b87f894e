import QueryClause.Json.Number

/-!
# JSON values

JSON values and their compact written form. The members of an object keep the
order in which they were given, and a name may occur more than once.
-/

namespace QueryClause

inductive Json where
  | null
  | boolean (truth : Bool)
  | number (value : JsonNumber)
  | text (content : String)
  | array (items : List Json)
  | object (members : List (String × Json))

namespace Json

def hexDigit (value : Nat) : Char :=
  if value < 10 then Char.ofNat ('0'.toNat + value) else Char.ofNat ('a'.toNat + (value - 10))

/-- A character inside a written string. Quotes, backslashes and the controls below
the blank are escaped, and no other character. -/
def escapeChar (char : Char) : List Char :=
  if char = '"' then ['\\', '"']
  else if char = '\\' then ['\\', '\\']
  else if char.toNat = 0x08 then ['\\', 'b']
  else if char.toNat = 0x09 then ['\\', 't']
  else if char.toNat = 0x0a then ['\\', 'n']
  else if char.toNat = 0x0c then ['\\', 'f']
  else if char.toNat = 0x0d then ['\\', 'r']
  else if char.toNat < 0x20 then
    ['\\', 'u', '0', '0', hexDigit (char.toNat / 16), hexDigit (char.toNat % 16)]
  else [char]

def quoted (content : String) : String :=
  String.ofList ('"' :: content.toList.flatMap escapeChar ++ ['"'])

mutual

/-- The written form of a value, without blanks. -/
def render : Json → String
  | .null => "null"
  | .boolean truth => if truth then "true" else "false"
  | .number value => value.text
  | .text content => quoted content
  | .array items => "[" ++ ",".intercalate (renderItems items) ++ "]"
  | .object members => "\x7b" ++ ",".intercalate (renderMembers members) ++ "\x7d"

def renderItems : List Json → List String
  | [] => []
  | first :: rest => first.render :: renderItems rest

def renderMembers : List (String × Json) → List String
  | [] => []
  | (name, first) :: rest => (quoted name ++ ":" ++ first.render) :: renderMembers rest

end

end Json

end QueryClause
