/-!
# JSON — writing structured output

Values are written on several lines, two blanks deeper at each level, with the keys of an object in
the order given. An empty list is written on one line.
-/

namespace ApiStubs

/-- A value to write. -/
inductive Json
  | number (n : Nat)
  | text (s : String)
  | list (items : List Json)
  | object (fields : List (String × Json))
  deriving Inhabited

namespace Json

/-- A list of texts. -/
def texts (items : List String) : Json := .list (items.map .text)

/-- A hexadecimal digit. -/
def hexDigit (n : Nat) : Char := (Nat.digitChar n)

/-- A character inside a text. Marks, backslashes and control characters are escaped. -/
def escaped (c : Char) : List Char :=
  if c = '"' then ['\\', '"']
  else if c = '\\' then ['\\', '\\']
  else if c = '\n' then ['\\', 'n']
  else if c = '\r' then ['\\', 'r']
  else if c = '\t' then ['\\', 't']
  else if c = '\x08' then ['\\', 'b']
  else if c = '\x0c' then ['\\', 'f']
  else if c < ' ' then ['\\', 'u', '0', '0', hexDigit (c.toNat / 16), hexDigit (c.toNat % 16)]
  else [c]

/-- A text in its marks. -/
def quoted (s : String) : String := "\"" ++ String.ofList (s.toList.flatMap escaped) ++ "\""

/-- A new line at the given depth. -/
def lineAt (depth : Nat) : String := "\n" ++ String.ofList (List.replicate (2 * depth) ' ')

mutual

/-- A value, written at the given depth. -/
def render (depth : Nat) : Json → String
  | .number n => toString n
  | .text s => quoted s
  | .list [] => "[]"
  | .list (item :: rest) =>
    "[" ++ lineAt (depth + 1) ++ render (depth + 1) item ++ renderItems (depth + 1) rest
      ++ lineAt depth ++ "]"
  | .object [] => "\x7b\x7d"
  | .object ((key, value) :: rest) =>
    "\x7b" ++ lineAt (depth + 1) ++ quoted key ++ ": " ++ render (depth + 1) value
      ++ renderFields (depth + 1) rest ++ lineAt depth ++ "\x7d"

/-- Further items of a list. -/
def renderItems (depth : Nat) : List Json → String
  | [] => ""
  | item :: rest => "," ++ lineAt depth ++ render depth item ++ renderItems depth rest

/-- Further fields of an object. -/
def renderFields (depth : Nat) : List (String × Json) → String
  | [] => ""
  | (key, value) :: rest =>
    "," ++ lineAt depth ++ quoted key ++ ": " ++ render depth value ++ renderFields depth rest

end

end Json

end ApiStubs
