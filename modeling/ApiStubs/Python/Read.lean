import ApiStubs.Python.Lexeme

/-!
# Python — reading

A reader takes lexemes from a cursor and fails where none of its forms matches. A failed reader
leaves no trace, so that another form can be tried from the same place; identifiers are noted as
they are read and are forgotten with the attempt that read them.

Loops carry a limit on the number of rounds. The text is a limit that no loop reaches, since every
round reads some of it.
-/

namespace ApiStubs.Python

/-- A reader of some part of a source. -/
abbrev Read := StateT Cursor Option

namespace Read

/-- The next lexeme, left in place. -/
def peek (expect : Expect) : Read Lexeme := return (← get).lexeme expect

/-- Goes on behind a lexeme. -/
def pass (lexeme : Lexeme) : Read Unit :=
  modify fun cursor => { lexeme.after with names := cursor.names }

/-- Takes the token if it is the next one. -/
def take? (expect : Expect) (token : Token) : Read Bool := do
  let next ← peek expect
  if next.token = token then
    pass next
    return true
  else return false

/-- Takes the token, which must be the next one. -/
def take (expect : Expect) (token : Token) : Read Unit := do
  if !(← take? expect token) then failure

/-- Takes an operator or delimiter. -/
def symbol (text : String) (expect : Expect := {}) : Read Unit := take expect (.symbol text)

/-- Takes a word that has a meaning of its own at its place. -/
def keyword (text : String) (expect : Expect := {}) : Read Unit := take expect (.word text)

/-- Notes an identifier. -/
def note (name : String) : Read Unit :=
  modify fun cursor => { cursor with names := name :: cursor.names }

/-- Takes an identifier where no keyword can stand. -/
def identifier (start : Expect := {}) : Read String := do
  let next ← peek start
  match next.token with
  | .word name =>
    pass next
    note name
    return name
  | _ => failure

/-- The text that has been read since a place. -/
def textFrom (start : List Char) : Read String := do
  let rest := (← get).rest
  return String.ofList (start.take (start.length - rest.length))

/-- Rounds of a reader until one says that it was the last. -/
def rounds {α : Type} (round : Read (α × Bool)) : Nat → Read (List α)
  | 0 => failure
  | limit + 1 => do
    let (item, last) ← round
    if last then return [item]
    else return item :: (← rounds round limit)

/-- Items with commas between them; where no comma follows an item the list ends. A comma may
also end the list where `ends` says so of the lexeme behind it. Tells besides whether there was a
comma. -/
def separated {α : Type} (limit : Nat) (finish : Expect) (ends : Token → Bool)
    (item : Bool → Read α) : Read (List α × Bool) := do
  let first ← item true
  if !(← take? finish (.symbol ",")) then return ([first], false)
  if ends (← peek { finish with quote := true }).token then return ([first], true)
  let others ← rounds (do
    let next ← item false
    if !(← take? finish (.symbol ",")) then return (next, true)
    return (next, ends (← peek { finish with quote := true }).token)) limit
  return (first :: others, true)

/-- Identifiers with dots between them, as written; `start` is what may stand in their place and
`finish` what may follow them. -/
def dottedName (limit : Nat) (start finish : Expect) : Read String := do
  let text := (← peek start).start
  let _ ← identifier start
  if ← take? finish (.symbol ".") then
    let _ ← rounds (do
      let _ ← identifier
      return ((), !(← take? finish (.symbol ".")))) limit
  textFrom text

end Read

/-- A token that an operand starts with. -/
def Token.startsOperand : Token → Bool
  | .word _ | .number | .quote _ => true
  | .symbol s => s ∈ ["(", "[", "\x7b", "-", "+", "~", "*", "..."]
  | _ => false

end ApiStubs.Python
