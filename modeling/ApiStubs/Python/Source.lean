import ApiStubs.Python.Read.Statement

/-!
# Python — modules from their text

A module is read whole or not at all: `Source.ofText?` has no answer for a text with a syntax
error. The identifiers in a text are found in either case; where the text cannot be read as a
module they are all its words that are no keywords.
-/

namespace ApiStubs.Python

/-- The module a text spells, if the text is free of syntax errors. Every round of a loop and
every step into a part reads a character, or is the last one, so that their number is bounded by
the length of the text. -/
def Source.ofText? (text : String) : Option Source := do
  let limit := text.length + 2
  let (statements, cursor) ←
    (Read.statementsUntil limit .stop false (Read.indented limit limit)).run (Cursor.ofText text)
  return ⟨statements, cursor.names.reverse⟩

/-- The words that never name anything. -/
def keywords : List String :=
  ["False", "None", "True", "and", "as", "assert", "break", "class", "continue", "def", "del",
    "elif", "else", "except", "finally", "for", "from", "global", "if", "import", "in", "is",
    "lambda", "nonlocal", "not", "or", "pass", "raise", "return", "try", "while", "with", "yield"]

/-- The identifiers in a text that is taken word by word; string literals that end are passed
over. -/
def looseIdentifiers (limit : Nat) : Nat → Cursor → List String
  | 0, _ => []
  | rounds + 1, cursor =>
    let next := cursor.lexeme { quote := true }
    match next.token with
    | .stop => []
    | .word w =>
      let others := looseIdentifiers limit rounds next.after
      if w ∈ keywords then others else w :: others
    | .quote q =>
      match (Read.literal (Read.shown limit (Read.any limit)) limit q limit).run next.after with
      | some (_, after) =>
        after.names.reverse ++ looseIdentifiers limit rounds { after with names := [] }
      | none => looseIdentifiers limit rounds next.after
    | _ => looseIdentifiers limit rounds next.after

/-- The identifiers written in a text. -/
def identifiersIn (text : String) : List String :=
  match Source.ofText? text with
  | some source => source.identifiers
  | none => looseIdentifiers (text.length + 2) (text.length + 2) (Cursor.ofText text)

end ApiStubs.Python
