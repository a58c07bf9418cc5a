import ApiStubs.Python.Read.Expression

/-!
# Python — the patterns of a `match` statement

What stands behind `case`. Patterns bind nothing that a module hands out, so only their form is
read, and the identifiers in them are noted. The word `_` is a pattern of its own and no
identifier.
-/

namespace ApiStubs.Python.Read

variable (limit : Nat) (grammar : Grammar)

/-- A name behind a star. -/
def splatName : Read Unit := do
  let next ← peek {}
  if next.token = .word "_" then pass next
  else let _ ← identifier

/-- A number, perhaps with an imaginary part. -/
def numberPattern (finish : Expect) : Read Unit := do
  take {} .number
  let next ← peek finish
  if next.token = .symbol "+" || next.token = .symbol "-" then
    pass next
    take {} .number

/-- Alternatives of a pattern, each read by means of the reader of whole patterns. -/
def simplePattern (whole : Expect → Expect → Read Unit) : Nat → Expect → Expect → Read Unit
  | 0, _, _ => failure
  | rounds + 1, start, finish => do
    let inBrackets (closing : String) : Read Unit := do
      if !(← take? { close := true } (.symbol closing)) then
        let _ ← separated limit { close := true } (· = .symbol closing) fun _ =>
          whole { close := true } { close := true }
        symbol closing { close := true }
    let next ← peek { start with quote := true }
    match next.token with
    | .word w =>
      if w ∈ constants || w = "_" then pass next
      else
        let _ ← dottedName limit start finish
        if ← take? finish (.symbol "(") then inBrackets ")"
    | .number => numberPattern finish
    | .quote q => let _ ← strings limit grammar finish next q
    | .symbol "-" =>
      pass next
      numberPattern finish
    | .symbol "[" =>
      pass next
      inBrackets "]"
    | .symbol "(" =>
      pass next
      inBrackets ")"
    | .symbol "\x7b" =>
      pass next
      if !(← take? { close := true } (.symbol "\x7d")) then
        let _ ← separated limit { close := true } (· = .symbol "\x7d") fun _ => do
          let next ← peek { close := true, quote := true }
          if next.token = .symbol "*" || next.token = .symbol "**" then
            pass next
            splatName
          else
            simplePattern whole rounds { close := true } {}
            symbol ":"
            whole {} { close := true }
        symbol "\x7d" { close := true }
    | .symbol "*" =>
      pass next
      splatName
    | .symbol "**" =>
      pass next
      splatName
    | _ => failure
    if ← take? finish (.symbol "|") then simplePattern whole rounds {} finish

/-- A pattern: alternatives, perhaps behind a keyword, and the names they are bound to. -/
def casePattern : Nat → Expect → Expect → Read Unit
  | 0, _, _ => failure
  | depth + 1, start, finish => do
    let next ← peek { start with quote := true }
    match next.token with
    | .word name =>
      let behind := next.after.lexeme finish
      if name ∉ constants && name ≠ "_" && behind.token = .symbol "=" then
        note name
        pass behind
        simplePattern limit grammar (casePattern depth) limit {} finish
      else simplePattern limit grammar (casePattern depth) limit start finish
    | _ => simplePattern limit grammar (casePattern depth) limit start finish
    if ← take? finish (.word "as") then
      let _ ← rounds (do
        let _ ← identifier
        return ((), !(← take? finish (.word "as")))) limit

end ApiStubs.Python.Read
