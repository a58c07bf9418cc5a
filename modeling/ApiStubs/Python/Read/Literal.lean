import ApiStubs.Python.Read
import ApiStubs.Python.Syntax

/-!
# Python — string literals

The inside of a string literal. Its text ends at the quotation mark that opened it; in a literal
with single marks the text may not go on over the end of a line, except where a line ends right
at the beginning of a stretch of text. A backslash protects the mark in every literal, raw ones
too.

Format fields are read by the reader of expressions, which is given here as a parameter.
-/

namespace ApiStubs.Python

/-- Where a part of a source stands: what may be found in place of its first lexeme, and what may
follow its last one. -/
structure Place where
  start : Expect := {}
  finish : Expect := {}
  /-- A following `if` belongs to a comprehension and not to the expression. -/
  bare : Bool := false
  deriving Inhabited

/-- The place of a later part that ends where this one ends. -/
def Place.onward (place : Place) : Place := { place with start := {} }

/-- Inside brackets, where the closing bracket may stand first. -/
def Place.bracketed : Place := ⟨{ close := true }, { close := true }, false⟩

/-- Inside brackets, where something must come before the closing bracket. -/
def Place.enclosed : Place := ⟨{}, { close := true }, false⟩

/-! ### Literal text -/

/-- What stands at a place inside a literal. -/
inductive Stretch
  /-- The closing mark; the text behind it follows. -/
  | closed (rest : List Char)
  /-- Text, up to the given rest. -/
  | text (rest : List Char)
  /-- An escape, a field, or nothing that belongs there. -/
  | other

/-- Reads literal text. `begun` tells whether some text has been read already. -/
def Quote.stretch (q : Quote) : Bool → List Char → Stretch
  | _, [] => .other
  | begun, c :: rest =>
    if c = '\x00' then .other
    else if q.format && (c = '{' || c = '}') then
      if begun then .text (c :: rest) else .other
    else if c = '\\' then
      if q.raw then
        match rest with
        | [] => .other
        | '\r' :: '\n' :: more => q.stretch begun more
        | d :: more =>
          if d = '\r' || d = '\n' then q.stretch begun more
          else if d = q.mark || d = '\\' then
            match more with
            | [] => .other
            | '\r' :: '\n' :: further => q.stretch begun further
            | e :: further =>
              if e = '\r' || e = '\n' then q.stretch begun further
              else q.stretch begun (e :: further)
          else q.stretch begun (d :: more)
      else if q.bytes then
        match rest with
        | d :: _ :: more =>
          if d = 'N' || d = 'u' || d = 'U' then q.stretch true more
          else if begun then .text (c :: rest) else .other
        | _ => if begun then .text (c :: rest) else .other
      else if begun then .text (c :: rest) else .other
    else if c = q.mark then
      if !q.triple then
        if begun then .text (c :: rest) else .closed rest
      else
        match rest with
        | d :: e :: more =>
          if d = q.mark && e = q.mark then
            if begun then .text (c :: rest) else .closed more
          else if d = q.mark then .text (e :: more)
          else .text rest
        | [d] => if d = q.mark then .text [] else .text rest
        | [] => .text []
    else if c = '\n' && begun && !q.triple then .other
    else q.stretch true rest

/-- The given number of characters that pass a test, and what follows them. -/
def exactly (test : Char → Bool) : Nat → List Char → Option (List Char)
  | 0, text => some text
  | _ + 1, [] => none
  | count + 1, c :: rest => if test c then exactly test count rest else none

/-- What follows an escape, given the text behind its backslash. A backslash that starts no
escape stands for itself. -/
def afterEscape : List Char → List Char
  | [] => []
  | c :: rest =>
    if c = 'u' then (exactly isHexDigit 4 rest).getD (c :: rest)
    else if c = 'U' then (exactly isHexDigit 8 rest).getD (c :: rest)
    else if c = 'x' then (exactly isHexDigit 2 rest).getD (c :: rest)
    else if c.isDigit then
      let more := rest.dropWhile Char.isDigit
      if rest.length - more.length ≤ 2 then more else rest.drop 2
    else if c = '\n' then rest
    else if c = '\r' then
      match rest with
      | '\n' :: more => more
      | _ => c :: rest
    else if c ∈ ['\'', '"', 'a', 'b', 'f', 'r', 'n', 't', 'v', '\\'] then rest
    else if c = 'N' then
      match rest with
      | '{' :: name =>
        match name.takeWhile (fun d => d ≠ '}' && d ≠ '\x00'),
            name.dropWhile (fun d => d ≠ '}' && d ≠ '\x00') with
        | _ :: _, '}' :: more => more
        | _, _ => c :: rest
      | _ => c :: rest
    else c :: rest

/-! ### Fields and literals -/

namespace Read

/-- Goes on with the given text. -/
def jump (text : List Char) : Read Unit := modify fun cursor => { cursor with rest := text }

/-- The format specification of a field, up to its closing brace, with the fields inside it. -/
def specification (field : Read (List Expr)) : Nat → Read (List Expr)
  | 0 => failure
  | limit + 1 => do
    match (← get).rest with
    | [] => failure
    | c :: rest =>
      if c = '}' then return []
      else if c = '{' then
        jump rest
        let inner ← field
        return inner ++ (← specification field limit)
      else if c = '\x00' then failure
      else
        jump (rest.dropWhile fun d => d ≠ '{' && d ≠ '}' && d ≠ '\n' && d ≠ '\x00')
        specification field limit

/-- A format field behind its opening brace: expressions, an equals sign, a conversion, a
specification and the closing brace. -/
def field (expressions : Place → Read (List Expr)) (limit : Nat) : Nat → Read (List Expr)
  | 0 => failure
  | depth + 1 => do
    let shown ← expressions .enclosed
    let _ ← take? { close := true } (.symbol "=")
    let _ ← take? { close := true } (.symbol "!")
    let next ← peek { close := true }
    if next.token = .symbol ":" || next.token = .symbol ":=" then
      jump (next.start.drop 1)
      let inner ← specification (field expressions limit depth) limit
      symbol "\x7d" { close := true }
      return shown ++ inner
    else
      symbol "\x7d" { close := true }
      return shown

/-- The rest of a string literal behind its opening, as the expressions in its fields. -/
def literal (expressions : Place → Read (List Expr)) (limit : Nat) (q : Quote) :
    Nat → Read (List Expr)
  | 0 => failure
  | rounds + 1 => do
    let text := (← get).rest
    if q.format && (text.take 2 = ['{', '{'] || text.take 2 = ['}', '}']) then
      jump (text.drop 2)
      literal expressions limit q rounds
    else
      match q.stretch false text with
      | .closed rest =>
        modify fun cursor => { cursor with rest := rest, inFormat := false }
        return []
      | .text rest =>
        jump rest
        literal expressions limit q rounds
      | .other =>
        match text, text.dropWhile isBlank with
        | '\\' :: behind, _ =>
          jump (afterEscape behind)
          literal expressions limit q rounds
        | _, '{' :: behind =>
          jump behind
          let shown ← field expressions limit limit
          return shown ++ (← literal expressions limit q rounds)
        | _, _ => failure

end Read

end ApiStubs.Python
