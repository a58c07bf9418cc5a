import ApiStubs.Python.Read.Literal

/-!
# Python — expressions

An expression is read as a chain of operands and operators; how the operators bind makes no
difference to what is kept of it. A word is a keyword only where it can be one: `lambda` and `not`
at the start of an expression, `and`, `or`, `if`, `in`, `is` and `as` behind an operand, `True`,
`False` and `None` in place of an operand. Everywhere else the same words are identifiers.

Readers that contain expressions are given the reader of expressions, `Grammar`; the loop is
closed at the end, `Read.expression`, on a depth that no source reaches.
-/

namespace ApiStubs.Python

/-- A reader of expressions at a place. -/
abbrev Grammar := Place → Read Expr

/-- Operators between two operands. -/
def operators : List String :=
  ["+", "-", "*", "@", "/", "%", "//", "**", "|", "&", "^", "<<", ">>",
    "<", "<=", "==", "!=", ">=", ">", "<>"]

/-- Words that stand for a value. -/
def constants : List String := ["True", "False", "None"]

/-- Words that go on with an expression behind an operand. -/
def joints : List String := ["and", "or", "if", "else", "in", "is", "not", "as", "for"]

/-- The expression can stand behind a star that marks the rest of an unpacking: a name, an
attribute or an element, or a call made on one. -/
def Expr.takesStar : Expr → Bool
  | .name _ | .attribute _ _ | .subscript _ _ => true
  | .call callee _ => callee.takesStar
  | _ => false

/-- A starred expression. Only a name, an attribute or an element keeps the star to itself. -/
def Expr.starred : Expr → Expr
  | .call callee arguments => .compound [.call callee arguments]
  | e => .star e

namespace Read

variable (limit : Nat) (grammar : Grammar)

/-! ### Lists of expressions -/

/-- Expressions with commas between them, and whether there was a comma. Behind a comma the list
ends where no operand starts, or at one of the words `stops`. -/
def expressions (place : Place) (stops : List String := []) : Read (List Expr × Bool) :=
  separated limit place.finish
    (fun token => !token.startsOperand ||
      match token with
      | .word w => w ∈ stops
      | _ => false)
    fun first => grammar (if first then place else { place.onward with start := place.finish })

/-- What follows `yield`. -/
def yielded (place : Place) : Read (List Expr) := do
  let next ← peek { place.finish with quote := true }
  if next.token = .word "from" then
    pass next
    return [← grammar place.onward]
  else if next.token.startsOperand then
    return (← expressions limit grammar { place with start := place.finish }).1
  else return []

/-- An expression, a starred one, or a `yield`. -/
def element (place : Place) : Read Expr := do
  let next ← peek { place.start with quote := true }
  if next.token = .symbol "*" then
    pass next
    return (← grammar place.onward).starred
  else if next.token = .word "yield" then
    pass next
    return .compound (← yielded limit grammar place)
  else grammar place

/-- The expressions of a format field. -/
def shown (place : Place) : Read (List Expr) := do
  let next ← peek { place.start with quote := true }
  if next.token = .word "yield" then
    pass next
    yielded limit grammar place
  else return (← expressions limit grammar place).1

/-! ### Types -/

/-- A type: an expression, or one of the forms that only types have. A colon goes on with it
where `constrained` says so. -/
def type (constrained : Bool) : Nat → Place → Read Expr
  | 0, _ => failure
  | depth + 1, place => do
    let unpacked : Read Expr := do
      symbol "**" place.start
      return .name (← identifier)
    let generic : Read Expr := do
      let name ← identifier
      symbol "[" place.finish
      let (parameters, _) ← separated limit { close := true } (· = .symbol "]") fun first =>
        type true depth (if first then .enclosed else .bracketed)
      symbol "]" { close := true }
      return .compound (.name name :: parameters)
    let first ← grammar place <|> unpacked <|> generic
    let next ← peek place.finish
    if next.token = .symbol "|" || (constrained && next.token = .symbol ":") then
      pass next
      return .compound [first, ← type constrained depth place.onward]
    else if next.token = .symbol "." then
      pass next
      return .attribute first (← identifier)
    else return first

/-- Type parameters behind their opening bracket. -/
def typeParameters : Read (List Expr) := do
  let (parameters, _) ← separated limit { close := true } (· = .symbol "]") fun first =>
    type limit grammar true limit (if first then .enclosed else .bracketed)
  symbol "]" { close := true }
  return parameters

/-! ### Brackets -/

/-- The items of a display behind the first one, up to the closing bracket, and whether a
continued line ends between them. -/
def items (closing : String) : Nat → Read (List Expr × Bool)
  | 0 => failure
  | rounds + 1 => do
    let next ← peek { close := true }
    pass next
    if next.token = .symbol closing then return ([], next.continued)
    else if next.token ≠ .symbol "," then failure
    else
      let following ← peek { close := true, quote := true }
      let broken := next.continued || following.continued
      if following.token = .symbol closing then
        pass following
        return ([], broken)
      else
        let item ← element limit grammar .bracketed
        let (others, brokenLater) ← items closing rounds
        return (item :: others, broken || brokenLater)

/-- One item of a subscript: an expression or a slice. -/
def subscriptItem (first : Bool) : Read Expr := do
  let place : Place := if first then .enclosed else .bracketed
  let bound : Read (List Expr) := do
    let next ← peek { close := true, quote := true }
    if next.token.startsOperand then return [← grammar .bracketed] else return []
  let next ← peek { place.start with quote := true }
  let lower ← if next.token = .symbol ":" then pure none else some <$> grammar place
  let sliced ← take? { close := true } (.symbol ":")
  match sliced, lower with
  | false, some e => return e
  | _, _ =>
    let upper ← bound
    let step ← if ← take? { close := true } (.symbol ":") then bound else pure []
    return .compound (lower.toList ++ upper ++ step)

/-- The end of a dictionary display behind its first entry. -/
def entries : Nat → Read (List Expr)
  | 0 => failure
  | rounds + 1 => do
    if ← take? { close := true } (.symbol "\x7d") then return []
    symbol "," { close := true }
    let next ← peek { close := true, quote := true }
    if next.token = .symbol "\x7d" then
      pass next
      return []
    else if next.token = .symbol "**" then
      pass next
      let e ← grammar .enclosed
      return e :: (← entries rounds)
    else
      let key ← grammar ⟨{ close := true }, {}, false⟩
      symbol ":"
      let value ← grammar .enclosed
      return key :: value :: (← entries rounds)

/-! ### Operands -/

/-- One or more string literals, the first one opened by the lexeme `opening`. -/
def strings (finish : Expect) (opening : Lexeme) (q : Quote) : Read Expr := do
  pass opening
  let fields ← literal (shown limit grammar) limit q limit
  let written ← textFrom opening.start
  let next ← peek { finish with quote := true }
  match next.token with
  | .quote _ =>
    let others ← rounds (do
      let next ← peek { finish with quote := true }
      match next.token with
      | .quote q =>
        pass next
        let fields ← literal (shown limit grammar) limit q limit
        let following ← peek { finish with quote := true }
        return (fields, !(following.token matches .quote _))
      | _ => failure) limit
    return .compound (fields ++ others.flatten)
  | _ => return .string written fields

variable (clauses : Bool → Read (List Expr))

/-- The word `for`, or `async` in front of it, is next. -/
def atClause : Read Bool := do
  let next ← peek { close := true }
  return next.token = .word "for" || next.token = .word "async"

/-- The arguments of a call behind the opening bracket. -/
def arguments (first : Bool) : Nat → Read (List Expr)
  | 0 => failure
  | rounds + 1 => do
    let next ← peek { close := true, quote := true }
    if next.token = .symbol ")" then
      pass next
      return []
    else if first && next.token = .symbol "," then
      pass next
      symbol ")" { close := true }
      return []
    else
      let named : Option (String × Lexeme) :=
        match next.token with
        | .word w =>
          let behind := next.after.lexeme { close := true }
          if w ∉ constants && w ≠ "not" && w ≠ "lambda" && behind.token = .symbol "="
          then some (w, behind) else none
        | _ => none
      let (argument, plain) ←
        match named with
        | some (name, equals) =>
          note name
          pass equals
          pure ([.name name, ← grammar .enclosed], false)
        | none =>
          if next.token = .symbol "*" || next.token = .symbol "**" then
            pass next
            pure ([(← grammar .enclosed)], false)
          else pure ([(← grammar .bracketed)], true)
      if ← take? { close := true } (.symbol ",") then
        return argument ++ (← arguments false rounds)
      else if first && plain && (← atClause) then
        let more ← clauses true
        symbol ")" { close := true }
        return argument ++ more
      else
        symbol ")" { close := true }
        return argument

/-- What stands in round brackets, behind the opening one. -/
def round : Read Expr := do
  let opening ← peek { close := true, quote := true }
  if opening.token = .symbol ")" then
    pass opening
    return .tuple opening.continued []
  let first ← element limit grammar .bracketed
  if ← atClause then
    let more ← clauses true
    symbol ")" { close := true }
    return .compound (first :: more)
  let next ← peek { close := true }
  if next.token = .symbol ")" then
    pass next
    match first with
    | .star e => return .tuple false [.star e]
    | _ => return .group (opening.remarked || opening.continued) first
  else
    let (others, broken) ← items limit grammar ")" limit
    return .tuple (opening.continued || broken) (first :: others)

/-- What stands in square brackets, behind the opening one. -/
def square : Read Expr := do
  let opening ← peek { close := true, quote := true }
  if opening.token = .symbol "]" then
    pass opening
    return .list opening.continued []
  let first ← element limit grammar .bracketed
  if ← atClause then
    let more ← clauses true
    symbol "]" { close := true }
    return .compound (first :: more)
  let (others, broken) ← items limit grammar "]" limit
  return .list (opening.continued || broken) (first :: others)

/-- What stands in curly brackets, behind the opening one. -/
def curly : Read Expr := do
  let opening ← peek { close := true, quote := true }
  if opening.token = .symbol "\x7d" then
    pass opening
    return .compound []
  else if opening.token = .symbol "," then
    pass opening
    symbol "\x7d" { close := true }
    return .compound []
  else if opening.token = .symbol "**" then
    pass opening
    let e ← grammar .enclosed
    return .compound (e :: (← entries grammar limit))
  let first ← element limit grammar .bracketed
  if (← take? { close := true } (.symbol ":")) && opening.token ≠ .symbol "*"
      && opening.token ≠ .word "yield" then
    let value ← grammar .enclosed
    if ← atClause then
      let more ← clauses true
      symbol "\x7d" { close := true }
      return .compound (first :: value :: more)
    else return .compound (first :: value :: (← entries grammar limit))
  else if ← atClause then
    let more ← clauses true
    symbol "\x7d" { close := true }
    return .compound (first :: more)
  else return .compound (first :: (← items limit grammar "\x7d" limit).1)

/-- An operand without what is applied to it. -/
def atom (place : Place) : Read Expr := do
  let next ← peek { place.start with quote := true }
  match next.token with
  | .word w =>
    pass next
    if w ∈ constants then return .compound []
    note w
    return .name w
  | .number =>
    pass next
    return .compound []
  | .quote q => strings limit grammar place.finish next q
  | .symbol "(" =>
    pass next
    round limit grammar clauses
  | .symbol "[" =>
    pass next
    square limit grammar clauses
  | .symbol "\x7b" =>
    pass next
    curly limit grammar clauses
  | .symbol "..." =>
    pass next
    return .compound []
  | _ => failure

/-- What is applied to an operand: attributes, calls and subscripts. -/
def applied (finish : Expect) : Nat → Expr → Read Expr
  | 0, _ => failure
  | rounds + 1, e => do
    let next ← peek finish
    match next.token with
    | .symbol "." =>
      pass next
      let member ← identifier
      applied finish rounds (.attribute e member)
    | .symbol "(" =>
      pass next
      let given ← arguments grammar clauses true limit
      applied finish rounds (.call e given)
    | .symbol "[" =>
      pass next
      let (indices, _) ← separated limit { close := true } (· = .symbol "]")
        (subscriptItem grammar)
      symbol "]" { close := true }
      applied finish rounds (.subscript e indices)
    | _ => return e

/-- An operand with its signs and all that is applied to it. -/
def operand : Nat → Place → Read Expr
  | 0, _ => failure
  | signs + 1, place => do
    let next ← peek { place.start with quote := true }
    match next.token with
    | .symbol "*" =>
      pass next
      let e ← atom limit grammar clauses place.onward
      let e ← applied limit grammar clauses place.finish limit e
      guard e.takesStar
      return e.starred
    | .word "await" =>
      pass next
      let behind ← peek { place.finish with quote := true }
      let awaits : Bool := match behind.token with
        | .word w => w ∉ joints
        | token => token.startsOperand
      if awaits then return .compound [← operand signs place.onward]
      else
        note "await"
        applied limit grammar clauses place.finish limit (.name "await")
    | token =>
      if token = .symbol "-" || token = .symbol "+" || token = .symbol "~" then
        pass next
        return .compound [← operand signs place.onward]
      else
        let e ← atom limit grammar clauses place
        applied limit grammar clauses place.finish limit e

/-! ### Targets and comprehensions -/

/-- The targets of a loop, up to the word `in`, which is taken. -/
def loopTargets : Read Unit := do
  let (targets, _) ← separated limit {} (· = .word "in") fun _ =>
    operand limit grammar clauses limit {}
  guard (targets? targets).isSome
  keyword "in"

/-- The clauses of a comprehension, the first of which is a loop. -/
def comprehension (first : Bool) : Nat → Read (List Expr)
  | 0 => failure
  | rounds + 1 => do
    let next ← peek { close := true }
    if next.token = .word "for" || next.token = .word "async" then
      pass next
      if next.token = .word "async" then keyword "for"
      loopTargets limit grammar clauses
      let (values, _) ← separated limit { close := true }
        (fun token => !token.startsOperand || token = .word "for" || token = .word "if"
          || token = .word "async")
        fun first => grammar ⟨if first then {} else { close := true }, { close := true }, true⟩
      return values ++ (← comprehension false rounds)
    else if first then failure
    else if next.token = .word "if" then
      pass next
      let condition ← grammar ⟨{}, { close := true }, true⟩
      return condition :: (← comprehension false rounds)
    else return []

/-! ### Parameters -/

/-- The target behind the star of a parameter. -/
def starTarget (finish : Expect) : Read Expr := do
  let e ← atom limit grammar clauses ⟨{}, finish, false⟩
  let e ← applied limit grammar clauses finish limit e
  match e with
  | .name _ | .attribute _ _ | .subscript _ _ => return e
  | _ => failure

/-- One parameter: a name or a tuple of names, with a type and a default; a starred name; or one
of the marks `*` and `/`. -/
def parameter (typed : Bool) (finish : Expect) : Read (List Expr) := do
  let typePart : Read (List Expr) := do
    if !typed then return []
    else if ← take? finish (.symbol ":") then
      return [← type limit grammar true limit ⟨{}, finish, false⟩]
    else return []
  let default : Read (List Expr) := do
    if ← take? finish (.symbol "=") then return [← grammar ⟨{}, finish, false⟩]
    else return []
  let next ← peek finish
  match next.token with
  | .word name =>
    pass next
    note name
    let annotation ← typePart
    return .name name :: annotation ++ (← default)
  | .symbol "/" =>
    pass next
    return []
  | .symbol "*" =>
    pass next
    let behind ← peek finish
    if behind.token.startsOperand then
      let target ← starTarget limit grammar clauses finish
      return target :: (← typePart)
    else return []
  | .symbol "**" =>
    pass next
    let target ← starTarget limit grammar clauses finish
    return target :: (← typePart)
  | .symbol "(" =>
    pass next
    let names ← round limit grammar clauses
    guard names.target?.isSome
    return names :: (← default)
  | _ => failure

/-- Parameters up to the token that ends them, which is left in place. -/
def parameters (typed : Bool) (finish : Expect) (last : Token) : Read (List Expr) := do
  if (← peek finish).token = last then return []
  let (each, _) ← separated limit finish (· = last) fun _ =>
    parameter limit grammar clauses typed finish
  return each.flatten

/-! ### Expressions -/

/-- What follows the first operand of an expression. -/
def chain (place : Place) : Nat → List Expr → Read (List Expr)
  | 0, _ => failure
  | rounds + 1, parts => do
    let next ← peek place.finish
    let another : Read (List Expr) := do
      let e ← operand limit grammar clauses limit place.onward
      chain place rounds (parts ++ [e])
    match next.token with
    | .symbol s =>
      if s ∈ operators then
        pass next
        another
      else return parts
    | .word "in" =>
      pass next
      another
    | .word "not" =>
      pass next
      keyword "in"
      another
    | .word "is" =>
      pass next
      let _ ← take? {} (.word "not")
      another
    | .word "if" =>
      if place.bare then return parts
      else
        pass next
        let condition ← grammar {}
        keyword "else"
        return parts ++ [condition, ← grammar place.onward]
    | .word w =>
      if w = "and" || w = "or" || w = "as" then
        pass next
        return parts ++ [← grammar place.onward]
      else return parts
    | _ => return parts

/-- An expression whose parts are read by the given readers. -/
def expressionWith (place : Place) : Read Expr := do
  let next ← peek { place.start with quote := true }
  let chained : Read Expr := do
    let first ← operand limit grammar clauses limit place
    match ← chain limit grammar clauses place limit [first] with
    | [e] => return e
    | parts => return .compound parts
  match next.token with
  | .word "not" =>
    pass next
    return .compound [← grammar place.onward]
  | .word "lambda" =>
    pass next
    let names ← parameters limit grammar clauses false {} (.symbol ":")
    symbol ":"
    return .lambda (names ++ [← grammar place.onward])
  | .word name =>
    let behind := next.after.lexeme place.finish
    if name ∉ constants && behind.token = .symbol ":=" then
      note name
      pass behind
      return .compound [.name name, ← grammar place.onward]
    else chained
  | _ => chained

/-- The clauses of a comprehension, read with the given depth. -/
def clausesWith : Nat → Bool → Read (List Expr)
  | 0, _ => failure
  | depth + 1, first => comprehension limit grammar (clausesWith depth) first limit

/-- An expression, read with the given depth. -/
def expression : Nat → Place → Read Expr
  | 0, _ => failure
  | depth + 1, place =>
    let grammar := expression depth
    expressionWith limit grammar (clausesWith limit grammar depth) place

end Read

end ApiStubs.Python
