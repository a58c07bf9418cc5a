import ApiStubs.Python.Read.Pattern

/-!
# Python — statements

Lines of simple statements and the compound statements with their blocks. A word opens a compound
statement only at the start of a line; behind a semicolon, or behind a colon on the same line, it
is an identifier. `print`, `exec`, `type`, `match` and `async` are identifiers whenever the
statement they could open does not follow.

A block is a line of simple statements behind the colon, indented lines, or nothing at all.
-/

namespace ApiStubs.Python.Read

/-- The reader of expressions for a source of at most `limit` characters. -/
def any (limit : Nat) : Grammar := expression limit limit

/-- The reader of comprehension clauses for a source of at most `limit` characters. -/
def anyClauses (limit : Nat) : Bool → Read (List Expr) := clausesWith limit (any limit) limit

variable (limit : Nat)

/-- What may stand at the start of a line, in a block or outside all blocks. -/
def lineStart (nested : Bool) : Expect := { dedent := nested, quote := true }

/-- What may follow a simple statement, a semicolon apart. -/
def lineEnd : Expect := { newline := true }

/-- What may stand behind the colon in front of a block. -/
def suiteStart : Expect := { newline := true, indent := true, quote := true }

/-! ### Assignments -/

/-- The operators of augmented assignments. -/
def augmentations : List String :=
  ["+=", "-=", "*=", "/=", "@=", "//=", "%=", "**=", ">>=", "<<=", "&=", "^=", "|="]

/-- What a line without a keyword says. -/
inductive Line
  | plain (e : Expr)
  | assigned (a : Assignment)
  | augmented (target : Target) (right : Expr)

/-- The assignment of what a line says to a target. -/
def Line.assignTo (target : Target) : Line → Assignment
  | .plain e => .value target e
  | .assigned a => .chain target a
  | .augmented _ _ => .value target (.compound [])

/-- What a line says as an expression; an assignment says nothing. -/
def Line.value : Line → Expr
  | .plain e => e
  | _ => .compound []

/-- Expressions, an assignment or a `yield`. The right side of an assignment is again any of
these. -/
def line : Nat → Expect → Read Line
  | 0, _ => failure
  | depth + 1, start => do
    let next ← peek { start with quote := true }
    if next.token = .word "yield" then
      pass next
      return .plain (.compound (← yielded limit (any limit) ⟨{}, lineEnd, false⟩))
    else
      let (items, listed) ← expressions limit (any limit) ⟨start, lineEnd, false⟩
      let target? : Option Target :=
        if listed then (targets? items).map .sequence else items.head?.bind Expr.target?
      let alone : Line := match items, listed with
        | [e], false => .plain e
        | _, _ => .plain (.compound items)
      let next ← peek lineEnd
      match next.token with
      | .symbol s =>
        if s = "=" then
          pass next
          let target ← target?.elim failure pure
          return .assigned ((← line depth {}).assignTo target)
        else if s = ":" then
          pass next
          let target ← target?.elim failure pure
          let _ ← type limit (any limit) true limit ⟨{}, lineEnd, false⟩
          if ← take? lineEnd (.symbol "=") then
            return .assigned ((← line depth {}).assignTo target)
          else return .assigned (.declare target)
        else if s ∈ augmentations then
          pass next
          let target ← target?.elim failure pure
          return .augmented target (← line depth {}).value
        else return alone
      | _ => return alone

/-- A line without a keyword, as a statement. -/
def expressionStatement (start : Expect) : Read Statement := do
  match ← line limit limit start with
  | .plain _ => return .inert
  | .assigned a => return .assign a
  | .augmented target right => return .augment target right

/-! ### Imports -/

/-- A dotted name and the name given to it. -/
def imported (start finish : Expect) : Read Imported := do
  let written ← dottedName limit start finish
  if ← take? finish (.word "as") then return ⟨written, some (← identifier)⟩
  else return ⟨written, none⟩

/-- The list of an import statement. -/
def importList (finish : Expect) : Read (List Imported) := do
  let (names, _) ← separated limit finish (fun token => !(token matches .word _)) fun first =>
    imported limit (if first then {} else finish) finish
  return names

/-- The list of a `from` import, perhaps in brackets. -/
def bracketedImports : Read (List Imported) := do
  if ← take? {} (.symbol "(") then
    let names ← importList limit { close := true }
    symbol ")" { close := true }
    return names
  else importList limit lineEnd

/-- Leading dots, and how many they are. -/
def dots : Nat → Read Nat
  | 0 => failure
  | rounds + 1 => do
    if ← take? {} (.symbol ".") then return 1 + (← dots rounds)
    else if ← take? {} (.symbol "...") then return 3 + (← dots rounds)
    else return 0

/-- A `from` import behind its first word. Imports of language features bind nothing. -/
def fromImport : Read Statement := do
  if ← take? {} (.word "__future__") then
    keyword "import"
    let _ ← bracketedImports limit
    return .inert
  else
    let level ← dots limit
    let source ←
      if level = 0 then .absolute <$> dottedName limit {} {}
      else if (← peek {}).token = .word "import" then pure (.relative level "")
      else .relative level <$> dottedName limit {} {}
    keyword "import"
    if ← take? {} (.symbol "*") then return .importFrom source .everything
    else return .importFrom source (.listed (← bracketedImports limit))

/-! ### Simple statements -/

/-- A statement that fills its place: a line end or a semicolon follows. -/
def whole {α : Type} (statement : Read α) : Read α := do
  let result ← statement
  let next ← peek lineEnd
  if next.token = .newline || next.token = .symbol ";" then return result else failure

/-- Expressions that may be missing. -/
def optionalExpressions (stops : List String) : Read Unit := do
  let next ← peek { lineEnd with quote := true }
  let starts : Bool := match next.token with
    | .word w => w ∉ stops
    | token => token.startsOperand
  if starts then let _ ← expressions limit (any limit) ⟨lineEnd, lineEnd, false⟩ stops

/-- Identifiers with commas between them. -/
def identifierList : Read Unit := do
  let _ ← separated limit lineEnd (fun _ => false) fun _ => identifier

/-- A simple statement. -/
def simple (start : Expect) : Read Statement := do
  let place : Place := ⟨{}, lineEnd, false⟩
  let next ← peek { start with quote := true }
  match next.token with
  | .word "import" =>
    pass next
    return .importModules (← importList limit lineEnd)
  | .word "from" =>
    pass next
    fromImport limit
  | .word "print" =>
    let behind := next.after.lexeme { lineEnd with quote := true }
    if behind.token = .symbol ">>" then
      pass behind
      let _ ← expressions limit (any limit) place
      return .inert
    else
      whole (expressionStatement limit start) <|> do
        pass next
        let _ ← expressions limit (any limit) place
        return .inert
  | .word "exec" =>
    whole (expressionStatement limit start) <|> do
      pass next
      let code ← peek { quote := true }
      match code.token with
      | .quote q => let _ ← strings limit (any limit) lineEnd code q
      | _ => let _ ← identifier
      if ← take? lineEnd (.word "in") then
        let _ ← separated limit lineEnd (fun _ => false) fun _ => any limit place
      return .inert
  | .word "type" =>
    whole (do
      pass next
      let _ ← type limit (any limit) true limit {}
      symbol "="
      let _ ← type limit (any limit) true limit place
      return .inert) <|> expressionStatement limit start
  | .word "assert" =>
    pass next
    let _ ← separated limit lineEnd (fun _ => false) fun _ => any limit place
    return .inert
  | .word "return" =>
    pass next
    optionalExpressions limit []
    return .inert
  | .word "del" =>
    pass next
    let (targets, _) ← expressions limit (any limit) place
    return .delete targets
  | .word "raise" =>
    pass next
    optionalExpressions limit ["from"]
    if ← take? lineEnd (.word "from") then let _ ← any limit place
    return .inert
  | .word "global" =>
    pass next
    identifierList limit
    return .inert
  | .word "nonlocal" =>
    pass next
    identifierList limit
    return .inert
  | .word w =>
    if w = "pass" || w = "break" || w = "continue" then
      pass next
      return .inert
    else expressionStatement limit start
  | _ => expressionStatement limit start

/-- A line of simple statements, with its end. -/
def simpleLine (start : Expect) : Read (List Statement) := do
  let first ← simple limit start
  let closes : Read Bool := do
    if ← take? lineEnd .newline then return true
    symbol ";" lineEnd
    take? { lineEnd with quote := true } .newline
  if ← closes then return [first]
  else
    let others ← rounds (do
      let next ← simple limit lineEnd
      return (next, ← closes)) limit
    return first :: others

/-! ### Compound statements -/

variable (block : Read (List Statement))

/-- The block behind a colon; `block` reads indented lines to their end. -/
def suite : Read (List Statement) := do
  let next ← peek suiteStart
  match next.token with
  | .indent =>
    pass next
    block
  | .newline =>
    pass next
    return []
  | _ => simpleLine limit suiteStart

/-- A colon and the block behind it. -/
def colonSuite : Read (List Statement) := do
  symbol ":"
  suite limit block

/-- The clauses behind the block of an `if`: conditions, and what remains. -/
def alternatives (nested : Bool) : Nat → Read (List (List Statement))
  | 0 => failure
  | rounds + 1 => do
    if ← take? (lineStart nested) (.word "elif") then
      let _ ← any limit {}
      let body ← colonSuite limit block
      return body :: (← alternatives nested rounds)
    else if ← take? (lineStart nested) (.word "else") then
      return [← colonSuite limit block]
    else return []

/-- A clause that may be missing. -/
def optionalSuite (start : Expect) (word : String) : Read (Option (List Statement)) := do
  if ← take? start (.word word) then return some (← colonSuite limit block)
  else return none

/-- The expression behind a comma that a handler may catch besides; handlers of groups have none. -/
def secondCaught (group : Bool) : Read (Option Expr) := do
  if group then return none
  else if ← take? {} (.symbol ",") then return some (← any limit {})
  else return none

/-- An exception handler behind its first word. A continued line where an exception could be named
stands for an exception without a name. -/
def handler (group : Bool) : Read Handler := do
  let first ← peek { quote := true }
  if first.token = .symbol ":" && !group then
    pass first
    let next ← peek suiteStart
    let joined := first.continued || next.continued || (next.token = .indent
      && (next.after.lexeme (lineStart true)).continued)
    let body ← suite limit block
    return .mk ⟨false, if joined then [.compound []] else []⟩ body
  else
    let caught ← any limit {}
    let second? ← secondCaught limit group
    let body ← colonSuite limit block
    return .mk ⟨group, caught :: second?.toList⟩ body

/-- The handlers of a `try` statement. The first one says whether they handle groups, which a star
right behind the word tells. -/
def handlers (nested : Bool) (groups : Option Bool) : Nat → Read (List Handler)
  | 0 => failure
  | rounds + 1 => do
    let expect : Expect := match groups with
      | none => { handler := true }
      | some _ => { lineStart nested with handler := true }
    let next ← peek expect
    let starred := next.after.rest.head? = some '*'
    if next.token = .word "except" && (groups ≠ some true || starred) then
      pass next
      let group := starred && groups ≠ some false
      if group then jump (next.after.rest.drop 1)
      let first ← handler limit block group
      return first :: (← handlers nested (some group) rounds)
    else return []

/-- A `try` statement behind its first word. -/
def tryStatement (nested : Bool) : Read Statement := do
  let body ← colonSuite limit block
  let caught ← handlers limit block nested none limit
  if caught.isEmpty then
    keyword "finally" { handler := true }
    return .attempt body [] none (some (← colonSuite limit block))
  else
    let orElse ← optionalSuite limit block (lineStart nested) "else"
    let finish ← optionalSuite limit block (lineStart nested) "finally"
    return .attempt body caught orElse finish

/-- A function definition behind its first word. -/
def functionDefinition : Read Statement := do
  let name ← identifier
  if ← take? {} (.symbol "[") then let _ ← typeParameters limit (any limit)
  symbol "("
  let _ ← parameters limit (any limit) (anyClauses limit) true { close := true } (.symbol ")")
  symbol ")" { close := true }
  if ← take? {} (.symbol "->") then let _ ← type limit (any limit) false limit {}
  let _ ← colonSuite limit block
  return .functionDef name

/-- A class definition behind its first word. -/
def classDefinition : Read Statement := do
  let name ← identifier
  if ← take? {} (.symbol "[") then let _ ← typeParameters limit (any limit)
  if ← take? {} (.symbol "(") then
    let _ ← arguments (any limit) (anyClauses limit) true limit
  let _ ← colonSuite limit block
  return .classDef name

/-- A `for` statement behind its first word. -/
def forStatement (nested : Bool) : Read Statement := do
  loopTargets limit (any limit) (anyClauses limit)
  let _ ← expressions limit (any limit) {}
  let _ ← colonSuite limit block
  let _ ← optionalSuite limit block (lineStart nested) "else"
  return .inert

/-- A `with` statement behind its first word. -/
def withStatement : Read Statement := do
  let _ ← expressions limit (any limit) {}
  let _ ← colonSuite limit block
  return .inert

/-- The cases of a `match` statement, behind the colon. -/
def cases : Read Unit := do
  if ← take? suiteStart .indent then
    let _ ← rounds (do
      let next ← peek { dedent := true }
      pass next
      if next.token = .dedent then return ((), true)
      else if next.token ≠ .word "case" then failure
      else
        let _ ← separated limit {} (fun token => token = .symbol ":" || token = .word "if")
          fun _ => casePattern limit (any limit) limit {} {}
        if ← take? {} (.word "if") then let _ ← any limit {}
        let _ ← colonSuite limit block
        return ((), false)) limit
  else take lineEnd .newline

/-- The subjects of a `match` statement with the colon that ends their line. -/
def subjects : Read Unit := do
  let _ ← separated limit {} (· = .symbol ":") fun _ => any limit {}
  symbol ":"
  let next ← peek { newline := true, indent := true }
  guard (next.token = .newline || next.token = .indent)

/-- A statement with blocks behind its first word, which is `word`; the word opens no such
statement if nothing is read. -/
def compound? (nested : Bool) (word : String) : Option (Read Statement) :=
  match word with
  | "if" => some do
    let _ ← any limit {}
    let body ← colonSuite limit block
    return .branches (body :: (← alternatives limit block nested limit))
  | "while" => some do
    let _ ← any limit {}
    let _ ← colonSuite limit block
    let _ ← optionalSuite limit block (lineStart nested) "else"
    return .inert
  | "for" => some (forStatement limit block nested)
  | "try" => some (tryStatement limit block nested)
  | "with" => some (withStatement limit block)
  | "def" => some (functionDefinition limit block)
  | "class" => some (classDefinition limit block)
  | _ => none

/-- A definition with its decorators, behind the sign of the first. -/
def decorated : Read Statement := do
  let _ ← rounds (do
    let _ ← any limit ⟨{}, lineEnd, false⟩
    take lineEnd .newline
    return ((), !(← take? {} (.symbol "@")))) limit
  if ← take? {} (.word "class") then classDefinition limit block
  else
    let _ ← take? {} (.word "async")
    keyword "def"
    functionDefinition limit block

/-- The statements that start where a line does: one with blocks, or a line of simple ones. -/
def statements (nested : Bool) : Read (List Statement) := do
  let start := lineStart nested
  let next ← peek start
  match next.token with
  | .symbol "@" =>
    pass next
    return [← decorated limit block]
  | .word "match" =>
    let headed ← (do
      pass next
      subjects limit
      return true) <|> return false
    if headed then
      cases limit block
      return [.inert]
    else simpleLine limit start
  | .word "async" =>
    let behind := next.after.lexeme { lineEnd with quote := true }
    match behind.token with
    | .word w =>
      if w = "def" || w = "for" || w = "with" then
        match compound? limit block nested w with
        | some rest =>
          pass behind
          return [← rest]
        | none => failure
      else simpleLine limit start
    | _ => simpleLine limit start
  | .word w =>
    match compound? limit block nested w with
    | some rest =>
      pass next
      return [← rest]
    | none => simpleLine limit start
  | _ => simpleLine limit start

/-- Statements up to the token that ends them. -/
def statementsUntil (limit : Nat) (last : Token) (nested : Bool)
    (block : Read (List Statement)) : Read (List Statement) := do
  let lines ← rounds (do
    let next ← peek (lineStart nested)
    if next.token = last then
      pass next
      return ([], true)
    else return (← statements limit block nested, false)) limit
  return lines.flatten

/-- The lines of an indented block, to its end, with at most `depth` blocks inside each other. -/
def indented (limit : Nat) : Nat → Read (List Statement)
  | 0 => failure
  | depth + 1 => statementsUntil limit .dedent true (indented limit depth)

end ApiStubs.Python.Read
