/-!
# Python — the syntax of a module

What a module says at its top level, in the detail that decides which names it binds. Statements
that bind nothing a reader of the module could import, and the bodies of classes and functions,
are kept only as `inert`; expressions keep their shape where an assignment, a `del` or an
exception handler looks at it.
-/

namespace ApiStubs.Python

/-- An expression. -/
inductive Expr
  | name (id : String)
  /-- One string literal as written, prefix and quotes included, with the expressions in its
  replacement fields. -/
  | string (written : String) (fields : List Expr)
  | lambda (parts : List Expr)
  | call (callee : Expr) (arguments : List Expr)
  /-- An expression in parentheses; `remarked` when a comment or a continued line stands before
  it inside them. -/
  | group (remarked : Bool) (inner : Expr)
  /-- A display of a tuple in parentheses; `broken` when a continued line ends between its
  items. -/
  | tuple (broken : Bool) (items : List Expr)
  /-- A display of a list; `broken` as for a tuple. -/
  | list (broken : Bool) (items : List Expr)
  | attribute (object : Expr) (member : String)
  | subscript (object : Expr) (indices : List Expr)
  | star (inner : Expr)
  /-- Any other expression, with its parts. -/
  | compound (parts : List Expr)
  deriving Inhabited

mutual

/-- Every identifier in an expression, in the order of writing. -/
def Expr.identifiers : Expr → List String
  | .name id => [id]
  | .string _ fields => identifiersOf fields
  | .lambda parts => identifiersOf parts
  | .call callee arguments => callee.identifiers ++ identifiersOf arguments
  | .group _ inner => inner.identifiers
  | .tuple _ items => identifiersOf items
  | .list _ items => identifiersOf items
  | .attribute object member => object.identifiers ++ [member]
  | .subscript object indices => object.identifiers ++ identifiersOf indices
  | .star inner => inner.identifiers
  | .compound parts => identifiersOf parts

/-- Every identifier in a list of expressions. -/
def identifiersOf : List Expr → List String
  | [] => []
  | e :: rest => e.identifiers ++ identifiersOf rest

end

/-- The target of an assignment. -/
inductive Target
  | name (id : String)
  /-- An attribute or an element of some object. -/
  | place (e : Expr)
  | star (inner : Target)
  | sequence (items : List Target)
  deriving Inhabited

mutual

/-- The target an expression reads as on the left of an assignment, if it is one. -/
def Expr.target? : Expr → Option Target
  | .name id => some (.name id)
  | .attribute object member => some (.place (.attribute object member))
  | .subscript object indices => some (.place (.subscript object indices))
  | .star (.name id) => some (.star (.name id))
  | .star (.attribute object member) => some (.star (.place (.attribute object member)))
  | .star (.subscript object indices) => some (.star (.place (.subscript object indices)))
  | .group _ inner => inner.target?.map fun t => .sequence [t]
  | .tuple _ items => (targets? items).map .sequence
  | .list _ items => (targets? items).map .sequence
  | _ => none

/-- The targets a list of expressions reads as, if each is one. -/
def targets? : List Expr → Option (List Target)
  | [] => some []
  | e :: rest => do
    let t ← e.target?
    let ts ← targets? rest
    return t :: ts

end

/-- An assignment, read from its leftmost target. -/
inductive Assignment
  /-- A target with a type and no value. -/
  | declare (target : Target)
  /-- A target and the value on its right. -/
  | value (target : Target) (right : Expr)
  /-- A target whose right side is an assignment itself. -/
  | chain (target : Target) (right : Assignment)
  deriving Inhabited

/-- A module or name an import statement lists, as written, and the name it is bound to if one is
given. -/
structure Imported where
  written : String
  alias? : Option String
  deriving DecidableEq, Inhabited

/-- The module part of a `from` import. -/
inductive ImportSource
  | absolute (written : String)
  /-- A number of leading dots and the dotted name after them, empty if there is none. -/
  | relative (level : Nat) (written : String)
  deriving DecidableEq, Inhabited

/-- The names part of a `from` import. -/
inductive ImportedNames
  | everything
  | listed (names : List Imported)
  deriving DecidableEq, Inhabited

/-- The head of an exception handler: whether it handles groups, and what stands between its
keyword and its colon. -/
structure HandlerHead where
  group : Bool
  caught : List Expr
  deriving Inhabited

mutual

/-- A statement. -/
inductive Statement
  | classDef (name : String)
  | functionDef (name : String)
  | assign (a : Assignment)
  /-- An augmented assignment, whatever its operator. -/
  | augment (target : Target) (right : Expr)
  | importModules (modules : List Imported)
  | importFrom (source : ImportSource) (names : ImportedNames)
  | delete (targets : List Expr)
  /-- An `if` statement: its blocks in the order of writing. -/
  | branches (blocks : List (List Statement))
  | attempt (body : List Statement) (handlers : List Handler)
      (orElse : Option (List Statement)) (finish : Option (List Statement))
  /-- Any other statement. -/
  | inert

/-- An exception handler. -/
inductive Handler
  | mk (head : HandlerHead) (body : List Statement)

end

instance : Inhabited Statement := ⟨.inert⟩

/-- The head of a handler. -/
def Handler.head : Handler → HandlerHead
  | .mk head _ => head

/-- The block of a handler. -/
def Handler.body : Handler → List Statement
  | .mk _ body => body

/-- A module: its statements, and every identifier written in it, at any depth. -/
structure Source where
  statements : List Statement
  identifiers : List String
  deriving Inhabited

end ApiStubs.Python
