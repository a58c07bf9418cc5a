import ApiStubs.Importer
import ApiStubs.Python.Location
import ApiStubs.Python.Syntax

/-!
# Python — replaying a module

The table of a module is found by replaying its top-level statements in order: definitions,
assignments, imports and deletions change the table as running the module would, and no code
runs. Both sides of an `if` are replayed. A failed import in the body of a `try` is handed to the
first handler that catches it.

Imports are made through an importing function, `Scope.load`, that is given from outside; what it
reads and remembers is kept in a `Cache` even where the import fails.
-/

namespace ApiStubs.Python

/-- The tables known so far: of the modules that are loaded, and of those being replayed. -/
structure Cache where
  loaded : NameMap SymbolTable := ∅
  loading : NameMap SymbolTable := ∅
  deriving DecidableEq, Inhabited

/-- A computation that imports modules. -/
abbrev Importing := ExceptT ImportFailure (StateM Cache)

/-- Runs a computation and yields its outcome; a failure is no failure of the whole. -/
def Importing.outcome {α : Type} (x : Importing α) : Importing (Except ImportFailure α) :=
  fun cache => let (result, after) := x cache; (.ok result, after)

/-- The module being replayed and what it can reach. -/
structure Scope where
  module : String
  /-- The package that relative imports start from. -/
  package : String
  /-- A module of the tree lives under the name. -/
  located : String → Bool
  /-- Imports a module of the tree. -/
  load : String → Importing SymbolTable

namespace Scope

variable (scope : Scope)

/-- Changes the table of the module being replayed. -/
def update (change : SymbolTable → SymbolTable) : Importing Unit :=
  modify fun cache =>
    match cache.loading.find? scope.module with
    | some table => { cache with loading := cache.loading.insert scope.module (change table) }
    | none => cache

/-- Binds a name in the module. -/
def bind (name : String) (binding : Binding) : Importing Unit :=
  scope.update fun table => table.bind name binding

/-- What a name is bound to in the module so far. -/
def lookup (name : String) : Importing (Option Binding) := do
  let cache ← get
  return (cache.loading.find? scope.module).bind fun table => table.find? name

/-- The module's top-level package is not part of the tree. -/
def isExternal (name : String) : Bool := !scope.located (Dotted.top name)

/-! ### Values and targets -/

/-- The characters of a string literal: letters in front and all quotation marks at both ends are
dropped, and nothing else is. -/
def unquote (written : String) : String :=
  let isMark (c : Char) : Bool := c = '"' || c = '\''
  let body := (written.toList.dropWhile Char.isAlpha).dropWhile isMark
  String.ofList (body.reverse.dropWhile isMark).reverse

/-- The texts of a list of plain string literals. -/
def literals? : List Expr → Option (List String)
  | [] => some []
  | .string written _ :: rest => (literals? rest).map (unquote written :: ·)
  | _ => none

/-- The texts of a list or tuple of plain string literals. -/
def exportList? : Expr → Option (List String)
  | .list false items => literals? items
  | .tuple false items => literals? items
  | _ => none

/-- What an expression is, as far as it can be told. The object a class makes belongs to the
module that defined the class. -/
def evaluate : Expr → Importing Binding
  | .lambda _ => return .functionOf scope.module
  | .name id => return (← scope.lookup id).getD .plainValue
  | .call (.name id) _ => do
    match ← scope.lookup id with
    | some ⟨.classType, some origin⟩ => return .objectOf origin
    | _ => return .plainValue
  | .group false inner => evaluate inner
  | _ => return .plainValue

mutual

/-- Binds a target; the parts of a sequence get plain values. A starred target, an attribute and
an element bind no name. -/
def bindTarget (binding : Binding) : Target → Importing Unit
  | .name id => scope.bind id binding
  | .sequence items => bindTargets items
  | .place _ => pure ()
  | .star _ => pure ()

/-- Binds targets to plain values. -/
def bindTargets : List Target → Importing Unit
  | [] => pure ()
  | target :: rest => do
    bindTarget .plainValue target
    bindTargets rest

end

/-- Replays an assignment from right to left and yields the value it assigns. A declaration
assigns nothing, and then nothing to its left is bound. A list of strings assigned to `__all__`
becomes the module's export list. -/
def assign : Assignment → Importing (Option Binding)
  | .declare _ => return none
  | .value target right => do
    let binding ← scope.evaluate right
    match target, exportList? right with
    | .name "__all__", some names => scope.update fun table => table.setExports names
    | _, _ => pure ()
    scope.bindTarget binding target
    return some binding
  | .chain target right => do
    match ← assign right with
    | none => return none
    | some binding =>
      scope.bindTarget binding target
      return some binding

/-- Replays an augmented assignment: strings added to `__all__` are added to the exports. -/
def augment (target : Target) (right : Expr) : Importing Unit :=
  match target, exportList? right with
  | .name "__all__", some names => scope.update fun table => table.extendExports names
  | _, _ => pure ()

mutual

/-- The names an expression behind `del` removes. -/
def deleted : Expr → List String
  | .name id => [id]
  | .group _ inner => deleted inner
  | .tuple _ items => deletedNames items
  | .list _ items => deletedNames items
  | _ => []

/-- The names a list of expressions behind `del` removes. -/
def deletedNames : List Expr → List String
  | [] => []
  | e :: rest => deleted e ++ deletedNames rest

end

/-! ### Imports -/

/-- Replays one module of an `import` statement: the module is loaded if it is one of the tree,
and the name given to it, or else its top-level package, is bound. -/
def importModule (imported : Imported) : Importing Unit := do
  if !scope.isExternal imported.written then
    let _ ← scope.load imported.written
  scope.bind (imported.alias?.getD (Dotted.top imported.written)) .ofModule

/-- The absolute name of the module part of a `from` import. One dot stands for the package, each
further one for the package around it. -/
def resolve : ImportSource → Except ImportFailure String
  | .absolute written => .ok written
  | .relative level written =>
    let package := if scope.package = "" then [] else Dotted.components scope.package
    let base := package.take (package.length - (level - 1))
    if base = [] then .error ⟨scope.module, .beyondTopLevel⟩
    else .ok (Dotted.join (Dotted.ofComponents base) written)

/-- What a `from` import takes from a module under a name. A name the module does not bind may be
a submodule. -/
def importName (source name : String) : Importing Binding := do
  if scope.isExternal source then return .objectOf source
  let table ← scope.load source
  match table.find? name with
  | some binding => return binding
  | none =>
    if scope.located (Dotted.join source name) then return .ofModule
    else throw ⟨scope.module, .noName name source⟩

/-- Replays a star import. From a module outside the tree it takes nothing. -/
def importStar (source : String) : Importing Unit := do
  if scope.isExternal source then return
  let table ← scope.load source
  table.starBindings.forM fun (name, binding) => scope.bind name binding

/-- Replays the names of a `from` import, one after the other. -/
def importNames (source : String) (names : List Imported) : Importing Unit :=
  names.forM fun imported => do
    let binding ← scope.importName source imported.written
    scope.bind (imported.alias?.getD imported.written) binding

/-- Replays a `from` import. -/
def importFrom (source : ImportSource) (names : ImportedNames) : Importing Unit := do
  let module ← liftExcept (scope.resolve source)
  match names with
  | .everything => scope.importStar module
  | .listed each => scope.importNames module each

/-! ### Statements -/

/-- The exceptions whose handlers catch a failed import. -/
def importErrors : List String :=
  ["ImportError", "ModuleNotFoundError", "Exception", "BaseException"]

/-- A handler catches a failed import: it names no exception, or mentions one of those that do.
Handlers of groups never do. -/
def catchesImportFailure (head : HandlerHead) : Bool :=
  !head.group
    && (head.caught.isEmpty || (identifiersOf head.caught).any fun name => name ∈ importErrors)

mutual

/-- Replays a statement. -/
def replay : Statement → Importing Unit
  | .classDef name => scope.bind name (.classOf scope.module)
  | .functionDef name => scope.bind name (.functionOf scope.module)
  | .assign a => discard (scope.assign a)
  | .augment target right => scope.augment target right
  | .importModules modules => modules.forM scope.importModule
  | .importFrom source names => scope.importFrom source names
  | .delete targets =>
    (deletedNames targets).forM fun name => scope.update fun table => table.unbind name
  | .branches blocks => replayBlocks blocks
  | .attempt body handlers orElse finish => do
    match ← (replayAll body).outcome with
    | .ok () => replayOptional orElse
    | .error failure => replayHandler failure handlers
    replayOptional finish
  | .inert => pure ()

/-- Replays statements in order. -/
def replayAll : List Statement → Importing Unit
  | [] => pure ()
  | statement :: rest => do
    replay statement
    replayAll rest

/-- Replays blocks in order. -/
def replayBlocks : List (List Statement) → Importing Unit
  | [] => pure ()
  | block :: rest => do
    replayAll block
    replayBlocks rest

/-- Replays a block, if there is one. -/
def replayOptional : Option (List Statement) → Importing Unit
  | none => pure ()
  | some block => replayAll block

/-- Replays the first handler that catches a failed import; without one the failure goes on. -/
def replayHandler (failure : ImportFailure) : List Handler → Importing Unit
  | [] => throw failure
  | .mk head body :: rest =>
    if catchesImportFailure head then replayAll body else replayHandler failure rest

end

end Scope

end ApiStubs.Python
