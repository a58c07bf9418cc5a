import ApiStubs.Work

/-!
# Symbols — which module documents a name

A module documents the public names it defines itself. What it imports belongs to the module that
the binding names as its origin, and modules are no symbols at all.

A symbol is best imported from the shallowest package that hands it out: `shortestImport` tries
the packages on the way to the defining module from the top down.
-/

namespace ApiStubs

/-- The sorts of documented symbols. -/
inductive SymbolKind
  | classType
  | function
  | object
  deriving DecidableEq, Inhabited

namespace SymbolKind

/-- The sorts in the order in which they are documented. -/
def all : List SymbolKind := [.classType, .function, .object]

/-- The sort of symbol that a binding makes; a module is none. -/
def ofBinding? : BindingKind → Option SymbolKind
  | .classType => some .classType
  | .function => some .function
  | .value => some .object
  | .module => none

end SymbolKind

/-- A symbol with a page of its own. -/
structure Symbol where
  module : String
  name : String
  kind : SymbolKind
  deriving DecidableEq, Inhabited

/-- The dotted name of a symbol, which its page is called by. -/
def Symbol.dottedName (symbol : Symbol) : String := Dotted.join symbol.module symbol.name

/-- The symbols a module defines, each group in name order. -/
structure Members where
  module : String
  classes : List String := []
  functions : List String := []
  objects : List String := []
  deriving DecidableEq, Inhabited

namespace Members

/-- The names of one sort. -/
def ofKind (members : Members) : SymbolKind → List String
  | .classType => members.classes
  | .function => members.functions
  | .object => members.objects

/-- The number of symbols. -/
def size (members : Members) : Nat :=
  members.classes.length + members.functions.length + members.objects.length

/-- There are no symbols. -/
def isEmpty (members : Members) : Bool := members.size = 0

/-- The symbols, classes first, then functions, then objects. -/
def symbols (members : Members) : List Symbol :=
  SymbolKind.all.flatMap fun kind =>
    (members.ofKind kind).map fun name => ⟨members.module, name, kind⟩

/-- The public names of a table that are bound to objects of one sort defined in the module. -/
def namesOf (table : SymbolTable) (module : String) (kind : SymbolKind) : List String :=
  table.publicBindings.filterMap fun (name, binding) =>
    if binding.isDefinedIn module && SymbolKind.ofBinding? binding.kind == some kind
    then some name else none

/-- The symbols that a module defines, read from its table. -/
def ofTable (table : SymbolTable) (module : String) : Members where
  module := module
  classes := namesOf table module .classType
  functions := namesOf table module .function
  objects := namesOf table module .object

end Members

/-- The symbols that a module defines. -/
def members {σ : Type} [Importer σ] (module : String) : Work σ Members := do
  return .ofTable (← Work.load module) module

/-- The table binds the name to an object defined in the module. -/
def SymbolTable.handsOut (table : SymbolTable) (symbol module : String) : Bool :=
  (table.find? symbol).any fun binding => binding.isDefinedIn module

/-- The first of the candidates that hands out the symbol. One that cannot be imported does not. -/
def firstHandingOut {σ : Type} [Importer σ] (module symbol : String) :
    List String → Work σ String
  | [] => throw (.unresolved module symbol)
  | candidate :: rest => do
    match ← Work.load? candidate with
    | some table =>
      if table.handsOut symbol module then return candidate
      else firstHandingOut module symbol rest
    | none => firstHandingOut module symbol rest

/-- The shallowest package, or the module itself, from which the symbol of a module can be
imported. -/
def shortestImport {σ : Type} [Importer σ] (module symbol : String) : Work σ String :=
  firstHandingOut module symbol (Dotted.prefixes module)

end ApiStubs
