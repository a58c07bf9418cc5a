import ApiStubs.Dotted
import ApiStubs.NameMap

/-!
# Symbol tables — what a module hands out

The names a module binds, each with the module its object comes from. The origin alone decides
where a symbol is documented: a name that is imported keeps the origin of the module that defined
it.
-/

namespace ApiStubs

/-- What sort of object a name is bound to. -/
inductive BindingKind
  | classType
  | function
  | module
  | value
  deriving DecidableEq, Inhabited

/-- All sorts of bound objects. -/
def BindingKind.all : List BindingKind := [.classType, .function, .module, .value]

/-- What a name is bound to. The origin is the module that defined the object; modules have none,
nor have values that no known class produced. -/
structure Binding where
  kind : BindingKind
  origin? : Option String
  deriving DecidableEq, Inhabited

namespace Binding

/-- A class defined in the given module. -/
def classOf (origin : String) : Binding := ⟨.classType, some origin⟩

/-- A function defined in the given module. -/
def functionOf (origin : String) : Binding := ⟨.function, some origin⟩

/-- An object that belongs to the given module. -/
def objectOf (origin : String) : Binding := ⟨.value, some origin⟩

/-- A value without an origin. -/
def plainValue : Binding := ⟨.value, none⟩

/-- A module. -/
def ofModule : Binding := ⟨.module, none⟩

/-- The object was defined in the given module. -/
def isDefinedIn (b : Binding) (module : String) : Bool := b.origin? == some module

end Binding

/-- The symbol table of a module. -/
structure SymbolTable where
  name : String
  bindings : NameMap Binding := ∅
  /-- The names the module declares to be its exports, if it declares any. -/
  exports? : Option (List String) := none
  deriving DecidableEq, Inhabited

namespace SymbolTable

/-- The table of a module that binds nothing yet. -/
def named (name : String) : SymbolTable := { name }

/-- What a name is bound to. -/
def find? (table : SymbolTable) (name : String) : Option Binding := table.bindings.find? name

/-- The table with a name bound. -/
def bind (table : SymbolTable) (name : String) (binding : Binding) : SymbolTable :=
  { table with bindings := table.bindings.insert name binding }

/-- The table without a name. -/
def unbind (table : SymbolTable) (name : String) : SymbolTable :=
  { table with bindings := table.bindings.erase name }

/-- The bindings of public names, in name order. -/
def publicBindings (table : SymbolTable) : List (String × Binding) :=
  table.bindings.entries.filter fun entry => Dotted.isPublic entry.1

/-- The table with the given export list. -/
def setExports (table : SymbolTable) (names : List String) : SymbolTable :=
  { table with exports? := some names }

/-- The table with names added to its export list. -/
def extendExports (table : SymbolTable) (names : List String) : SymbolTable :=
  { table with exports? := some (table.exports?.getD [] ++ names) }

/-- What a star import takes from the module: its exports as far as they are bound, or its public
bindings if it declares no exports. -/
def starBindings (table : SymbolTable) : List (String × Binding) :=
  match table.exports? with
  | some names => names.filterMap fun name => (table.find? name).map fun b => (name, b)
  | none => table.publicBindings

@[simp] theorem find?_bind (table : SymbolTable) (name key : String) (b : Binding) :
    (table.bind name b).find? key = if key = name then some b else table.find? key :=
  table.bindings.find?_insert name key b

@[simp] theorem find?_unbind (table : SymbolTable) (name key : String) :
    (table.unbind name).find? key = if key = name then none else table.find? key :=
  table.bindings.find?_erase name key

end SymbolTable

end ApiStubs
