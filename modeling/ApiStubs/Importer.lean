import ApiStubs.Disk
import ApiStubs.Fault
import ApiStubs.SymbolTable

/-!
# Importers — where symbol tables come from

The documentation is written from symbol tables alone. An importer finds the table of a module by
its dotted name; it may read files, and it may remember what it has read, so that an import also
yields the importer as it is afterwards.

A registry is an importer that holds its tables from the start.
-/

namespace ApiStubs

/-- The ability to import modules. -/
class Importer (σ : Type) where
  /-- Imports a module, with the importer as the import leaves it. -/
  load : Disk → String → σ → Except ImportFailure SymbolTable × σ

/-- An importer of modules that were registered by hand. -/
structure Registry where
  tables : NameMap SymbolTable := ∅
  deriving DecidableEq, Inhabited

namespace Registry

/-- The registry with a table registered under its own name. -/
def register (registry : Registry) (table : SymbolTable) : Registry :=
  ⟨registry.tables.insert table.name table⟩

/-- The table registered under a name, empty if there is none. -/
def table (registry : Registry) (name : String) : SymbolTable :=
  (registry.tables.find? name).getD (.named name)

/-- The registry with the table of a name, which is made if it is missing, changed. -/
def define (registry : Registry) (name : String) (change : SymbolTable → SymbolTable) :
    Registry :=
  ⟨registry.tables.insert name (change (registry.table name))⟩

/-- A table is registered under the name. -/
def contains (registry : Registry) (name : String) : Bool := registry.tables.contains name

/-- The number of registered modules. -/
def size (registry : Registry) : Nat := registry.tables.size

/-- The table registered under a name. -/
def load (registry : Registry) (name : String) : Except ImportFailure SymbolTable :=
  match registry.tables.find? name with
  | some table => .ok table
  | none => .error ⟨name, .noModule name⟩

instance : Importer Registry := ⟨fun _ name registry => (registry.load name, registry)⟩

end Registry

end ApiStubs
