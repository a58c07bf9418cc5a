import ApiStubs.Python.Replay
import ApiStubs.Python.Source

/-!
# Python — loading modules from their sources

A module is loaded by replaying its source, once; its table is then remembered. Loading `a.b`
loads `a` first. A module that is asked for while it is being replayed hands out what it has bound
so far, and a module that fails to load is forgotten, so that it is tried again the next time.

Modules are loaded inside each other, and the depth of that is bounded by a number, `maxNesting`,
which no tree of files reaches: a module is never replayed inside itself, and there are fewer
modules than texts that fit into a path.
-/

namespace ApiStubs.Python

/-- A tree of modules: where they live, and the code that stands there. -/
structure Tree where
  locate : String → Option Location
  code : FilePath → Except ImportError (List Statement)

/-- The tree of the modules below a search root. -/
def Tree.below (disk : Disk) (searchRoot : FilePath) : Tree where
  locate := Python.locate disk searchRoot
  code path :=
    match disk.readText path with
    | .error cause => .error (.unreadable path cause)
    | .ok text =>
      match Source.ofText? text with
      | none => .error (.badSyntax path)
      | some source => .ok source.statements

namespace Tree

variable (tree : Tree)

/-- The scope of a module that lives at a location, with a given way of importing others. Relative
imports start from a package itself, and from the package around a plain module. -/
def scope (load : String → Importing SymbolTable) (name : String) (location : Location) :
    Scope where
  module := name
  package := if location.isPackage then name else (Dotted.parent? name).getD ""
  located other := (tree.locate other).isSome
  load := load

/-- Replays the code at a location as the given module. -/
def replay (load : String → Importing SymbolTable) (name : String) (location : Location) :
    Importing Unit :=
  match tree.code location.path with
  | .error cause => throw ⟨name, cause⟩
  | .ok statements => (tree.scope load name location).replayAll statements

/-- The table a module is known by: complete, or what it has bound so far. -/
def known? (name : String) : Importing (Option SymbolTable) := do
  let cache ← get
  return (cache.loaded.find? name).or (cache.loading.find? name)

/-- Loads a module that is not known yet. Its table stands among those being replayed for as long
as the replay takes, and among the loaded ones if the replay succeeds. -/
def loadFresh (load : String → Importing SymbolTable) (name : String) :
    Importing SymbolTable := do
  match tree.locate name with
  | none => throw ⟨name, .noModule name⟩
  | some location =>
    modify fun cache => { cache with loading := cache.loading.insert name (.named name) }
    let outcome ← (tree.replay load name location).outcome
    let table := ((← get).loading.find? name).getD (.named name)
    modify fun cache => { cache with loading := cache.loading.erase name }
    match outcome with
    | .error failure => throw failure
    | .ok () =>
      modify fun cache => { cache with loaded := cache.loaded.insert name table }
      return table

/-- Loads a module, with at most the given number of modules being loaded inside each other. -/
def load : Nat → String → Importing SymbolTable
  | 0, name => throw ⟨name, .tooDeep⟩
  | depth + 1, name => do
    if let some table ← known? name then return table
    match Dotted.parent? name with
    | some parent =>
      if (tree.locate parent).isSome then
        let _ ← load depth parent
        if let some table := (← get).loaded.find? name then return table
      tree.loadFresh (load depth) name
    | none => tree.loadFresh (load depth) name

end Tree

/-- More modules than can be loaded inside each other: as many as there are texts of the length of
a path, times the number of components one of them can have. -/
def maxNesting : Nat := Nat.pow (0x110000 + 1) (maxPathBytes + 1) * (maxPathBytes + 3)

/-- An importer of the modules below a search root. -/
structure Loader where
  searchRoot : FilePath
  /-- The number of modules that may be loaded inside each other. -/
  nesting : Nat := maxNesting
  cache : Cache := {}
  deriving DecidableEq, Inhabited

namespace Loader

/-- The loader for a documented tree. -/
def forTree (disk : Disk) (root : FilePath) : Loader := { searchRoot := searchRootFor disk root }

/-- The tree that a loader loads from. -/
def tree (disk : Disk) (loader : Loader) : Tree := .below disk loader.searchRoot

/-- Loads a module, with the loader as it is afterwards. -/
def load (disk : Disk) (name : String) (loader : Loader) :
    Except ImportFailure SymbolTable × Loader :=
  let (result, cache) := (loader.tree disk).load loader.nesting name loader.cache
  (result, { loader with cache })

instance : Importer Loader := ⟨load⟩

end Loader

end ApiStubs.Python
