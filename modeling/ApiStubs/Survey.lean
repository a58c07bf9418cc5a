import ApiStubs.Disk.Traversal
import ApiStubs.Exclusion
import ApiStubs.Glob
import ApiStubs.Package

/-!
# Survey — finding the packages of a tree

The packages worth documenting, in the order of their pages. A directory is entered when it is a
package, its name is neither hidden nor private, and no rule leaves it out; the root is entered
whatever its name is, and need not be a package itself. A package with nothing to document is
passed over, and so are the module files that a pattern covers.

Links count as what they lead to, which is also how modules are looked up when they are loaded.
-/

namespace ApiStubs

/-- What a directory is to the survey. -/
inductive DirectoryKind
  | package
  | plain
  | excluded
  deriving DecidableEq, Inhabited

/-- What to leave out of the documentation. -/
structure Selection where
  exclusions : Exclusions
  /-- Patterns of module files to leave out. -/
  hidden : List Glob
  deriving Inhabited

namespace Selection

/-- The selection with the given rules and patterns, all of which must be well formed. -/
def make (exclusions : Exclusions) (patterns : List String) : Except Fault Selection := do
  return ⟨exclusions, ← patterns.mapM Glob.compile⟩

/-- What a directory is. -/
def kindOf (selection : Selection) (disk : Disk) (directory : FilePath) : DirectoryKind :=
  if selection.exclusions.covers directory then .excluded
  else if Python.isPackage disk directory then .package
  else .plain

/-- The name is that of a module file that no pattern covers. -/
def isModuleFile (selection : Selection) (name : String) : Bool :=
  (FilePath.extension? ⟨name⟩) == some Python.moduleExtension
    && !selection.hidden.any fun pattern => pattern.covers name

end Selection

/-- A directory of this name is neither hidden nor private. -/
def isVisibleDirectory (name : String) : Bool :=
  !Text.startsWith name "." && !Text.startsWith name "_"

namespace Survey

variable (disk : Disk) (selection : Selection)

/-- The name of the package that the root is, if it is one. -/
def rootPackage? (root : FilePath) : Option String :=
  if Python.isPackage disk root then root.fileName? else none

/-- A visited entry is a directory the survey enters. -/
def enters (visit : Visit) : Bool :=
  visit.kind = .directory && match visit.name? with
    | none => !selection.exclusions.covers visit.path
    | some name => isVisibleDirectory name && selection.kindOf disk visit.path = .package

/-- The traversal of what stands directly in a directory. -/
def childRule : TraversalRule := { followLinks := true, keep := fun _ => true, levels := 1 }

/-- The module a visited entry is, if it is one that is documented. -/
def module? (visit : Visit) : Except Fault (Option ModuleFile) :=
  match visit.name?, visit.kind with
  | some name, .file =>
    if selection.isModuleFile name then
      match disk.fileSize visit.path with
      | .ok size => .ok (some ⟨name, size⟩)
      | .error cause => .error (.traversal visit.path cause)
    else .ok none
  | _, _ => .ok none

/-- The modules among visited entries. -/
def readModules : List Visit → Except Fault (List ModuleFile)
  | [] => .ok []
  | visit :: rest => do
    let found ← module? disk selection visit
    let others ← readModules rest
    return found.toList ++ others

/-- The name of a visited entry that is a package of its own. -/
def subpackage? (visit : Visit) : Option String :=
  match visit.name?, visit.kind with
  | some name, .directory =>
    if isVisibleDirectory name && selection.kindOf disk visit.path = .package then some name
    else none
  | _, _ => none

/-- The modules with the marker in front. -/
def markerFirst (modules : List ModuleFile) : List ModuleFile :=
  match modules.find? ModuleFile.isMarker with
  | some marker => marker :: modules.eraseP ModuleFile.isMarker
  | none => modules

/-- The package at a directory. -/
def readPackage (name : String) (directory : FilePath) : Except Fault Package := do
  let traversal := disk.traverse childRule directory
  let children := traversal.visits.filter fun visit => visit.names ≠ []
  let modules ← readModules disk selection children
  match traversal.fault with
  | some fault => throw fault
  | none =>
    return {
      name
      path := directory
      modules := markerFirst modules
      subpackages := children.filterMap (subpackage? disk selection) }

/-- The packages at visited directories, those with nothing to document passed over. -/
def readPackages (rootPackage : String) : List Visit → Except Fault (List Package)
  | [] => .ok []
  | visit :: rest => do
    if selection.kindOf disk visit.path ≠ .package then readPackages rootPackage rest
    else
      let name := Dotted.join rootPackage (Dotted.ofComponents visit.names)
      let package ← readPackage disk selection name visit.path
      let others ← readPackages rootPackage rest
      return if package.isEmpty then others else package :: others

end Survey

/-- The packages of a tree, each before the packages below it. -/
def survey (disk : Disk) (selection : Selection) (root : FilePath) :
    Except Fault (List Package) := do
  let rule : TraversalRule :=
    { followLinks := true, keep := Survey.enters disk selection, levels := disk.everyLevel }
  let traversal := disk.traverse rule root
  let rootPackage := (Survey.rootPackage? disk root).getD ""
  let packages ← Survey.readPackages disk selection rootPackage traversal.visits
  match traversal.fault with
  | some fault => throw fault
  | none => return packages

end ApiStubs
