import ApiStubs.Python.Location

/-!
# Packages — what is documented

A package is a directory with a marker file. It is documented with the module files that stand
directly in it; the packages below it are named on its page and get pages of their own. Files of
at most two bytes hold no code worth a section.
-/

namespace ApiStubs

open Python (packageMarker)

/-- The size in bytes up to which a file counts as empty: nothing, or a single line end. -/
def trivialSize : Nat := 2

/-- A file of this size counts as empty. -/
def isTrivialSize (size : Nat) : Bool := size ≤ trivialSize

/-- A module file in a package directory. -/
structure ModuleFile where
  fileName : String
  size : Nat
  deriving DecidableEq, Inhabited

namespace ModuleFile

/-- The file name without its extension. -/
def stem (file : ModuleFile) : String := (FilePath.stem? ⟨file.fileName⟩).getD file.fileName

/-- The file is the marker of its package and stands for the package itself. -/
def isMarker (file : ModuleFile) : Bool := file.fileName = packageMarker

/-- The file counts as empty. -/
def isTrivial (file : ModuleFile) : Bool := isTrivialSize file.size

end ModuleFile

/-- A package. Its marker comes first among the modules, the other modules and the packages below
it follow in name order. -/
structure Package where
  name : String
  path : FilePath
  modules : List ModuleFile
  subpackages : List String
  deriving DecidableEq, Inhabited

namespace Package

/-- The name of the package's directory. -/
def directoryName (package : Package) : String := package.path.fileName?.getD package.name

/-- The dotted name of a module of the package. -/
def moduleName (package : Package) (file : ModuleFile) : String :=
  if file.isMarker then package.name else Dotted.join package.name file.stem

/-- The dotted name of a package below this one. -/
def subpackageName (package : Package) (sub : String) : String := Dotted.join package.name sub

/-- The package has nothing to document: no package below it, no module besides the marker, and
nothing in the marker. -/
def isEmpty (package : Package) : Bool :=
  package.subpackages.isEmpty
    && package.modules.all ModuleFile.isMarker
    && ((package.modules.find? ModuleFile.isMarker).map ModuleFile.isTrivial).getD true

end Package

end ApiStubs
