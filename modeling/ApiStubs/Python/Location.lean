import ApiStubs.Disk
import ApiStubs.Dotted

/-!
# Python — where modules live

A module is a file named after the last component of its dotted name, in directories named after
the others; a package is a directory with a marker file, which holds the package's own code. A
package hides a plain module of the same name.
-/

namespace ApiStubs.Python

/-- The file that makes a directory a package. -/
def packageMarker : String := "__init__.py"

/-- The extension of module files. -/
def moduleExtension : String := "py"

/-- The directory is a package. -/
def isPackage (disk : Disk) (directory : FilePath) : Bool :=
  disk.isFile (directory.join packageMarker)

/-- Where the code of a module stands. -/
structure Location where
  path : FilePath
  isPackage : Bool
  deriving DecidableEq, Inhabited

/-- Where a module lives below a search root, if it does. A name with an empty component names no
module. -/
def locate (disk : Disk) (searchRoot : FilePath) (name : String) : Option Location :=
  let parts := Dotted.components name
  if "" ∈ parts then none
  else
    let directory := searchRoot.joinAll parts
    if isPackage disk directory then some ⟨directory.join packageMarker, true⟩
    else
      let file := directory.withExtension moduleExtension
      if disk.isFile file then some ⟨file, false⟩ else none

/-- The search root for the modules of a documented tree: a package is imported from the directory
that holds it, any other directory holds the packages itself. -/
def searchRootFor (disk : Disk) (root : FilePath) : FilePath :=
  if isPackage disk root then root.parent?.getD root else root

end ApiStubs.Python
