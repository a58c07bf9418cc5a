import ApiStubs.Examples
import ApiStubs.Page

/-!
# Documents — writing the pages of a package

A package gets one page, and every symbol its modules define gets a page of its own. All text is
written only after the package page is complete, so that a module that cannot be imported leaves
nothing half written; the symbols come first and the page that links to them last.
-/

namespace ApiStubs

/-- Where the pages go and how they are made. -/
structure Manual where
  destination : FilePath
  /-- The extension of the written files. -/
  suffix : String := "rst"
  /-- The options of every module directive. -/
  options : List String := Page.defaultOptions
  examples? : Option Examples := none
  deriving Inhabited

/-- The text of a package page and the symbols it links to. -/
structure PackagePage where
  name : String
  text : String
  symbols : List Symbol
  deriving DecidableEq, Inhabited

/-- The files written for a package. -/
structure PackageFiles where
  page : FilePath
  symbols : List FilePath
  deriving DecidableEq, Inhabited

namespace Manual

variable {σ : Type}

/-- The file that holds the page of a name. -/
def pathOf (manual : Manual) (name : String) : FilePath :=
  manual.destination.join (name ++ "." ++ manual.suffix)

/-- Writes the page of a name, replacing what was there; the destination is made if need be. -/
def write (manual : Manual) (name text : String) : Work σ FilePath := do
  Work.attempt fun disk => disk.attemptDirectories manual.destination
  Work.change fun disk => disk.writeText (manual.pathOf name) text
  return manual.pathOf name

variable [Importer σ]

/-- The section of a module on the page of its package, and the symbols in it. -/
def renderModule (manual : Manual) (package : Package) (file : ModuleFile) :
    Work σ (String × List Symbol) := do
  let defined ← members (package.moduleName file)
  let title := if file.isMarker then none else some file.stem
  return (Page.moduleSection title defined manual.options, defined.symbols)

/-- The page of a package: a section for each module that is not empty, then the packages
below. -/
def renderPackage (manual : Manual) (package : Package) : Work σ PackagePage := do
  let documented := package.modules.filter fun file => !file.isTrivial
  let sections ← documented.mapM (renderModule manual package)
  return {
    name := package.name
    text := Page.heading 1 (package.directoryName ++ " package")
      ++ Page.concat (sections.map Prod.fst)
      ++ Page.subpackageList package.name package.subpackages
    symbols := sections.flatMap Prod.snd }

/-- The page of a symbol. -/
def renderSymbol (manual : Manual) (symbol : Symbol) : Work σ String := do
  let shortest ← shortestImport symbol.module symbol.name
  let listing := match manual.examples?, symbol.kind with
    | some examples, .classType => examples.listing symbol.name
    | _, _ => ""
  return Page.symbolPage symbol shortest listing

/-- Writes the page of a symbol. -/
def documentSymbol (manual : Manual) (symbol : Symbol) : Work σ FilePath := do
  manual.write symbol.dottedName (← manual.renderSymbol symbol)

/-- Writes the pages of a package: those of its symbols in the order of the package page, then the
package page. -/
def documentPackage (manual : Manual) (package : Package) : Work σ PackageFiles := do
  let page ← manual.renderPackage package
  let symbols ← page.symbols.mapM manual.documentSymbol
  let path ← manual.write page.name page.text
  return ⟨path, symbols⟩

end Manual

end ApiStubs
