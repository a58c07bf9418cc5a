import ApiStubs.Document
import ApiStubs.Progress
import ApiStubs.Python.Loader
import ApiStubs.Settings
import ApiStubs.Survey

/-!
# Generation — a whole documentation run

A run surveys the tree, reads the examples and then writes the pages of one package after the
other. Nothing is written before the survey and the examples are complete; the first package that
fails ends the run, and the pages of the packages before it stay.
-/

namespace ApiStubs

namespace Settings

/-- The absolute path of the tree to document. -/
def resolveRoot (settings : Settings) (disk : Disk) : Except Fault FilePath :=
  if !disk.pathExists settings.root then .error (.settings (.rootMissing settings.root))
  else if !disk.isDirectory settings.root then
    .error (.settings (.rootNotDirectory settings.root))
  else (disk.canonicalize settings.root).mapError .disk

/-- What the settings leave out of the tree at a root. -/
def selection (settings : Settings) (disk : Disk) (root : FilePath) : Except Fault Selection :=
  Selection.make (.ofPaths disk root settings.excludedDirectories) settings.excludedFiles

/-- The packages to document, in the order of their pages; there must be one. -/
def packages (settings : Settings) (disk : Disk) : Except Fault (List Package) := do
  let root ← settings.resolveRoot disk
  let found ← survey disk (← settings.selection disk root) root
  if found.isEmpty then throw (.settings (.nothingToDocument root)) else return found

/-- The importer of the modules to document. -/
def loader (settings : Settings) (disk : Disk) : Except Fault Python.Loader := do
  return .forTree disk (← settings.resolveRoot disk)

/-- The example scripts, if the settings name a directory of them. -/
def examples (settings : Settings) (disk : Disk) : Except Fault (Option Examples) :=
  match settings.examples? with
  | none => .ok none
  | some directory =>
    if disk.isDirectory directory then some <$> Examples.scan disk directory
    else .error (.settings (.examplesMissing directory))

end Settings

/-- A run: the progress after each package that was completed, and what came of it. -/
structure Run where
  steps : List (Package × Progress)
  result : Except Fault Statistics

namespace Run

variable {σ : Type} [Importer σ]

/-- A run that ends before the first package. -/
def failed (fault : Fault) : Run := ⟨[], .error fault⟩

/-- Documents packages one after the other, going on from some progress. -/
def documentAll (manual : Manual) :
    List Package → Progress → StateM (Workspace σ) Run
  | [], progress => return ⟨[], .ok progress.statistics⟩
  | package :: rest, progress => do
    match ← (manual.documentPackage package).outcome with
    | .error fault => return .failed fault
    | .ok files =>
      let progress := progress.advance package.name files.symbols.length
      let run ← documentAll manual rest progress
      return { run with steps := (package, progress) :: run.steps }

end Run

/-- Documents the tree that the settings name, with the given importer. -/
def generate {σ : Type} [Importer σ] (settings : Settings) : StateM (Workspace σ) Run := do
  let disk := (← get).disk
  let planned : Except Fault (List Package × Option Examples) := do
    return (← settings.packages disk, ← settings.examples disk)
  match planned with
  | .error fault => return .failed fault
  | .ok (packages, examples?) =>
    let manual : Manual :=
      { destination := settings.destination, suffix := settings.suffix,
        options := settings.options, examples? }
    Run.documentAll manual packages { total := packages.length }

/-- Documents the tree that the settings name from its sources, with the tree as it is
afterwards. -/
def generateFromSources (settings : Settings) (disk : Disk) : Run × Disk :=
  match settings.loader disk with
  | .error fault => (.failed fault, disk)
  | .ok loader =>
    let (run, space) := generate settings ⟨disk, loader⟩
    (run, space.disk)

end ApiStubs
