import ApiStubs.Fault
import ApiStubs.Page
import ApiStubs.Toml

/-!
# Settings — what to document, and where to

The settings of a documentation run, with their defaults. They can be read from a file; a relative
path in a settings file is meant relative to the directory of that file.
-/

namespace ApiStubs

/-- The settings of a run. -/
structure Settings where
  /-- The tree to document. -/
  root : FilePath := ⟨"."⟩
  /-- The directory that receives the pages. -/
  destination : FilePath := ⟨"reference"⟩
  /-- Directories to leave out, relative to the root or absolute. -/
  excludedDirectories : List String := []
  /-- Names or patterns of module files to leave out. -/
  excludedFiles : List String := []
  /-- The extension of the written files. -/
  suffix : String := "rst"
  /-- The options of every module directive. -/
  options : List String := Page.defaultOptions
  /-- The directory of example scripts, if there is one. -/
  examples? : Option FilePath := none
  deriving DecidableEq, Inhabited

namespace Settings

/-- The name of the settings file that is read when no other one is given. -/
def fileName : String := "refgen.toml"

/-- The settings can be used: the suffix is not empty and names no other directory. -/
def validate (settings : Settings) : Except Fault Unit :=
  if settings.suffix = "" || settings.suffix.toList.any fun c => c = '/' || c = '\\' then
    .error (.settings (.badSuffix settings.suffix))
  else .ok ()

/-- The settings with one of them replaced; there is none for an unknown key or a value of the
wrong form. -/
def set? (settings : Settings) : String → Toml.Value → Option Settings
  | "root", .text s => some { settings with root := ⟨s⟩ }
  | "destination", .text s => some { settings with destination := ⟨s⟩ }
  | "exclude_dirs", .list items => some { settings with excludedDirectories := items }
  | "exclude_files", .list items => some { settings with excludedFiles := items }
  | "suffix", .text s => some { settings with suffix := s }
  | "automodule_options", .list items => some { settings with options := items }
  | "examples_dir", .text s => some { settings with examples? := some ⟨s⟩ }
  | _, _ => none

/-- The settings that a text spells, checked. -/
def parse (text : String) : Except Fault Settings :=
  let given : Option Settings := do
    let entries ← Toml.entries? text
    entries.foldlM (fun settings entry => set? settings entry.1 entry.2) {}
  match given with
  | none => .error .settingsFile
  | some settings => settings.validate.map fun _ => settings

/-- The settings with their relative paths written after a directory. -/
def relativeTo (base : FilePath) (settings : Settings) : Settings :=
  { settings with
    root := base.join settings.root.text
    destination := base.join settings.destination.text
    examples? := settings.examples?.map fun directory => base.join directory.text }

/-- The settings in a file. -/
def load (disk : Disk) (file : FilePath) : Except Fault Settings := do
  match disk.readText file with
  | .error cause => throw (.settings (.unreadable file cause))
  | .ok text =>
    let settings ← parse text
    return settings.relativeTo (file.parent?.getD ⟨"."⟩)

/-- The settings in the given file, or in the default one if there is one in the working
directory. -/
def loadGiven (disk : Disk) : Option FilePath → Except Fault Settings
  | some file => load disk file
  | none => if disk.isFile ⟨fileName⟩ then load disk ⟨fileName⟩ else .ok {}

end Settings

end ApiStubs
