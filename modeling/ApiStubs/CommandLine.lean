import ApiStubs.Arguments
import ApiStubs.Generation
import ApiStubs.Json

/-!
# Command line — the commands and their replies

Four commands: write the documentation of a tree, list its packages, show what a module documents,
and print where a symbol is best imported from. The settings file is read first; what is said on
the command line wins over it.

`CommandLine.run` works on a file tree as a value and yields the reply with the tree as it is
afterwards.
-/

namespace ApiStubs

/-- The form of a listing. -/
inductive ListingFormat
  | text
  | json
  deriving DecidableEq, Inhabited

/-- The format of a name; there is no wrong name. -/
def ListingFormat.ofName (name : String) : ListingFormat := if name = "json" then .json else .text

/-- Settings said on the command line. An empty list says nothing. -/
structure Overrides where
  root? : Option FilePath := none
  destination? : Option FilePath := none
  excludedDirectories : List String := []
  excludedFiles : List String := []
  suffix? : Option String := none
  examples? : Option FilePath := none
  deriving DecidableEq, Inhabited

/-- The settings as the command line changes them. -/
def Overrides.apply (overrides : Overrides) (settings : Settings) : Settings :=
  { settings with
    root := overrides.root?.getD settings.root
    destination := overrides.destination?.getD settings.destination
    excludedDirectories :=
      if overrides.excludedDirectories.isEmpty then settings.excludedDirectories
      else overrides.excludedDirectories
    excludedFiles :=
      if overrides.excludedFiles.isEmpty then settings.excludedFiles
      else overrides.excludedFiles
    suffix := overrides.suffix?.getD settings.suffix
    examples? := overrides.examples?.or settings.examples? }

/-- What is to be done. -/
inductive Command
  /-- Writes the documentation. -/
  | generate (overrides : Overrides)
  /-- Lists the packages to document. -/
  | packages (overrides : Overrides) (format : ListingFormat)
  /-- Shows the symbols that a module documents. -/
  | members (module : String) (root? : Option FilePath) (format : ListingFormat)
  /-- Prints where a symbol is best imported from. -/
  | shortest (module symbol : String) (root? : Option FilePath)
  deriving DecidableEq

/-- A command and the settings file it is to read. -/
structure Invocation where
  settingsFile? : Option FilePath
  command : Command
  deriving DecidableEq

/-- What the program answers. -/
structure Reply where
  code : Nat := 0
  /-- The text for the standard output. -/
  output : String := ""
  /-- The output is the beginning of a line that ends with the time taken. -/
  timed : Bool := false
  /-- The text for the standard error output. -/
  complaint : String := ""
  deriving DecidableEq, Inhabited

namespace CommandLine

/-! ### The forms of the commands -/

/-- The name and the version of the program. -/
def versionText : String := "refgen 0.1.0\n"

/-- How the program is used. -/
def usageText : String :=
  "Usage: refgen [--config FILE] COMMAND\n\n"
    ++ "  generate [ROOT] [-o|--output DIR] [--exclude-dir DIR]... [--exclude-file PATTERN]...\n"
    ++ "           [--suffix SUFFIX] [--examples DIR]\n"
    ++ "  packages [ROOT] [--exclude-dir DIR]... [--format text|json]\n"
    ++ "  members MODULE [--root ROOT] [--format text|json]\n"
    ++ "  shortest MODULE SYMBOL [--root ROOT]\n"

/-- The option that names the settings file; it is known before and after the command. -/
def settingsOption : OptionRule := { name := "config", value := .path }

/-- A directory to leave out. -/
def excludedDirectoryOption : OptionRule := { name := "exclude-dir", repeats := true }

/-- A pattern of files to leave out. -/
def excludedFileOption : OptionRule := { name := "exclude-file", repeats := true }

/-- The directory that receives the pages. -/
def destinationOption : OptionRule := { name := "output", letter? := some 'o', value := .path }

/-- The extension of the written files. -/
def suffixOption : OptionRule := { name := "suffix" }

/-- The directory of example scripts. -/
def examplesOption : OptionRule := { name := "examples", value := .path }

/-- The tree to document, for commands that name a module first. -/
def rootOption : OptionRule := { name := "root", value := .path }

/-- The form of a listing. -/
def formatOption : OptionRule := { name := "format" }

/-- The word that asks for help. -/
def helpFlag : Flag := ⟨"help", 'h', .help⟩

/-- What is understood before the command. -/
def programForm : CommandForm where
  options := [settingsOption]
  flags := [helpFlag, ⟨"version", 'V', .version⟩]

/-- A command with its own options. -/
def commandForm (options : List OptionRule) (operands : List ValueKind) (required : Nat) :
    CommandForm where
  options := settingsOption :: options
  flags := [helpFlag]
  operands := operands
  required := required

/-- The form of `generate`. -/
def generateForm : CommandForm :=
  commandForm [destinationOption, excludedDirectoryOption, excludedFileOption, suffixOption,
    examplesOption] [.path] 0

/-- The form of `packages`. -/
def packagesForm : CommandForm :=
  commandForm [excludedDirectoryOption, formatOption] [.path] 0

/-- The form of `members`. -/
def membersForm : CommandForm := commandForm [rootOption, formatOption] [.text] 1

/-- The form of `shortest`. -/
def shortestForm : CommandForm := commandForm [rootOption] [.text, .text] 2

/-! ### Reading the arguments -/

/-- The format asked for. -/
def formatOf (given : Given) : ListingFormat :=
  .ofName ((given.value? formatOption.name).getD "text")

/-- The settings said by options and by the operand that names the tree. -/
def overridesOf (given : Given) : Overrides where
  root? := given.operands.head?.map .mk
  destination? := given.path? destinationOption.name
  excludedDirectories := given.values excludedDirectoryOption.name
  excludedFiles := given.values excludedFileOption.name
  suffix? := given.value? suffixOption.name
  examples? := given.path? examplesOption.name

/-- Reads the arguments of a named command. -/
def readCommand (name : String) (arguments : List String) :
    Except Interruption (Given × Command) := do
  match name with
  | "generate" =>
    let (given, _) ← generateForm.read arguments
    return (given, .generate (overridesOf given))
  | "packages" =>
    let (given, _) ← packagesForm.read arguments
    return (given, .packages (overridesOf given) (formatOf given))
  | "members" =>
    let (given, _) ← membersForm.read arguments
    match given.operands with
    | [module] => return (given, .members module (given.path? rootOption.name) (formatOf given))
    | _ => throw .misuse
  | "shortest" =>
    let (given, _) ← shortestForm.read arguments
    match given.operands with
    | [module, symbol] => return (given, .shortest module symbol (given.path? rootOption.name))
    | _ => throw .misuse
  | "help" => throw .help
  | _ => throw .misuse

/-- Reads all arguments. A settings file named after the command wins over one named before it. -/
def read (arguments : List String) : Except Interruption Invocation := do
  let (before, rest) ← programForm.read arguments
  match rest with
  | [] => throw .misuse
  | name :: rest =>
    let (after, command) ← readCommand name rest
    let file? := after.path? settingsOption.name
    return ⟨file?.or (before.path? settingsOption.name), command⟩

/-! ### Listings -/

/-- A package as structured output. -/
def packageJson (package : Package) : Json :=
  .object [
    ("name", .text package.name),
    ("path", .text package.path.text),
    ("modules", .list (package.modules.map fun file =>
      .object [("file_name", .text file.fileName), ("len", .number file.size)])),
    ("subpackages", .texts package.subpackages)]

/-- A list of packages. -/
def listPackages (packages : List Package) : ListingFormat → String
  | .json => (Json.list (packages.map packageJson)).render 0 ++ "\n"
  | .text =>
    "Found " ++ toString packages.length ++ " packages:\n"
      ++ Page.concat (packages.map fun package =>
        "  " ++ package.name ++ " (" ++ toString package.modules.length ++ " modules, "
          ++ toString package.subpackages.length ++ " subpackages)\n")

/-- The symbols of a module as structured output. -/
def membersJson (members : Members) : Json :=
  .object [
    ("module", .text members.module),
    ("classes", .texts members.classes),
    ("functions", .texts members.functions),
    ("objects", .texts members.objects)]

/-- The symbols of one sort under their title; nothing if there are none. -/
def listKind (members : Members) (kind : SymbolKind) : String :=
  match members.ofKind kind with
  | [] => ""
  | names =>
    Page.groupTitle kind ++ ":\n" ++ Page.concat (names.map fun name => "  " ++ name ++ "\n")

/-- A list of the symbols of a module. -/
def listMembers (members : Members) : ListingFormat → String
  | .json => (membersJson members).render 0 ++ "\n"
  | .text =>
    if members.isEmpty then "No documented members in " ++ members.module ++ "\n"
    else Page.concat (SymbolKind.all.map (listKind members))

/-- What a run has written. -/
def summary (statistics : Statistics) : String :=
  "Documented " ++ toString statistics.packagePages ++ " packages, "
    ++ toString statistics.symbolPages ++ " symbol stubs ("
    ++ toString statistics.files ++ " files)"

/-! ### Running -/

/-- The reply to a failure. -/
def complain (fault : Fault) : Reply :=
  { code := 1, complaint := "Error: " ++ fault.message ++ "\n" }

/-- The reply to arguments that call for no command. -/
def interrupt : Interruption → Reply
  | .help => { output := usageText }
  | .version => { output := versionText }
  | .misuse => { code := 2, complaint := usageText }

/-- The reply of a computation that yields the output. -/
def replyOf (outcome : Except Fault String) : Reply :=
  match outcome with
  | .ok output => { output }
  | .error fault => complain fault

/-- The settings as overridden, which must be usable. -/
def overridden (overrides : Overrides) (settings : Settings) : Except Fault Settings :=
  let settings := overrides.apply settings
  settings.validate.map fun _ => settings

/-- Runs a computation on the modules of a tree. -/
def onModules {α : Type} (settings : Settings) (disk : Disk) (work : Work Python.Loader α) :
    Except Fault α := do
  let loader ← settings.loader disk
  (work ⟨disk, loader⟩).1

/-- Carries out a command with the settings that were read. -/
def perform (settings : Settings) (disk : Disk) : Command → Reply × Disk
  | .generate overrides =>
    match overridden overrides settings with
    | .error fault => (complain fault, disk)
    | .ok settings =>
      let (run, disk) := generateFromSources settings disk
      match run.result with
      | .error fault => (complain fault, disk)
      | .ok statistics => ({ output := summary statistics, timed := true }, disk)
  | .packages overrides format =>
    let outcome := do
      let packages ← (← overridden overrides settings).packages disk
      return listPackages packages format
    (replyOf outcome, disk)
  | .members module root? format =>
    let settings := ({ root? } : Overrides).apply settings
    let outcome := do
      return listMembers (← onModules settings disk (members module)) format
    (replyOf outcome, disk)
  | .shortest module symbol root? =>
    let settings := ({ root? } : Overrides).apply settings
    let outcome := do
      let source ← onModules settings disk (shortestImport module symbol)
      return "from " ++ source ++ " import " ++ symbol ++ "\n"
    (replyOf outcome, disk)

/-- Carries out an invocation. -/
def Invocation.run (invocation : Invocation) (disk : Disk) : Reply × Disk :=
  match Settings.loadGiven disk invocation.settingsFile? with
  | .error fault => (complain fault, disk)
  | .ok settings => perform settings disk invocation.command

/-- Runs the program on a file tree. -/
def run (disk : Disk) (arguments : List String) : Reply × Disk :=
  match read arguments with
  | .error interruption => (interrupt interruption, disk)
  | .ok invocation => Invocation.run invocation disk

end CommandLine

end ApiStubs
