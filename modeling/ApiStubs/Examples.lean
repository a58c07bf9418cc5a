import ApiStubs.Disk.Traversal
import ApiStubs.Page
import ApiStubs.Python.Source
import ApiStubs.Python.Location
import ApiStubs.Survey

/-!
# Examples — scripts that use a symbol

The scripts of an examples directory are indexed by the identifiers written in them. The page of a
class lists the scripts that mention its name.
-/

namespace ApiStubs

/-- Example scripts, each with the identifiers written in it. -/
structure Examples where
  scripts : NameMap (List String) := ∅
  deriving DecidableEq, Inhabited

namespace Examples

/-- The index with a script added under a name, in place of any other script of that name. -/
def insert (examples : Examples) (name text : String) : Examples :=
  ⟨examples.scripts.insert name (Python.identifiersIn text)⟩

/-- The number of scripts. -/
def size (examples : Examples) : Nat := examples.scripts.size

/-- The scripts that mention a symbol, in name order. -/
def mentioning (examples : Examples) (symbol : String) : List String :=
  examples.scripts.entries.filterMap fun (name, identifiers) =>
    if symbol ∈ identifiers then some name else none

/-- The list of the scripts that mention a symbol; nothing if there are none. -/
def listing (examples : Examples) (symbol : String) : String :=
  match examples.mentioning symbol with
  | [] => ""
  | names =>
    Page.heading 2 "Tutorials and examples using this"
      ++ Page.concat (names.map fun name =>
        "* Example :doc:`" ++ name ++ " </examples/" ++ Text.exchange '/' '.' name ++ ">`\n")
      ++ "\n"

/-! ### Reading a directory of scripts -/

/-- A visited entry is looked at: every file is, and every directory that is neither hidden nor
private, or is the one being scanned. -/
def enters (visit : Visit) : Bool :=
  visit.kind ≠ .directory || match visit.name? with
    | none => true
    | some name => isVisibleDirectory name

/-- The name of a script: its path below the scanned directory without the extension. -/
def scriptName (names : List String) : String :=
  Text.join '/' ((FilePath.withExtension ⟨Text.join '/' names⟩ "").components.map
    FilePath.Component.text)

/-- A visited entry is a script. -/
def isScript (visit : Visit) : Bool :=
  visit.kind = .file && visit.path.extension? == some Python.moduleExtension

/-- Adds the visited scripts to an index. -/
def readScripts (disk : Disk) : List Visit → Examples → Except Fault Examples
  | [], examples => .ok examples
  | visit :: rest, examples =>
    if isScript visit then
      match disk.readText visit.path with
      | .ok text => readScripts disk rest (examples.insert (scriptName visit.names) text)
      | .error cause => .error (.disk cause)
    else readScripts disk rest examples

/-- The index of the scripts below a directory. Links are not followed. -/
def scan (disk : Disk) (directory : FilePath) : Except Fault Examples := do
  let traversal := disk.traverse
    { followLinks := false, keep := enters, levels := disk.everyLevel } directory
  let examples ← readScripts disk traversal.visits {}
  match traversal.fault with
  | some fault => throw fault
  | none => return examples

end Examples

end ApiStubs
