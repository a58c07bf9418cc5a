import ApiStubs.CommandLine
import Std.Data.HashMap

/-!
# Main — the program

The command line works on a file tree as a value. This module takes a snapshot of those parts of
the real tree that a run can look at, runs the command on it, and writes what the run has changed.
-/

namespace ApiStubs

namespace CommandLine

/-- The places a run looks at, as far as they can be told from a file tree. -/
def places (disk : Disk) (arguments : List String) : List FilePath :=
  match read arguments with
  | .error _ => []
  | .ok invocation =>
    let settingsFile := invocation.settingsFile?.getD ⟨Settings.fileName⟩
    let overrides := match invocation.command with
      | .generate overrides => overrides
      | .packages overrides _ => overrides
      | .members _ root? _ => { root? }
      | .shortest _ _ root? => { root? }
    match Settings.loadGiven disk invocation.settingsFile? with
    | .error _ => [settingsFile]
    | .ok settings =>
      let settings := overrides.apply settings
      let searched := match settings.loader disk with
        | .ok loader => [loader.searchRoot]
        | .error _ => []
      settingsFile :: settings.root :: settings.destination
        :: (settings.examples?.toList ++ searched)

end CommandLine

namespace Snapshot

/-- A snapshot under construction. -/
structure State where
  entries : Std.HashMap Location Entry := {}
  /-- The directories of which every entry is there. -/
  listed : Std.HashSet Location := {}

/-- A computation that looks at the real file tree. -/
abbrev Taking := StateT State IO

/-- Adds an entry. -/
def note (here : Location) (entry : Entry) : Taking Unit :=
  modify fun state => { state with entries := state.entries.insert here entry }

/-- The location that a path without links spells out. -/
def locationOf (path : String) : Location := (Text.pieces '/' path).filter (· ≠ "")

/-- Adds a file with its content. One that cannot be read is left out. -/
def noteFile (here : Location) : Taking Unit := do
  match ← (IO.FS.readBinFile here.path.text).toBaseIO with
  | .ok data => note here (.file (.ofBytes data.toList))
  | .error _ => return

/-- Adds a file that was found in a listing. Only module files are looked into; any other file is
taken to be empty. -/
def noteListedFile (here : Location) : Taking Unit := do
  if here.path.extension? = some Python.moduleExtension then noteFile here
  else unless (← get).entries.contains here do note here (.file (.text ""))

/-- The target of a link that leads nowhere: a name that no file has. -/
def nowhere : String := "\x00"

mutual

/-- Adds a directory and everything below it. -/
partial def noteTree (here : Location) : Taking Unit := do
  if (← get).listed.contains here then return
  modify fun state => { state with listed := state.listed.insert here }
  match ← (do (← IO.FS.realPath here.path.text).readDir : IO _).toBaseIO with
  | .error _ => return
  | .ok listing =>
    note here .directory
    for item in listing do
      let next := here ++ [item.fileName]
      if let .ok found ← item.path.symlinkMetadata.toBaseIO then
        match found.type with
        | .dir => noteTree next
        | .file => noteListedFile next
        | .symlink => noteLink next
        | .other => pure ()

/-- Adds a link and what it leads to. -/
partial def noteLink (here : Location) : Taking Unit := do
  match ← (IO.FS.realPath here.path.text).toBaseIO with
  | .error _ => note here (.link nowhere)
  | .ok target =>
    note here (.link target.toString)
    notePath [] (locationOf target.toString)

/-- Adds what stands on a path that starts at a location, and everything below its end. -/
partial def notePath (here : Location) : List String → Taking Unit
  | [] => noteTree here
  | piece :: rest => do
    if FilePath.isFiller piece then notePath here rest
    else if piece = ".." then notePath here.dropLast rest
    else
      let next := here ++ [piece]
      let top ← IO.FS.realPath "/"
      match ← (top / next.path.text).symlinkMetadata.toBaseIO with
      | .error _ => return
      | .ok found =>
        match found.type with
        | .dir =>
          note next .directory
          notePath next rest
        | .file => noteFile next
        | .symlink =>
          noteLink next
          if let some (.link target) := (← get).entries[next]? then
            if target ≠ nowhere then notePath [] (locationOf target ++ rest)
        | .other => return

end

/-- The parts of the file tree that the given places lie in. -/
def take (places : List FilePath) : IO Disk := do
  let workingDirectory := locationOf (← IO.currentDir).toString
  let noteAll : Taking Unit := do
    for depth in List.range workingDirectory.length do
      note (workingDirectory.take (depth + 1)) .directory
    for place in places do
      notePath (if place.isAbsolute then [] else workingDirectory) place.pieces
  let (_, state) ← noteAll.run {}
  return { entries := state.entries.toList, workingDirectory }

/-- Writes what stands in one file tree and not in another. -/
def writeChanges (old new : Disk) : IO Unit := do
  for (here, entry) in new.entries.reverse do
    unless old.entryAt here = some entry do
      match entry with
      | .directory => IO.FS.createDirAll here.path.text
      | .file (.text text) => IO.FS.writeFile here.path.text text
      | _ => pure ()

end Snapshot

end ApiStubs

open ApiStubs in
/-- Runs the program. -/
def main (arguments : List String) : IO UInt32 := do
  let start ← IO.monoMsNow
  -- the settings file names further places, and the tree to document one more
  let bare ← Snapshot.take []
  let settingsFile ← Snapshot.take ((CommandLine.places bare arguments).take 1)
  let named ← Snapshot.take (CommandLine.places settingsFile arguments)
  let disk ← Snapshot.take (CommandLine.places named arguments)
  let (reply, changed) := CommandLine.run disk arguments
  Snapshot.writeChanges disk changed
  IO.print reply.output
  if reply.timed then
    IO.println (" in " ++ toString ((← IO.monoMsNow) - start) ++ "ms")
  IO.eprint reply.complaint
  return reply.code.toUInt32
