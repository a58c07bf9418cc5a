import ApiStubs.Importer

/-!
# Work — computations on a file tree with an importer

The steps of a documentation run read and write files and import modules. They share one state,
the file tree and the importer, which stays as it is when a step fails: files written before a
failure are there afterwards.
-/

namespace ApiStubs

/-- What a run works on. -/
structure Workspace (σ : Type) where
  disk : Disk
  importer : σ

/-- A computation on a workspace that may fail. -/
abbrev Work (σ : Type) := ExceptT Fault (StateM (Workspace σ))

namespace Work

variable {σ : Type}

/-- The file tree as it is now. -/
def disk : Work σ Disk := return (← get).disk

/-- Runs a computation and yields its outcome; a failure is no failure of the whole. -/
def outcome {α : Type} (work : Work σ α) : StateM (Workspace σ) (Except Fault α) := work

/-- Imports a module. -/
def load [Importer σ] (name : String) : Work σ SymbolTable := fun space =>
  let (result, importer) := Importer.load space.disk name space.importer
  (result.mapError Fault.notImported, { space with importer })

/-- Imports a module if that is possible. -/
def load? [Importer σ] (name : String) : Work σ (Option SymbolTable) := fun space =>
  let (result, importer) := Importer.load space.disk name space.importer
  (.ok result.toOption, { space with importer })

/-- Changes the file tree. -/
def change (edit : Disk → Except DiskError Disk) : Work σ Unit := fun space =>
  match edit space.disk with
  | .ok disk => (.ok (), { space with disk })
  | .error cause => (.error (.disk cause), space)

/-- Attempts a change of the file tree, which may have been begun where it fails. -/
def attempt (edit : Disk → Option DiskError × Disk) : Work σ Unit := fun space =>
  match edit space.disk with
  | (none, disk) => (.ok (), { space with disk })
  | (some cause, disk) => (.error (.disk cause), { space with disk })

end Work

end ApiStubs
