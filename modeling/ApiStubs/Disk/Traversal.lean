import ApiStubs.Fault

/-!
# Disk — listing a directory and what is below it

A traversal starts at a path and goes down depth first, the names of each directory in order. The
caller says which directories to enter, whether links are followed, and how deep to go. What stands
in a directory is known from the directory itself; a path is looked up only where the traversal
starts, follows a link or enters a directory. A link that leads nowhere, a followed link back to a
directory the traversal is inside of, and a directory that cannot be reached by its path end it
with a fault; what was visited before is kept, because the caller acts on each visit as it comes.
-/

namespace ApiStubs

/-- What a visited entry is, links read as what they lead to when they are followed. -/
inductive Kind
  | directory
  | file
  | link
  deriving DecidableEq

/-- One visited entry. -/
structure Visit where
  /-- The path: the start of the traversal and the names from there. -/
  path : FilePath
  /-- The names from the start. -/
  names : List String
  kind : Kind
  deriving DecidableEq

/-- The last name of a visited entry; the start of the traversal has none. -/
def Visit.name? (v : Visit) : Option String := v.names.getLast?

/-- The visits made, and the fault that ended the traversal early, if one did. -/
structure Traversal where
  visits : List Visit
  fault : Option Fault := none

/-- One traversal after another; a fault in the first is the end. -/
def Traversal.append (first : Traversal) (second : Unit → Traversal) : Traversal :=
  match first.fault with
  | some _ => first
  | none =>
    let more := second ()
    ⟨first.visits ++ more.visits, more.fault⟩

/-- The traversals for the members of a list, one after another. -/
def Traversal.each {α : Type} (go : α → Traversal) : List α → Traversal
  | [] => ⟨[], none⟩
  | a :: rest => (go a).append fun _ => each go rest

/-- How a traversal goes. -/
structure TraversalRule where
  followLinks : Bool
  /-- Which visits are kept; a directory that is not kept is not entered either. -/
  keep : Visit → Bool
  /-- How many levels below the start are visited. -/
  levels : Nat

namespace Disk

/-- A directory a traversal is inside of. -/
structure Ancestor where
  path : FilePath
  location : Location

/-- What the traversal makes of an entry at a path: its kind, and whether there is a directory to
go down into. The start of a traversal is gone into even when it is a link that is not followed. -/
def inspect (disk : Disk) (rule : TraversalRule) (ancestors : List Ancestor) (atStart : Bool)
    (path : FilePath) : Entry → Except Fault (Kind × Bool)
  | .directory => .ok (.directory, true)
  | .file _ => .ok (.file, false)
  | .link _ =>
    if !rule.followLinks && !atStart then .ok (.link, false)
    else
      match disk.find true path with
      | .error e => .error (.traversal path e)
      | .ok (_, .file _) => .ok (if rule.followLinks then .file else .link, false)
      | .ok (_, .link _) => .ok (.link, false)
      | .ok (here, .directory) =>
        if !rule.followLinks then .ok (.link, true)
        else match ancestors.find? (fun a => a.location = here) with
          | some ancestor => .error (.traversalLoop path ancestor.path)
          | none => .ok (.directory, true)

/-- The entries directly below a location, in the order of their names. -/
def listing (disk : Disk) (here : Location) : List (String × Entry) :=
  (disk.namesIn here).filterMap fun name => (disk.entryAt (here ++ [name])).map fun e => (name, e)

/-- Visits an entry and what is below it, at most `levels` levels down. -/
def descend (disk : Disk) (rule : TraversalRule) (path : FilePath) :
    (levels : Nat) → List Ancestor → List String → Entry → Traversal
  | levels, ancestors, names, entry =>
    let full := path.joinAll names
    match disk.inspect rule ancestors names.isEmpty full entry with
    | .error fault => ⟨[], some fault⟩
    | .ok (kind, entered) =>
      let visit : Visit := ⟨full, names, kind⟩
      if !rule.keep visit then ⟨[], none⟩
      else
        match levels, entered with
        | levels + 1, true =>
          match disk.find true full with
          | .error e => ⟨[visit], some (.traversal full e)⟩
          | .ok (here, _) =>
            Traversal.append ⟨[visit], none⟩ fun _ =>
              .each (fun child => descend disk rule path levels (⟨full, here⟩ :: ancestors)
                (names ++ [child.1]) child.2) (disk.listing here)
        | _, _ => ⟨[visit], none⟩

/-- The traversal that starts at a path. -/
def traverse (disk : Disk) (rule : TraversalRule) (path : FilePath) : Traversal :=
  match disk.find false path with
  | .error e => ⟨[], some (.traversal path e)⟩
  | .ok (_, entry) => disk.descend rule path rule.levels [] [] entry

/-- More levels than any chain of directories below a path can have: between two followed links
the chain goes down the tree, and each link leads to a directory not yet on the chain. -/
def everyLevel (disk : Disk) : Nat := (disk.entries.length + 2) * (disk.entries.length + 2)

end Disk

end ApiStubs
