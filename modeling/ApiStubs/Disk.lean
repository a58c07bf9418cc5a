import ApiStubs.FilePath

/-!
# Disk — a file tree as a value

The program reads sources and writes pages. What it can see of the file tree is the value `Disk`:
directories, files and symbolic links, each at its location from the root, and the working
directory against which relative paths are read.

`Disk.resolve` walks a written path through the tree, following links, and is the one place where
a look-up can fail; everything else is stated through it.
-/

namespace ApiStubs

/-- Why an access to the file tree fails. -/
inductive DiskError
  | noEntry
  | exists
  | notDirectory
  | isDirectory
  | nameTooLong
  | tooManyLinks
  /-- The file is there, but its bytes are no text. -/
  | notText
  deriving DecidableEq

/-- The wording of a failed access. -/
def DiskError.message : DiskError → String
  | .noEntry => "No such file or directory (os error 2)"
  | .exists => "File exists (os error 17)"
  | .notDirectory => "Not a directory (os error 20)"
  | .isDirectory => "Is a directory (os error 21)"
  | .nameTooLong => "File name too long (os error 36)"
  | .tooManyLinks => "Too many levels of symbolic links (os error 40)"
  | .notText => "stream did not contain valid UTF-8"

/-- What a file holds: a text, or bytes that encode none. -/
inductive Content
  | text (s : String)
  | bytes (data : List UInt8)
  deriving DecidableEq

/-- The content made of the given bytes. -/
def Content.ofBytes (data : List UInt8) : Content :=
  match String.fromUTF8? ⟨data.toArray⟩ with
  | some s => .text s
  | none => .bytes data

/-- The number of bytes. -/
def Content.size : Content → Nat
  | .text s => s.utf8ByteSize
  | .bytes data => data.length

/-- What stands at a location. -/
inductive Entry
  | directory
  | file (content : Content)
  | link (target : String)
  deriving DecidableEq

/-- A place in the tree: the names on the way from the root. -/
abbrev Location := List String

/-- The path that spells a location out. -/
def Location.path (here : Location) : FilePath := ⟨"/" ++ Text.join '/' here⟩

/-- A file tree and the working directory. The root is always a directory. -/
structure Disk where
  entries : List (Location × Entry)
  workingDirectory : Location
  deriving DecidableEq

/-- Links followed in one look-up before it is given up. -/
def maxLinks : Nat := 40

/-- Bytes of the longest file name. -/
def maxNameBytes : Nat := 255

/-- Bytes of the longest path. -/
def maxPathBytes : Nat := 4095

namespace Disk

/-- The entry at a location. -/
def entryAt (disk : Disk) : Location → Option Entry
  | [] => some .directory
  | here => disk.entries.lookup here

/-! ### Resolving a written path -/

/-- Where a path leads. -/
inductive Target
  /-- To an entry of the tree. -/
  | found (here : Location) (entry : Entry)
  /-- To a name that is still free in an existing directory. -/
  | free (here : Location)

/-- The location from which the target of a link is read. -/
def linkStart (here : Location) (target : String) : Location :=
  if Text.startsWith target "/" then [] else here

/-- Walks the remaining pieces of a path from a location. A link in the middle is always followed,
a link at the end only when `follow` says so; `onward` goes on from the start of a link with the
pieces of its target and what comes behind it. -/
def walkOn (disk : Disk) (follow : Bool)
    (onward : Location → List String → Except DiskError Target) (here : Location) :
    List String → Except DiskError Target
  | [] =>
    match disk.entryAt here with
    | some entry => .ok (.found here entry)
    | none => .error .noEntry
  | piece :: rest =>
    if disk.entryAt here ≠ some .directory then .error .notDirectory
    else if FilePath.isFiller piece then walkOn disk follow onward here rest
    else if piece = ".." then walkOn disk follow onward here.dropLast rest
    else if maxNameBytes < piece.utf8ByteSize then .error .nameTooLong
    else
      let next := here ++ [piece]
      match disk.entryAt next with
      | none => if rest = [] then .ok (.free next) else .error .noEntry
      | some (.link target) =>
        if rest = [] && !follow then .ok (.found next (.link target))
        else onward (linkStart here target) (Text.pieces '/' target ++ rest)
      | some .directory => walkOn disk follow onward next rest
      | some (.file content) =>
        if rest = [] then .ok (.found next (.file content)) else .error .notDirectory

/-- Walks the pieces of a path from a location; `links` counts the links that may be followed. -/
def walk (disk : Disk) (follow : Bool) :
    (links : Nat) → Location → List String → Except DiskError Target
  | 0 => disk.walkOn follow fun _ _ => .error .tooManyLinks
  | links + 1 => disk.walkOn follow (disk.walk follow links)

/-- Where a path leads, read from the working directory unless it is absolute. -/
def resolve (disk : Disk) (follow : Bool) (path : FilePath) : Except DiskError Target :=
  if path.text = "" then .error .noEntry
  else if maxPathBytes < path.text.utf8ByteSize then .error .nameTooLong
  else
    disk.walk follow maxLinks (if path.isAbsolute then [] else disk.workingDirectory) path.pieces

/-- The location and entry a path leads to. -/
def find (disk : Disk) (follow : Bool) (path : FilePath) : Except DiskError (Location × Entry) :=
  match disk.resolve follow path with
  | .ok (.found here entry) => .ok (here, entry)
  | .ok (.free _) => .error .noEntry
  | .error e => .error e

/-! ### Questions about a path -/

/-- The path leads to something. -/
def pathExists (disk : Disk) (path : FilePath) : Bool := (disk.find true path).isOk

/-- The path leads to a file. -/
def isFile (disk : Disk) (path : FilePath) : Bool :=
  match disk.find true path with
  | .ok (_, .file _) => true
  | _ => false

/-- The path leads to a directory. -/
def isDirectory (disk : Disk) (path : FilePath) : Bool :=
  match disk.find true path with
  | .ok (_, .directory) => true
  | _ => false

/-- The absolute path, free of links, that leads to the same place. -/
def canonicalize (disk : Disk) (path : FilePath) : Except DiskError FilePath :=
  (disk.find true path).map fun place => place.1.path

/-- The text of the file a path leads to. -/
def readText (disk : Disk) (path : FilePath) : Except DiskError String :=
  match disk.find true path with
  | .ok (_, .file (.text s)) => .ok s
  | .ok (_, .file (.bytes _)) => .error .notText
  | .ok _ => .error .isDirectory
  | .error e => .error e

/-- The number of bytes in the file a path leads to. -/
def fileSize (disk : Disk) (path : FilePath) : Except DiskError Nat :=
  match disk.find true path with
  | .ok (_, .file content) => .ok content.size
  | .ok _ => .error .isDirectory
  | .error e => .error e

/-- A name put in its place among names in order. -/
def insertName (name : String) : List String → List String
  | [] => [name]
  | first :: rest => if name ≤ first then name :: first :: rest else first :: insertName name rest

/-- The names directly below a location, in order. -/
def namesIn (disk : Disk) (here : Location) : List String :=
  let names := disk.entries.filterMap fun (place, _) =>
    if place.dropLast = here then place.getLast? else none
  names.foldr insertName []

/-! ### Changes -/

/-- The tree with an entry at a location, replacing what stood there. -/
def set (disk : Disk) (here : Location) (entry : Entry) : Disk :=
  { disk with entries := (here, entry) :: disk.entries.filter fun e => e.1 ≠ here }

/-- The path without the separators at its end. -/
def withoutTrailing (path : FilePath) : FilePath :=
  match path.text.toList.reverse.dropWhile (· = '/') with
  | [] => if path.isAbsolute then ⟨"/"⟩ else path
  | kept => ⟨String.ofList kept.reverse⟩

/-- Makes one directory, whose parent must be there. -/
def makeDirectory (disk : Disk) (path : FilePath) : Except DiskError Disk :=
  if maxPathBytes < path.text.utf8ByteSize then .error .nameTooLong
  else
    match disk.resolve false (withoutTrailing path) with
    | .ok (.free here) => .ok (disk.set here .directory)
    | .ok (.found _ _) => .error .exists
    | .error e => .error e

/-- The path and its parents up to the empty path, the longest first. -/
def withParents (path : FilePath) : Nat → List FilePath
  | 0 => []
  | limit + 1 =>
    if path.components = [] then []
    else path :: match path.parent? with
      | some above => withParents above limit
      | none => []

/-- Makes every directory of a list from its end to its front, the parents of the first. Only a
missing parent sends a step further up; a step that fails where a directory stands already has
what it wants. The directories made before a step that fails stay. -/
def makeEach (disk : Disk) : List FilePath → Option DiskError × Disk
  | [] => (none, disk)
  | path :: parents =>
    match disk.makeDirectory path with
    | .ok made => (none, made)
    | .error .noEntry =>
      match makeEach disk parents with
      | (some cause, begun) => (some cause, begun)
      | (none, above) =>
        match above.makeDirectory path with
        | .ok made => (none, made)
        | .error cause => (if above.isDirectory path then none else some cause, above)
    | .error cause => (if disk.isDirectory path then none else some cause, disk)

/-- Makes a directory and the parents it lacks: what keeps it from being made, if anything does, and
the tree afterwards. -/
def attemptDirectories (disk : Disk) (path : FilePath) : Option DiskError × Disk :=
  disk.makeEach (withParents path (path.text.length + 1))

/-- The tree with a directory and the parents it lacks. -/
def makeDirectories (disk : Disk) (path : FilePath) : Except DiskError Disk :=
  match disk.attemptDirectories path with
  | (none, made) => .ok made
  | (some cause, _) => .error cause

/-- Writes a text into the file a path leads to, which is made when its name is free. -/
def writeText (disk : Disk) (path : FilePath) (text : String) : Except DiskError Disk :=
  match disk.resolve true path with
  | .ok (.found here (.file _)) => .ok (disk.set here (.file (.text text)))
  | .ok (.found _ _) => .error .isDirectory
  | .ok (.free here) => .ok (disk.set here (.file (.text text)))
  | .error e => .error (if e = .noEntry && Text.endsWith path.text '/' then .isDirectory else e)

/-- Removes the entry a path names, a directory with all below it; a link is removed itself. -/
def remove (disk : Disk) (path : FilePath) : Except DiskError Disk :=
  match disk.find false path with
  | .ok (here, _) =>
    .ok { disk with entries := disk.entries.filter fun e => !here.isPrefixOf e.1 }
  | .error e => .error e

/-- Every file below a directory, with its place relative to it. Links are passed over. -/
def filesBelow (disk : Disk) (root : Location) : List (List String × Content) :=
  disk.entries.filterMap fun (place, entry) =>
    if root.isPrefixOf place && place ≠ root then
      match entry with
      | .file content => some (place.drop root.length, content)
      | _ => none
    else none

end Disk

end ApiStubs
