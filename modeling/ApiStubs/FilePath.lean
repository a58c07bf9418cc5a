import ApiStubs.Text

/-!
# File paths — the written form

A path is the text that names a place in a file tree. It is kept exactly as its pieces were given,
because it is printed that way, and read as a list of components only where a component matters:
repeated separators and `.` steps inside a path then vanish, and so does a trailing separator.

`normalize` resolves `.` and `..` on the text alone, without asking whether anything exists.
-/

namespace ApiStubs

/-- A path as written, its components separated by `/`. -/
structure FilePath where
  text : String
  deriving DecidableEq, Inhabited

namespace FilePath

/-- A step of a path. -/
inductive Component
  /-- The leading separator of an absolute path. -/
  | root
  /-- A leading `.`; everywhere else a `.` is no step at all. -/
  | here
  /-- A `..`. -/
  | up
  /-- A file or directory name. -/
  | name (text : String)
  deriving DecidableEq

/-- How a step is written. -/
def Component.text : Component → String
  | .root => "/"
  | .here => "."
  | .up => ".."
  | .name s => s

/-- The step a piece between separators stands for, if it is one. -/
def Component.ofPiece? : String → Option Component
  | "" => none
  | "." => none
  | ".." => some .up
  | s => some (.name s)

/-- The path starts at the root of the file tree. -/
def isAbsolute (p : FilePath) : Bool := Text.startsWith p.text "/"

/-- The pieces between separators, empty ones included. -/
def pieces (p : FilePath) : List String := Text.pieces '/' p.text

/-- The steps of a path. -/
def components (p : FilePath) : List Component :=
  if p.isAbsolute then .root :: p.pieces.filterMap Component.ofPiece?
  else match p.pieces with
    | "." :: rest => .here :: rest.filterMap Component.ofPiece?
    | all => all.filterMap Component.ofPiece?

/-- The path with another written after it. An absolute path replaces the left side; otherwise a
separator is written between the two unless the left side is empty or already ends in one. -/
def join (base : FilePath) (other : String) : FilePath :=
  match Text.startsWith other "/", base.text = "" || Text.endsWith base.text '/' with
  | true, _ => ⟨other⟩
  | false, true => ⟨base.text ++ other⟩
  | false, false => ⟨base.text ++ "/" ++ other⟩

/-- The path followed by a sequence of names. -/
def joinAll (base : FilePath) (names : List String) : FilePath := names.foldl join base

/-! ### The last component -/

/-- Pieces that write no step when they stand at the end of a path. -/
def isFiller (piece : String) : Bool := piece = "" || piece = "."

/-- The pieces with their trailing fillers dropped; the first piece always stays, because an
empty first piece is the root and a leading `.` is a step. -/
def dropFillers : List String → List String
  | [] => []
  | first :: rest => first :: (rest.reverse.dropWhile isFiller).reverse

/-- Pieces written as a path again; the single empty piece of an absolute path is the root. -/
def ofPieces (absolute : Bool) : List String → FilePath
  | [""] => ⟨if absolute then "/" else ""⟩
  | parts => ⟨Text.join '/' parts⟩

/-- The path without its last step; the root and the empty path have none. -/
def parent? (p : FilePath) : Option FilePath :=
  match (dropFillers p.pieces).reverse with
  | [] => none
  | [only] => if only = "" then none else some ⟨""⟩
  | _ :: before => some (ofPieces p.isAbsolute (dropFillers before.reverse))

/-- The last step, when it is a name. -/
def fileName? (p : FilePath) : Option String :=
  match p.components.getLast? with
  | some (.name s) => some s
  | _ => none

/-- A file name cut at its last dot; a dot in front does not count. -/
def splitExtension (name : String) : String × Option String :=
  match Text.splitLast? '.' name with
  | some (before, after) => if before = "" then (name, none) else (before, some after)
  | none => (name, none)

/-- The last name without its extension. -/
def stem? (p : FilePath) : Option String := p.fileName?.map fun n => (splitExtension n).1

/-- The extension of the last name. -/
def extension? (p : FilePath) : Option String := p.fileName?.bind fun n => (splitExtension n).2

/-- A name with its extension exchanged; an empty extension drops it. A name whose stem is a single
dot, which names no file, becomes a double one. -/
def exchangeExtension (name extension : String) : String :=
  let stem := (splitExtension name).1
  if stem = "." then ".."
  else if extension = "" then stem
  else stem ++ "." ++ extension

/-- The path with the extension of its last name exchanged. A path that does not end in a name
stays as it is. -/
def withExtension (p : FilePath) (extension : String) : FilePath :=
  match p.fileName?, (dropFillers p.pieces).reverse with
  | some n, _ :: before => ⟨Text.join '/' (before.reverse ++ [exchangeExtension n extension])⟩
  | _, _ => p

/-! ### Comparing paths by their steps -/

/-- The steps that lead from one path to another below it. -/
def stripPrefix? (p base : FilePath) : Option (List Component) :=
  if base.components.isPrefixOf p.components then
    some (p.components.drop base.components.length)
  else none

/-! ### The lexical normal form -/

/-- A normal form under construction: the steps that remain, the last one first. -/
abbrev Remaining := List Component

/-- Takes the next step. A `..` drops the step before it; where none can be dropped it is kept,
and a later `..` drops it in turn. -/
def Remaining.take (steps : Remaining) : Component → Remaining
  | .here => steps
  | .up =>
    match steps with
    | [] => [.up]
    | .root :: _ => .up :: steps
    | _ :: before => before
  | step => step :: steps

/-- Steps written as a path. -/
def ofComponents : List Component → FilePath
  | .root :: rest => ⟨"/" ++ Text.join '/' (rest.map Component.text)⟩
  | steps => ⟨Text.join '/' (steps.map Component.text)⟩

/-- The path with `.` and `..` resolved on its text. -/
def normalize (p : FilePath) : FilePath :=
  ofComponents ((p.components.foldl Remaining.take []).reverse)

/-- The text of a path, ending in a separator. -/
def asDirectory (p : FilePath) : String :=
  if Text.endsWith p.text '/' then p.text else p.text ++ "/"

end FilePath

end ApiStubs
