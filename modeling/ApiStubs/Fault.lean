import ApiStubs.Disk

/-!
# Faults — what can go wrong, and in which words

Every operation of the library that can fail fails with a `Fault`, which names the cause.
`Fault.message` words it; nothing else in the library writes an error text.
-/

namespace ApiStubs

/-- Why a glob pattern is refused. -/
inductive GlobError
  /-- A character set that is never closed, or has no member. -/
  | badSet
  /-- Three or more stars in a row. -/
  | badStars
  /-- A double star that is not a whole path component. -/
  | badRecursive
  deriving DecidableEq

/-- The wording of a refused pattern. -/
def GlobError.message : GlobError → String
  | .badSet => "invalid range pattern"
  | .badStars => "wildcards are either regular `*` or recursive `**`"
  | .badRecursive => "recursive wildcards must form a single path component"

/-- Why a configuration cannot be used. -/
inductive SettingsError
  | rootMissing (root : FilePath)
  | rootNotDirectory (root : FilePath)
  | nothingToDocument (root : FilePath)
  | examplesMissing (directory : FilePath)
  | badSuffix (suffix : String)
  | unreadable (file : FilePath) (cause : DiskError)
  deriving DecidableEq

/-- The wording of an unusable configuration. -/
def SettingsError.message : SettingsError → String
  | .rootMissing root => "root path " ++ root.text ++ " does not exist"
  | .rootNotDirectory root => "root path " ++ root.text ++ " is not a directory"
  | .nothingToDocument root => "no package to document below " ++ root.text
  | .examplesMissing directory => "examples directory " ++ directory.text ++ " does not exist"
  | .badSuffix suffix => "invalid output suffix '" ++ suffix ++ "'"
  | .unreadable file cause => "cannot read " ++ file.text ++ ": " ++ cause.message

/-- Why a module cannot be imported. -/
inductive ImportError
  | noModule (name : String)
  | unreadable (file : FilePath) (cause : DiskError)
  | badSyntax (file : FilePath)
  /-- A relative import that climbs out of its top-level package. -/
  | beyondTopLevel
  /-- A name that the source module neither binds nor has as a submodule. -/
  | noName (name source : String)
  /-- More modules being imported inside each other than there are module names. -/
  | tooDeep
  deriving DecidableEq

/-- The wording of a failed import. -/
def ImportError.message : ImportError → String
  | .noModule name => "No module named '" ++ name ++ "'"
  | .unreadable file cause => file.text ++ ": " ++ cause.message
  | .badSyntax file => "invalid syntax in " ++ file.text
  | .beyondTopLevel => "attempted relative import beyond top-level package"
  | .noName name source => "cannot import name '" ++ name ++ "' from '" ++ source ++ "'"
  | .tooDeep => "imports nested too deeply"

/-- A module that could not be imported, and why. -/
structure ImportFailure where
  module : String
  cause : ImportError
  deriving DecidableEq

/-- Everything that can go wrong. -/
inductive Fault
  /-- A file could not be read or written. -/
  | disk (cause : DiskError)
  /-- A directory listing met an entry that leads nowhere. -/
  | traversal (path : FilePath) (cause : DiskError)
  /-- A directory listing met a link back to a directory it is inside of. -/
  | traversalLoop (path ancestor : FilePath)
  | settings (cause : SettingsError)
  /-- The settings file is not of the expected form. -/
  | settingsFile
  /-- An exclusion pattern is refused, at a character position. -/
  | pattern (position : Nat) (cause : GlobError)
  /-- A module could not be imported. -/
  | notImported (failure : ImportFailure)
  /-- No prefix of a module hands out the symbol. -/
  | unresolved (module symbol : String)
  deriving DecidableEq

/-- The wording of a fault. -/
def Fault.message : Fault → String
  | .disk cause => "IO error: " ++ cause.message
  | .traversal path cause =>
    "Walk error: IO error for operation on " ++ path.text ++ ": " ++ cause.message
  | .traversalLoop path ancestor =>
    "Walk error: File system loop found: " ++ path.text ++ " points to an ancestor "
      ++ ancestor.text
  | .settings cause => "Configuration error: " ++ cause.message
  | .settingsFile => "Invalid config file"
  | .pattern position cause =>
    "Invalid exclude pattern: Pattern syntax error near position " ++ toString position ++ ": "
      ++ cause.message
  | .notImported failure =>
    "Failed to import " ++ failure.module ++ ": " ++ failure.cause.message
  | .unresolved module symbol => "Couldn't import " ++ module ++ "." ++ symbol

end ApiStubs
