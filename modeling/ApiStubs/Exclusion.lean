import ApiStubs.Disk

/-!
# Exclusion — directories to leave out

An excluded directory is left out with everything below it. The rules are kept as absolute paths
that end in a separator, so that a rule for `foo` says nothing about a sibling named `foobar`.
-/

namespace ApiStubs

/-- Directories to leave out, each as a path that ends in a separator. -/
structure Exclusions where
  rules : List String
  deriving DecidableEq, Inhabited

namespace Exclusions

/-- The path an exclusion written as `raw` stands for: relative to the root, unless it is absolute
or already spelled out below the root. -/
def anchor (root : FilePath) (raw : String) : FilePath :=
  let path : FilePath := ⟨raw⟩
  if path.isAbsolute || Text.startsWith raw root.text then path else root.join raw

/-- The rule for an exclusion: the place its path leads to, or the path with its `.` and `..`
resolved if it leads nowhere. -/
def rule (disk : Disk) (root : FilePath) (raw : String) : String :=
  let path := anchor root raw
  match disk.canonicalize path with
  | .ok place => place.asDirectory
  | .error _ => path.normalize.asDirectory

/-- The rules for exclusions written relative to a root. -/
def ofPaths (disk : Disk) (root : FilePath) (excludes : List String) : Exclusions :=
  ⟨excludes.map (rule disk root)⟩

/-- There are no rules. -/
def isEmpty (exclusions : Exclusions) : Bool := exclusions.rules.isEmpty

/-- A directory is left out. -/
def covers (exclusions : Exclusions) (directory : FilePath) : Bool :=
  exclusions.rules.any fun rule => Text.startsWith directory.asDirectory rule

end Exclusions

end ApiStubs
