import ApiStubs.Text

/-!
# Dotted names — modules and packages

A module is called by the names on the way to it, written with dots. The functions here read such
a name: its components, its parent, its prefixes from the top down.
-/

namespace ApiStubs.Dotted

/-- The components of a dotted name; a name without dots is its own component. -/
def components (name : String) : List String := Text.pieces '.' name

/-- Components written as one dotted name. -/
def ofComponents (parts : List String) : String := Text.join '.' parts

/-- A package name and a name inside it as one dotted name; an empty side adds nothing. -/
def join (package inner : String) : String :=
  if package = "" then inner
  else if inner = "" then package
  else package ++ "." ++ inner

/-- The top-level name. -/
def top (name : String) : String := Text.beforeFirst '.' name

/-- The name of the enclosing package, if the name has one. -/
def parent? (name : String) : Option String := (Text.splitLast? '.' name).map Prod.fst

/-- Every non-empty prefix of the components as a dotted name, the shortest first. -/
def prefixes (name : String) : List String :=
  let parts := components name
  (List.range parts.length).map fun depth => ofComponents (parts.take (depth + 1))

/-- Names that start with an underscore are kept out of the documentation. -/
def isPublic (name : String) : Bool := !Text.startsWith name "_"

end ApiStubs.Dotted
