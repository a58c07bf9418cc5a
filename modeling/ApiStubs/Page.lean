import ApiStubs.Package
import ApiStubs.Symbol

/-!
# Pages — the text of the documentation

The markup of package pages and symbol pages: headings underlined to their length, directives with
options indented by four spaces, a list of the packages below.
-/

namespace ApiStubs.Page

/-- The heading of a sort of symbols. -/
def groupTitle : SymbolKind → String
  | .classType => "Classes"
  | .function => "Functions"
  | .object => "Objects"

/-- The word for a sort of symbols. -/
def kindWord : SymbolKind → String
  | .classType => "class"
  | .function => "function"
  | .object => "object"

/-- The directive that documents one symbol. -/
def directive : SymbolKind → String
  | .classType => "autoclass"
  | .function => "autofunction"
  | .object => "autodata"

/-- The options of a module directive where none are given. -/
def defaultOptions : List String := ["show-inheritance"]

/-- The character that underlines a heading; levels below the first count as the first, levels
beyond the third as the third. -/
def underline (level : Nat) : Char :=
  if level ≤ 1 then '=' else if level = 2 then '-' else '~'

/-- A heading, underlined to its length in characters. -/
def heading (level : Nat) (title : String) : String :=
  title ++ "\n" ++ String.ofList (List.replicate title.length (underline level)) ++ "\n\n"

/-- Texts one after the other. -/
def concat (parts : List String) : String := String.join parts

/-- The directive that documents a module, with options. -/
def moduleDirective (module : String) (options : List String) : String :=
  ".. automodule:: " ++ module ++ "\n"
    ++ concat (options.map fun option => "    :" ++ option ++ ":\n") ++ "\n"

/-- The list of a module's symbols of one sort; nothing if there are none. -/
def memberGroup (kind : SymbolKind) (names : List String) : String :=
  if names.isEmpty then ""
  else "**" ++ groupTitle kind ++ "**\n\n"
    ++ concat (names.map fun name => ".. autosummary:: " ++ name ++ "\n    :toctree:\n\n")

/-- The section of one module. The marker of a package has no title; what it defines stands right
below the title of the page. -/
def moduleSection (title : Option String) (members : Members) (options : List String) : String :=
  (match title with
    | some stem => heading 2 (":mod:`" ++ stem ++ "` module")
    | none => "")
    ++ moduleDirective members.module options
    ++ concat (SymbolKind.all.map fun kind => memberGroup kind (members.ofKind kind)) ++ "\n"

/-- The list of the packages below a package; nothing if there are none. -/
def subpackageList (package : String) (subpackages : List String) : String :=
  if subpackages.isEmpty then ""
  else heading 2 "Subpackages" ++ ".. toctree::\n    :maxdepth: 2\n\n"
    ++ concat (subpackages.map fun sub => "    " ++ package ++ "." ++ sub ++ "\n") ++ "\n"

/-- The line that says where to import a symbol from. -/
def importHint (path name : String) : String :=
  "(*Shortest import*: ``from " ++ path ++ " import " ++ name ++ ")``\n\n"

/-- The page of a symbol. A list of examples follows on the page of a class. -/
def symbolPage (symbol : Symbol) (shortest examples : String) : String :=
  ".. currentmodule:: " ++ symbol.module ++ "\n\n"
    ++ heading 1 (symbol.name ++ " " ++ kindWord symbol.kind)
    ++ importHint shortest symbol.name
    ++ ".. " ++ directive symbol.kind ++ ":: " ++ symbol.name ++ "\n"
    ++ match symbol.kind with
      | .classType => "\n" ++ examples
      | .function => "\n"
      | .object => ""

end ApiStubs.Page
