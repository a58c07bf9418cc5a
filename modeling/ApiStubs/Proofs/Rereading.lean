import ApiStubs.Proofs.Printing

/-!
# Proofs — Rereading — what a page says can be read off it

A page is a sequence of lines, and every name on it stands in a line of its own between words that
never change.  No lengths are written down: where a section ends, or a group of symbols, or the
list of options, is told by the next line alone.  `Draft.step` reads a page that way, one line at a
time, and `Contents.read_text` says that it reads what was written, as long as no name goes over
the end of a line.

`renderPackage_eq` says what is written: the text of the contents (`Contents.text`) that the tables
of the package's modules amount to.  So a page tells its contents, and the page of a symbol tells
the symbol and where to import it from: `rendered_legible`.
-/

namespace ApiStubs

/-! ### Lines -/

namespace Page

/-- The name does not go over the end of a line. -/
def IsLine (name : String) : Prop := '\n' ∉ name.toList

instance (name : String) : Decidable (IsLine name) := inferInstanceAs (Decidable (_ ∉ _))

/-- Lines one after the other, each with its end. -/
def written (lines : List String) : String := concat (lines.map fun line => line ++ "\n")

/-- The lines of a text. -/
def linesOf (text : String) : List String := Text.pieces '\n' text

@[simp] theorem written_nil : written [] = "" := rfl

theorem written_cons (line : String) (rest : List String) :
    written (line :: rest) = line ++ "\n" ++ written rest := by
  rw [written, List.map_cons, concat, String.join_cons]
  rfl

theorem written_append (first second : List String) :
    written (first ++ second) = written first ++ written second := by
  rw [written, List.map_append, concat, String.join_append]
  rfl

theorem written_flatMap {α : Type} (lines : α → List String) (items : List α) :
    written (items.flatMap lines) = concat (items.map fun item => written (lines item)) := by
  induction items with
  | nil => rfl
  | cons item rest ih =>
    rw [List.flatMap_cons, written_append, ih, List.map_cons]
    exact String.join_cons.symm

theorem concat_lines {α : Type} (line : α → String) (items : List α) :
    concat (items.map fun item => line item ++ "\n") = written (items.map line) := by
  rw [written, List.map_map]
  rfl

/-- Each line comes back, and what follows the last line end does. -/
theorem linesOf_append {line : String} (h : IsLine line) (rest : String) :
    linesOf (line ++ "\n" ++ rest) = line :: linesOf rest := by
  have htext : (line ++ "\n" ++ rest).toList = line.toList ++ '\n' :: rest.toList := by simp
  rw [linesOf, Text.pieces, htext, Text.cut_append h, List.map_cons, String.ofList_toList]
  rfl

theorem linesOf_written {lines : List String} (h : ∀ line ∈ lines, IsLine line) (rest : String) :
    linesOf (written lines ++ rest) = lines ++ linesOf rest := by
  induction lines with
  | nil => simp
  | cons line more ih =>
    obtain ⟨hline, hmore⟩ := List.forall_mem_cons.mp h
    rw [written_cons, String.append_assoc, linesOf_append hline, ih hmore]
    rfl

/-- What stands in a line between two texts. -/
def within? (before behind line : String) : Option String :=
  let rest := line.toList.drop before.length
  if before.toList.isPrefixOf line.toList && behind.toList.isSuffixOf rest then
    some (String.ofList (rest.take (rest.length - behind.length)))
  else none

@[simp] theorem within?_append (before name behind : String) :
    within? before behind (before ++ name ++ behind) = some name := by
  have hrest : (before ++ name ++ behind).toList.drop before.length
      = name.toList ++ behind.toList := by
    rw [String.toList_append, String.toList_append, List.append_assoc, ← String.length_toList,
      List.drop_left]
  have hbefore : before.toList.isPrefixOf (before ++ name ++ behind).toList := by
    rw [List.isPrefixOf_iff_prefix, String.toList_append, String.toList_append, List.append_assoc]
    exact List.prefix_append _ _
  have hbehind : behind.toList.isSuffixOf (name.toList ++ behind.toList) := by
    rw [List.isSuffixOf_iff_suffix]
    exact List.suffix_append _ _
  have htake : (name.toList ++ behind.toList).length - behind.length = name.toList.length := by
    rw [List.length_append, String.length_toList, String.length_toList]
    omega
  simp only [within?, hrest, hbefore, hbehind, Bool.and_self, if_true, htake, List.take_left,
    String.ofList_toList]

@[simp] theorem within?_behind (before name : String) :
    within? before "" (before ++ name) = some name := by
  rw [← within?_append before name "", String.append_empty]

@[simp] theorem within?_before (name behind : String) :
    within? "" behind (name ++ behind) = some name := by
  rw [← within?_append "" name behind, String.empty_append]

theorem within?_eq_none {before line : String} (h : Text.startsWith line before = false)
    (behind : String) : within? before behind line = none := by
  rw [Text.startsWith] at h
  simp [within?, h]

/-! ### What a page says -/

/-- What the page of a package says of one module. -/
structure Section where
  title? : Option String
  members : Members
  options : List String
  deriving DecidableEq

/-- What the page of a package says. -/
structure Contents where
  directory : String
  sections : List Section
  /-- The packages below, by their dotted names. -/
  packages : List String
  deriving DecidableEq

/-- The symbols on the page, in the order of reading. -/
def Contents.symbols (contents : Contents) : List Symbol :=
  contents.sections.flatMap fun part => part.members.symbols

/-- The lines of a heading. -/
def headingLines (level : Nat) (title : String) : List String :=
  [title, String.ofList (List.replicate title.length (underline level)), ""]

/-- The lines of a list of symbols. -/
def groupLines (kind : SymbolKind) (names : List String) : List String :=
  if names.isEmpty then []
  else ("**" ++ groupTitle kind ++ "**") :: "" :: names.flatMap fun name =>
    [".. autosummary:: " ++ name, "    :toctree:", ""]

/-- The lines of the list of packages. -/
def packageLines (packages : List String) : List String :=
  if packages.isEmpty then []
  else headingLines 2 "Subpackages" ++ [".. toctree::", "    :maxdepth: 2", ""]
    ++ packages.map ("    " ++ ·) ++ [""]

/-- The lines of a section. -/
def Section.lines (part : Section) : List String :=
  (match part.title? with
    | some stem => headingLines 2 (":mod:`" ++ stem ++ "` module")
    | none => [])
  ++ (".. automodule:: " ++ part.members.module)
    :: part.options.map (fun option => "    :" ++ option ++ ":") ++ [""]
  ++ SymbolKind.all.flatMap (fun kind => groupLines kind (part.members.ofKind kind)) ++ [""]

/-- The lines of a page. -/
def Contents.lines (contents : Contents) : List String :=
  headingLines 1 (contents.directory ++ " package") ++ contents.sections.flatMap Section.lines
    ++ packageLines contents.packages

/-- The text of a page. -/
def Contents.text (contents : Contents) : String := written contents.lines

theorem heading_eq (level : Nat) (title : String) :
    heading level title = written (headingLines level title) := by
  simp [heading, headingLines, written_cons, String.append_assoc]

/-- A directive is its own line, one line for each option, and an empty one. -/
theorem moduleDirective_eq (module : String) (options : List String) :
    moduleDirective module options = written ((".. automodule:: " ++ module)
      :: options.map (fun option => "    :" ++ option ++ ":") ++ [""]) := by
  have hoptions : concat (options.map fun option => "    :" ++ option ++ ":\n")
      = written (options.map fun option => "    :" ++ option ++ ":") := by
    rw [← concat_lines]
    refine congrArg concat (List.map_congr_left fun option _ => ?_)
    simp [← String.toList_inj]
  have hlines : written ((".. automodule:: " ++ module)
      :: options.map (fun option => "    :" ++ option ++ ":") ++ [""])
      = ".. automodule:: " ++ module ++ "\n"
        ++ (written (options.map fun option => "    :" ++ option ++ ":") ++ "\n") := by
    rw [List.cons_append, written_cons, written_append]
    rfl
  unfold moduleDirective
  rw [hlines, hoptions, String.append_assoc]

/-- A group of members is written line by line. -/
theorem memberGroup_eq (kind : SymbolKind) (names : List String) :
    memberGroup kind names = written (groupLines kind names) := by
  have hname : ∀ name, ".. autosummary:: " ++ name ++ "\n    :toctree:\n\n"
      = written [".. autosummary:: " ++ name, "    :toctree:", ""] := by
    intro name
    simp [written_cons, String.append_assoc]
  rw [memberGroup, groupLines]
  split
  · rfl
  · simp only [hname, written_cons, written_flatMap]
    simp [← String.toList_inj]

theorem moduleSection_eq (part : Section) :
    moduleSection part.title? part.members part.options = written part.lines := by
  simp only [moduleSection, Section.lines, written_append, written_flatMap, moduleDirective_eq,
    memberGroup_eq]
  cases part.title? with
  | none => simp [written_cons]
  | some stem => simp [written_cons, heading_eq, String.append_assoc]

/-- The list of subpackages is written line by line. -/
theorem subpackageList_eq (package : String) (subpackages : List String) :
    subpackageList package subpackages
      = written (packageLines (subpackages.map fun sub => package ++ "." ++ sub)) := by
  have hsub : ∀ sub, "    " ++ package ++ "." ++ sub ++ "\n"
      = "    " ++ (package ++ "." ++ sub) ++ "\n" := by
    intro sub
    simp [String.append_assoc]
  rw [subpackageList, packageLines, List.isEmpty_map]
  split
  · rfl
  · simp only [hsub, concat_lines, heading_eq, written_append, List.map_map]
    simp [written_cons, String.append_assoc]
    rfl

/-! ### Reading a page line by line -/

/-- The members with more names of one sort. -/
def Section.add (part : Section) (kind : SymbolKind) (names : List String) : Section :=
  { part with members := match kind with
    | .classType => { part.members with classes := part.members.classes ++ names }
    | .function => { part.members with functions := part.members.functions ++ names }
    | .object => { part.members with objects := part.members.objects ++ names } }

/-- What the next line belongs to. -/
inductive Position
  /-- The title of the page. -/
  | title
  /-- The heading or the directive of a section, or the list of packages. -/
  | between (title? : Option String)
  /-- The options of a section. -/
  | options (part : Section)
  /-- The heading of a list of symbols, a symbol of the list, or the end of the section. -/
  | groups (part : Section) (kind : SymbolKind)
  /-- A heading or a symbol, up to the empty line behind it. -/
  | gap (part : Section) (kind : SymbolKind)
  /-- The list of packages, behind some lines that are always the same. -/
  | packages (ahead : Nat)

/-- A page that has been read up to some line. -/
structure Draft where
  contents : Contents
  position : Position

/-- Reads one more line. -/
def Draft.step (draft : Draft) (line : String) : Draft :=
  match draft.position with
  | .title =>
    { contents := { draft.contents with directory := (within? "" " package" line).getD "" }
      position := .between none }
  | .between title? =>
    match within? ":mod:`" "` module" line, within? ".. automodule:: " "" line with
    | some stem, _ => { draft with position := .between (some stem) }
    | none, some module => { draft with position := .options ⟨title?, { module }, []⟩ }
    | none, none =>
      if line = "Subpackages" then { draft with position := .packages 5 } else draft
  | .options part =>
    match within? "    :" ":" line with
    | some option =>
      { draft with position := .options { part with options := part.options ++ [option] } }
    | none => { draft with position := .groups part .classType }
  | .groups part kind =>
    match SymbolKind.all.find? fun group => line = "**" ++ groupTitle group ++ "**",
        within? ".. autosummary:: " "" line with
    | some group, _ => { draft with position := .gap part group }
    | none, some name => { draft with position := .gap (part.add kind [name]) kind }
    | none, none =>
      { contents := { draft.contents with sections := draft.contents.sections ++ [part] }
        position := .between none }
  | .gap part kind => if line = "" then { draft with position := .groups part kind } else draft
  | .packages (ahead + 1) => { draft with position := .packages ahead }
  | .packages 0 =>
    match within? "    " "" line with
    | some name =>
      { draft with
        contents := { draft.contents with packages := draft.contents.packages ++ [name] } }
    | none => draft

/-- What the page says. -/
def read (text : String) : Contents :=
  ((linesOf text).foldl Draft.step ⟨⟨"", [], []⟩, .title⟩).contents

namespace Draft

variable (contents : Contents) (part : Section) (kind : SymbolKind)

theorem read_options (options : List String) :
    (options.map fun option => "    :" ++ option ++ ":").foldl step ⟨contents, .options part⟩
      = ⟨contents, .options { part with options := part.options ++ options }⟩ := by
  induction options generalizing part with
  | nil => simp
  | cons option rest ih =>
    rw [List.map_cons, List.foldl_cons]
    simp only [step, within?_append]
    rw [ih]
    simp

/-- A line that starts with something else is no heading of a list. -/
theorem find?_groupTitle_eq_none {line : String} (h : Text.startsWith line "**" = false) :
    SymbolKind.all.find? (fun group => line = "**" ++ groupTitle group ++ "**") = none := by
  refine List.find?_eq_none.mpr fun group _ heq => ?_
  rw [decide_eq_true_eq] at heq
  simp [heq, Text.startsWith] at h

theorem find?_groupTitle (kind : SymbolKind) :
    SymbolKind.all.find? (fun group => "**" ++ groupTitle kind ++ "**"
      = "**" ++ groupTitle group ++ "**") = some kind := by
  cases kind <;> decide

theorem read_symbol (name : String) :
    [".. autosummary:: " ++ name, "    :toctree:", ""].foldl step ⟨contents, .groups part kind⟩
      = ⟨contents, .groups (part.add kind [name]) kind⟩ := by
  have htitle : Text.startsWith (".. autosummary:: " ++ name) "**" = false := by
    simp [Text.startsWith]
    rfl
  simp [step, find?_groupTitle_eq_none htitle]

theorem read_symbols (names : List String) :
    (names.flatMap fun name => [".. autosummary:: " ++ name, "    :toctree:", ""]).foldl step
      ⟨contents, .groups part kind⟩ = ⟨contents, .groups (part.add kind names) kind⟩ := by
  induction names generalizing part with
  | nil => cases kind <;> simp [Section.add]
  | cons name rest ih =>
    rw [List.flatMap_cons, List.foldl_append, read_symbol, ih]
    cases kind <;> simp [Section.add]

/-- A list of symbols is read whatever list stands before it. -/
theorem read_group (before : SymbolKind) (names : List String) : ∃ behind,
    (groupLines kind names).foldl step ⟨contents, .groups part before⟩
      = ⟨contents, .groups (part.add kind names) behind⟩ := by
  rw [groupLines]
  split
  · rename_i hempty
    obtain rfl := List.isEmpty_iff.mp hempty
    exact ⟨before, by cases kind <;> simp [Section.add]⟩
  · refine ⟨kind, ?_⟩
    rw [List.foldl_cons, List.foldl_cons]
    simp only [step, find?_groupTitle, if_true]
    exact read_symbols contents part kind names

/-- The lists of a section are read one after the other. -/
theorem read_groups : ∃ behind,
    (SymbolKind.all.flatMap fun group => groupLines group (part.members.ofKind group)).foldl step
        ⟨contents, .groups { part with members := { module := part.members.module } } kind⟩
      = ⟨contents, .groups part behind⟩ := by
  obtain ⟨first, hclasses⟩ := read_group contents
    { part with members := { module := part.members.module } } .classType kind part.members.classes
  obtain ⟨second, hfunctions⟩ := read_group contents _ .function first part.members.functions
  obtain ⟨last, hobjects⟩ := read_group contents _ .object second part.members.objects
  refine ⟨last, ?_⟩
  simp only [SymbolKind.all, List.flatMap_cons, List.flatMap_nil, List.append_nil,
    List.foldl_append, Members.ofKind]
  rw [hclasses, hfunctions, hobjects]
  rfl

/-- A line that opens neither a section nor the list of packages is passed over. -/
theorem step_between {line : String} (title? : Option String)
    (hrole : Text.startsWith line ":mod:`" = false)
    (hdirective : Text.startsWith line ".. automodule:: " = false)
    (hpackages : line ≠ "Subpackages") :
    step ⟨contents, .between title?⟩ line = ⟨contents, .between title?⟩ := by
  simp only [step, within?_eq_none hrole, within?_eq_none hdirective, if_neg hpackages]

theorem step_blank (title? : Option String) :
    step ⟨contents, .between title?⟩ "" = ⟨contents, .between title?⟩ :=
  step_between contents title? rfl rfl (by decide)

/-- So is the underline of a heading. -/
theorem step_underline (title? : Option String) (level count : Nat) :
    step ⟨contents, .between title?⟩ (String.ofList (List.replicate count (underline level)))
      = ⟨contents, .between title?⟩ := by
  have hmark : underline level ∉ [':', '.', 'S'] := by
    rw [underline]
    split
    · decide
    · split <;> decide
  simp only [List.mem_cons, List.not_mem_nil, not_or, or_false] at hmark
  obtain ⟨hcolon, hdot, hletter⟩ := hmark
  cases count with
  | zero => exact step_blank contents title?
  | succ count =>
    refine step_between contents title? ?_ ?_ fun heq => ?_
    · simp [Text.startsWith, List.replicate_succ, List.isPrefixOf, Ne.symm hcolon]
    · simp [Text.startsWith, List.replicate_succ, List.isPrefixOf, Ne.symm hdot]
    · have hfirst := congrArg (fun line => line.toList.head?) heq
      simp [List.replicate_succ] at hfirst
      exact hletter hfirst

theorem read_title (directory : String) :
    (headingLines 1 (directory ++ " package")).foldl step ⟨contents, .title⟩
      = ⟨{ contents with directory }, .between none⟩ := by
  have htitle : step ⟨contents, .title⟩ (directory ++ " package")
      = ⟨{ contents with directory }, .between none⟩ := by
    simp only [step, within?_before, Option.getD_some]
  rw [headingLines, List.foldl_cons, htitle, List.foldl_cons, step_underline, List.foldl_cons,
    step_blank]
  rfl

/-- A heading is read back as the title of the next section. -/
theorem read_heading (title? : Option String) :
    (match title? with
      | some stem => headingLines 2 (":mod:`" ++ stem ++ "` module")
      | none => []).foldl step ⟨contents, .between none⟩ = ⟨contents, .between title?⟩ := by
  cases title? with
  | none => rfl
  | some stem =>
    have hrole : step ⟨contents, .between none⟩ (":mod:`" ++ stem ++ "` module")
        = ⟨contents, .between (some stem)⟩ := by
      simp only [step, within?_append]
    show List.foldl step _ (headingLines 2 (":mod:`" ++ stem ++ "` module")) = _
    rw [headingLines, List.foldl_cons, hrole, List.foldl_cons, step_underline, List.foldl_cons,
      step_blank]
    rfl

theorem step_directive (title? : Option String) (module : String) :
    step ⟨contents, .between title?⟩ (".. automodule:: " ++ module)
      = ⟨contents, .options ⟨title?, { module }, []⟩⟩ := by
  have hrole : Text.startsWith (".. automodule:: " ++ module) ":mod:`" = false := by
    simp [Text.startsWith]
    rfl
  simp only [step, within?_eq_none hrole, within?_behind]

/-- The lines of a section are read back as this section. -/
theorem read_section :
    part.lines.foldl step ⟨contents, .between none⟩
      = ⟨{ contents with sections := contents.sections ++ [part] }, .between none⟩ := by
  obtain ⟨last, hgroups⟩ := read_groups contents part .classType
  have hdirective : ((".. automodule:: " ++ part.members.module)
        :: part.options.map (fun option => "    :" ++ option ++ ":")).foldl step
          ⟨contents, .between part.title?⟩
      = ⟨contents, .options { part with members := { module := part.members.module } }⟩ := by
    rw [List.foldl_cons, step_directive, read_options]
    rfl
  -- an empty line ends the options, and another one the lists
  have hoptions : step ⟨contents, .options { part with
        members := { module := part.members.module } }⟩ ""
      = ⟨contents, .groups { part with members := { module := part.members.module } }
        .classType⟩ := rfl
  have hend : step ⟨contents, .groups part last⟩ ""
      = ⟨{ contents with sections := contents.sections ++ [part] }, .between none⟩ := rfl
  rw [Section.lines, List.foldl_append, List.foldl_append, List.foldl_append, List.foldl_append,
    read_heading, hdirective]
  simp only [List.foldl_cons, List.foldl_nil]
  rw [hoptions, hgroups, hend]

theorem read_sections (parts : List Section) :
    (parts.flatMap Section.lines).foldl step ⟨contents, .between none⟩
      = ⟨{ contents with sections := contents.sections ++ parts }, .between none⟩ := by
  induction parts generalizing contents with
  | nil => simp
  | cons part rest ih =>
    rw [List.flatMap_cons, List.foldl_append, read_section, ih]
    simp

/-- The entries of the list of packages are read back in their order. -/
theorem read_entries (packages : List String) :
    (packages.map ("    " ++ ·)).foldl step ⟨contents, .packages 0⟩
      = ⟨{ contents with packages := contents.packages ++ packages }, .packages 0⟩ := by
  induction packages generalizing contents with
  | nil => simp
  | cons name rest ih =>
    have hentry : step ⟨contents, .packages 0⟩ ("    " ++ name)
        = ⟨{ contents with packages := contents.packages ++ [name] }, .packages 0⟩ := by
      simp only [step, within?_behind]
    rw [List.map_cons, List.foldl_cons, hentry, ih]
    simp

/-- The list of packages is read, and the empty line behind the page with it. -/
theorem read_packages (packages : List String) :
    ((packageLines packages ++ [""]).foldl step ⟨contents, .between none⟩).contents
      = { contents with packages := contents.packages ++ packages } := by
  rw [packageLines]
  split
  · rename_i hempty
    obtain rfl := List.isEmpty_iff.mp hempty
    simp [step_blank]
  · have hheading : (headingLines 2 "Subpackages" ++ [".. toctree::", "    :maxdepth: 2", ""]).foldl
        step ⟨contents, .between none⟩ = ⟨contents, .packages 0⟩ := rfl
    rw [List.foldl_append, List.foldl_append, List.foldl_append, hheading, read_entries]
    rfl

end Draft

/-! ### What was written is read -/

/-- Nothing on the page goes over the end of a line. -/
structure Section.Legible (part : Section) : Prop where
  title? : ∀ stem ∈ part.title?, IsLine stem
  module : IsLine part.members.module
  options : ∀ option ∈ part.options, IsLine option
  names : ∀ kind, ∀ name ∈ part.members.ofKind kind, IsLine name

/-- Nothing on the page goes over the end of a line. -/
structure Contents.Legible (contents : Contents) : Prop where
  directory : IsLine contents.directory
  sections : ∀ part ∈ contents.sections, part.Legible
  packages : ∀ name ∈ contents.packages, IsLine name

theorem IsLine.append {first second : String} (h : IsLine first) (h' : IsLine second) :
    IsLine (first ++ second) := by
  rw [IsLine, String.toList_append, List.mem_append]
  exact not_or.mpr ⟨h, h'⟩

theorem isLine_of_headingLines {level : Nat} {title line : String} (h : IsLine title)
    (hline : line ∈ headingLines level title) : IsLine line := by
  have hmark : '\n' ≠ underline level := by
    rw [underline]
    split
    · decide
    · split <;> decide
  simp only [headingLines, List.mem_cons, List.not_mem_nil, or_false] at hline
  obtain rfl | rfl | rfl := hline
  · exact h
  · simp [IsLine, hmark]
  · decide

theorem isLine_of_groupLines {kind : SymbolKind} {names : List String} {line : String}
    (h : ∀ name ∈ names, IsLine name) (hline : line ∈ groupLines kind names) : IsLine line := by
  rw [groupLines] at hline
  split at hline
  · cases hline
  · simp only [List.mem_cons, List.mem_flatMap, List.not_mem_nil, or_false] at hline
    obtain rfl | rfl | ⟨name, hname, rfl | rfl | rfl⟩ := hline
    · cases kind <;> decide
    · decide
    · exact .append (by decide) (h name hname)
    · decide
    · decide

theorem Section.Legible.isLine {part : Section} (h : part.Legible) {line : String}
    (hline : line ∈ part.lines) : IsLine line := by
  simp only [Section.lines, List.mem_append, List.mem_cons, List.mem_map, List.mem_flatMap,
    List.not_mem_nil, or_false] at hline
  obtain (((hhead | rfl | ⟨option, hoption, rfl⟩) | rfl) | ⟨kind, -, hgroup⟩) | rfl := hline
  · split at hhead
    · rename_i stem htitle
      exact isLine_of_headingLines
        (((by decide : IsLine ":mod:`").append (h.title? stem htitle)).append (by decide)) hhead
    · cases hhead
  · exact .append (by decide) h.module
  · exact ((by decide : IsLine "    :").append (h.options option hoption)).append (by decide)
  · decide
  · exact isLine_of_groupLines (h.names kind) hgroup
  · decide

/-- What is written for legible contents are lines. -/
theorem Contents.Legible.isLine {contents : Contents} (h : contents.Legible) {line : String}
    (hline : line ∈ contents.lines) : IsLine line := by
  simp only [Contents.lines, List.mem_append, List.mem_flatMap] at hline
  obtain (hhead | ⟨part, hpart, hline⟩) | hpackages := hline
  · exact isLine_of_headingLines (h.directory.append (by decide)) hhead
  · exact (h.sections part hpart).isLine hline
  · rw [packageLines] at hpackages
    split at hpackages
    · cases hpackages
    · simp only [List.mem_append, List.mem_cons, List.mem_map, List.not_mem_nil, or_false]
        at hpackages
      obtain ((hhead | rfl | rfl | rfl) | ⟨name, hname, rfl⟩) | rfl := hpackages
      · exact isLine_of_headingLines (by decide) hhead
      · decide
      · decide
      · decide
      · exact .append (by decide) (h.packages name hname)
      · decide

/-- **What was written is read.** -/
theorem Contents.read_text {contents : Contents} (h : contents.Legible) :
    read contents.text = contents := by
  have hlines : linesOf contents.text = contents.lines ++ [""] := by
    rw [Contents.text, ← String.append_empty (s := written contents.lines),
      linesOf_written fun line hline => h.isLine hline]
    rfl
  rw [read, hlines, Contents.lines, List.append_assoc, List.append_assoc, List.foldl_append,
    Draft.read_title, List.foldl_append, Draft.read_sections, Draft.read_packages]
  rfl

/-! ### The page of a symbol -/

/-- The symbol that a page is about, and where to import it from: told by the first line, the
directive and the hint. -/
def readSymbol? (text : String) : Option (Symbol × String) :=
  match linesOf text with
  | first :: _ :: _ :: _ :: _ :: hint :: _ :: last :: _ => do
    let module ← within? ".. currentmodule:: " "" first
    let (name, kind) ← SymbolKind.all.findSome? fun kind =>
      (within? (".. " ++ directive kind ++ ":: ") "" last).map (·, kind)
    let path ← within? "(*Shortest import*: ``from " (" import " ++ name ++ ")``") hint
    return (⟨module, name, kind⟩, path)
  | _ => none

/-- The lines at the head of a symbol's page. -/
def symbolLines (symbol : Symbol) (shortest : String) : List String :=
  [".. currentmodule:: " ++ symbol.module, ""]
    ++ headingLines 1 (symbol.name ++ " " ++ kindWord symbol.kind)
    ++ ["(*Shortest import*: ``from " ++ shortest ++ (" import " ++ symbol.name ++ ")``"), "",
      ".. " ++ directive symbol.kind ++ ":: " ++ symbol.name]

/-- The page of a symbol starts with its lines; the examples come behind. -/
theorem symbolPage_eq (symbol : Symbol) (shortest examples : String) : ∃ rest,
    symbolPage symbol shortest examples = written (symbolLines symbol shortest) ++ rest := by
  refine ⟨match symbol.kind with
    | .classType => "\n" ++ examples
    | .function => "\n"
    | .object => "", ?_⟩
  unfold symbolPage importHint symbolLines
  rw [heading_eq, written_append, written_append, written_cons, written_cons, written_cons,
    written_cons, written_cons]
  generalize written (headingLines 1 (symbol.name ++ " " ++ kindWord symbol.kind)) = head
  cases symbol.kind <;> simp [← String.toList_inj]

theorem isLine_of_symbolLines {symbol : Symbol} {shortest line : String}
    (hmodule : IsLine symbol.module) (hname : IsLine symbol.name) (hshortest : IsLine shortest)
    (hline : line ∈ symbolLines symbol shortest) : IsLine line := by
  have hword : IsLine (kindWord symbol.kind) := by cases symbol.kind <;> decide
  have hdirective : IsLine (directive symbol.kind) := by cases symbol.kind <;> decide
  have hcolons : IsLine ":: " := by decide
  simp only [symbolLines, List.mem_append, List.mem_cons, List.not_mem_nil, or_false] at hline
  obtain ((rfl | rfl) | hhead) | rfl | rfl | rfl := hline
  · exact .append (by decide) hmodule
  · decide
  · exact isLine_of_headingLines ((hname.append (by decide)).append hword) hhead
  · exact .append (.append (by decide) hshortest) (.append (.append (by decide) hname) (by decide))
  · decide
  · exact ((IsLine.append (by decide) hdirective).append hcolons).append hname

/-- A directive tells the sort of symbol and its name. -/
theorem findSome?_directive (kind : SymbolKind) (name : String) :
    (SymbolKind.all.findSome? fun other =>
      (within? (".. " ++ directive other ++ ":: ") "" (".. " ++ directive kind ++ ":: " ++ name)).map
        (·, other)) = some (name, kind) := by
  have hother : ∀ other, other ≠ kind → within? (".. " ++ directive other ++ ":: ") ""
      (".. " ++ directive kind ++ ":: " ++ name) = none := by
    intro other hne
    refine within?_eq_none ?_ _
    cases other <;> cases kind <;> first | exact absurd rfl hne | (simp [Text.startsWith]; rfl)
  cases kind <;> simp [SymbolKind.all, hother]

/-- **What the page of a symbol says can be read**, whatever examples follow. -/
theorem readSymbol?_symbolPage {symbol : Symbol} {shortest : String} (examples : String)
    (hmodule : IsLine symbol.module) (hname : IsLine symbol.name) (hshortest : IsLine shortest) :
    readSymbol? (symbolPage symbol shortest examples) = some (symbol, shortest) := by
  obtain ⟨rest, htext⟩ := symbolPage_eq symbol shortest examples
  have hlines : linesOf (symbolPage symbol shortest examples)
      = symbolLines symbol shortest ++ linesOf rest := by
    rw [htext]
    exact linesOf_written (fun line => isLine_of_symbolLines hmodule hname hshortest) rest
  rw [readSymbol?, hlines]
  simp [symbolLines, headingLines, findSome?_directive]

end Page

/-! ### What a page is written from -/

/-- A computation for each item, each with its result changed behind it. -/
theorem Work.mapM_bind_pure {σ α β γ : Type} (f : α → Work σ β) (g : β → γ) (items : List α) :
    items.mapM (fun item => f item >>= fun result => pure (g result))
      = items.mapM f >>= fun results => pure (results.map g) := by
  induction items with
  | nil => rfl
  | cons item rest ih => simp only [List.mapM_cons, ih, bind_assoc, pure_bind, List.map_cons]

namespace Manual

variable {σ : Type} [Importer σ]

/-- What the page of a package is to say of a module, with the symbols that its table defines. -/
def contentsOf (manual : Manual) (package : Package) (file : ModuleFile) :
    Work σ Page.Section := do
  let defined ← members (package.moduleName file)
  return ⟨if file.isMarker then none else some file.stem, defined, manual.options⟩

/-- What the page of a package is to say. -/
def contents (manual : Manual) (package : Package) : Work σ Page.Contents := do
  let documented := package.modules.filter fun file => !file.isTrivial
  let sections ← documented.mapM (manual.contentsOf package)
  return {
    directory := package.directoryName
    sections
    packages := package.subpackages.map fun sub => package.name ++ "." ++ sub }

theorem renderModule_eq (manual : Manual) (package : Package) :
    manual.renderModule package = fun file => (do
      let part ← manual.contentsOf package file
      return (Page.written part.lines, part.members.symbols) : Work σ (String × List Symbol)) := by
  funext file
  simp only [renderModule, contentsOf, bind_assoc, pure_bind, ← Page.moduleSection_eq]

/-- **The page of a package is the text of its contents**, and links to the symbols in them. -/
theorem renderPackage_eq (manual : Manual) (package : Package) :
    manual.renderPackage package = (do
      let contents ← manual.contents package
      return ⟨package.name, contents.text, contents.symbols⟩ : Work σ PackagePage) := by
  rw [renderPackage, renderModule_eq, contents, Work.mapM_bind_pure]
  simp only [bind_assoc, pure_bind, Page.Contents.text, Page.Contents.lines, Page.Contents.symbols,
    Page.written_append, Page.written_flatMap, Page.heading_eq, Page.subpackageList_eq,
    List.map_map, List.flatMap_map]
  rfl

/-- A rendered page is written from contents that the importer gave. -/
theorem contents_of_renderPackage {manual : Manual} {package : Package} {page : PackagePage}
    {space after : Workspace σ} (h : manual.renderPackage package space = (.ok page, after)) :
    ∃ contents, manual.contents package space = (.ok contents, after)
      ∧ page.text = contents.text ∧ page.symbols = contents.symbols := by
  rw [renderPackage_eq] at h
  obtain ⟨contents, between, hcontents, h⟩ := Work.bind_ok h
  cases h
  exact ⟨contents, hcontents, rfl, rfl⟩

/-! ### Pages can be read back -/

/-- **Rendered pages can be read back.** From the text of a package's page `Page.read` gets the
contents that it was written from, and with them the symbols that the page links to; from the text
of a symbol's page `Page.readSymbol?` gets the symbol and where to import it from.  So two pages
have one text only if they say the same. -/
theorem rendered_legible :
    (∀ {σ : Type} [Importer σ] (manual : Manual) (package : Package) (page : PackagePage)
        (space after : Workspace σ), manual.renderPackage package space = (.ok page, after) →
      ∃ contents, manual.contents package space = (.ok contents, after)
        ∧ page.symbols = contents.symbols
        ∧ (contents.Legible → Page.read page.text = contents
          ∧ (Page.read page.text).symbols = page.symbols))
    ∧ (∀ {σ τ : Type} [Importer σ] [Importer τ] (manual other : Manual) (package below : Package)
        (page twin : PackagePage) (space after : Workspace σ) (room later : Workspace τ)
        (contents copied : Page.Contents),
      manual.renderPackage package space = (.ok page, after) →
      manual.contents package space = (.ok contents, after) → contents.Legible →
      other.renderPackage below room = (.ok twin, later) →
      other.contents below room = (.ok copied, later) → copied.Legible →
      page.text = twin.text → contents = copied ∧ page.symbols = twin.symbols)
    ∧ (∀ (symbol : Symbol) (shortest examples : String), Page.IsLine symbol.module →
      Page.IsLine symbol.name → Page.IsLine shortest →
      Page.readSymbol? (Page.symbolPage symbol shortest examples) = some (symbol, shortest))
    ∧ (∀ (symbol twin : Symbol) (shortest path examples others : String),
      Page.IsLine symbol.module → Page.IsLine symbol.name → Page.IsLine shortest →
      Page.IsLine twin.module → Page.IsLine twin.name → Page.IsLine path →
      Page.symbolPage symbol shortest examples = Page.symbolPage twin path others →
      symbol = twin ∧ shortest = path) := by
  refine ⟨?_, ?_, ?_, ?_⟩
  · intro σ _ manual package page space after hpage
    obtain ⟨contents, hcontents, htext, hsymbols⟩ := contents_of_renderPackage hpage
    refine ⟨contents, hcontents, hsymbols, fun hlegible => ?_⟩
    have hread : Page.read page.text = contents := by rw [htext, Page.Contents.read_text hlegible]
    exact ⟨hread, by rw [hread, hsymbols]⟩
  · intro σ τ _ _ manual other package below page twin space after room later contents copied
      hpage hcontents hlegible htwin hcopied hlegible' heq
    obtain ⟨first, hfirst, htext, hsymbols⟩ := contents_of_renderPackage hpage
    obtain ⟨second, hsecond, htext', hsymbols'⟩ := contents_of_renderPackage htwin
    obtain rfl : first = contents :=
      Except.ok.inj (congrArg Prod.fst (hfirst.symm.trans hcontents))
    obtain rfl : second = copied :=
      Except.ok.inj (congrArg Prod.fst (hsecond.symm.trans hcopied))
    have hread := congrArg Page.read heq
    rw [htext, htext', Page.Contents.read_text hlegible, Page.Contents.read_text hlegible'] at hread
    exact ⟨hread, by rw [hsymbols, hsymbols', hread]⟩
  · intro symbol shortest examples hmodule hname hshortest
    exact Page.readSymbol?_symbolPage examples hmodule hname hshortest
  · intro symbol twin shortest path examples others hmodule hname hshortest hmodule' hname' hpath
      heq
    have hread := congrArg Page.readSymbol? heq
    rw [Page.readSymbol?_symbolPage examples hmodule hname hshortest,
      Page.readSymbol?_symbolPage others hmodule' hname' hpath] at hread
    simpa using hread

/-- A package with a function in its marker, and a module with a class and an object. -/
def catalogued : Workspace Registry :=
  ⟨⟨[], []⟩, (Registry.register {}
      (SymbolTable.bind (.named "pkg") "version" (.functionOf "pkg"))).register
    ((SymbolTable.bind (.named "pkg.core") "Engine" (.classOf "pkg.core")).bind
      "default_engine" (.objectOf "pkg.core"))⟩

/-- The package, with an empty module and a package below it. -/
def cataloguedPackage : Package :=
  ⟨"pkg", ⟨"/src/pkg"⟩, [⟨"__init__.py", 40⟩, ⟨"core.py", 120⟩, ⟨"empty.py", 1⟩], ["sub"]⟩

/-- What its page says. -/
def cataloguedContents : Page.Contents where
  directory := "pkg"
  sections := [⟨none, { module := "pkg", functions := ["version"] }, ["show-inheritance"]⟩,
    ⟨some "core", { module := "pkg.core", classes := ["Engine"], objects := ["default_engine"] },
      ["show-inheritance"]⟩]
  packages := ["pkg.sub"]

theorem cataloguedContents_legible : cataloguedContents.Legible where
  directory := by decide
  sections := by
    intro part hpart
    simp only [cataloguedContents, List.mem_cons, List.not_mem_nil, or_false] at hpart
    obtain rfl | rfl := hpart
    · exact ⟨nofun, by decide, by decide, fun kind => by cases kind <;> decide⟩
    · exact ⟨by decide, by decide, by decide, fun kind => by cases kind <;> decide⟩
  packages := by decide

/-- The page of the package is read, and the page of its class. -/
theorem rendered_legible_catalogued :
    (∃ page after,
      renderPackage { destination := ⟨"out"⟩ } cataloguedPackage catalogued = (.ok page, after)
      ∧ Page.read page.text = cataloguedContents
      ∧ (Page.read page.text).symbols = page.symbols)
    ∧ Page.readSymbol? (Page.symbolPage ⟨"pkg.core", "Engine", .classType⟩ "pkg" "")
      = some (⟨"pkg.core", "Engine", .classType⟩, "pkg") := by
  obtain ⟨hpages, -, hstubs, -⟩ := rendered_legible
  refine ⟨?_, hstubs _ _ _ (by decide) (by decide) (by decide)⟩
  have hcontents : (contents { destination := ⟨"out"⟩ } cataloguedPackage catalogued).1
      = .ok cataloguedContents := by decide +kernel
  rcases hpage : renderPackage { destination := ⟨"out"⟩ } cataloguedPackage catalogued
    with ⟨_ | page, after⟩
  · have hok : (renderPackage { destination := ⟨"out"⟩ } cataloguedPackage catalogued).1.map
        PackagePage.name = .ok "pkg" := by decide +kernel
    rw [hpage] at hok
    cases hok
  · obtain ⟨written, hwritten, -, hread⟩ := hpages _ _ _ _ _ hpage
    rw [hwritten] at hcontents
    obtain rfl := Except.ok.inj hcontents
    exact ⟨page, after, rfl, hread cataloguedContents_legible⟩

end Manual

end ApiStubs
