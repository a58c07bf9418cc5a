import ApiStubs.Proofs.Printing
import Mathlib.Data.List.Nodup
import Mathlib.Data.List.Perm.Basic

/-!
# Proofs — Clashes — pages that are called the same

The pages of all packages go into one directory, a page of a package under the name of the package
and the page of a symbol under its dotted name.  Nothing keeps the two apart: a package that
defines a symbol and holds a package of that name has one file for two pages, and the page that is
written first is lost.

`Clashless` says of the packages of a run that this does not happen.  `generate_apart`: the
files of a run that succeeds are apart exactly then, and exactly then an empty destination holds as
many files as the run has counted.
-/

namespace ApiStubs

/-! ### What the pages of a package are called -/

/-- Each of the package's modules is listed with the symbols that a table of it defines. -/
def Package.Lists (package : Package) : List ModuleFile → List Members → Prop :=
  List.Forall₂ fun file listed => ∃ table, listed = Members.ofTable table (package.moduleName file)

/-- A package with what its documented modules define. -/
structure Chapter where
  package : Package
  listed : List Members

namespace Chapter

/-- The symbols with pages of their own. -/
def symbols (chapter : Chapter) : List Symbol := chapter.listed.flatMap Members.symbols

/-- What the pages are called. -/
def names (chapter : Chapter) : List String :=
  chapter.symbols.map Symbol.dottedName ++ [chapter.package.name]

/-- Every module that is not empty is listed. -/
def Complete (chapter : Chapter) : Prop :=
  chapter.package.Lists (chapter.package.modules.filter fun file => !file.isTrivial) chapter.listed

end Chapter

/-- No two pages are called the same: the packages have different names, no symbol is listed in two
modules, and no symbol is called like a package. -/
structure Clashless (chapters : List Chapter) : Prop where
  packages : (chapters.map fun chapter => chapter.package.name).Nodup
  modules : (chapters.flatMap Chapter.listed).Pairwise fun listed other =>
    ∀ symbol ∈ listed.symbols, ∀ twin ∈ other.symbols, symbol.dottedName ≠ twin.dottedName
  apart : ∀ chapter ∈ chapters, ∀ symbol ∈ chapter.symbols, ∀ other ∈ chapters,
    symbol.dottedName ≠ other.package.name

/-! ### Within one module -/

/-- In one package different names make different dotted names. -/
theorem Dotted.join_injective (package : String) : Function.Injective (Dotted.join package) := by
  have hne : ∀ inner, inner ≠ "" → package ≠ package ++ "." ++ inner := by
    intro inner hinner heq
    have hlength := congrArg String.length heq
    rw [String.append_assoc, String.length_append] at hlength
    have hdot : 0 < ("." ++ inner).length := by
      rw [String.length_append]
      exact Nat.lt_of_lt_of_le (by decide : 0 < ".".length) (Nat.le_add_right _ _)
    omega
  intro inner other h
  rw [Dotted.join, Dotted.join] at h
  by_cases hpackage : package = ""
  · rwa [if_pos hpackage, if_pos hpackage] at h
  rw [if_neg hpackage, if_neg hpackage] at h
  by_cases hinner : inner = ""
  · by_cases hother : other = ""
    · rw [hinner, hother]
    · rw [if_pos hinner, if_neg hother] at h
      exact absurd h (hne other hother)
  · by_cases hother : other = ""
    · rw [if_neg hinner, if_pos hother] at h
      exact absurd h.symm (hne inner hinner)
    · rw [if_neg hinner, if_neg hother] at h
      exact (String.append_right_inj _).mp h

/-- The symbols of a module have different names: a name stands for one sort of symbol. -/
theorem Members.nodup_dottedNames (table : SymbolTable) (module : String) :
    ((ofTable table module).symbols.map Symbol.dottedName).Nodup := by
  refine (nodup_symbols table module).map_on ?_
  rintro ⟨_, name, kind⟩ hs ⟨_, name', kind'⟩ hs' h
  obtain ⟨rfl, hname⟩ := mem_symbols_ofTable.mp hs
  obtain ⟨rfl, hname'⟩ := mem_symbols_ofTable.mp hs'
  obtain rfl : name = name' := Dotted.join_injective _ h
  -- the table binds the name once, so the sorts agree too
  obtain ⟨-, binding, hfind, -, hkind⟩ := mem_namesOf.mp hname
  obtain ⟨-, binding', hfind', -, hkind'⟩ := mem_namesOf.mp hname'
  rw [hfind, Option.some.injEq] at hfind'
  rw [← hfind', hkind, Option.some.injEq] at hkind'
  rw [show kind = kind' from hkind']

/-! ### Between modules -/

theorem Package.Lists.nodup_dottedNames {package : Package} {files : List ModuleFile}
    {all : List Members} (h : package.Lists files all) :
    ∀ listed ∈ all, (listed.symbols.map Symbol.dottedName).Nodup := by
  induction h with
  | nil => exact nofun
  | cons hlisted _ ih =>
    obtain ⟨table, rfl⟩ := hlisted
    exact List.forall_mem_cons.mpr ⟨Members.nodup_dottedNames table _, ih⟩

/-- The dotted names of all symbols differ where no two modules share one. -/
theorem nodup_dottedNames_iff {chapters : List Chapter}
    (h : ∀ chapter ∈ chapters, chapter.Complete) :
    ((chapters.flatMap Chapter.symbols).map Symbol.dottedName).Nodup ↔
      (chapters.flatMap Chapter.listed).Pairwise fun listed other =>
        ∀ symbol ∈ listed.symbols, ∀ twin ∈ other.symbols, symbol.dottedName ≠ twin.dottedName := by
  have hall : (chapters.flatMap Chapter.symbols).map Symbol.dottedName
      = (chapters.flatMap Chapter.listed).flatMap fun listed =>
        listed.symbols.map Symbol.dottedName := by
    simp only [Chapter.symbols, List.flatMap_assoc, List.map_flatMap]
  rw [hall, List.nodup_flatMap]
  constructor
  · rintro ⟨-, hpairs⟩
    exact hpairs.imp fun hdisjoint symbol hs twin ht heq =>
      hdisjoint (List.mem_map_of_mem hs) (heq ▸ List.mem_map_of_mem ht)
  · intro hpairs
    refine ⟨fun listed hmem => ?_, hpairs.imp fun hne name hs ht => ?_⟩
    · obtain ⟨chapter, hchapter, hlisted⟩ := List.mem_flatMap.mp hmem
      exact Package.Lists.nodup_dottedNames (h chapter hchapter) listed hlisted
    · obtain ⟨symbol, hsymbol, rfl⟩ := List.mem_map.mp hs
      obtain ⟨twin, htwin, heq⟩ := List.mem_map.mp ht
      exact hne symbol hsymbol twin htwin heq.symm

/-- **The pages have different names exactly where nothing clashes.** -/
theorem nodup_names_iff {chapters : List Chapter} (h : ∀ chapter ∈ chapters, chapter.Complete) :
    (chapters.flatMap Chapter.names).Nodup ↔ Clashless chapters := by
  -- the order of the pages does not matter: those of symbols first, then those of packages
  have hperm : (chapters.flatMap Chapter.names).Perm
      ((chapters.flatMap Chapter.symbols).map Symbol.dottedName
        ++ chapters.map fun chapter => chapter.package.name) := by
    have happend := List.flatMap_append_perm chapters
      (fun chapter => chapter.symbols.map Symbol.dottedName) (fun chapter => [chapter.package.name])
    rw [← List.map_flatMap, ← List.map_eq_flatMap] at happend
    exact happend.symm
  rw [hperm.nodup_iff, List.nodup_append', nodup_dottedNames_iff h]
  constructor
  · rintro ⟨hmodules, hpackages, hdisjoint⟩
    refine ⟨hpackages, hmodules, fun chapter hc symbol hs other ho heq => ?_⟩
    exact hdisjoint (List.mem_map_of_mem (List.mem_flatMap.mpr ⟨chapter, hc, hs⟩))
      (heq ▸ List.mem_map_of_mem ho)
  · rintro ⟨hpackages, hmodules, hapart⟩
    refine ⟨hmodules, hpackages, fun name hs hp => ?_⟩
    obtain ⟨symbol, hsymbol, rfl⟩ := List.mem_map.mp hs
    obtain ⟨chapter, hchapter, hin⟩ := List.mem_flatMap.mp hsymbol
    obtain ⟨other, hother, heq⟩ := List.mem_map.mp hp
    exact hapart chapter hchapter symbol hin other hother heq.symm

/-! ### What a run lists -/

namespace Manual

variable {σ : Type} [Importer σ]

/-- The sections of a page hold what is listed for the modules of its package. -/
theorem lists_of_renderModules {manual : Manual} {package : Package} {files : List ModuleFile}
    {sections : List (String × List Symbol)} {space after : Workspace σ}
    (h : files.mapM (manual.renderModule package) space = (.ok sections, after)) :
    ∃ listed, package.Lists files listed
      ∧ sections.flatMap Prod.snd = listed.flatMap Members.symbols := by
  induction files generalizing space sections with
  | nil => cases h; exact ⟨[], .nil, rfl⟩
  | cons file rest ih =>
    rw [List.mapM_cons] at h
    obtain ⟨_, between, hfile, h⟩ := Work.bind_ok h
    obtain ⟨others, last, hrest, h⟩ := Work.bind_ok h
    cases h
    obtain ⟨defined, loaded, hmembers, hfile⟩ := Work.bind_ok hfile
    obtain ⟨table, _, hload, hmembers⟩ := Work.bind_ok hmembers
    cases hmembers
    cases hfile
    obtain ⟨listed, hlists, hsymbols⟩ := ih hrest
    exact ⟨_, .cons ⟨table, rfl⟩ hlists, by rw [List.flatMap_cons, List.flatMap_cons, hsymbols]⟩

theorem lists_of_renderPackage {manual : Manual} {package : Package} {page : PackagePage}
    {space after : Workspace σ} (h : manual.renderPackage package space = (.ok page, after)) :
    ∃ chapter : Chapter, chapter.package = package ∧ chapter.Complete
      ∧ page.symbols = chapter.symbols ∧ page.name = package.name := by
  obtain ⟨sections, _, hsections, h⟩ := Work.bind_ok h
  cases h
  obtain ⟨listed, hlists, hsymbols⟩ := lists_of_renderModules hsections
  exact ⟨⟨package, listed⟩, rfl, hlists, hsymbols, rfl⟩

/-- The file of a page. -/
def fileOf (manual : Manual) (name : String) : String := name ++ "." ++ manual.suffix

/-- The sheets of a run are called by the names of its pages. -/
theorem Documents.chapters {manual : Manual} {packages : List Package} {space after : Workspace σ}
    {documented : List (PackagePage × List Disk.Sheet)}
    (h : Documents manual packages space documented after) :
    ∃ chapters : List Chapter, chapters.map Chapter.package = packages
      ∧ (∀ chapter ∈ chapters, chapter.Complete)
      ∧ (sheetsOf documented).map Disk.Sheet.fileName
        = (chapters.flatMap Chapter.names).map manual.fileOf := by
  induction h with
  | done => exact ⟨[], rfl, nofun, rfl⟩
  | package hpage hprints _ ih =>
    obtain ⟨chapter, rfl, hcomplete, hsymbols, hname⟩ := lists_of_renderPackage hpage
    obtain ⟨others, rfl, hothers, hfiles⟩ := ih
    refine ⟨chapter :: others, rfl, List.forall_mem_cons.mpr ⟨hcomplete, hothers⟩, ?_⟩
    have hown := hprints.fileNames
    rw [pages, hsymbols, hname] at hown
    rw [sheetsOf, List.flatMap_cons, List.map_append, ← sheetsOf, hfiles, hown, List.flatMap_cons,
      List.map_append]
    simp [Chapter.names, fileOf]

end Manual

/-! ### The files of a run -/

/-- The manual that the settings describe. -/
def Settings.manual (settings : Settings) (examples? : Option Examples) : Manual :=
  { destination := settings.destination, suffix := settings.suffix, options := settings.options,
    examples? }

/-- What a run plans from a file tree. -/
def Settings.plan (settings : Settings) (disk : Disk) :
    Except Fault (List Package × Option Examples) := do
  return (← settings.packages disk, ← settings.examples disk)

/-- A run documents what is planned, or fails with the plan. -/
theorem generate_run {σ : Type} [Importer σ] (settings : Settings) (space : Workspace σ) :
    generate settings space = match settings.plan space.disk with
      | .error fault => (.failed fault, space)
      | .ok (packages, examples?) =>
        Run.documentAll (settings.manual examples?) packages { total := packages.length }
          space := by
  show (match settings.plan space.disk with
    | .error fault => pure (Run.failed fault)
    | .ok (packages, examples?) => Run.documentAll (settings.manual examples?) packages
      { total := packages.length } : StateM (Workspace σ) Run) space = _
  cases settings.plan space.disk <;> rfl

/-- A run that succeeds has documented all packages of its tree. -/
theorem documentAll_of_generate {σ : Type} [Importer σ] {settings : Settings}
    {space after : Workspace σ} {run : Run} {statistics : Statistics}
    (h : generate settings space = (run, after)) (hok : run.result = .ok statistics) :
    ∃ packages examples?, settings.packages space.disk = .ok packages
      ∧ settings.examples space.disk = .ok examples?
      ∧ Run.documentAll (settings.manual examples?) packages { total := packages.length } space
        = (run, after) := by
  rw [generate_run] at h
  cases hpackages : settings.packages space.disk with
  | error fault =>
    rw [Settings.plan, hpackages] at h
    cases h
    cases hok
  | ok packages =>
    cases hexamples : settings.examples space.disk with
    | error fault =>
      rw [Settings.plan, hpackages, hexamples] at h
      cases h
      cases hok
    | ok examples? =>
      rw [Settings.plan, hpackages, hexamples] at h
      exact ⟨packages, examples?, rfl, rfl, h⟩

/-- There is a package to document. -/
theorem Settings.packages_ne_nil {settings : Settings} {disk : Disk} {packages : List Package}
    (h : settings.packages disk = .ok packages) : packages ≠ [] := by
  simp only [Settings.packages, bind, Except.bind] at h
  split at h
  · cases h
  split at h
  · cases h
  split at h
  · cases h
  · rename_i found _
    intro hempty
    split at h
    · cases h
    · rename_i hsome
      cases h
      simp [hempty] at hsome

/-- What a run has made of a file tree: the packages with the symbols they list, and the sheets that
were rendered and written for them. -/
structure Edition {σ : Type} [Importer σ] (settings : Settings) (space after : Workspace σ) where
  packages : List Package
  examples? : Option Examples
  documented : List (PackagePage × List Disk.Sheet)
  chapters : List Chapter
  planned : settings.packages space.disk = .ok packages
  illustrated : settings.examples space.disk = .ok examples?
  printed : (settings.manual examples?).Documents packages space documented after
  listed : chapters.map Chapter.package = packages
  complete : ∀ chapter ∈ chapters, chapter.Complete
  named : (Manual.sheetsOf documented).map Disk.Sheet.fileName
    = (chapters.flatMap Chapter.names).map (settings.manual examples?).fileOf

/-! ### Paths of their own -/

theorem Manual.fileOf_injective (manual : Manual) : Function.Injective manual.fileOf := by
  intro name other h
  rw [fileOf, fileOf, String.append_assoc, String.append_assoc] at h
  exact (String.append_left_inj _).mp h

/-- Names that do not start like an absolute path have paths of their own in a directory. -/
theorem FilePath.eq_of_join_eq {directory : FilePath} {name other : String}
    (hname : Text.startsWith name "/" = false) (hother : Text.startsWith other "/" = false)
    (h : directory.join name = directory.join other) : name = other := by
  have htext := congrArg FilePath.text h
  rw [text_join hname, text_join hother] at htext
  exact (String.append_right_inj _).mp htext

namespace Edition

variable {σ : Type} [Importer σ] {settings : Settings} {space after : Workspace σ}

/-- The sheets of the run, in the order of writing. -/
def sheets (edition : Edition settings space after) : List Disk.Sheet :=
  Manual.sheetsOf edition.documented

/-- Where a sheet is written. -/
def path (_ : Edition settings space after) (sheet : Disk.Sheet) : FilePath :=
  settings.destination.join sheet.fileName

/-- The files have different names exactly where nothing clashes. -/
theorem nodup_fileNames_iff (edition : Edition settings space after) :
    (edition.sheets.map Disk.Sheet.fileName).Nodup ↔ Clashless edition.chapters := by
  rw [sheets, edition.named, List.nodup_map_iff (Manual.fileOf_injective _),
    nodup_names_iff edition.complete]

/-- The sheets have different paths exactly where nothing clashes. -/
theorem nodup_paths_iff (edition : Edition settings space after)
    (h : ∀ sheet ∈ edition.sheets, Text.startsWith sheet.fileName "/" = false) :
    (edition.sheets.map edition.path).Nodup ↔ Clashless edition.chapters := by
  rw [← nodup_fileNames_iff]
  have hpaths : edition.sheets.map edition.path
      = (edition.sheets.map Disk.Sheet.fileName).map settings.destination.join := by
    rw [List.map_map]
    rfl
  rw [hpaths]
  constructor
  · exact List.Nodup.of_map _
  · intro hnodup
    refine hnodup.map_on fun name hname other hother => ?_
    obtain ⟨sheet, hsheet, rfl⟩ := List.mem_map.mp hname
    obtain ⟨twin, htwin, rfl⟩ := List.mem_map.mp hother
    exact FilePath.eq_of_join_eq (h sheet hsheet) (h twin htwin)

/-! ### An empty destination -/

theorem putAll (edition : Edition settings space after) :
    Disk.putAll settings.destination edition.sheets space.disk = .ok after.disk :=
  edition.printed.putAll

end Edition

namespace Disk

/-- Nothing stands below a location. -/
def Bare (disk : Disk) (here : Location) : Prop := ∀ e ∈ disk.entries, here <+: e.1 → e.1 = here

/-- Where nothing stands below, no link does. -/
theorem Bare.unlinked {disk : Disk} {here : Location} (h : disk.Bare here) :
    disk.Unlinked here := by
  intro name target hlink
  have hmem : (here ++ [name], Entry.link target) ∈ disk.entries := by
    obtain ⟨first, rest, hcons⟩ :=
      List.exists_cons_of_ne_nil
        (List.append_ne_nil_of_right_ne_nil here (List.cons_ne_nil name []))
    rw [hcons] at hlink ⊢
    obtain ⟨front, back, hentries, -⟩ := List.lookup_eq_some_iff.mp hlink
    simp [hentries]
  simpa using h _ hmem (List.prefix_append here [name])

theorem Bare.filesBelow_eq {disk : Disk} {here : Location} (h : disk.Bare here) :
    disk.filesBelow here = [] := by
  rw [filesBelow, List.filterMap_eq_nil_iff]
  rintro ⟨place, entry⟩ he
  refine if_neg fun hbelow => ?_
  rw [Bool.and_eq_true, List.isPrefixOf_iff_prefix, decide_eq_true_iff] at hbelow
  exact hbelow.2 (h _ he hbelow.1)

end Disk

namespace Edition

variable {σ : Type} [Importer σ] {settings : Settings} {space after : Workspace σ}

/-- A run that comes to its end writes something. -/
theorem sheets_ne_nil (edition : Edition settings space after) : edition.sheets ≠ [] := by
  intro hempty
  have hnone : (edition.chapters.flatMap Chapter.names).map
      (settings.manual edition.examples?).fileOf = [] := by
    rw [← edition.named, ← sheets, hempty]
    rfl
  have hchapters : edition.chapters = [] := by
    rw [List.map_eq_nil_iff, List.flatMap_eq_nil_iff] at hnone
    refine List.eq_nil_iff_forall_not_mem.mpr fun chapter hchapter => ?_
    simpa [Chapter.names] using hnone chapter hchapter
  have hpackages := edition.listed
  rw [hchapters] at hpackages
  exact settings.packages_ne_nil edition.planned hpackages.symm

/-- The destination is a directory afterwards. -/
theorem exists_directory (edition : Edition settings space after)
    (h : ∀ sheet ∈ edition.sheets, FilePath.IsFileName sheet.fileName) :
    ∃ here, after.disk.directoryAt? settings.destination = some here := by
  have hput := edition.putAll
  obtain ⟨sheet, rest, hsheets⟩ := List.exists_cons_of_ne_nil edition.sheets_ne_nil
  rw [hsheets] at hput
  obtain ⟨next, hnext, hlater⟩ := Disk.putAll_cons_ok hput
  obtain ⟨here, hhere⟩ := Disk.directoryAt?_of_put (h sheet (by simp [hsheets])) hnext
  exact ⟨here, (Disk.putAll_keeps hlater).directoryAt? hhere⟩

/-- An empty destination is filled with the sheets. -/
theorem fills (edition : Edition settings space after)
    (h : ∀ sheet ∈ edition.sheets, FilePath.IsFileName sheet.fileName) {here : Location}
    (hhere : after.disk.directoryAt? settings.destination = some here)
    (hbare : space.disk.Bare here) :
    ((after.disk.filesBelow here).length = edition.sheets.length ↔ Clashless edition.chapters)
      ∧ (Clashless edition.chapters → ∀ sheet ∈ edition.sheets,
        after.disk.readText (edition.path sheet) = .ok sheet.text) := by
  have hput := edition.putAll
  obtain ⟨hfiles, -⟩ := Disk.putAll_shelved h hbare.unlinked hput hhere
  constructor
  · rw [hfiles, hbare.filesBelow_eq, Disk.length_shelf_eq_iff, edition.nodup_fileNames_iff]
  · intro hclashless
    exact Disk.putAll_read h hbare.unlinked hput hhere (edition.nodup_fileNames_iff.mpr hclashless)

end Edition

/-- **One file a page, exactly where nothing clashes.**  A run that succeeds has counted the pages
it has rendered and written.  Their paths are apart if and only if nothing clashes; and if the
destination was empty, it then holds as many files as were counted, and every page as it was
rendered. -/
theorem generate_apart {σ : Type} [Importer σ] {settings : Settings} {space after : Workspace σ}
    {run : Run} {statistics : Statistics} (h : generate settings space = (run, after))
    (hok : run.result = .ok statistics) :
    ∃ edition : Edition settings space after,
      statistics.files = edition.sheets.length
      ∧ ((∀ sheet ∈ edition.sheets, Text.startsWith sheet.fileName "/" = false) →
        ((edition.sheets.map edition.path).Nodup ↔ Clashless edition.chapters))
      ∧ ((∀ sheet ∈ edition.sheets, FilePath.IsFileName sheet.fileName) →
        ∃ here, after.disk.directoryAt? settings.destination = some here
          ∧ (space.disk.Bare here →
            ((after.disk.filesBelow here).length = statistics.files ↔ Clashless edition.chapters)
            ∧ (Clashless edition.chapters → ∀ sheet ∈ edition.sheets,
              after.disk.readText (edition.path sheet) = .ok sheet.text))) := by
  obtain ⟨packages, examples?, hpackages, hexamples, hall⟩ := documentAll_of_generate h hok
  obtain ⟨documented, hdocuments, hfiles⟩ := Manual.documents_of_documentAll hall hok
  obtain ⟨chapters, hlisted, hcomplete, hnamed⟩ := hdocuments.chapters
  let edition : Edition settings space after :=
    ⟨packages, examples?, documented, chapters, hpackages, hexamples, hdocuments, hlisted,
      hcomplete, hnamed⟩
  have hcount : statistics.files = edition.sheets.length := hfiles.trans (Nat.zero_add _)
  refine ⟨edition, hcount, edition.nodup_paths_iff, fun hnames => ?_⟩
  obtain ⟨here, hhere⟩ := edition.exists_directory hnames
  refine ⟨here, hhere, fun hbare => ?_⟩
  rw [hcount]
  exact edition.fills hnames hhere hbare

/-! ### A run that loses a page, and one that loses none -/

/-- A package that defines a function and holds a package of that name. -/
def clashing : Disk where
  entries := [
    (["pkg"], .directory),
    (["pkg", "__init__.py"], .file (.text "def core():\n    pass\n")),
    (["pkg", "core"], .directory),
    (["pkg", "core", "__init__.py"], .file (.text "")),
    (["pkg", "core", "impl.py"], .file (.text "def run():\n    pass\n"))]
  workingDirectory := []

/-- The run over the package. -/
def clashingRun : Run × Disk :=
  generateFromSources { root := ⟨"pkg"⟩, destination := ⟨"out"⟩ } clashing

/-- Four files are counted, and three are there: the page of the function is written over by that of
the package. -/
theorem clashing_loses_page :
    clashing.filesBelow ["out"] = []
    ∧ clashingRun.1.result = .ok ⟨["pkg", "pkg.core"], 2, 2⟩
    ∧ Statistics.files ⟨["pkg", "pkg.core"], 2, 2⟩ = 4
    ∧ clashingRun.2.directoryAt? ⟨"out"⟩ = some ["out"]
    ∧ (clashingRun.2.filesBelow ["out"]).map Prod.fst
      = [["pkg.core.rst"], ["pkg.core.impl.run.rst"], ["pkg.rst"]] := by
  decide +kernel

/-- A package with one function. -/
def single : Disk where
  entries := [
    (["pkg"], .directory),
    (["pkg", "__init__.py"], .file (.text "def run():\n    pass\n"))]
  workingDirectory := []

def singleSettings : Settings := { root := ⟨"pkg"⟩, destination := ⟨"out"⟩ }

def singleStart : Workspace Python.Loader := ⟨single, .forTree single ⟨"/pkg"⟩⟩

def singleRun : Run × Workspace Python.Loader := generate singleSettings singleStart

theorem singleRun_ok : singleRun.1.result = .ok ⟨["pkg"], 1, 1⟩ := by decide +kernel

/-- The files of the two pages. -/
theorem single_fileNames (edition : Edition singleSettings singleStart singleRun.2) :
    edition.sheets.map Disk.Sheet.fileName = ["pkg.run.rst", "pkg.rst"] := by
  obtain ⟨packages, examples?, documented, _, hplanned, hexamples, hprinted, _, _, _⟩ := edition
  have hpackages : singleSettings.packages single
      = .ok [⟨"pkg", ⟨"/pkg"⟩, [⟨"__init__.py", 20⟩], []⟩] := by decide +kernel
  cases hpackages.symm.trans hplanned
  cases hexamples
  cases hprinted with
  | @package _ _ _ _ _ _ page sheets others hpage hprints hrest =>
    cases hrest
    have hsymbols : ((Manual.renderPackage (singleSettings.manual none)
        ⟨"pkg", ⟨"/pkg"⟩, [⟨"__init__.py", 20⟩], []⟩ singleStart).1.map
          fun page => (page.name, page.symbols)) = .ok ("pkg", [⟨"pkg", "run", .function⟩]) := by
      decide +kernel
    rw [hpage] at hsymbols
    obtain ⟨name, text, symbols⟩ := page
    cases hsymbols
    show (sheets ++ []).map Disk.Sheet.fileName = _
    rw [List.append_nil, hprints.fileNames]
    rfl

/-- The pages of the package are apart, and are read as they were rendered. -/
theorem single_apart : ∃ edition : Edition singleSettings singleStart singleRun.2,
    edition.sheets.map Disk.Sheet.fileName = ["pkg.run.rst", "pkg.rst"]
    ∧ Clashless edition.chapters
    ∧ ∀ sheet ∈ edition.sheets,
      singleRun.2.disk.readText (edition.path sheet) = .ok sheet.text := by
  have hrun : generate singleSettings singleStart = (singleRun.1, singleRun.2) := by
    unfold singleRun
    generalize generate singleSettings singleStart = run
    rfl
  obtain ⟨edition, -, -, hfiles⟩ := generate_apart hrun singleRun_ok
  have hnames := single_fileNames edition
  have hfileNames : ∀ sheet ∈ edition.sheets, FilePath.IsFileName sheet.fileName := by
    intro sheet hsheet
    have hmem : sheet.fileName ∈ ["pkg.run.rst", "pkg.rst"] := hnames ▸ List.mem_map_of_mem hsheet
    rcases List.mem_pair.mp hmem with h | h <;> rw [h] <;> exact ⟨by decide, by decide, by decide⟩
  obtain ⟨here, hhere, hfilled⟩ := hfiles hfileNames
  have hout : singleRun.2.disk.directoryAt? ⟨"out"⟩ = some ["out"] := by decide +kernel
  obtain rfl : ["out"] = here := Option.some.inj (hout.symm.trans hhere)
  have hbare : single.Bare ["out"] := by
    unfold Disk.Bare
    decide
  have htwo : (singleRun.2.disk.filesBelow ["out"]).length = 2 := by decide +kernel
  obtain ⟨hiff, hread⟩ := hfilled hbare
  have hclashless := hiff.mp htwo
  exact ⟨edition, hnames, hclashless, hread hclashless⟩

end ApiStubs
