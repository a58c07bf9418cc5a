import ApiStubs.Proofs.Attesting
import ApiStubs.Proofs.Reexports
import ApiStubs.Proofs.Replanning

/-!
# Proofs — Confining — where the pages go

Every page is one file in the destination, called by a dotted name and the suffix of the settings
(`generate_confined`).  The parts of such a name are names of directories and the stem of a file,
where none of them has a dot, and the name of a symbol, which is an identifier.

A symbol is attributed to its own module, and the first part of that module's name is found in the
tree when the run begins (`Survey.exists_named`); so no symbol is known from outside only, by the
text of an import.  A file called `..`, which an empty name and a dot for the suffix would make, is
never written, because above a directory there is a directory (`Disk.Rooted.fileName_ne_up`).
-/

namespace ApiStubs

open FilePath (IsFileName)

/-! ### Paths of one more step -/

namespace FilePath

/-- The steps of a path are those that its pieces stand for, behind a root or a leading `.`. -/
theorem components_eq (path : FilePath) : path.components =
    (if path.isAbsolute then [.root] else if path.pieces.head? = some "." then [.here] else [])
      ++ path.pieces.filterMap Component.ofPiece? := by
  rw [components]
  split
  · rfl
  · split
    · rename_i hpieces
      rw [hpieces]
      rfl
    · rename_i hother
      rw [if_neg]
      · rfl
      · intro hhead
        obtain ⟨rest, hpieces⟩ := List.head?_eq_some_iff.mp hhead
        exact hother rest hpieces

/-- A file in a directory is one step behind the steps of the directory. -/
theorem components_join_name {name : String} (h : IsFileName name) (directory : FilePath) :
    (directory.join name).components = directory.components ++ [.name name] := by
  have hname : name ≠ "." := by
    rintro rfl
    exact absurd h.no_filler (by decide)
  have hsteps : (directory.front ++ [name]).filterMap Component.ofPiece?
      = directory.pieces.filterMap Component.ofPiece? ++ [.name name] := by
    have hempty : Component.ofPiece? "" = none := rfl
    rcases directory.pieces_eq_front with hfront | hfront <;> simp [hfront, h.ofPiece?, hempty]
  have hhead : (directory.front ++ [name]).head? = some "."
      ↔ directory.pieces.head? = some "." := by
    rcases directory.pieces_eq_front with hfront | hfront <;> rw [hfront] <;>
      cases hnil : directory.front
    · exact absurd (hfront.trans hnil) (Text.pieces_ne_nil '/' directory.text)
    all_goals simp [hname]
  rw [components_eq, components_eq, isAbsolute_join h.no_separator, pieces_join h.no_separator,
    hsteps, List.append_assoc]
  simp only [hhead]

end FilePath

/-! ### What is above a directory -/

namespace Disk

/-- Directories are in directories. -/
def Rooted (disk : Disk) : Prop :=
  ∀ here, disk.entryAt here = some .directory → disk.entryAt here.dropLast = some .directory

theorem WellFormed.rooted {disk : Disk} (h : disk.WellFormed) : disk.Rooted := by
  intro here hdir
  rcases List.eq_nil_or_concat' here with rfl | ⟨above, name, rfl⟩
  · rfl
  · rw [List.dropLast_concat]
    exact (h.above hdir).1

/-- A name that is free is in a directory. -/
theorem directory_of_walk_free {disk : Disk} {follow : Bool} {links : Nat} {here there : Location}
    {pieces : List String} (h : disk.walk follow links here pieces = .ok (.free there)) :
    disk.entryAt there.dropLast = some .directory := by
  induction links, here, pieces using walk_induct with
  | nil links here =>
    rw [walk_nil] at h
    split at h <;> cases h
  | cons links here piece rest behind followed =>
    cases goes_of_walk h with
    | on _ hrest => exact behind _ hrest
    | free hstride _ =>
      obtain ⟨hlook, rfl⟩ := looksUp_of_missing hstride
      rw [List.dropLast_concat]
      exact hlook.directory
    | along _ hrest => exact followed _ (Nat.lt_succ_self _) _ _ hrest

namespace Rooted

variable {disk later : Disk} (h : disk.Rooted)

include h

/-- A directory is made in one that is there. -/
theorem makeDirectory {path : FilePath} (hmade : disk.makeDirectory path = .ok later) :
    later.Rooted := by
  rw [Disk.makeDirectory] at hmade
  split at hmade
  · cases hmade
  split at hmade
  swap
  · cases hmade
  swap
  · cases hmade
  rename_i place hfree
  cases hmade
  obtain ⟨hnone, hplace⟩ := entryAt_of_resolve_free hfree
  have habove := directory_of_walk_free (walk_of_resolve hfree)
  have hkept : ∀ here, disk.entryAt here = some .directory →
      (disk.set place .directory).entryAt here = some .directory :=
    fun here => (Widens.set hplace hnone).kept here .directory
  intro here hdir
  rw [entryAt_set disk hplace] at hdir
  split at hdir
  · rename_i hsame
    exact hkept _ (hsame ▸ habove)
  · exact hkept _ (h here hdir)

theorem attemptDirectories (path : FilePath) : (disk.attemptDirectories path).2.Rooted :=
  makeEach_preserves (fun hrooted hmade => hrooted.makeDirectory hmade) _ h

theorem writeText {path : FilePath} {text : String} (hwrite : disk.writeText path text = .ok later) :
    later.Rooted := by
  obtain ⟨place, target, -, hplace, rfl, -⟩ := writeText_eq_set hwrite
  have hkept := (writeText_keeps hwrite).directories
  intro here hdir
  rw [entryAt_set disk hplace] at hdir
  split at hdir
  · cases hdir
  · exact hkept _ (h here hdir)

/-- The step up leads to a directory. -/
theorem directory_of_resolve_up {directory : FilePath} {target : Target}
    (htarget : disk.resolve true (directory.join "..") = .ok target) :
    ∃ here, target = .found here .directory := by
  have hwalk := walk_of_resolve htarget
  rw [FilePath.pieces_join (by decide)] at hwalk
  obtain ⟨above, habove⟩ := directory_of_walk_append (List.cons_ne_nil ".." []) hwalk
  have hdir := entryAt_of_walk habove
  obtain ⟨left, hleft⟩ := walk_append habove
  have hstride : disk.stride above ".." = .reaches above.dropLast := by
    rw [stride, if_neg (not_not_intro hdir)]
    rfl
  rw [hleft, walk_cons_follow] at hwalk
  simp only [hstride, walk_nil, h above hdir] at hwalk
  cases hwalk
  exact ⟨_, rfl⟩

variable {directory : FilePath} {sheet : Sheet}

/-- A sheet that is put has not gone up, and directories are still in directories. -/
theorem put (hput : put directory sheet disk = .ok later) :
    later.Rooted ∧ sheet.fileName ≠ ".." := by
  rw [Disk.put] at hput
  split at hput
  · cases hput
  rename_i made hmade
  have hmadeRooted := h.attemptDirectories directory
  rw [makeDirectories_eq_ok.mp hmade] at hmadeRooted
  refine ⟨hmadeRooted.writeText hput, fun hup => ?_⟩
  rw [hup] at hput
  obtain ⟨here, target, htarget, -, -, hplace⟩ := writeText_eq_set hput
  obtain ⟨_, rfl⟩ := hmadeRooted.directory_of_resolve_up htarget
  rcases hplace with ⟨hno, -⟩ | ⟨_, hno, -⟩ <;> cases hno

end Rooted

/-- **No sheet is called like the step up.** -/
theorem Rooted.fileName_ne_up {directory : FilePath} {sheets : List Sheet} {disk later : Disk}
    (h : disk.Rooted) (hput : putAll directory sheets disk = .ok later) :
    ∀ sheet ∈ sheets, sheet.fileName ≠ ".." := by
  induction sheets generalizing disk with
  | nil => exact nofun
  | cons sheet rest ih =>
    obtain ⟨next, hfirst, hrest⟩ := putAll_cons_ok hput
    obtain ⟨hnext, hname⟩ := h.put hfirst
    exact List.forall_mem_cons.mpr ⟨hname, ih hnext hrest⟩

end Disk

/-! ### Names written with dots -/

namespace Plain

theorem append {names others : List String} (h : Plain names) (hothers : Plain others) :
    Plain (names ++ others) := List.forall_mem_append.mpr ⟨h, hothers⟩

/-- A name without dots that a file can have is one part. -/
theorem singleton {name : String} (h : IsFileName name) (hdot : '.' ∉ name.toList) :
    Plain [name] := by
  refine List.forall_mem_singleton.mpr ⟨?_, hdot, h.no_separator⟩
  rintro rfl
  exact absurd h.no_filler (by decide)

theorem ne_empty {names : List String} (h : Plain names) : "" ∉ names := fun hmem => (h "" hmem).1 rfl

/-- A part is the name of a file. -/
theorem isFileName {names : List String} (h : Plain names) {name : String} (hname : name ∈ names) :
    IsFileName name := by
  obtain ⟨hne, hdot, hseparator⟩ := h name hname
  refine ⟨hseparator, ?_, ?_⟩
  · have hhere : name ≠ "." := fun heq => hdot (by simp [heq])
    simp [FilePath.isFiller, hne, hhere]
  · rintro rfl
    exact hdot (by decide)

theorem top_ofComponents {first : String} {rest : List String} (h : Plain (first :: rest)) :
    Dotted.top (Dotted.ofComponents (first :: rest)) = first := by
  have hpos : 0 < (first :: rest).length := Nat.succ_pos _
  have htop := h.top_upTo hpos hpos
  rwa [upTo_one, upTo, List.take_length] at htop

end Plain

theorem Python.IsIdentifier.plain {word : String} (h : IsIdentifier word) : Plain [word] := by
  refine List.forall_mem_singleton.mpr ⟨h.ne_empty, ?_, h.no_separator⟩
  obtain ⟨first, rest, hword, hfirst, hrest⟩ := h
  rw [hword, List.mem_cons, not_or]
  constructor
  · rintro rfl
    exact absurd hfirst (by decide)
  · intro hmem
    exact absurd (hrest _ hmem) (by decide)

namespace Manual

/-- The page of a dotted name is a file, unless it is called like the step up. -/
theorem isFileName_fileOf {manual : Manual} (hsuffix : manual.suffix ≠ "")
    (hseparator : '/' ∉ manual.suffix.toList) {parts : List String} (hparts : Plain parts)
    (hup : manual.fileOf (Dotted.ofComponents parts) ≠ "..") :
    IsFileName (manual.fileOf (Dotted.ofComponents parts)) := by
  have hname := hparts.no_separator parts.length
  rw [upTo, List.take_length] at hname
  have hlength : 1 < (manual.fileOf (Dotted.ofComponents parts)).length := by
    have hpos : 0 < manual.suffix.length :=
      Nat.pos_of_ne_zero fun hzero => hsuffix (String.length_eq_zero_iff.mp hzero)
    rw [fileOf, String.length_append, String.length_append]
    have hdot : ".".length = 1 := rfl
    omega
  refine ⟨?_, ?_, hup⟩
  · simp only [fileOf, String.toList_append, List.mem_append, not_or]
    exact ⟨⟨hname, by decide⟩, hseparator⟩
  · rw [FilePath.isFiller, Bool.or_eq_false_iff, decide_eq_false_iff_not, decide_eq_false_iff_not]
    constructor <;> intro heq <;> rw [heq] at hlength <;> exact absurd hlength (by decide)

end Manual

/-! ### What is above the modules of a survey -/

/-- No directory from the root down to the package has a dot in its name, and no module in the
package has. -/
structure Package.Undotted (root : FilePath) (package : Package) : Prop where
  top : ∀ name ∈ root.fileName?, '.' ∉ name.toList
  directories : ∀ names : Location, names.Proper → package.path = root.joinAll names →
    ∀ name ∈ names, '.' ∉ name.toList
  stems : ∀ file ∈ package.modules, '.' ∉ file.stem.toList

namespace Survey

open Python (locate isPackage packageMarker searchRootFor isSome_locate)

theorem rootPackage?_named {disk : Disk} {root : FilePath} {name : String}
    (h : rootPackage? disk root = some name) :
    root.fileName? = some name ∧ isPackage disk root = true := by
  rw [rootPackage?] at h
  split at h
  · exact ⟨h, ‹_›⟩
  · cases h

/-- A name without a dot is that of a package or of a plain module below the search root. -/
theorem isSome_locate_part {disk : Disk} {root : FilePath} {name : String} (h : Plain [name]) :
    (locate disk root name).isSome ↔ isPackage disk (root.join name) = true
      ∨ disk.isFile (root.join (name ++ ".py")) = true := by
  obtain ⟨hne, hdot, -⟩ := h name List.mem_cons_self
  have hparts : Dotted.components name = [name] := by
    simp [Dotted.components, Text.pieces, Text.cut_eq_singleton hdot]
  rw [isSome_locate, hparts, and_iff_right (h.ne_empty)]
  rw [← FilePath.withExtension_join (h.isFileName List.mem_cons_self) hdot]
  rfl

/-- A root that is a package is found by its name from the directory above it. -/
theorem isSome_locate_top {disk : Disk} {root : Location} (hroot : root.Proper) {top : String}
    (hplain : Plain [top]) (h : rootPackage? disk root.path = some top) :
    (locate disk (searchRootFor disk root.path) top).isSome := by
  obtain ⟨hname, hmarked⟩ := rootPackage?_named h
  have hne : root ≠ [] := by
    rintro rfl
    cases hname
  obtain ⟨above, habove, hsplit, hsearch⟩ := searchRootFor_path disk hroot hne
  rw [h, Option.toList_some] at hsplit
  rw [hsplit, Location.path_concat habove (hplain.isFileName List.mem_cons_self)] at hmarked
  rw [hsearch]
  exact (isSome_locate_part hplain).mpr (.inl hmarked)

/-- Below a root that is no package of a name, modules are looked for from the root. -/
theorem searchRootFor_of_none {disk : Disk} {root : Location} (hroot : root.Proper)
    (h : rootPackage? disk root.path = none) : searchRootFor disk root.path = root.path := by
  by_cases hne : root = []
  · subst hne
    rw [searchRootFor]
    split <;> rfl
  · obtain ⟨above, -, hsplit, hsearch⟩ := searchRootFor_path disk hroot hne
    rw [h, Option.toList_none, List.append_nil] at hsplit
    rw [hsearch, hsplit]

variable {disk : Disk} {selection : Selection} {root : Location} {packages : List Package}
variable {package : Package}

/-- The parts of the names of a package's modules behind those of the package. -/
def stemParts (file : ModuleFile) : List String := if file.isMarker then [] else [file.stem]

/-- What a package and its modules are called by: parts without dots, none at all only at the root
of the file tree.  The first of them is found where modules are looked for. -/
structure Named (disk : Disk) (root : Location) (package : Package) (parts : List String) :
    Prop where
  plain : Plain parts
  name : package.name = Dotted.ofComponents parts
  nonempty : parts = [] → root = []
  stems : ∀ file ∈ package.modules, Plain (stemParts file)
    ∧ package.moduleName file = Dotted.ofComponents (parts ++ stemParts file)
  located : ∀ file ∈ package.modules, ∀ first ∈ (parts ++ stemParts file).head?,
    (locate disk (searchRootFor disk root.path) first).isSome

/-- The stem of a module file is one part. -/
theorem plain_stemParts {file : ModuleFile} (hname : IsFileName file.fileName)
    (hmodule : selection.isModuleFile file.fileName = true) (hdot : '.' ∉ file.stem.toList) :
    Plain (stemParts file) := by
  rw [stemParts]
  split
  · exact nofun
  obtain ⟨hfileName, hne⟩ := ModuleFile.fileName_eq hname hmodule
  refine List.forall_mem_singleton.mpr ⟨hne, hdot, fun hmem => hname.no_separator ?_⟩
  rw [hfileName, String.toList_append]
  exact List.mem_append_left _ hmem

/-- The name of a module is made of the parts of its package and its own. -/
theorem moduleName_eq {parts : List String} (hparts : Plain parts)
    (hname : package.name = Dotted.ofComponents parts) {file : ModuleFile}
    (hstem : Plain (stemParts file)) :
    package.moduleName file = Dotted.ofComponents (parts ++ stemParts file) := by
  rw [stemParts] at hstem ⊢
  rw [Package.moduleName, hname]
  split
  · rw [List.append_nil]
  · rename_i hplain
    rw [if_neg hplain] at hstem
    exact Dotted.join_ofComponents hparts.ne_empty (hstem _ List.mem_cons_self).1

/-- **The names of a package and its modules** are made of parts without dots, where no directory
and no module has one. -/
theorem exists_named (hdisk : disk.WellFormed) (hroot : root.Proper)
    (hsurvey : survey disk selection root.path = .ok packages) (hpackage : package ∈ packages)
    (hundotted : package.Undotted root.path) : ∃ parts, Named disk root package parts := by
  obtain ⟨names, ⟨hproper, hpath, hname, hkind, hmodules, -⟩, hfirst⟩ :=
    surveyed_first hdisk hsurvey hpackage
  have hnames : Plain names := fun name hmem =>
    Plain.singleton (hproper name hmem) (hundotted.directories names hproper hpath name hmem) name
      List.mem_cons_self
  have htop : Plain (rootPackage? disk root.path).toList := by
    intro name hmem
    obtain ⟨hown, -⟩ := rootPackage?_named (Option.mem_toList.mp hmem)
    exact Plain.singleton (FilePath.isFileName_of_fileName? hown) (hundotted.top name hown) name
      List.mem_cons_self
  have hstems : ∀ file ∈ package.modules, Plain (stemParts file) := fun file hfile =>
    plain_stemParts (hmodules file hfile).1 (hmodules file hfile).2.1 (hundotted.stems file hfile)
  have hparts := htop.append hnames
  refine ⟨_, hparts, hname, fun hnil => ?_, fun file hfile =>
    ⟨hstems file hfile, moduleName_eq hparts hname (hstems file hfile)⟩, ?_⟩
  · refine Decidable.not_not.mp fun hne => directories_ne_nil hroot hne ?_ hkind hnil
    rw [hpath, Location.path_append hroot hproper]
  intro file hfile first hhead
  cases htop? : rootPackage? disk root.path with
  | some top =>
    rw [htop?] at hhead htop
    cases hhead
    exact isSome_locate_top hroot htop htop?
  | none =>
    rw [htop?, Option.toList_none, List.nil_append] at hhead
    rw [searchRootFor_of_none hroot htop?]
    cases names with
    | cons name rest =>
      cases hhead
      refine (isSome_locate_part ?_).mpr (.inl (hfirst first rfl))
      exact List.forall_mem_singleton.mpr (hnames first List.mem_cons_self)
    | nil =>
      -- a module right below the root is looked for by its stem
      have hstem := hstems file hfile
      obtain ⟨hfileName, hmodule, hfound⟩ := hmodules file hfile
      rw [hpath, (ModuleFile.fileName_eq hfileName hmodule).1] at hfound
      rw [List.nil_append, stemParts] at hhead
      rw [stemParts] at hstem
      split at hhead <;> rename_i hplain
      · cases hhead
      · cases hhead
        rw [if_neg hplain] at hstem
        exact (isSome_locate_part hstem).mpr (.inr hfound)

end Survey

/-! ### The pages of a run -/

open Python (Spells locate)
open Survey (Named stemParts)

theorem Settings.suffix_of_validate {settings : Settings} (h : settings.validate = .ok ()) :
    settings.suffix ≠ "" ∧ '/' ∉ settings.suffix.toList := by
  rw [validate] at h
  split at h
  · cases h
  rename_i hvalid
  simp only [Bool.or_eq_true, decide_eq_true_eq, not_or, List.any_eq_true, not_exists] at hvalid
  exact ⟨hvalid.1, fun hmem => hvalid.2 '/' ⟨hmem, .inl rfl⟩⟩

section

variable {manual : Manual} {packages : List Package} {progress : Progress} {disk : Disk}
variable {root : Location} {after : Workspace Python.Loader} {chapters : List Chapter}
variable {groups : List (List Disk.Sheet)} {reports : List (Report Python.Loader)}
variable {result : Except Fault Statistics} {chapter : Chapter} {parts : List String}

/-- The symbols of a package that is surveyed are from the tree, and their pages are called by
parts without dots. -/
theorem Manual.Course.inside
    (h : manual.Course packages progress ⟨disk, .forTree disk root.path⟩ chapters groups reports
      result after)
    (hchapter : chapter ∈ chapters) (hnamed : Named disk root chapter.package parts)
    {symbol : Symbol} (hsymbol : symbol ∈ chapter.symbols) :
    (∃ between, Disk.Midway manual.destination groups.flatten disk between
      ∧ Spells between (Python.searchRootFor disk root.path) symbol.name)
    ∧ ∃ names, Plain names ∧ names ≠ [] ∧ symbol.dottedName = Dotted.ofComponents names := by
  obtain ⟨file, hfile, hmodule, ⟨living, -, hlives⟩, hspelled⟩ := h.spelled rfl hchapter hsymbol
  obtain ⟨hstem, hname⟩ := hnamed.stems file hfile
  have hplain := hnamed.plain.append hstem
  rw [hname] at hmodule
  rw [hmodule] at hlives
  cases hparts : parts ++ stemParts file with
  | nil =>
    -- the empty name is that of no module
    rw [hparts] at hlives
    exact absurd List.mem_cons_self (Python.isSome_locate.mp hlives).1
  | cons first rest =>
    have hfound := hnamed.located file hfile first (by rw [hparts]; rfl)
    rw [hparts] at hmodule hplain
    have hspells := hspelled.resolve_right fun hforeign => by
      rw [Python.external_below, hmodule, hplain.top_ofComponents] at hforeign
      exact hforeign hfound
    refine ⟨hspells, first :: rest ++ [symbol.name], hplain.append ?_, by simp, ?_⟩
    · obtain ⟨between, -, hword⟩ := hspells
      exact hword.isIdentifier.plain
    · obtain ⟨between, -, hword⟩ := hspells
      rw [Symbol.dottedName, hmodule]
      exact Dotted.join_ofComponents hplain.ne_empty hword.isIdentifier.ne_empty

/-- Every sheet is a file called by a dotted name and the suffix. -/
theorem Manual.Course.confined
    (h : manual.Course packages progress ⟨disk, .forTree disk root.path⟩ chapters groups reports
      result after)
    (hnamed : ∀ chapter ∈ chapters, ∃ parts, Named disk root chapter.package parts)
    (hrooted : disk.Rooted) (hsuffix : manual.suffix ≠ "") (hseparator : '/' ∉ manual.suffix.toList)
    {sheet : Disk.Sheet} (hsheet : sheet ∈ groups.flatten) :
    ∃ names, Plain names ∧ (names = [] → root = [])
      ∧ sheet.fileName = manual.fileOf (Dotted.ofComponents names) ∧ IsFileName sheet.fileName := by
  obtain ⟨next, hput, -⟩ := h.leaves
  have hup := hrooted.fileName_ne_up hput sheet hsheet
  obtain ⟨name, hname, hfile⟩ := List.mem_map.mp (h.fileNames.subset (List.mem_map_of_mem hsheet))
  obtain ⟨chapter, hchapter, hpage⟩ := List.mem_flatMap.mp hname
  obtain ⟨parts, hparts⟩ := hnamed chapter hchapter
  have hnames : ∃ names, Plain names ∧ (names = [] → root = [])
      ∧ name = Dotted.ofComponents names := by
    rcases List.mem_append.mp hpage with hsymbol | hown
    · obtain ⟨symbol, hmem, rfl⟩ := List.mem_map.mp hsymbol
      obtain ⟨-, names, hplain, hne, heq⟩ := h.inside hchapter hparts hmem
      exact ⟨names, hplain, fun hnil => absurd hnil hne, heq⟩
    · rw [List.mem_singleton.mp hown]
      exact ⟨parts, hparts.plain, hparts.nonempty, hparts.name⟩
  obtain ⟨names, hplain, hnonempty, rfl⟩ := hnames
  rw [← hfile] at hup ⊢
  exact ⟨names, hplain, hnonempty, rfl, Manual.isFileName_fileOf hsuffix hseparator hplain hup⟩

end

/-- **The pages stay in the destination.**  A run over a tree without dots in the names of its
packages and modules writes files of the destination only: the path of each is the destination and
one file name, a dotted name and the suffix.  The dotted name has no parts for one page alone, that
of a package at the root of the file tree.  And a symbol with a page is called by an identifier of a
source that the run has come across. -/
theorem generate_confined {settings : Settings} {disk : Disk} (hdisk : disk.WellFormed)
    (hvalid : settings.validate = .ok ())
    (hundotted : ∀ root packages, settings.resolveRoot disk = .ok root →
      settings.packages disk = .ok packages → ∀ package ∈ packages, package.Undotted root)
    {loader : Python.Loader} (hloader : settings.loader disk = .ok loader) {run : Run}
    {after : Workspace Python.Loader} (hrun : generate settings ⟨disk, loader⟩ = (run, after)) :
    (∃ fault, run = .failed fault ∧ after = ⟨disk, loader⟩)
    ∨ ∃ packages examples? chapters groups reports,
      settings.plan disk = .ok (packages, examples?)
      ∧ Account (settings.manual examples?) packages ⟨disk, loader⟩ after run chapters groups reports
      ∧ (∀ sheet ∈ groups.flatten, ∃ parts, Plain parts
        ∧ (parts = [] → settings.resolveRoot disk = .ok ⟨"/"⟩)
        ∧ sheet.fileName = Dotted.ofComponents parts ++ "." ++ settings.suffix
        ∧ (settings.destination.join sheet.fileName).components
          = settings.destination.components ++ [.name sheet.fileName])
      ∧ ∀ chapter ∈ chapters, ∀ symbol ∈ chapter.symbols, ∃ between,
        Disk.Midway settings.destination groups.flatten disk between
          ∧ Spells between loader.searchRoot symbol.name := by
  obtain ⟨root, hroot, hforTree⟩ := Survey.bind_eq_ok.mp hloader
  cases hforTree
  obtain ⟨here, rfl, hfind⟩ := Settings.resolveRoot_eq_ok.mp hroot
  have hproper := hdisk.proper (Disk.entryAt_of_resolve (Disk.resolve_of_find hfind))
  rw [generate_run] at hrun
  cases hplan : settings.plan disk with
  | error fault =>
    rw [hplan] at hrun
    cases hrun
    exact .inl ⟨fault, rfl, rfl⟩
  | ok planned =>
    obtain ⟨packages, examples?⟩ := planned
    rw [hplan] at hrun
    dsimp only at hrun
    rw [Run.documentAll_eq_observe] at hrun
    cases hrun
    obtain ⟨chapters, groups, hcourse⟩ :=
      @Manual.course_of_observe _ _ (settings.manual examples?) packages { total := packages.length }
        ⟨disk, Python.Loader.forTree disk here.path⟩ _ _ _ (Workspace.idle_forTree disk disk here.path) rfl
    have hpackages := Settings.packages_of_plan hplan
    obtain ⟨_, selection, hsame, -, hsurvey, -⟩ := Settings.packages_eq_ok.mp hpackages
    cases hroot.symm.trans hsame
    have hnamed : ∀ chapter ∈ chapters, ∃ parts, Named disk here chapter.package parts := by
      intro chapter hchapter
      have hpackage := hcourse.opened.subset (List.mem_map_of_mem hchapter)
      exact Survey.exists_named hdisk hproper hsurvey hpackage
        (hundotted _ packages hroot hpackages _ hpackage)
    refine .inr ⟨packages, examples?, chapters, groups, _, rfl, hcourse.account rfl rfl, ?_, ?_⟩
    · intro sheet hsheet
      obtain ⟨hsuffix, hseparator⟩ := Settings.suffix_of_validate hvalid
      obtain ⟨parts, hparts, hnil, hfile, hname⟩ :=
        hcourse.confined hnamed hdisk.rooted hsuffix hseparator hsheet
      refine ⟨parts, hparts, fun hnone => ?_, hfile, FilePath.components_join_name hname _⟩
      rw [hroot, hnil hnone]
      rfl
    · intro chapter hchapter symbol hsymbol
      obtain ⟨parts, hparts⟩ := hnamed chapter hchapter
      exact (hcourse.inside hchapter hparts hsymbol).1

/-- The run over a package with one function writes two files of the destination, and the function's
page is called by an identifier. -/
theorem generate_confined_single : ∃ chapters groups reports,
    Account (singleSettings.manual none) [⟨"pkg", ⟨"/pkg"⟩, [⟨"__init__.py", 20⟩], []⟩] singleStart
      singleRun.2 singleRun.1 chapters groups reports
    ∧ (∀ sheet ∈ groups.flatten, ∃ parts, Plain parts ∧ parts ≠ []
      ∧ sheet.fileName = Dotted.ofComponents parts ++ "." ++ "rst"
      ∧ (FilePath.join ⟨"out"⟩ sheet.fileName).components
        = [.name "out", .name sheet.fileName])
    ∧ (chapters.flatMap Chapter.symbols).length = 1
    ∧ ∀ chapter ∈ chapters, ∀ symbol ∈ chapter.symbols, ∃ between,
      Disk.Midway ⟨"out"⟩ groups.flatten single between ∧ Spells between ⟨"/"⟩ symbol.name := by
  have hroot : singleSettings.resolveRoot single = .ok ⟨"/pkg"⟩ := by decide +kernel
  have hpackages : singleSettings.packages single
      = .ok [⟨"pkg", ⟨"/pkg"⟩, [⟨"__init__.py", 20⟩], []⟩] := by decide +kernel
  have hplan : singleSettings.plan single
      = .ok ([⟨"pkg", ⟨"/pkg"⟩, [⟨"__init__.py", 20⟩], []⟩], none) := by decide +kernel
  have hloader : singleSettings.loader single = .ok (.forTree single ⟨"/pkg"⟩) := by decide +kernel
  have hundotted : ∀ root packages, singleSettings.resolveRoot single = .ok root →
      singleSettings.packages single = .ok packages →
      ∀ package ∈ packages, package.Undotted root := by
    intro root packages hsame hfound package hmem
    cases hroot.symm.trans hsame
    cases hpackages.symm.trans hfound
    rw [List.mem_singleton.mp hmem]
    refine ⟨by decide, fun names hproper hpath => ?_, by decide⟩
    have hpkg : Location.Proper ["pkg"] := .singleton (by decide)
    have hbelow : Location.path ["pkg"] = Location.path (["pkg"] ++ names) :=
      hpath.trans (Location.path_append hpkg hproper).symm
    have hnone := Location.path_injective hpkg (hpkg.append hproper) hbelow
    rw [List.self_eq_append_right.mp hnone]
    exact nofun
  have hrun : generate singleSettings singleStart = (singleRun.1, singleRun.2) := by
    unfold singleRun
    generalize generate singleSettings singleStart = run
    rfl
  have hwell : single.WellFormed := by decide +kernel
  rcases generate_confined hwell rfl hundotted hloader hrun with ⟨fault, hfault, -⟩ |
    ⟨packages, examples?, chapters, groups, reports, hplanned, haccount, hfiles, hspelled⟩
  · have hok := singleRun_ok
    rw [hfault] at hok
    cases hok
  cases hplan.symm.trans hplanned
  obtain ⟨hcounted, -, -⟩ := haccount.counted _ singleRun_ok
  refine ⟨chapters, groups, reports, haccount, fun sheet hsheet => ?_,
    (Statistics.mk.inj hcounted).2.2.symm, hspelled⟩
  obtain ⟨parts, hplain, hnil, hfile, hsteps⟩ := hfiles sheet hsheet
  refine ⟨parts, hplain, fun hnone => ?_, hfile, hsteps⟩
  have hother := Except.ok.inj (hroot.symm.trans (hnil hnone))
  exact absurd hother (by decide)

end ApiStubs
