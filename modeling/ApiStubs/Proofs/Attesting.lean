import ApiStubs.Proofs.Courses
import ApiStubs.Proofs.Reloading
import ApiStubs.Proofs.Spelling

/-!
# Proofs — Attesting — where the names on the pages of a run come from

A run imports modules while it renders a page, and changes the file tree between two pages
(`Manual.Course.lasts`).  The trees that it passes through are those with the first of its sheets in
the destination (`Disk.Midway`).  Whatever it has read of them, a symbol of a chapter has one of the
identifiers of some source for its name, or its module is one from outside the tree
(`Manual.Course.spelled`).
-/

namespace ApiStubs

/-! ### Computations that import -/

namespace Work

variable {σ α β : Type} [Importer σ]

/-- The computation imports modules, and does nothing else to the workspace. -/
def Imports (work : Work σ α) : Prop :=
  ∀ space, (work space).2.disk = space.disk
    ∧ Importer.Later space.disk space.importer (work space).2.importer

theorem Imports.after {work : Work σ α} (h : Imports work) {space after : Workspace σ}
    {result : Except Fault α} (hrun : work space = (result, after)) :
    after.disk = space.disk ∧ Importer.Later space.disk space.importer after.importer := by
  rw [show after = (work space).2 by rw [hrun]]
  exact h space

theorem Imports.pure (a : α) : Imports (Pure.pure a : Work σ α) := fun _ => ⟨rfl, .refl⟩

theorem Imports.bind {x : Work σ α} {f : α → Work σ β} (hx : Imports x) (hf : ∀ a, Imports (f a)) :
    Imports (x >>= f) := by
  intro space
  obtain ⟨hdisk, hlater⟩ := hx space
  rw [run_bind]
  split
  · rename_i a between heq
    rw [heq] at hdisk hlater
    obtain ⟨hnext, hmore⟩ := hf a between
    rw [hdisk] at hnext hmore
    exact ⟨hnext, hlater.trans hmore⟩
  · rename_i fault between heq
    rw [heq] at hdisk hlater
    exact ⟨hdisk, hlater⟩

theorem Imports.mapM {f : α → Work σ β} (hf : ∀ a, Imports (f a)) (list : List α) :
    Imports (list.mapM f) := by
  induction list with
  | nil => exact .pure _
  | cons a rest ih =>
    rw [List.mapM_cons]
    exact (hf a).bind fun _ => ih.bind fun _ => .pure _

theorem imports_load (name : String) : Imports (load name : Work σ SymbolTable) :=
  fun _ => ⟨rfl, .single ⟨name, rfl⟩⟩

theorem imports_load? (name : String) : Imports (load? name : Work σ (Option SymbolTable)) :=
  fun _ => ⟨rfl, .single ⟨name, rfl⟩⟩

/-- A search only imports. -/
theorem imports_firstHandingOut (module symbol : String) (candidates : List String) :
    Imports (firstHandingOut module symbol candidates : Work σ String) := by
  induction candidates with
  | nil => exact fun _ => ⟨rfl, .refl⟩
  | cons candidate rest ih =>
    refine (imports_load? candidate).bind fun table? => ?_
    cases table? with
    | none => exact ih
    | some table =>
      show Imports (ite (table.handsOut symbol module = true) (Pure.pure candidate)
        (firstHandingOut module symbol rest))
      split
      · exact .pure _
      · exact ih

end Work

/-! ### The trees that a run passes through -/

namespace Disk

/-- The tree with the first of some sheets in a directory, put there in their order. -/
def Midway (directory : FilePath) (sheets : List Sheet) (start disk : Disk) : Prop :=
  ∃ before, before <+: sheets ∧ putAll directory before start = .ok disk

namespace Midway

variable {directory : FilePath} {sheet : Sheet} {sheets others : List Sheet}
variable {first next disk : Disk}

theorem start (directory : FilePath) (sheets : List Sheet) (disk : Disk) :
    Midway directory sheets disk disk := ⟨[], List.nil_prefix, rfl⟩

theorem cons (hput : put directory sheet first = .ok next) (h : Midway directory sheets next disk) :
    Midway directory (sheet :: sheets) first disk := by
  obtain ⟨before, hbefore, hall⟩ := h
  exact ⟨sheet :: before, List.cons_prefix_cons.mpr ⟨rfl, hbefore⟩, by rw [putAll, hput]; exact hall⟩

theorem append (hput : putAll directory sheets first = .ok next)
    (h : Midway directory others next disk) : Midway directory (sheets ++ others) first disk := by
  obtain ⟨before, hbefore, hall⟩ := h
  exact ⟨sheets ++ before, (List.prefix_append_right_inj _).mpr hbefore, putAll_append hput hall⟩

theorem of_append (h : Midway directory sheets first disk) (others : List Sheet) :
    Midway directory (sheets ++ others) first disk := by
  obtain ⟨before, hbefore, hall⟩ := h
  exact ⟨before, hbefore.trans (List.prefix_append _ _), hall⟩

end Midway

theorem Grown.isFile {disk later : Disk} (h : Grown disk later) {path : FilePath}
    (hfile : disk.isFile path = true) : later.isFile path = true := by
  obtain ⟨here, content, hfind⟩ := isFile_iff.mp hfile
  obtain ⟨found, hfound, hblank⟩ := h.find hfind
  obtain ⟨other, rfl⟩ := Entry.blank_eq_file.mp hblank
  exact isFile_iff.mpr ⟨here, other, hfound⟩

theorem Grown.of_putAll {directory : FilePath} {sheets : List Sheet} {disk later : Disk}
    (h : putAll directory sheets disk = .ok later) : Grown disk later := by
  induction sheets generalizing disk with
  | nil =>
    cases h
    exact .refl _
  | cons sheet rest ih =>
    obtain ⟨next, hput, hrest⟩ := putAll_cons_ok h
    obtain ⟨made, hmade, hwrite⟩ := put_ok hput
    exact ((Grown.of_widens hmade).trans (.of_writeText hwrite)).trans (ih hrest)

end Disk

/-! ### What outlasts a run -/

/-- What holds of the importer holds of it after any import from the file tree. -/
def Importer.Lasts {σ : Type} [Importer σ] (Q : σ → Prop) (disk : Disk) : Prop :=
  ∀ name s, Q s → Q (Importer.load disk name s).2

theorem Importer.Lasts.later {σ : Type} [Importer σ] {Q : σ → Prop} {disk : Disk}
    (h : Importer.Lasts Q disk) {s t : σ} (hlater : Importer.Later disk s t) (hs : Q s) : Q t := by
  induction hlater with
  | refl => exact hs
  | tail _ hstep ih =>
    obtain ⟨name, rfl⟩ := hstep
    exact h name _ ih

namespace Manual

variable {σ : Type}

/-- Writing leaves the importer alone. -/
theorem importer_of_write {manual : Manual} {name text : String} {space after : Workspace σ}
    {result : Except Fault FilePath} (h : manual.write name text space = (result, after)) :
    after.importer = space.importer := by
  rw [write, Work.run_bind, Work.attempt] at h
  rcases hmake : space.disk.attemptDirectories manual.destination with ⟨_ | cause, made⟩
  · rw [hmake] at h
    dsimp only at h
    rw [Work.run_bind, Work.change] at h
    dsimp only at h
    split at h <;> rename_i hwrite <;> split at hwrite <;> cases hwrite <;> cases h <;> rfl
  · rw [hmake] at h
    cases h
    rfl

section

variable [Importer σ]

theorem imports_renderPackage (manual : Manual) (package : Package) :
    Work.Imports (manual.renderPackage package : Work σ PackagePage) :=
  (Work.Imports.mapM (fun _ => ((Work.imports_load _).bind fun _ => .pure _).bind fun _ => .pure _)
    _).bind fun _ => .pure _

theorem imports_pages (manual : Manual) (page : PackagePage) :
    ∀ job ∈ (manual.pages page : List (String × Work σ String)), Work.Imports job.2 := by
  intro job hjob
  rcases List.mem_append.mp hjob with hsymbol | hown
  · obtain ⟨symbol, -, rfl⟩ := List.mem_map.mp hsymbol
    exact (Work.imports_firstHandingOut _ _ _).bind fun _ => .pure _
  · obtain rfl := List.mem_singleton.mp hown
    exact .pure _

variable {manual : Manual} {pages : List (String × Work σ String)} {space after : Workspace σ}
variable {sheets : List Disk.Sheet} {Q : σ → Prop}

/-- What no import from the trees on the way ends holds of the importer behind the pages. -/
theorem Prints.lasts (h : Prints manual pages space sheets after)
    (hpages : ∀ page ∈ pages, Work.Imports page.2)
    (hlasts : ∀ disk, Disk.Midway manual.destination sheets space.disk disk →
      Importer.Lasts Q disk)
    (hspace : Q space.importer) : Q after.importer := by
  induction h with
  | done => exact hspace
  | page hrender hput _ ih =>
    obtain ⟨hpage, hrest⟩ := List.forall_mem_cons.mp hpages
    obtain ⟨hdisk, hlater⟩ := hpage.after hrender
    rw [hdisk] at hput
    exact ih hrest (fun disk hmidway => hlasts disk (hmidway.cons hput))
      ((hlasts _ (.start _ _ _)).later hlater hspace)

/-- It holds too where the pages stop because one of them cannot be written. -/
theorem Stops.lasts {cause : DiskError} (h : Stops manual pages space sheets cause after)
    (hpages : ∀ page ∈ pages, Work.Imports page.2)
    (hlasts : ∀ disk, Disk.Midway manual.destination sheets space.disk disk →
      Importer.Lasts Q disk)
    (hspace : Q space.importer) : Q after.importer := by
  induction h with
  | unwritten hrender hwrite =>
    obtain ⟨-, hlater⟩ := (List.forall_mem_cons.mp hpages).1.after hrender
    rw [importer_of_write hwrite]
    exact (hlasts _ (.start _ _ _)).later hlater hspace
  | page hrender hput _ ih =>
    obtain ⟨hpage, hrest⟩ := List.forall_mem_cons.mp hpages
    obtain ⟨hdisk, hlater⟩ := hpage.after hrender
    rw [hdisk] at hput
    exact ih hrest (fun disk hmidway => hlasts disk (hmidway.cons hput))
      ((hlasts _ (.start _ _ _)).later hlater hspace)

end

/-- **What no import from a tree on the way ends** holds of the importer when the run is over. -/
theorem Course.lasts [EnduringImporter σ] {manual : Manual} {packages : List Package}
    {progress : Progress} {space after : Workspace σ} {chapters : List Chapter}
    {groups : List (List Disk.Sheet)} {reports : List (Report σ)}
    {result : Except Fault Statistics}
    (h : manual.Course packages progress space chapters groups reports result after) {Q : σ → Prop}
    (hlasts : ∀ disk, Disk.Midway manual.destination groups.flatten space.disk disk →
      Importer.Lasts Q disk)
    (hspace : Q space.importer) : Q after.importer := by
  induction h with
  | finished => exact hspace
  | unread hpage =>
    exact (hlasts _ (.start _ _ _)).later ((manual.imports_renderPackage _).after hpage).2 hspace
  | unwritten hopens hstops =>
    obtain ⟨hdisk, hlater⟩ := (manual.imports_renderPackage _).after hopens.run
    refine hstops.lasts (manual.imports_pages _) (fun disk hmidway => hlasts disk ?_)
      ((hlasts _ (.start _ _ _)).later hlater hspace)
    rw [hdisk] at hmidway
    simpa using hmidway
  | written hopens hprints _ ih =>
    obtain ⟨hdisk, hlater⟩ := (manual.imports_renderPackage _).after hopens.run
    have hput := hprints.putAll (manual.reads_pages _)
    have hprinted := hprints.lasts (manual.imports_pages _)
      (fun disk hmidway => hlasts disk ((hdisk ▸ hmidway).of_append _))
      ((hlasts _ (.start _ _ _)).later hlater hspace)
    rw [hdisk] at hput
    exact ih (fun disk hmidway => hlasts disk (hmidway.append hput)) hprinted

end Manual

/-! ### What there is to name in a run -/

namespace Python

/-- The word is an identifier of a source below the search root. -/
def Spells (disk : Disk) (root : FilePath) (word : String) : Prop :=
  ∃ module location text source, locate disk root module = some location
    ∧ disk.readText location.path = .ok text ∧ Source.ofText? text = some source
    ∧ word ∈ source.identifiers

theorem Spells.isIdentifier {disk : Disk} {root : FilePath} {word : String}
    (h : Spells disk root word) : IsIdentifier word := by
  obtain ⟨module, location, text, source, -, -, hsource, hword⟩ := h
  exact Source.isIdentifier hsource hword

/-- What the code of a tree of files introduces is spelled in a source of it. -/
theorem spells_of_code {disk : Disk} {root : FilePath} {module : String} {location : Location}
    {statements : List Statement} (hlocate : locate disk root module = some location)
    (hcode : (Tree.below disk root).code location.path = .ok statements) {word : String}
    (hword : Introduced statements word) : Spells disk root word := by
  obtain ⟨text, htext, hread⟩ := Tree.below_code.mp hcode
  obtain ⟨source, hsource, rfl⟩ := Option.map_eq_some_iff.mp hread
  exact ⟨module, location, text, source, hlocate, htext, hsource,
    Source.mem_of_introduced hsource hword⟩

/-- A module is found if the directory that its name spells is a package, or if there is a file
called like it. -/
theorem isSome_locate {disk : Disk} {root : FilePath} {module : String} :
    (locate disk root module).isSome ↔ "" ∉ Dotted.components module
      ∧ (isPackage disk (root.joinAll (Dotted.components module)) = true
        ∨ disk.isFile ((root.joinAll (Dotted.components module)).withExtension moduleExtension)
          = true) := by
  rw [locate]
  dsimp only
  split
  · simp [*]
  split
  · simp [*]
  · split <;> simp [*]

/-- Where files are added only, a module that is found is found ever after. -/
theorem isSome_locate_of_grown {disk later : Disk} (h : Disk.Grown disk later) {root : FilePath}
    {module : String} (hlocate : (locate disk root module).isSome) :
    (locate later root module).isSome := by
  obtain ⟨hnames, hfound⟩ := isSome_locate.mp hlocate
  exact isSome_locate.mpr ⟨hnames, hfound.imp h.isFile h.isFile⟩

theorem external_below {disk : Disk} {root : FilePath} {module : String} :
    (Tree.below disk root).External module ↔ ¬ (locate disk root (Dotted.top module)).isSome := by
  rw [Option.not_isSome_iff_eq_none]
  exact Iff.rfl

/-- What is from outside the tree was from outside it before files were added. -/
theorem external_of_grown {disk later : Disk} (h : Disk.Grown disk later) {root : FilePath}
    {module : String} (hlater : (Tree.below later root).External module) :
    (Tree.below disk root).External module := by
  rw [external_below] at hlater ⊢
  exact mt (isSome_locate_of_grown h) hlater

/-- What there is to name while sheets are put into a directory: the words of the sources below a
root, in any tree on the way; the modules that are found in one; and what was outside the tree at
the start. -/
def Realm.along (root directory : FilePath) (sheets : List Disk.Sheet) (start : Disk) : Realm where
  Spelled word := ∃ disk, Disk.Midway directory sheets start disk ∧ Spells disk root word
  Lives module := ∃ disk, Disk.Midway directory sheets start disk
    ∧ (locate disk root module).isSome
  Foreign := (Tree.below start root).External

theorem Realm.along_covers {root directory : FilePath} {sheets : List Disk.Sheet}
    {start disk : Disk} (h : Disk.Midway directory sheets start disk) :
    (Realm.along root directory sheets start).Covers (Tree.below disk root) where
  spelled module location statements hlocate hcode s hs word hword :=
    ⟨disk, h, spells_of_code hlocate hcode ⟨s, hs, hword⟩⟩
  lives module hlocate := ⟨disk, h, hlocate⟩
  foreign module hforeign := by
    obtain ⟨before, -, hput⟩ := h
    exact external_of_grown (.of_putAll hput) hforeign

/-- The loader looks for modules below the root, and knows attested tables only. -/
structure Loader.Attested (realm : Realm) (root : FilePath) (loader : Loader) : Prop where
  root : loader.searchRoot = root
  cache : loader.cache.Attested realm

theorem Loader.lasts_attested {realm : Realm} {root : FilePath} {disk : Disk}
    (hcovers : realm.Covers (Tree.below disk root)) :
    Importer.Lasts (Loader.Attested realm root) disk := by
  rintro name loader ⟨rfl, hcache⟩
  exact ⟨rfl, Tree.load_attested hcovers hcache loader.nesting name⟩

end Python

open Python (Realm Spells locate)

/-- **The symbols of a chapter** are called by identifiers of sources that the run has come across,
unless they are attributed to something outside the tree; and their modules are found in it. -/
theorem Manual.Course.spelled {manual : Manual} {packages : List Package} {progress : Progress}
    {space after : Workspace Python.Loader} {chapters : List Chapter}
    {groups : List (List Disk.Sheet)} {reports : List (Report Python.Loader)}
    {result : Except Fault Statistics}
    (h : manual.Course packages progress space chapters groups reports result after)
    (hfresh : space.importer.cache = {}) {chapter : Chapter} (hchapter : chapter ∈ chapters)
    {symbol : Symbol} (hsymbol : symbol ∈ chapter.symbols) :
    ∃ file ∈ chapter.package.modules, symbol.module = chapter.package.moduleName file
      ∧ (∃ disk, Disk.Midway manual.destination groups.flatten space.disk disk
          ∧ (locate disk space.importer.searchRoot symbol.module).isSome)
      ∧ ((∃ disk, Disk.Midway manual.destination groups.flatten space.disk disk
            ∧ Spells disk space.importer.searchRoot symbol.name)
        ∨ (Python.Tree.below space.disk space.importer.searchRoot).External symbol.module) := by
  have hattested : Python.Loader.Attested (.along space.importer.searchRoot manual.destination
      groups.flatten space.disk) space.importer.searchRoot after.importer := by
    refine h.lasts (fun disk hmidway => Python.Loader.lasts_attested (Realm.along_covers hmidway))
      ⟨rfl, ?_⟩
    rw [hfresh]
    exact .empty
  obtain ⟨listed, hlisted, hsymbol⟩ := List.mem_flatMap.mp hsymbol
  obtain ⟨file, hfile, table, ⟨hidle, hholds⟩, rfl⟩ := Workspace.Lists.mem (h.read _ hchapter) hlisted
  obtain ⟨hmodule, hname⟩ := mem_symbols_ofTable.mp hsymbol
  obtain ⟨-, binding, hfind, horigin, hkind⟩ := mem_namesOf.mp hname
  have hloaded := Python.Loader.loaded_of_holds hidle.1 hholds
  obtain ⟨hlives, htable⟩ := hattested.cache.loaded _ _ hloaded
  rw [← hmodule] at hlives horigin
  refine ⟨file, (List.mem_filter.mp hfile).1, hmodule, hlives, ?_⟩
  cases htable _ _ hfind with
  | spelled hword => exact .inl hword
  | module => cases horigin
  | foreign hforeign =>
    cases horigin
    exact .inr hforeign

end ApiStubs
