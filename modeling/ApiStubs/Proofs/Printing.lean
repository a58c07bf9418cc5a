import ApiStubs.Generation
import ApiStubs.Proofs.ShortestImport
import ApiStubs.Proofs.Writing

/-!
# Proofs — Printing — what a run writes

A run renders the page of a package, then renders and writes the pages of its symbols one after
the other, then writes the page of the package (`Manual.Prints`, `Manual.Documents`).  Rendering
imports modules and changes no file, so that the file tree a run leaves behind is the first one
with all its sheets put into the destination: `Manual.Documents.putAll`.
-/

namespace ApiStubs

namespace Work

variable {σ α β : Type}

/-! ### Rendering changes no file -/

/-- The computation leaves the file tree as it is. -/
def Reads (work : Work σ α) : Prop := ∀ space, (work space).2.disk = space.disk

theorem Reads.disk_eq {work : Work σ α} (h : Reads work) {space after : Workspace σ}
    {result : Except Fault α} (hrun : work space = (result, after)) : after.disk = space.disk := by
  rw [← h space, hrun]

theorem bind_ok {x : Work σ α} {f : α → Work σ β} {space after : Workspace σ} {b : β}
    (h : (x >>= f) space = (.ok b, after)) :
    ∃ a between, x space = (.ok a, between) ∧ f a between = (.ok b, after) := by
  rw [run_bind] at h
  split at h
  · exact ⟨_, _, ‹_›, h⟩
  · cases h

theorem Reads.pure (a : α) : Reads (Pure.pure a : Work σ α) := fun _ => rfl

theorem Reads.bind {x : Work σ α} {f : α → Work σ β} (hx : Reads x) (hf : ∀ a, Reads (f a)) :
    Reads (x >>= f) := by
  intro space
  have hspace := hx space
  rw [run_bind]
  split
  · rename_i a between heq
    rw [heq] at hspace
    exact (hf a between).trans hspace
  · rename_i fault between heq
    rwa [heq] at hspace

theorem Reads.mapM {f : α → Work σ β} (hf : ∀ a, Reads (f a)) (list : List α) :
    Reads (list.mapM f) := by
  induction list with
  | nil => exact .pure _
  | cons a rest ih =>
    rw [List.mapM_cons]
    exact (hf a).bind fun _ => ih.bind fun _ => .pure _

theorem change_ok {edit : Disk → Except DiskError Disk} {space after : Workspace σ} {u : Unit}
    (h : change edit space = (.ok u, after)) :
    edit space.disk = .ok after.disk ∧ after.importer = space.importer := by
  rw [change] at h
  split at h <;> cases h
  exact ⟨‹_›, rfl⟩

theorem attempt_ok {edit : Disk → Option DiskError × Disk} {space after : Workspace σ} {u : Unit}
    (h : attempt edit space = (.ok u, after)) :
    edit space.disk = (none, after.disk) ∧ after.importer = space.importer := by
  rw [attempt] at h
  split at h <;> cases h
  exact ⟨‹_›, rfl⟩

variable [Importer σ]

theorem reads_load (name : String) : Reads (load name : Work σ SymbolTable) := fun _ => rfl

theorem reads_load? (name : String) : Reads (load? name : Work σ (Option SymbolTable)) :=
  fun _ => rfl

theorem reads_members (module : String) : Reads (members module : Work σ Members) :=
  (reads_load module).bind fun _ => .pure _

/-- A search only reads. -/
theorem reads_firstHandingOut (module symbol : String) (candidates : List String) :
    Reads (firstHandingOut module symbol candidates : Work σ String) := by
  induction candidates with
  | nil => exact fun _ => rfl
  | cons candidate rest ih =>
    refine (reads_load? candidate).bind fun table? => ?_
    cases table? with
    | none => exact ih
    | some table =>
      show Reads (ite (table.handsOut symbol module = true) (Pure.pure candidate)
        (firstHandingOut module symbol rest))
      split
      · exact .pure _
      · exact ih

end Work

namespace Manual

variable {σ : Type}

/-! ### Pages printed -/

/-- The sheet with the page of a name. -/
def sheet (manual : Manual) (name text : String) : Disk.Sheet :=
  ⟨name ++ "." ++ manual.suffix, text⟩

/-- Pages are rendered and written one after the other. -/
inductive Prints (manual : Manual) :
    List (String × Work σ String) → Workspace σ → List Disk.Sheet → Workspace σ → Prop where
  | done (space : Workspace σ) : Prints manual [] space [] space
  | page {name text : String} {render : Work σ String} {rest : List (String × Work σ String)}
      {space rendered after : Workspace σ} {disk : Disk} {sheets : List Disk.Sheet} :
      render space = (.ok text, rendered) →
      Disk.put manual.destination (manual.sheet name text) rendered.disk = .ok disk →
      Prints manual rest ⟨disk, rendered.importer⟩ sheets after →
      Prints manual ((name, render) :: rest) space (manual.sheet name text :: sheets) after

theorem Prints.append {manual : Manual} {first second : List (String × Work σ String)}
    {space between after : Workspace σ} {sheets others : List Disk.Sheet}
    (h : Prints manual first space sheets between)
    (h' : Prints manual second between others after) :
    Prints manual (first ++ second) space (sheets ++ others) after := by
  induction h with
  | done => exact h'
  | page hrender hput _ ih => exact .page hrender hput (ih h')

theorem Prints.length {manual : Manual} {pages : List (String × Work σ String)}
    {space after : Workspace σ} {sheets : List Disk.Sheet}
    (h : Prints manual pages space sheets after) : sheets.length = pages.length := by
  induction h with
  | done => rfl
  | page _ _ _ ih => exact congrArg (· + 1) ih

theorem Prints.putAll {manual : Manual} {pages : List (String × Work σ String)}
    {space after : Workspace σ} {sheets : List Disk.Sheet}
    (h : Prints manual pages space sheets after) (hreads : ∀ page ∈ pages, Work.Reads page.2) :
    Disk.putAll manual.destination sheets space.disk = .ok after.disk := by
  induction h with
  | done => rfl
  | page hrender hput _ ih =>
    obtain ⟨hread, hrest⟩ := List.forall_mem_cons.mp hreads
    rw [Disk.putAll, ← hread.disk_eq hrender, hput]
    exact ih hrest

theorem Prints.fileNames {manual : Manual} {pages : List (String × Work σ String)}
    {space after : Workspace σ} {sheets : List Disk.Sheet}
    (h : Prints manual pages space sheets after) :
    sheets.map Disk.Sheet.fileName = pages.map fun page => page.1 ++ "." ++ manual.suffix := by
  induction h with
  | done => rfl
  | page _ _ _ ih => exact congrArg₂ List.cons rfl ih

/-- Writing a page puts its sheet on the disk. -/
theorem put_of_write {manual : Manual} {name text : String} {path : FilePath}
    {space after : Workspace σ} (h : manual.write name text space = (.ok path, after)) :
    Disk.put manual.destination (manual.sheet name text) space.disk = .ok after.disk
      ∧ after.importer = space.importer := by
  obtain ⟨_, made, hmade, h⟩ := Work.bind_ok h
  obtain ⟨_, written, hwritten, h⟩ := Work.bind_ok h
  cases h
  obtain ⟨hdirectories, himporter⟩ := Work.attempt_ok hmade
  obtain ⟨htext, himporter'⟩ := Work.change_ok hwritten
  refine ⟨?_, himporter'.trans himporter⟩
  rw [Disk.put, Disk.makeDirectories_eq_ok.mpr hdirectories]
  exact htext

/-- What is written is a page printed. -/
theorem prints_of_write {manual : Manual} {name text : String} {render : Work σ String}
    {path : FilePath} {space rendered after : Workspace σ}
    (hrender : render space = (.ok text, rendered))
    (hwrite : manual.write name text rendered = (.ok path, after)) :
    Prints manual [(name, render)] space [manual.sheet name text] after := by
  obtain ⟨hput, himporter⟩ := put_of_write hwrite
  refine .page hrender hput ?_
  rw [← himporter]
  exact .done after

variable [Importer σ]

theorem reads_renderModule (manual : Manual) (package : Package) (file : ModuleFile) :
    Work.Reads (manual.renderModule package file : Work σ (String × List Symbol)) :=
  (Work.reads_members _).bind fun _ => .pure _

theorem reads_renderPackage (manual : Manual) (package : Package) :
    Work.Reads (manual.renderPackage package : Work σ PackagePage) :=
  (Work.Reads.mapM (manual.reads_renderModule package) _).bind fun _ => .pure _

theorem reads_renderSymbol (manual : Manual) (symbol : Symbol) :
    Work.Reads (manual.renderSymbol symbol : Work σ String) :=
  (Work.reads_firstHandingOut _ _ _).bind fun _ => .pure _

/-! ### The pages of a run -/

/-- The pages to print for a package: those of its symbols, and its own. -/
def pages (manual : Manual) (page : PackagePage) : List (String × Work σ String) :=
  (page.symbols.map fun symbol => (symbol.dottedName, manual.renderSymbol symbol))
    ++ [(page.name, pure page.text)]

/-- Packages are documented one after the other, each with its page and its sheets. -/
inductive Documents (manual : Manual) : List Package → Workspace σ →
    List (PackagePage × List Disk.Sheet) → Workspace σ → Prop where
  | done (space : Workspace σ) : Documents manual [] space [] space
  | package {package : Package} {rest : List Package} {space rendered printed after : Workspace σ}
      {page : PackagePage} {sheets : List Disk.Sheet}
      {others : List (PackagePage × List Disk.Sheet)} :
      manual.renderPackage package space = (.ok page, rendered) →
      Prints manual (manual.pages page) rendered sheets printed →
      Documents manual rest printed others after →
      Documents manual (package :: rest) space ((page, sheets) :: others) after

/-- Documenting symbols prints their pages. -/
theorem prints_of_documentSymbols {manual : Manual} {symbols : List Symbol} {paths : List FilePath}
    {space after : Workspace σ}
    (h : symbols.mapM manual.documentSymbol space = (.ok paths, after)) :
    ∃ sheets, paths.length = symbols.length ∧ Prints manual
      (symbols.map fun symbol => (symbol.dottedName, manual.renderSymbol symbol)) space sheets
      after := by
  induction symbols generalizing space paths with
  | nil => cases h; exact ⟨[], rfl, .done _⟩
  | cons symbol rest ih =>
    rw [List.mapM_cons] at h
    obtain ⟨path, written, hsymbol, h⟩ := Work.bind_ok h
    obtain ⟨others, last, hrest, h⟩ := Work.bind_ok h
    cases h
    obtain ⟨text, rendered, hrender, hwrite⟩ := Work.bind_ok hsymbol
    obtain ⟨sheets, hlength, hprints⟩ := ih hrest
    exact ⟨_, congrArg (· + 1) hlength, (prints_of_write hrender hwrite).append hprints⟩

/-- Documenting a package prints its pages. -/
theorem prints_of_documentPackage {manual : Manual} {package : Package} {files : PackageFiles}
    {space after : Workspace σ} (h : manual.documentPackage package space = (.ok files, after)) :
    ∃ page rendered sheets, manual.renderPackage package space = (.ok page, rendered)
      ∧ Prints manual (manual.pages page) rendered sheets after
      ∧ sheets.length = files.symbols.length + 1 := by
  obtain ⟨page, rendered, hpage, h⟩ := Work.bind_ok h
  obtain ⟨symbols, printed, hsymbols, h⟩ := Work.bind_ok h
  obtain ⟨path, written, hwrite, h⟩ := Work.bind_ok h
  cases h
  obtain ⟨sheets, hlength, hprints⟩ := prints_of_documentSymbols hsymbols
  -- the page of the package is rendered before the pages of its symbols, and written behind them
  have hall := hprints.append (prints_of_write rfl hwrite)
  refine ⟨page, rendered, _, hpage, hall, ?_⟩
  rw [hall.length, hlength]
  simp

/-- Packages are documented until one of them fails, and each is reported when it is done. -/
theorem documentAll_cons (manual : Manual) (package : Package) (rest : List Package)
    (progress : Progress) (space : Workspace σ) :
    Run.documentAll manual (package :: rest) progress space
      = match manual.documentPackage package space with
        | (.error fault, after) => (.failed fault, after)
        | (.ok files, after) =>
          let advanced := progress.advance package.name files.symbols.length
          let (run, last) := Run.documentAll manual rest advanced after
          ({ run with steps := (package, advanced) :: run.steps }, last) := by
  have hbind : ∀ next : Except Fault PackageFiles → StateM (Workspace σ) Run,
      ((manual.documentPackage package).outcome >>= next) space
        = next (manual.documentPackage package space).1 (manual.documentPackage package space).2 :=
    fun _ => rfl
  rw [Run.documentAll, hbind]
  rcases manual.documentPackage package space with ⟨_ | files, after⟩ <;> rfl

/-- The sheets of documented packages. -/
def sheetsOf (documented : List (PackagePage × List Disk.Sheet)) : List Disk.Sheet :=
  documented.flatMap Prod.snd

/-- **A run that succeeds documents its packages**, and counts the sheets it has written. -/
theorem documents_of_documentAll {manual : Manual} {packages : List Package} {progress : Progress}
    {space after : Workspace σ} {run : Run} {statistics : Statistics}
    (h : Run.documentAll manual packages progress space = (run, after))
    (hok : run.result = .ok statistics) :
    ∃ documented, Documents manual packages space documented after
      ∧ statistics.files = progress.statistics.files + (sheetsOf documented).length := by
  induction packages generalizing progress space run with
  | nil =>
    cases h
    cases hok
    exact ⟨[], .done _, rfl⟩
  | cons package rest ih =>
    rw [documentAll_cons] at h
    split at h
    · -- a package that fails ends the run without statistics
      cases h
      cases hok
    · rename_i files printed hpackage
      obtain ⟨page, rendered, sheets, hpage, hprints, hlength⟩ := prints_of_documentPackage hpackage
      cases h
      obtain ⟨others, hothers, hfiles⟩ := ih rfl hok
      refine ⟨(page, sheets) :: others, .package hpage hprints hothers, ?_⟩
      rw [hfiles, sheetsOf, sheetsOf, List.flatMap_cons, List.length_append]
      rw [hlength]
      simp only [Progress.advance, Statistics.files]
      omega

/-! ### The sheets of a run are put into the destination -/

theorem reads_pages (manual : Manual) (page : PackagePage) :
    ∀ job ∈ (manual.pages page : List (String × Work σ String)), Work.Reads job.2 := by
  intro job hjob
  rcases List.mem_append.mp hjob with hsymbol | hown
  · obtain ⟨symbol, -, rfl⟩ := List.mem_map.mp hsymbol
    exact manual.reads_renderSymbol symbol
  · obtain rfl := List.mem_singleton.mp hown
    exact .pure _

/-- **The file tree behind a run** is the first one with its sheets put into the destination. -/
theorem Documents.putAll {manual : Manual} {packages : List Package} {space after : Workspace σ}
    {documented : List (PackagePage × List Disk.Sheet)}
    (h : Documents manual packages space documented after) :
    Disk.putAll manual.destination (sheetsOf documented) space.disk = .ok after.disk := by
  induction h with
  | done => rfl
  | package hpage hprints _ ih =>
    have hput := hprints.putAll (manual.reads_pages _)
    rw [(manual.reads_renderPackage _).disk_eq hpage] at hput
    exact Disk.putAll_append hput ih

end Manual

end ApiStubs
