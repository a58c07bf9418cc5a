import ApiStubs.Proofs.Planning
import ApiStubs.Proofs.Promises

/-!
# Proofs — Courses — how far a run gets

A run that has a plan goes from package to package: the page of a package is rendered, the pages of
its symbols are rendered and written in the order of that page, and the page itself is written
last.  Three things end it: no package is left, a module cannot be imported, or a page cannot be
written (`Manual.Course`).

`generate_course`: what is on the disk at the end, and whenever the run reports a package, is the
first part of the one list of pages that the packages have in their order.
-/

namespace ApiStubs

/-! ### Pages up to one that cannot be written -/

namespace Manual

variable {σ : Type}

/-- Pages are rendered and written one after the other, up to one that is rendered and cannot be
written. -/
inductive Stops (manual : Manual) : List (String × Work σ String) → Workspace σ →
    List Disk.Sheet → DiskError → Workspace σ → Prop where
  | unwritten {name text : String} {render : Work σ String} {rest : List (String × Work σ String)}
      {space rendered after : Workspace σ} {cause : DiskError} :
      render space = (.ok text, rendered) →
      manual.write name text rendered = (.error (.disk cause), after) →
      Stops manual ((name, render) :: rest) space [] cause after
  | page {name text : String} {render : Work σ String} {rest : List (String × Work σ String)}
      {space rendered after : Workspace σ} {disk : Disk} {sheets : List Disk.Sheet}
      {cause : DiskError} :
      render space = (.ok text, rendered) →
      Disk.put manual.destination (manual.sheet name text) rendered.disk = .ok disk →
      Stops manual rest ⟨disk, rendered.importer⟩ sheets cause after →
      Stops manual ((name, render) :: rest) space (manual.sheet name text :: sheets) cause after

variable {manual : Manual} {first second pages : List (String × Work σ String)}
variable {space between after : Workspace σ} {sheets others : List Disk.Sheet} {cause : DiskError}

theorem Stops.append (h : Stops manual first space sheets cause after)
    (second : List (String × Work σ String)) :
    Stops manual (first ++ second) space sheets cause after := by
  induction h with
  | unwritten hrender hwrite => exact .unwritten hrender hwrite
  | page hrender hput _ ih => exact .page hrender hput ih

theorem Prints.stops (h : Prints manual first space sheets between)
    (h' : Stops manual second between others cause after) :
    Stops manual (first ++ second) space (sheets ++ others) cause after := by
  induction h with
  | done => exact h'
  | page hrender hput _ ih => exact .page hrender hput (ih h')

/-- The sheets written are those of the first pages, and not of all. -/
theorem Stops.fileNames (h : Stops manual pages space sheets cause after) :
    sheets.length < pages.length
      ∧ sheets.map Disk.Sheet.fileName <+: pages.map fun page => manual.fileOf page.1 := by
  induction h with
  | unwritten => exact ⟨Nat.succ_pos _, List.nil_prefix⟩
  | page _ _ _ ih => exact ⟨Nat.succ_lt_succ ih.1, List.cons_prefix_cons.mpr ⟨rfl, ih.2⟩⟩

/-- The disk is as some sheets leave it, up to the destination: it may have been made, or only some
of the directories on the way to it. -/
def Leaves (manual : Manual) (sheets : List Disk.Sheet) (disk later : Disk) : Prop :=
  ∃ next, Disk.putAll manual.destination sheets disk = .ok next
    ∧ (later = next ∨ later = (next.attemptDirectories manual.destination).2)

theorem Leaves.append {disk next last : Disk}
    (h : Disk.putAll manual.destination sheets disk = .ok next)
    (h' : manual.Leaves others next last) : manual.Leaves (sheets ++ others) disk last := by
  obtain ⟨written, hwritten, hlast⟩ := h'
  exact ⟨written, Disk.putAll_append h hwritten, hlast⟩

/-- A page that cannot be written leaves nothing but directories on the way to it. -/
theorem leaves_of_write {name text : String} {fault : Fault}
    (h : manual.write name text space = (.error fault, after)) :
    manual.Leaves [] space.disk after.disk := by
  refine ⟨space.disk, rfl, .inr ?_⟩
  rw [write, Work.run_bind, Work.attempt] at h
  rcases hmake : space.disk.attemptDirectories manual.destination with ⟨_ | cause, made⟩
  · rw [hmake] at h
    dsimp only at h
    rw [Work.run_bind, Work.change] at h
    dsimp only at h
    cases hwrite : made.writeText (manual.pathOf name) text with
    | error cause =>
      rw [hwrite] at h
      cases h
      rfl
    | ok written =>
      rw [hwrite] at h
      cases h
  · rw [hmake] at h
    cases h
    rfl

/-- Pages that stop leave those before them, and directories on the way to the destination. -/
theorem Stops.leaves (h : Stops manual pages space sheets cause after)
    (hreads : ∀ page ∈ pages, Work.Reads page.2) :
    manual.Leaves sheets space.disk after.disk := by
  induction h with
  | unwritten hrender hwrite =>
    have hread := (List.forall_mem_cons.mp hreads).1
    rw [← hread.disk_eq hrender]
    exact leaves_of_write hwrite
  | page hrender hput _ ih =>
    obtain ⟨hread, hrest⟩ := List.forall_mem_cons.mp hreads
    obtain ⟨next, hnext, hlast⟩ := ih hrest
    refine ⟨next, ?_, hlast⟩
    rw [Disk.putAll, ← hread.disk_eq hrender, hput]
    exact hnext

/-- Facts that no import and no change of the file tree ends are there when pages are printed. -/
theorem Prints.keeps [Importer σ] {P : Workspace σ → Prop}
    (hP : Workspace.Stable P) (h : Prints manual pages space sheets after)
    (hpages : ∀ page ∈ pages, Work.Keeps P (fun _ => True) page.2) (hspace : P space) :
    P after := by
  induction h with
  | done => exact hspace
  | page hrender _ _ ih =>
    obtain ⟨hpage, hrest⟩ := List.forall_mem_cons.mp hpages
    exact ih hrest (hP _ _ (.changed _ _) (hpage.after hrender hspace))

theorem Stops.keeps [Importer σ] {P : Workspace σ → Prop}
    (hP : Workspace.Stable P) (h : Stops manual pages space sheets cause after)
    (hpages : ∀ page ∈ pages, Work.Keeps P (fun _ => True) page.2) (hspace : P space) :
    P after := by
  induction h with
  | unwritten hrender hwrite =>
    have hpage := (List.forall_mem_cons.mp hpages).1
    exact (keeps_write manual hP _ _).after hwrite (hpage.after hrender hspace)
  | page hrender _ _ ih =>
    obtain ⟨hpage, hrest⟩ := List.forall_mem_cons.mp hpages
    exact ih hrest (hP _ _ (.changed _ _) (hpage.after hrender hspace))

variable [Importer σ]

theorem keeps_pages {P : Workspace σ → Prop} (hP : Workspace.Stable P) (manual : Manual)
    (page : PackagePage) : ∀ job ∈ manual.pages page, Work.Keeps P (fun _ => True) job.2 := by
  intro job hjob
  rcases List.mem_append.mp hjob with hsymbol | hown
  · obtain ⟨symbol, -, rfl⟩ := List.mem_map.mp hsymbol
    exact (manual.keeps_renderSymbol hP symbol).mono fun _ _ => trivial
  · obtain rfl := List.mem_singleton.mp hown
    exact .pure _

end Manual

/-! ### Documenting one package -/

namespace Manual

variable {σ : Type} [EnduringImporter σ]

/-- The page of the chapter's package is rendered. -/
structure Opens (manual : Manual) (chapter : Chapter) (space : Workspace σ) (page : PackagePage)
    (rendered : Workspace σ) : Prop where
  run : manual.renderPackage chapter.package space = (.ok page, rendered)
  symbols : page.symbols = chapter.symbols
  name : page.name = chapter.package.name
  read : chapter.ReadFrom rendered

variable {manual : Manual} {package : Package} {space rendered after : Workspace σ}
variable {page : PackagePage} {chapter : Chapter}

theorem opens_of_renderPackage (hidle : space.Idle)
    (h : manual.renderPackage package space = (.ok page, rendered)) :
    ∃ chapter, chapter.package = package ∧ manual.Opens chapter space page rendered := by
  obtain ⟨chapter, rfl, hread, hsymbols, hname⟩ := chapter_of_renderPackage hidle h
  exact ⟨chapter, rfl, h, hsymbols, hname, hread⟩

theorem Opens.names (h : manual.Opens chapter space page rendered) :
    (manual.pages page : List (String × Work σ String)).map (fun job => manual.fileOf job.1)
      = chapter.names.map manual.fileOf := by
  simp [pages, Chapter.names, h.symbols, h.name, Function.comp_def]

theorem Opens.later (h : manual.Opens chapter space page rendered) {P : Workspace σ → Prop}
    (hP : Workspace.Stable P) (hspace : P space) : P rendered :=
  (manual.keeps_renderPackage _ hP).after h.run hspace

theorem Opens.read_of_prints (h : manual.Opens chapter space page rendered)
    {sheets : List Disk.Sheet} (hprints : Prints manual (manual.pages page) rendered sheets after) :
    chapter.ReadFrom after :=
  hprints.keeps chapter.stable_readFrom (keeps_pages chapter.stable_readFrom manual page) h.read

theorem Opens.read_of_stops (h : manual.Opens chapter space page rendered)
    {sheets : List Disk.Sheet} {cause : DiskError}
    (hstops : Stops manual (manual.pages page) rendered sheets cause after) :
    chapter.ReadFrom after :=
  hstops.keeps chapter.stable_readFrom (keeps_pages chapter.stable_readFrom manual page) h.read

/-- The pages of promised symbols are printed up to one that cannot be written. -/
theorem stops_of_documentSymbols {symbols all : List Symbol} {fault : Fault}
    (hall : ∀ symbol ∈ symbols, symbol ∈ all) (hpromises : space.Promises all)
    (h : symbols.mapM manual.documentSymbol space = (.error fault, after)) :
    ∃ cause sheets, fault = .disk cause ∧ Stops manual
      (symbols.map fun symbol => (symbol.dottedName, manual.renderSymbol symbol)) space sheets cause
      after := by
  induction symbols generalizing space with
  | nil => cases h
  | cons symbol rest ih =>
    obtain ⟨hsymbol, hrest⟩ := List.forall_mem_cons.mp hall
    have hstable := Workspace.stable_promises (σ := σ) all
    obtain ⟨text, rendered, hrender⟩ := renderSymbol_ok manual hpromises hsymbol
    have hrendered := (manual.keeps_renderSymbol hstable symbol).after hrender hpromises
    rw [List.mapM_cons] at h
    rcases Work.bind_cases h with ⟨fault', hfails, hfault⟩ | ⟨path, written, hwrites, h⟩
    · cases hfault
      rw [documentSymbol, Work.run_bind_ok hrender] at hfails
      obtain ⟨cause, rfl⟩ := (manual.keeps_write hstable _ _).fault hfails hrendered
      exact ⟨cause, [], rfl, .unwritten hrender hfails⟩
    · rw [documentSymbol, Work.run_bind_ok hrender] at hwrites
      rcases Work.bind_cases h with ⟨fault', hfails, hfault⟩ | ⟨others, last, -, h⟩
      · cases hfault
        have hwritten := (manual.keeps_write hstable _ _).after hwrites hrendered
        obtain ⟨cause, sheets, rfl, hstops⟩ := ih hrest hwritten hfails
        exact ⟨cause, _, rfl, (prints_of_write hrender hwrites).stops hstops⟩
      · cases h

/-- **What documenting a package comes to**: its pages are printed, or a module of it cannot be
imported, or its pages are printed up to one that cannot be written. -/
theorem documentPackage_cases {result : Except Fault PackageFiles} (hidle : space.Idle)
    (h : manual.documentPackage package space = (result, after)) :
    (∃ failure, result = .error (.notImported failure)
      ∧ manual.renderPackage package space = (.error (.notImported failure), after))
    ∨ ∃ chapter page rendered sheets, chapter.package = package
      ∧ manual.Opens chapter space page rendered
      ∧ ((∃ files, result = .ok files ∧ files.symbols.length = chapter.symbols.length
          ∧ Prints manual (manual.pages page) rendered sheets after)
        ∨ ∃ cause, result = .error (.disk cause)
          ∧ Stops manual (manual.pages page) rendered sheets cause after) := by
  rcases Work.bind_cases h with ⟨fault, hpage, rfl⟩ | ⟨page, rendered, hpage, h⟩
  · obtain ⟨failure, rfl⟩ :=
      (manual.keeps_renderPackage package Workspace.stable_idle).fault hpage hidle
    exact .inl ⟨failure, rfl, hpage⟩
  obtain ⟨chapter, hchapter, hopens⟩ := opens_of_renderPackage hidle hpage
  have hpromises := promises_of_renderPackage hidle hpage
  refine .inr ⟨chapter, page, rendered, ?_⟩
  rcases Work.bind_cases h with ⟨fault, hsymbols, rfl⟩ | ⟨paths, printed, hsymbols, h⟩
  · obtain ⟨cause, sheets, rfl, hstops⟩ :=
      stops_of_documentSymbols (fun _ h => h) hpromises hsymbols
    exact ⟨sheets, hchapter, hopens, .inr ⟨cause, rfl, hstops.append _⟩⟩
  obtain ⟨sheets, hlength, hprints⟩ := prints_of_documentSymbols hsymbols
  rcases Work.bind_cases h with ⟨fault, hwrite, rfl⟩ | ⟨path, written, hwrite, h⟩
  · have hnothing : Workspace.Stable (σ := σ) fun _ => True := fun _ _ _ _ => trivial
    obtain ⟨cause, rfl⟩ := (manual.keeps_write hnothing _ _).fault hwrite trivial
    have hown : Stops manual [(page.name, pure page.text)] printed [] cause after :=
      .unwritten rfl hwrite
    exact ⟨_, hchapter, hopens, .inr ⟨cause, rfl, hprints.stops hown⟩⟩
  · cases h
    have hcount : paths.length = chapter.symbols.length := hlength.trans (by rw [hopens.symbols])
    exact ⟨_, hchapter, hopens, .inl ⟨_, rfl, hcount, hprints.append (prints_of_write rfl hwrite)⟩⟩

end Manual

/-! ### Runs that report -/

/-- A package that was completed, with the progress reported for it and the workspace it was
reported from. -/
structure Report (σ : Type) where
  package : Package
  progress : Progress
  space : Workspace σ

namespace Run

variable {σ : Type} [Importer σ]

/-- Documents packages one after the other, with a report of each. -/
def observe (manual : Manual) : List Package → Progress → Workspace σ →
    List (Report σ) × Except Fault Statistics × Workspace σ
  | [], progress, space => ([], .ok progress.statistics, space)
  | package :: rest, progress, space =>
    match manual.documentPackage package space with
    | (.error fault, after) => ([], .error fault, after)
    | (.ok files, after) =>
      let advanced := progress.advance package.name files.symbols.length
      let (reports, result, last) := observe manual rest advanced after
      (⟨package, advanced, after⟩ :: reports, result, last)

/-- A run is what is observed of it, without the workspaces. -/
theorem documentAll_eq_observe (manual : Manual) (packages : List Package) (progress : Progress)
    (space : Workspace σ) :
    documentAll manual packages progress space
      = (⟨(observe manual packages progress space).1.map fun report =>
          (report.package, report.progress), (observe manual packages progress space).2.1⟩,
        (observe manual packages progress space).2.2) := by
  induction packages generalizing progress space with
  | nil => rfl
  | cons package rest ih =>
    rw [Manual.documentAll_cons, observe]
    rcases manual.documentPackage package space with ⟨fault | files, after⟩
    · rfl
    · dsimp only
      rw [ih]
      rfl

end Run

/-- The progress when some more chapters are done. -/
def Progress.through (progress : Progress) (chapters : List Chapter) : Progress :=
  { progress with statistics := {
      packages := progress.statistics.packages ++ chapters.map fun chapter => chapter.package.name
      packagePages := progress.statistics.packagePages + chapters.length
      symbolPages := progress.statistics.symbolPages + (chapters.flatMap Chapter.symbols).length } }

@[simp] theorem Progress.through_nil (progress : Progress) : progress.through [] = progress := by
  simp [through]

theorem Progress.through_cons (progress : Progress) (chapter : Chapter) (rest : List Chapter) :
    progress.through (chapter :: rest)
      = (progress.advance chapter.package.name chapter.symbols.length).through rest := by
  simp only [through, advance, List.map_cons, List.length_cons, List.flatMap_cons,
    List.length_append, List.append_assoc, List.singleton_append, Nat.add_assoc,
    Nat.add_comm 1 rest.length]

/-- The files of the chapters, in the order in which they are written. -/
def Manual.files (manual : Manual) (chapters : List Chapter) : List String :=
  (chapters.flatMap Chapter.names).map manual.fileOf

theorem Manual.files_cons (manual : Manual) (chapter : Chapter) (rest : List Chapter) :
    manual.files (chapter :: rest) = chapter.names.map manual.fileOf ++ manual.files rest := by
  rw [files, List.flatMap_cons, List.map_append, files]

/-! ### The course of a run -/

/-- A run goes from package to package: the chapters it opens, the sheets it writes for each of
them, its reports, and what ends it. -/
inductive Manual.Course {σ : Type} [EnduringImporter σ] (manual : Manual) :
    List Package → Progress → Workspace σ → List Chapter → List (List Disk.Sheet) →
    List (Report σ) → Except Fault Statistics → Workspace σ → Prop where
  | finished (progress : Progress) (space : Workspace σ) :
    Course manual [] progress space [] [] [] (.ok progress.statistics) space
  | unread {package : Package} {rest : List Package} {progress : Progress}
      {space after : Workspace σ} {failure : ImportFailure} :
      manual.renderPackage package space = (.error (.notImported failure), after) →
      Course manual (package :: rest) progress space [] [] [] (.error (.notImported failure)) after
  | unwritten {chapter : Chapter} {rest : List Package} {progress : Progress}
      {space rendered after : Workspace σ} {page : PackagePage} {sheets : List Disk.Sheet}
      {cause : DiskError} :
      manual.Opens chapter space page rendered →
      Stops manual (manual.pages page) rendered sheets cause after →
      Course manual (chapter.package :: rest) progress space [chapter] [sheets] []
        (.error (.disk cause)) after
  | written {chapter : Chapter} {rest : List Package} {progress : Progress}
      {space rendered printed after : Workspace σ} {page : PackagePage} {sheets : List Disk.Sheet}
      {chapters : List Chapter} {groups : List (List Disk.Sheet)} {reports : List (Report σ)}
      {result : Except Fault Statistics} :
      manual.Opens chapter space page rendered →
      Prints manual (manual.pages page) rendered sheets printed →
      Course manual rest (progress.advance chapter.package.name chapter.symbols.length) printed
        chapters groups reports result after →
      Course manual (chapter.package :: rest) progress space (chapter :: chapters)
        (sheets :: groups)
        (⟨chapter.package, progress.advance chapter.package.name chapter.symbols.length, printed⟩
          :: reports) result after

namespace Manual

variable {σ : Type} [EnduringImporter σ] {manual : Manual} {packages : List Package}
variable {progress : Progress} {space after : Workspace σ} {chapters : List Chapter}
variable {groups : List (List Disk.Sheet)} {reports : List (Report σ)}
variable {result : Except Fault Statistics}

/-- What is observed of a run is a course. -/
theorem course_of_observe (hidle : space.Idle)
    (h : Run.observe manual packages progress space = (reports, result, after)) :
    ∃ chapters groups, manual.Course packages progress space chapters groups reports result
      after := by
  induction packages generalizing progress space reports with
  | nil => cases h; exact ⟨[], [], .finished _ _⟩
  | cons package rest ih =>
    rw [Run.observe] at h
    rcases hpackage : manual.documentPackage package space with ⟨outcome, printed⟩
    rw [hpackage] at h
    rcases documentPackage_cases hidle hpackage with ⟨failure, rfl, hpage⟩ |
      ⟨chapter, page, rendered, sheets, rfl, hopens, ⟨files, rfl, hcount, hprints⟩ |
        ⟨cause, rfl, hstops⟩⟩
    · cases h
      exact ⟨[], [], .unread hpage⟩
    · cases h
      have hprinted : printed.Idle :=
        hprints.keeps Workspace.stable_idle (keeps_pages Workspace.stable_idle manual page)
          (hopens.later Workspace.stable_idle hidle)
      obtain ⟨chapters, groups, hcourse⟩ := ih hprinted rfl
      rw [hcount] at hcourse ⊢
      exact ⟨_, _, .written hopens hprints hcourse⟩
    · cases h
      exact ⟨_, _, .unwritten hopens hstops⟩

/-- The packages are opened in their order. -/
theorem Course.opened
    (h : manual.Course packages progress space chapters groups reports result after) :
    chapters.map Chapter.package <+: packages := by
  induction h with
  | finished => exact List.prefix_rfl
  | unread => exact List.nil_prefix
  | unwritten => exact List.cons_prefix_cons.mpr ⟨rfl, List.nil_prefix⟩
  | written _ _ _ ih => exact List.cons_prefix_cons.mpr ⟨rfl, ih⟩

theorem Course.keeps
    (h : manual.Course packages progress space chapters groups reports result after)
    {P : Workspace σ → Prop} (hP : Workspace.Stable P) (hspace : P space) : P after := by
  induction h with
  | finished => exact hspace
  | unread hpage => exact (manual.keeps_renderPackage _ hP).after hpage hspace
  | unwritten hopens hstops =>
    exact hstops.keeps hP (keeps_pages hP manual _) (hopens.later hP hspace)
  | written hopens hprints _ ih =>
    exact ih (hprints.keeps hP (keeps_pages hP manual _) (hopens.later hP hspace))

/-- What a chapter lists is handed out at the end as it was when the chapter was opened. -/
theorem Course.read
    (h : manual.Course packages progress space chapters groups reports result after) :
    ∀ chapter ∈ chapters, chapter.ReadFrom after := by
  induction h with
  | finished => exact nofun
  | unread => exact nofun
  | unwritten hopens hstops => exact List.forall_mem_singleton.mpr (hopens.read_of_stops hstops)
  | written hopens hprints hrest ih =>
    have hread := hrest.keeps (Chapter.stable_readFrom _) (hopens.read_of_prints hprints)
    exact List.forall_mem_cons.mpr ⟨hread, ih⟩

/-- The sheets are the first of the pages that the chapters have. -/
theorem Course.fileNames
    (h : manual.Course packages progress space chapters groups reports result after) :
    groups.flatten.map Disk.Sheet.fileName <+: manual.files chapters := by
  induction h with
  | finished => exact List.prefix_rfl
  | unread => exact List.prefix_rfl
  | unwritten hopens hstops =>
    have hnames := hstops.fileNames.2
    rw [hopens.names] at hnames
    simpa [files] using hnames
  | written hopens hprints _ ih =>
    rw [List.flatten_cons, List.map_append, files_cons, hprints.fileNames, ← hopens.names]
    exact (List.prefix_append_right_inj _).mpr ih

/-- A run leaves the sheets of all its groups, in their order. -/
theorem Course.leaves
    (h : manual.Course packages progress space chapters groups reports result after) :
    manual.Leaves groups.flatten space.disk after.disk := by
  induction h with
  | finished => exact ⟨_, rfl, .inl rfl⟩
  | unread hpage =>
    exact ⟨_, rfl, .inl ((manual.reads_renderPackage _).disk_eq hpage)⟩
  | unwritten hopens hstops =>
    have hleaves := hstops.leaves (manual.reads_pages _)
    rw [(manual.reads_renderPackage _).disk_eq hopens.run] at hleaves
    simpa using hleaves
  | written hopens hprints _ ih =>
    have hput := hprints.putAll (manual.reads_pages _)
    rw [(manual.reads_renderPackage _).disk_eq hopens.run] at hput
    exact Leaves.append hput ih

/-- The three ends of a run: every chapter is written; the next one cannot be opened; or the last
one cannot be finished. -/
theorem Course.ends
    (h : manual.Course packages progress space chapters groups reports result after) :
    (result = .ok (progress.through chapters).statistics ∧ chapters.map Chapter.package = packages
      ∧ groups.flatten.map Disk.Sheet.fileName = manual.files chapters
      ∧ reports.map Report.package = packages)
    ∨ ((∃ failure, result = .error (.notImported failure)) ∧ chapters.length < packages.length
      ∧ groups.flatten.map Disk.Sheet.fileName = manual.files chapters)
    ∨ (∃ cause, result = .error (.disk cause))
      ∧ groups.flatten.length < (manual.files chapters).length := by
  induction h with
  | finished => exact .inl ⟨by rw [Progress.through_nil], rfl, rfl, rfl⟩
  | unread => exact .inr (.inl ⟨⟨_, rfl⟩, Nat.succ_pos _, rfl⟩)
  | unwritten hopens hstops =>
    have hfewer := hstops.fileNames.1
    rw [← List.length_map (fun job : String × Work σ String => manual.fileOf job.1),
      hopens.names] at hfewer
    exact .inr (.inr ⟨⟨_, rfl⟩, by simpa [files] using hfewer⟩)
  | written hopens hprints _ ih =>
    have hnames := hprints.fileNames.trans hopens.names
    rcases ih with ⟨rfl, hpackages, hall, hreports⟩ | ⟨hfailure, hfewer, hall⟩ | ⟨hcause, hfewer⟩
    · refine .inl ⟨by rw [Progress.through_cons], congrArg _ hpackages, ?_, congrArg _ hreports⟩
      rw [List.flatten_cons, List.map_append, files_cons, hnames, hall]
    · refine .inr (.inl ⟨hfailure, Nat.succ_lt_succ hfewer, ?_⟩)
      rw [List.flatten_cons, List.map_append, files_cons, hnames, hall]
    · refine .inr (.inr ⟨hcause, ?_⟩)
      have hlength := congrArg List.length hnames
      rw [List.length_map] at hlength
      rw [List.flatten_cons, List.length_append, files_cons, List.length_append, hlength]
      exact Nat.add_lt_add_left hfewer _

/-- A package is reported when the sheets of all chapters up to its own are on the disk. -/
theorem Course.reported
    (h : manual.Course packages progress space chapters groups reports result after) {i : Nat}
    {report : Report σ} (hreport : reports[i]? = some report) :
    chapters[i]?.map Chapter.package = some report.package
    ∧ report.progress = progress.through (chapters.take (i + 1))
    ∧ (groups.take (i + 1)).flatten.map Disk.Sheet.fileName = manual.files (chapters.take (i + 1))
    ∧ Disk.putAll manual.destination (groups.take (i + 1)).flatten space.disk
      = .ok report.space.disk := by
  induction h generalizing i with
  | finished => cases hreport
  | unread => cases hreport
  | unwritten => cases hreport
  | written hopens hprints _ ih =>
    have hnames := hprints.fileNames.trans hopens.names
    have hput := hprints.putAll (manual.reads_pages _)
    rw [(manual.reads_renderPackage _).disk_eq hopens.run] at hput
    cases i with
    | zero =>
      cases hreport
      refine ⟨rfl, ?_, ?_, ?_⟩
      · rw [List.take_succ_cons, Progress.through_cons, List.take_zero, Progress.through_nil]
      · simpa [files] using hnames
      · simpa using hput
    | succ i =>
      obtain ⟨hpackage, hprogress, hall, hrest⟩ := ih hreport
      refine ⟨hpackage, ?_, ?_, ?_⟩
      · rw [hprogress, List.take_succ_cons, Progress.through_cons]
      · rw [List.take_succ_cons, List.take_succ_cons, List.flatten_cons, List.map_append,
          files_cons, hnames, hall]
      · rw [List.take_succ_cons, List.flatten_cons]
        exact Disk.putAll_append hput hrest

end Manual

/-- What a run over packages has done: the chapters it has opened, the sheets it has written for
each of them, and the reports it has given. -/
structure Account {σ : Type} [EnduringImporter σ] (manual : Manual) (packages : List Package)
    (space after : Workspace σ) (run : Run) (chapters : List Chapter)
    (groups : List (List Disk.Sheet)) (reports : List (Report σ)) : Prop where
  observed : Run.observe manual packages { total := packages.length } space
    = (reports, run.result, after)
  steps : run.steps = reports.map fun report => (report.package, report.progress)
  /-- The chapters are those of the first packages, and list what the importer hands out. -/
  opened : chapters.map Chapter.package <+: packages
  read : ∀ chapter ∈ chapters, chapter.ReadFrom after
  ordered : ∀ chapter ∈ chapters, ∀ listed ∈ chapter.listed, ∀ kind,
    (listed.ofKind kind).Pairwise (· < ·)
  /-- The first files of the chapters are written, and nothing else. -/
  written : groups.flatten.map Disk.Sheet.fileName <+: manual.files chapters
  leaves : manual.Leaves groups.flatten space.disk after.disk
  faults : ∀ fault, run.result = .error fault →
    (∃ cause, fault = .disk cause) ∨ ∃ failure, fault = .notImported failure
  /-- A module that cannot be imported ends the run between two packages. -/
  unread : ∀ failure, run.result = .error (.notImported failure) →
    chapters.length < packages.length
      ∧ groups.flatten.map Disk.Sheet.fileName = manual.files chapters
  /-- Whatever the packages that were not opened would list: all files are written exactly if the
  run succeeds. -/
  whole : ∀ others : List Chapter, (chapters ++ others).map Chapter.package = packages →
    (groups.flatten.map Disk.Sheet.fileName = manual.files (chapters ++ others)
      ↔ ∃ statistics, run.result = .ok statistics)
  counted : ∀ statistics, run.result = .ok statistics →
    statistics = ⟨packages.map Package.name, packages.length,
      (chapters.flatMap Chapter.symbols).length⟩
    ∧ chapters.map Chapter.package = packages ∧ reports.map Report.package = packages
  /-- A report is given of each package in turn, when the files up to its own are written. -/
  reported : ∀ i report, reports[i]? = some report →
    packages[i]? = some report.package ∧ report.progress.total = packages.length
    ∧ report.progress.done = i + 1
    ∧ (groups.take (i + 1)).flatten.map Disk.Sheet.fileName = manual.files (chapters.take (i + 1))
    ∧ Disk.putAll manual.destination (groups.take (i + 1)).flatten space.disk
      = .ok report.space.disk

namespace Chapter

variable {σ : Type} [EnduringImporter σ] {space : Workspace σ}

theorem ReadFrom.ordered {chapter : Chapter} (h : chapter.ReadFrom space) :
    ∀ listed ∈ chapter.listed, ∀ kind, (listed.ofKind kind).Pairwise (· < ·) := by
  intro listed hlisted kind
  obtain ⟨file, -, table, -, rfl⟩ := Workspace.Lists.mem h hlisted
  cases kind <;> exact Members.ascending_namesOf table _ _

end Chapter

theorem Manual.length_files_pos {manual : Manual} {chapters : List Chapter} (h : chapters ≠ []) :
    0 < (manual.files chapters).length := by
  obtain ⟨chapter, rest, rfl⟩ := List.exists_cons_of_ne_nil h
  simp only [files_cons, Chapter.names, List.length_append, List.length_map, List.length_cons]
  omega

namespace Manual

variable {σ : Type} [EnduringImporter σ] {manual : Manual} {packages : List Package}
variable {progress : Progress} {space after : Workspace σ} {chapters : List Chapter}
variable {groups : List (List Disk.Sheet)} {reports : List (Report σ)}
variable {result : Except Fault Statistics}

theorem files_append (manual : Manual) (chapters others : List Chapter) :
    manual.files (chapters ++ others) = manual.files chapters ++ manual.files others := by
  rw [files, List.flatMap_append, List.map_append, files, files]

/-- All files of all packages are written exactly if the run succeeds. -/
theorem Course.whole
    (h : manual.Course packages progress space chapters groups reports result after)
    {others : List Chapter} (hothers : (chapters ++ others).map Chapter.package = packages) :
    groups.flatten.map Disk.Sheet.fileName = manual.files (chapters ++ others)
      ↔ ∃ statistics, result = .ok statistics := by
  have hlength := congrArg List.length hothers
  rw [List.length_map, List.length_append] at hlength
  rcases h.ends with ⟨rfl, hpackages, hall, -⟩ | ⟨⟨failure, rfl⟩, hfewer, hall⟩ |
    ⟨⟨cause, rfl⟩, hfewer⟩
  · have hcount := congrArg List.length hpackages
    rw [List.length_map] at hcount
    have hnone : others = [] := List.length_eq_zero_iff.mp (by omega)
    rw [hnone, List.append_nil]
    exact iff_of_true hall ⟨_, rfl⟩
  · -- a package that was not opened has a page of its own at least
    have hsome : others ≠ [] := List.ne_nil_of_length_pos (by omega)
    refine iff_of_false (fun heq => ?_) nofun
    rw [hall, files_append, List.self_eq_append_right] at heq
    have hpos : 0 < (manual.files others).length := length_files_pos hsome
    rw [heq] at hpos
    exact absurd hpos (Nat.lt_irrefl 0)
  · refine iff_of_false (fun heq => ?_) nofun
    have hfiles := congrArg List.length heq
    rw [files_append, List.length_append, List.length_map] at hfiles
    omega

/-- A run that is observed from its start has an account. -/
theorem Course.account {run : Run}
    (h : manual.Course packages { total := packages.length } space chapters groups reports
      run.result after)
    (hobserved : Run.observe manual packages { total := packages.length } space
      = (reports, run.result, after))
    (hsteps : run.steps = reports.map fun report => (report.package, report.progress)) :
    Account manual packages space after run chapters groups reports where
  observed := hobserved
  steps := hsteps
  opened := h.opened
  read := h.read
  ordered chapter hchapter := (h.read chapter hchapter).ordered
  written := h.fileNames
  leaves := h.leaves
  faults := by
    intro fault hfault
    rcases h.ends with ⟨hend, -⟩ | ⟨⟨failure, hend⟩, -⟩ | ⟨⟨cause, hend⟩, -⟩ <;>
      cases hend.symm.trans hfault
    · exact .inr ⟨failure, rfl⟩
    · exact .inl ⟨cause, rfl⟩
  unread := by
    intro failure hfailure
    rcases h.ends with ⟨hend, -⟩ | ⟨-, hopened, hall⟩ | ⟨⟨cause, hend⟩, -⟩
    · cases hend.symm.trans hfailure
    · exact ⟨hopened, hall⟩
    · cases hend.symm.trans hfailure
  whole others hothers := h.whole hothers
  counted := by
    intro statistics hstatistics
    rcases h.ends with ⟨hend, hpackages, -, hreports⟩ | ⟨⟨failure, hend⟩, -⟩ |
      ⟨⟨cause, hend⟩, -⟩ <;> cases hend.symm.trans hstatistics
    refine ⟨?_, hpackages, hreports⟩
    simp [Progress.through, ← hpackages]
  reported := by
    intro i report hreport
    obtain ⟨hpackage, hprogress, hall, hput⟩ := h.reported hreport
    obtain ⟨chapter, hchapter, hown⟩ := Option.map_eq_some_iff.mp hpackage
    obtain ⟨later, rfl⟩ := h.opened
    have hi := (List.getElem?_eq_some_iff.mp hchapter).1
    refine ⟨?_, by rw [hprogress]; rfl, ?_, hall, hput⟩
    · rw [List.getElem?_append_left (by rwa [List.length_map]), List.getElem?_map]
      exact hpackage
    · rw [hprogress]
      simp [Progress.through, Progress.done]
      omega

end Manual

/-- **How far a run gets.**  A run that is blocked ends as it began.  Any other run writes the first
of the files that its packages have in their order, each package's symbols and then its own page: as
many as there are if it succeeds; those of some whole packages, but not all, if a module cannot be
imported; and what it has written is there whenever it reports a package. -/
theorem generate_course {σ : Type} [EnduringImporter σ] {settings : Settings}
    {space after : Workspace σ} {run : Run} (hidle : space.Idle)
    (h : generate settings space = (run, after)) :
    (∀ fault, settings.Blocked space.disk fault → run = .failed fault ∧ after = space)
    ∧ ((∀ fault, ¬ settings.Blocked space.disk fault) → ∃ packages examples?,
      settings.plan space.disk = .ok (packages, examples?) ∧ packages ≠ []
      ∧ ∃ chapters groups reports,
        Account (settings.manual examples?) packages space after run chapters groups reports) := by
  rw [generate_run] at h
  constructor
  · intro fault hblocked
    rw [Settings.plan_eq_error_iff.mpr hblocked] at h
    cases h
    exact ⟨rfl, rfl⟩
  · intro hfree
    cases hplan : settings.plan space.disk with
    | error fault => exact absurd (Settings.plan_eq_error_iff.mp hplan) (hfree fault)
    | ok planned =>
      obtain ⟨packages, examples?⟩ := planned
      rw [hplan] at h
      dsimp only at h
      rw [Run.documentAll_eq_observe] at h
      cases h
      obtain ⟨chapters, groups, hcourse⟩ := Manual.course_of_observe hidle rfl
      exact ⟨packages, examples?, rfl, settings.packages_ne_nil (Settings.packages_of_plan hplan),
        chapters, groups, _, hcourse.account rfl rfl⟩

/-- The run over a package with one function writes and counts two files. -/
theorem generate_course_single : ∃ chapters groups reports,
    Account (singleSettings.manual none) [⟨"pkg", ⟨"/pkg"⟩, [⟨"__init__.py", 20⟩], []⟩] singleStart
      singleRun.2 singleRun.1 chapters groups reports
    ∧ groups.flatten.map Disk.Sheet.fileName = (singleSettings.manual none).files chapters
    ∧ (chapters.flatMap Chapter.symbols).length = 1 := by
  have hplan : singleSettings.plan single
      = .ok ([⟨"pkg", ⟨"/pkg"⟩, [⟨"__init__.py", 20⟩], []⟩], none) := by decide +kernel
  have hfree : ∀ fault, ¬ singleSettings.Blocked single fault := by
    intro fault hblocked
    rw [Settings.plan_eq_error_iff.mpr hblocked] at hplan
    cases hplan
  have hrun : generate singleSettings singleStart = (singleRun.1, singleRun.2) := by
    unfold singleRun
    generalize generate singleSettings singleStart = run
    rfl
  obtain ⟨packages, examples?, hplanned, -, chapters, groups, reports, haccount⟩ :=
    (generate_course (Workspace.idle_forTree single single ⟨"/pkg"⟩) hrun).2 hfree
  cases hplan.symm.trans hplanned
  obtain ⟨hcounted, hchapters, -⟩ := haccount.counted _ singleRun_ok
  have hall := (haccount.whole [] (by rwa [List.append_nil])).mpr ⟨_, singleRun_ok⟩
  rw [List.append_nil] at hall
  exact ⟨chapters, groups, reports, haccount, hall, (Statistics.mk.inj hcounted).2.2.symm⟩

end ApiStubs
