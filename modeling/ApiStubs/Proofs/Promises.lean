import ApiStubs.Proofs.Clashes
import ApiStubs.Proofs.Locating

/-!
# Proofs — Promises — what a page lists can be imported

The page of a package is complete before the first of its symbols is written, and the pages of the
symbols say how each is imported.  In between, the importer is asked for the packages on the way to
every symbol, any of which may fail, and the file tree changes under it.

A fact about a workspace is `Stable` if no import and no change of the file tree ends it.  That the
importer hands out the table of a module is stable (`stable_holds`), so what a page lists stays
promised (`Workspace.Promises`) until it is written: `documentPackage_unbroken`.
-/

namespace ApiStubs

/-! ### Workspaces as they go on -/

/-- An importer whose idle states and given answers do not hang on the file tree. -/
class EnduringImporter (σ : Type) extends LawfulImporter σ where
  idle_anywhere : ∀ {disk s} other, idle disk s → idle other s
  holds_anywhere : ∀ {disk s name table} other, idle disk s → Importer.Holds disk s name table →
    Importer.Holds other s name table

instance : EnduringImporter Registry where
  idle_anywhere _ h := h
  holds_anywhere _ _ h := h

instance : EnduringImporter Python.Loader where
  idle_anywhere _ h := h
  holds_anywhere _ hidle h :=
    Python.Loader.holds_of_loaded hidle.2 (Python.Loader.loaded_of_holds hidle.1 h)

namespace Workspace

/-- Something is imported, or the file tree changes. -/
inductive Step {σ : Type} [Importer σ] : Workspace σ → Workspace σ → Prop where
  | imported (space : Workspace σ) (name : String) :
    Step space { space with importer := (Importer.load space.disk name space.importer).2 }
  | changed (space : Workspace σ) (disk : Disk) : Step space { space with disk }

/-- The workspace after any imports and any changes to the file tree. -/
def Later {σ : Type} [Importer σ] : Workspace σ → Workspace σ → Prop :=
  Relation.ReflTransGen Step

/-- What holds of a workspace holds of it ever after. -/
def Stable {σ : Type} [Importer σ] (P : Workspace σ → Prop) : Prop :=
  ∀ space next, Step space next → P space → P next

theorem Stable.later {σ : Type} [Importer σ] {P : Workspace σ → Prop} (hP : Stable P)
    {space after : Workspace σ} (h : Later space after) (hspace : P space) : P after := by
  induction h with
  | refl => exact hspace
  | tail _ hstep ih => exact hP _ _ hstep ih

variable {σ : Type} [EnduringImporter σ]

/-- Nothing is in progress. -/
def Idle (space : Workspace σ) : Prop := LawfulImporter.idle space.disk space.importer

theorem stable_idle : Stable (σ := σ) Idle := by
  intro space next hstep h
  cases hstep with
  | imported name => exact LawfulImporter.stays name h
  | changed disk => exact EnduringImporter.idle_anywhere disk h

/-- A loader that has not loaded anything is idle; so are those that loads make of it. -/
theorem idle_forTree (disk files : Disk) (root : FilePath) :
    Idle ⟨disk, Python.Loader.forTree files root⟩ := by
  have hpos : ∀ base exponent more : Nat, 0 < base → 0 < more → 0 < Nat.pow base exponent * more :=
    fun _ _ _ hbase hmore => Nat.mul_pos (Nat.pow_pos hbase) hmore
  exact ⟨rfl, hpos _ _ _ (by decide) (by decide)⟩

/-- The importer hands out the table of a module, and nothing is in progress. -/
def Holds (name : String) (table : SymbolTable) (space : Workspace σ) : Prop :=
  space.Idle ∧ Importer.Holds space.disk space.importer name table

/-- **What is handed out once is handed out ever after.** -/
theorem stable_holds (name : String) (table : SymbolTable) :
    Stable (σ := σ) (Holds name table) := by
  rintro space next hstep ⟨hidle, hholds⟩
  refine ⟨stable_idle space next hstep hidle, ?_⟩
  cases hstep with
  | imported other => exact LawfulImporter.keeps other hidle hholds
  | changed disk => exact EnduringImporter.holds_anywhere disk hidle hholds

/-- Nothing is in progress, and each of the symbols is handed out by its module. -/
structure Promises (symbols : List Symbol) (space : Workspace σ) : Prop where
  idle : space.Idle
  offered : ∀ symbol ∈ symbols, ∃ table, space.Holds symbol.module table
    ∧ table.handsOut symbol.name symbol.module

theorem stable_promises (symbols : List Symbol) : Stable (σ := σ) (Promises symbols) := by
  intro space next hstep h
  refine ⟨stable_idle space next hstep h.idle, fun symbol hsymbol => ?_⟩
  obtain ⟨table, hholds, hhands⟩ := h.offered symbol hsymbol
  exact ⟨table, stable_holds _ table space next hstep hholds, hhands⟩

end Workspace

/-! ### Which faults a computation fails with -/

namespace Work

open Workspace (Stable)

variable {σ α β : Type} {P : Workspace σ → Prop} {fails : Fault → Prop}

/-- Where the fact holds, the computation keeps it, and fails with such faults only. -/
def Keeps (P : Workspace σ → Prop) (fails : Fault → Prop) (work : Work σ α) : Prop :=
  ∀ space, P space → P (work space).2 ∧ ∀ fault, (work space).1 = .error fault → fails fault

theorem Keeps.after {work : Work σ α} (h : Keeps P fails work) {space last : Workspace σ}
    {result : Except Fault α} (hrun : work space = (result, last)) (hspace : P space) : P last := by
  rw [show last = (work space).2 by rw [hrun]]
  exact (h space hspace).1

theorem Keeps.fault {work : Work σ α} (h : Keeps P fails work) {space last : Workspace σ}
    {fault : Fault} (hrun : work space = (.error fault, last)) (hspace : P space) : fails fault :=
  (h space hspace).2 fault (by rw [hrun])

theorem Keeps.mono {work : Work σ α} {fewer : Fault → Prop} (h : Keeps P fewer work)
    (hfails : ∀ fault, fewer fault → fails fault) : Keeps P fails work :=
  fun space hspace =>
    ⟨(h space hspace).1, fun fault hfault => hfails fault ((h space hspace).2 fault hfault)⟩

theorem Keeps.pure (a : α) : Keeps P fails (Pure.pure a : Work σ α) :=
  fun _ h => ⟨h, nofun⟩

theorem Keeps.bind {x : Work σ α} {f : α → Work σ β} (hx : Keeps P fails x)
    (hf : ∀ a, Keeps P fails (f a)) : Keeps P fails (x >>= f) := by
  intro space hspace
  obtain ⟨hafter, hfault⟩ := hx space hspace
  rw [run_bind]
  split
  · rename_i a after heq
    rw [heq] at hafter
    exact hf a after hafter
  · rename_i fault after heq
    rw [heq] at hafter hfault
    refine ⟨hafter, ?_⟩
    rintro _ ⟨⟩
    exact hfault fault rfl

theorem Keeps.mapM {f : α → Work σ β} {list : List α} (hf : ∀ a ∈ list, Keeps P fails (f a)) :
    Keeps P fails (list.mapM f) := by
  induction list with
  | nil => exact .pure _
  | cons a rest ih =>
    obtain ⟨ha, hrest⟩ := List.forall_mem_cons.mp hf
    rw [List.mapM_cons]
    exact ha.bind fun _ => (ih hrest).bind fun _ => .pure _

variable [Importer σ]

/-- A change of the disk fails with a fault of the disk. -/
theorem keeps_change (hP : Stable P) (edit : Disk → Except DiskError Disk) :
    Keeps P (fun fault => ∃ cause, fault = .disk cause) (change edit) := by
  intro space hspace
  rw [change]
  split
  · refine ⟨hP _ _ (.changed space _) hspace, ?_⟩
    rintro _ ⟨⟩
  · rename_i cause _
    refine ⟨hspace, ?_⟩
    rintro _ ⟨⟩
    exact ⟨cause, rfl⟩

theorem keeps_attempt (hP : Stable P) (edit : Disk → Option DiskError × Disk) :
    Keeps P (fun fault => ∃ cause, fault = .disk cause) (attempt edit) := by
  intro space hspace
  rw [attempt]
  split
  · refine ⟨hP _ _ (.changed space _) hspace, ?_⟩
    rintro _ ⟨⟩
  · rename_i cause _ _
    refine ⟨hP _ _ (.changed space _) hspace, ?_⟩
    rintro _ ⟨⟩
    exact ⟨cause, rfl⟩

/-- A load keeps what is stable, and has one way to fail. -/
theorem keeps_load (hP : Stable P) (name : String) :
    Keeps P (fun fault => ∃ failure, fault = .notImported failure)
      (load name : Work σ SymbolTable) := by
  intro space hspace
  rw [run_load]
  refine ⟨hP _ _ (.imported space name) hspace, ?_⟩
  dsimp only
  intro fault hfault
  cases hload : (Importer.load space.disk name space.importer).1 with
  | ok table =>
    rw [hload] at hfault
    cases hfault
  | error failure =>
    rw [hload] at hfault
    cases hfault
    exact ⟨failure, rfl⟩

theorem keeps_load? (hP : Stable P) (name : String) :
    Keeps P fails (load? name : Work σ (Option SymbolTable)) :=
  fun space hspace => ⟨hP _ _ (.imported space name) hspace, nofun⟩

/-- A search fails only where no candidate hands the symbol out. -/
theorem keeps_firstHandingOut (hP : Stable P) (module symbol : String) (candidates : List String) :
    Keeps P (fun fault => fault = .unresolved module symbol)
      (firstHandingOut module symbol candidates : Work σ String) := by
  induction candidates with
  | nil => exact fun space hspace => ⟨hspace, fun fault hfault => (Except.error.inj hfault).symm⟩
  | cons candidate rest ih =>
    refine (keeps_load? hP candidate).bind fun table? => ?_
    cases table? with
    | none => exact ih
    | some table =>
      show Keeps P _ (ite (table.handsOut symbol module = true) (Pure.pure candidate)
        (firstHandingOut module symbol rest))
      split
      · exact .pure _
      · exact ih

end Work

/-! ### A promised symbol is found -/

theorem Dotted.mem_prefixes_self (name : String) : name ∈ Dotted.prefixes name := by
  have hpos : 0 < (Dotted.components name).length :=
    List.length_pos_of_ne_nil (Text.pieces_ne_nil '.' name)
  refine List.mem_map.mpr ⟨(Dotted.components name).length - 1, List.mem_range.mpr (by omega), ?_⟩
  rw [Nat.sub_add_cancel hpos, List.take_length]
  exact Text.join_pieces '.' name

namespace Workspace

variable {σ : Type} [EnduringImporter σ] {symbols : List Symbol} {symbol : Symbol}

/-- Whatever becomes of the candidates before it, the module of the symbol hands it out. -/
theorem Promises.firstHandingOut_ok {space : Workspace σ} (h : space.Promises symbols)
    (hsymbol : symbol ∈ symbols) {candidates : List String} (hmem : symbol.module ∈ candidates) :
    ∃ found last, firstHandingOut symbol.module symbol.name candidates space
      = (.ok found, last) := by
  induction candidates generalizing space with
  | nil => cases hmem
  | cons candidate rest ih =>
    rw [run_firstHandingOut_cons]
    split
    · exact ⟨_, _, rfl⟩
    · rename_i hpassed
      refine ih (stable_promises symbols space _ (.imported space candidate) h)
        ((List.mem_cons.mp hmem).resolve_left ?_)
      rintro rfl
      obtain ⟨table, ⟨-, hholds⟩, hhands⟩ := h.offered symbol hsymbol
      rw [hholds] at hpassed
      cases hhands.symm.trans hpassed

/-- A promised symbol can be imported. -/
theorem Promises.shortestImport_ok {space : Workspace σ} (h : space.Promises symbols)
    (hsymbol : symbol ∈ symbols) :
    ∃ path last, shortestImport symbol.module symbol.name space = (.ok path, last) :=
  h.firstHandingOut_ok hsymbol (Dotted.mem_prefixes_self symbol.module)

end Workspace

/-! ### What the page of a package promises -/

/-- Each of the package's modules is listed with what the table defines that the importer hands out
of it. -/
def Workspace.Lists {σ : Type} [EnduringImporter σ] (space : Workspace σ) (package : Package) :
    List ModuleFile → List Members → Prop :=
  List.Forall₂ fun file listed => ∃ table, space.Holds (package.moduleName file) table
    ∧ listed = Members.ofTable table (package.moduleName file)

/-- Whatever is listed is listed for one of the modules. -/
theorem Workspace.Lists.mem {σ : Type} [EnduringImporter σ] {space : Workspace σ}
    {package : Package} {files : List ModuleFile} {all : List Members}
    (h : space.Lists package files all) {listed : Members} (hlisted : listed ∈ all) :
    ∃ file ∈ files, ∃ table, space.Holds (package.moduleName file) table
      ∧ listed = Members.ofTable table (package.moduleName file) := by
  induction h with
  | nil => cases hlisted
  | cons hfile _ ih =>
    rcases List.mem_cons.mp hlisted with rfl | hrest
    · exact ⟨_, List.mem_cons_self, hfile⟩
    · obtain ⟨file, hmem, hlists⟩ := ih hrest
      exact ⟨file, List.mem_cons_of_mem _ hmem, hlists⟩

/-- Every module of the chapter that is not empty is listed as the importer hands it out. -/
def Chapter.ReadFrom {σ : Type} [EnduringImporter σ] (chapter : Chapter) (space : Workspace σ) :
    Prop :=
  space.Lists chapter.package (chapter.package.modules.filter fun file => !file.isTrivial)
    chapter.listed

namespace Manual

open Workspace (Stable)

section

variable {σ : Type} [Importer σ] {P : Workspace σ → Prop}

theorem keeps_renderModules (manual : Manual) (package : Package) (hP : Stable P)
    (files : List ModuleFile) :
    Work.Keeps P (fun fault => ∃ failure, fault = .notImported failure)
      (files.mapM (manual.renderModule package) : Work σ _) :=
  .mapM fun _ _ => ((Work.keeps_load hP _).bind fun _ => .pure _).bind fun _ => .pure _

theorem keeps_renderPackage (manual : Manual) (package : Package) (hP : Stable P) :
    Work.Keeps P (fun fault => ∃ failure, fault = .notImported failure)
      (manual.renderPackage package : Work σ PackagePage) :=
  (keeps_renderModules manual package hP _).bind fun _ => .pure _

theorem keeps_renderSymbol (manual : Manual) (hP : Stable P) (symbol : Symbol) :
    Work.Keeps P (fun fault => fault = .unresolved symbol.module symbol.name)
      (manual.renderSymbol symbol) :=
  (Work.keeps_firstHandingOut hP _ _ _).bind fun _ => .pure _

theorem keeps_write (manual : Manual) (hP : Stable P) (name text : String) :
    Work.Keeps P (fun fault => ∃ cause, fault = .disk cause) (manual.write name text) :=
  (Work.keeps_attempt hP _).bind fun _ => (Work.keeps_change hP _).bind fun _ => .pure _

end

variable {σ : Type} [EnduringImporter σ] {manual : Manual} {package : Package}
variable {space after : Workspace σ}

/-- The sections of a page list what the tables define that are then handed out. -/
theorem listed_of_renderModules {files : List ModuleFile} {sections : List (String × List Symbol)}
    (hidle : space.Idle)
    (h : files.mapM (manual.renderModule package) space = (.ok sections, after)) :
    ∃ listed, after.Lists package files listed
      ∧ sections.flatMap Prod.snd = listed.flatMap Members.symbols := by
  induction files generalizing space sections with
  | nil => cases h; exact ⟨[], .nil, rfl⟩
  | cons file rest ih =>
    rw [List.mapM_cons] at h
    obtain ⟨_, between, hfile, h⟩ := Work.bind_ok h
    obtain ⟨others, last, hrest, h⟩ := Work.bind_ok h
    cases h
    obtain ⟨defined, loaded, hmembers, hfile⟩ := Work.bind_ok hfile
    cases hfile
    obtain ⟨table, rfl, hdisk, hlater, hholds⟩ := LawfulImporter.members_spec hidle hmembers
    have hbetween : between.Holds (package.moduleName file) table := by
      have hloaded := LawfulImporter.idle_of_later hlater hidle
      rw [← hdisk] at hloaded hholds
      exact ⟨hloaded, hholds⟩
    -- the modules after it are imported from where this one is handed out already
    have hafter := (keeps_renderModules manual package (Workspace.stable_holds _ table) rest).after
      hrest hbetween
    obtain ⟨listed, hlisted, hsymbols⟩ := ih hbetween.1 hrest
    exact ⟨_, .cons ⟨table, hafter, rfl⟩ hlisted,
      by rw [List.flatMap_cons, List.flatMap_cons, hsymbols]⟩

/-- The page of a package lists the symbols of a chapter that is read from the importer. -/
theorem chapter_of_renderPackage {page : PackagePage} (hidle : space.Idle)
    (h : manual.renderPackage package space = (.ok page, after)) :
    ∃ chapter : Chapter, chapter.package = package ∧ chapter.ReadFrom after
      ∧ page.symbols = chapter.symbols ∧ page.name = package.name := by
  obtain ⟨sections, _, hsections, h⟩ := Work.bind_ok h
  cases h
  obtain ⟨listed, hheld, hsymbols⟩ := listed_of_renderModules hidle hsections
  exact ⟨⟨package, listed⟩, rfl, hheld, hsymbols, rfl⟩

end Manual

namespace Chapter

variable {σ : Type} [EnduringImporter σ] {space : Workspace σ}

theorem stable_readFrom (chapter : Chapter) : Workspace.Stable (σ := σ) chapter.ReadFrom := by
  intro space next hstep h
  refine h.imp fun file listed => ?_
  rintro ⟨table, hholds, rfl⟩
  exact ⟨table, Workspace.stable_holds _ table space next hstep hholds, rfl⟩

/-- The symbols of a chapter are promised where it is read. -/
theorem ReadFrom.promises {chapter : Chapter} (h : chapter.ReadFrom space) (hidle : space.Idle) :
    space.Promises chapter.symbols := by
  refine ⟨hidle, fun symbol hsymbol => ?_⟩
  obtain ⟨listed, hlisted, hsymbol⟩ := List.mem_flatMap.mp hsymbol
  obtain ⟨file, -, table, hholds, rfl⟩ := Workspace.Lists.mem h hlisted
  obtain ⟨hmodule, hname⟩ := mem_symbols_ofTable.mp hsymbol
  obtain ⟨-, binding, hfind, horigin, -⟩ := mem_namesOf.mp hname
  rw [hmodule]
  exact ⟨table, hholds, SymbolTable.handsOut_iff.mpr ⟨binding, hfind, horigin⟩⟩

end Chapter

/-! ### A package is written whole, or not at all, or as far as the disk lets it -/

namespace Manual

open Workspace (Promises)

variable {σ : Type} [EnduringImporter σ] {manual : Manual} {package : Package}

theorem promises_of_renderPackage {space rendered : Workspace σ} {page : PackagePage}
    (hidle : space.Idle) (h : manual.renderPackage package space = (.ok page, rendered)) :
    rendered.Promises page.symbols := by
  obtain ⟨chapter, -, hread, hsymbols, -⟩ := chapter_of_renderPackage hidle h
  have hrendered := (keeps_renderPackage manual package Workspace.stable_idle).after h hidle
  rw [hsymbols]
  exact hread.promises hrendered

/-- The page of a promised symbol is rendered. -/
theorem renderSymbol_ok (manual : Manual) {symbols : List Symbol} {symbol : Symbol}
    {space : Workspace σ} (h : space.Promises symbols) (hsymbol : symbol ∈ symbols) :
    ∃ text rendered, manual.renderSymbol symbol space = (.ok text, rendered) := by
  obtain ⟨path, last, hpath⟩ := h.shortestImport_ok hsymbol
  exact ⟨_, _, Work.run_bind_ok hpath _⟩

/-- The pages of promised symbols fail on the disk only. -/
theorem keeps_documentSymbols (symbols : List Symbol) :
    Work.Keeps (σ := σ) (Promises symbols) (fun fault => ∃ cause, fault = .disk cause)
      (symbols.mapM manual.documentSymbol) := by
  refine .mapM fun symbol hsymbol => Work.Keeps.bind (fun space hspace => ?_) fun text =>
    keeps_write manual (Workspace.stable_promises symbols) _ text
  obtain ⟨text, rendered, hrender⟩ := renderSymbol_ok manual hspace hsymbol
  have hkept :=
    (keeps_renderSymbol manual (Workspace.stable_promises symbols) symbol).after hrender hspace
  rw [hrender]
  exact ⟨hkept, nofun⟩

/-- **Only the disk leaves a package half written.**  Documenting a package fails with a file that
could not be written, or with a module that could not be imported; and then the file tree is as it
was.  For once the page of the package is rendered, a shortest import of everything it lists is
found ever after. -/
theorem documentPackage_unbroken {space after : Workspace σ} {result : Except Fault PackageFiles}
    (hidle : space.Idle) (h : manual.documentPackage package space = (result, after)) :
    (∀ fault, result = .error fault → (∃ cause, fault = .disk cause)
      ∨ (∃ failure, fault = .notImported failure) ∧ after.disk = space.disk)
    ∧ ∀ page rendered, manual.renderPackage package space = (.ok page, rendered) →
      ∀ later, rendered.Later later → ∀ symbol ∈ page.symbols,
        ∃ path last, shortestImport symbol.module symbol.name later = (.ok path, last) := by
  constructor
  · intro fault hresult
    rw [documentPackage, Work.run_bind] at h
    split at h
    · rename_i page rendered hpage
      -- the page is complete, and what is left are the pages of its symbols and the writing
      have hpromises := promises_of_renderPackage hidle hpage
      have hrest : Work.Keeps (Promises page.symbols) (fun fault => ∃ cause, fault = .disk cause)
          (do
            let symbols ← page.symbols.mapM manual.documentSymbol
            let path ← manual.write page.name page.text
            return (⟨path, symbols⟩ : PackageFiles) : Work σ PackageFiles) :=
        (keeps_documentSymbols page.symbols).bind fun _ =>
          (keeps_write manual (Workspace.stable_promises _) _ _).bind fun _ => .pure _
      subst hresult
      exact .inl (hrest.fault h hpromises)
    · rename_i fault' rendered hpage
      cases h
      cases hresult
      have hfails := (keeps_renderPackage manual package Workspace.stable_idle).fault hpage hidle
      exact .inr ⟨hfails, (manual.reads_renderPackage package).disk_eq hpage⟩
  · intro page rendered hpage later hlater symbol hsymbol
    have hpromises := promises_of_renderPackage hidle hpage
    have hstill := (Workspace.stable_promises page.symbols).later hlater hpromises
    exact hstill.shortestImport_ok hsymbol

/-- A module that is registered without the package it is in. -/
def orphaned : Workspace Registry :=
  ⟨⟨[], []⟩, Registry.register {}
    (SymbolTable.bind (.named "pkg.core") "Engine" (.classOf "pkg.core"))⟩

/-- The package, with one of its modules. -/
def orphanedPackage (fileName : String) : Package := ⟨"pkg", ⟨"/pkg"⟩, [⟨fileName, 40⟩], []⟩

/-- The class is found although its package cannot be imported; and a package with a module that is
not registered is given up before anything is written. -/
theorem documentPackage_unbroken_orphaned :
    orphaned.importer.load "pkg" = .error ⟨"pkg", .noModule "pkg"⟩
    ∧ (∃ page rendered, renderPackage { destination := ⟨"out"⟩ } (orphanedPackage "core.py")
        orphaned = (.ok page, rendered)
      ∧ page.symbols = [⟨"pkg.core", "Engine", .classType⟩]
      ∧ ∃ path last, shortestImport "pkg.core" "Engine" rendered = (.ok path, last))
    ∧ (documentPackage { destination := ⟨"out"⟩ } (orphanedPackage "gone.py") orphaned).2.disk
      = orphaned.disk := by
  refine ⟨by decide +kernel, ?_, ?_⟩
  · have hsymbols : (renderPackage { destination := ⟨"out"⟩ } (orphanedPackage "core.py")
        orphaned).1.map PackagePage.symbols = .ok [⟨"pkg.core", "Engine", .classType⟩] := by
      decide +kernel
    rcases hpage : renderPackage { destination := ⟨"out"⟩ } (orphanedPackage "core.py") orphaned
      with ⟨_ | page, rendered⟩
    · rw [hpage] at hsymbols
      cases hsymbols
    · rw [hpage] at hsymbols
      have hlisted := Except.ok.inj hsymbols
      have hmem : Symbol.mk "pkg.core" "Engine" .classType ∈ page.symbols := by
        rw [hlisted]
        exact List.mem_singleton_self _
      have hidle : orphaned.Idle := trivial
      exact ⟨page, rendered, rfl, hlisted,
        (documentPackage_unbroken hidle rfl).2 page rendered hpage rendered .refl _ hmem⟩
  · have hfault : (documentPackage { destination := ⟨"out"⟩ } (orphanedPackage "gone.py")
        orphaned).1.map PackageFiles.symbols
          = .error (.notImported ⟨"pkg.gone", .noModule "pkg.gone"⟩) := by decide +kernel
    rcases hrun : documentPackage { destination := ⟨"out"⟩ } (orphanedPackage "gone.py") orphaned
      with ⟨fault | files, after⟩
    · rw [hrun] at hfault
      cases hfault
      have hidle : orphaned.Idle := trivial
      rcases (documentPackage_unbroken hidle hrun).1 _ rfl with ⟨_, hdisk⟩ | ⟨-, hdisk⟩
      · cases hdisk
      · exact hdisk
    · rw [hrun] at hfault
      cases hfault

end Manual

end ApiStubs
