import ApiStubs.Page
import ApiStubs.Proofs.Discipline
import ApiStubs.Proofs.Membership
import Mathlib

/-!
# Proofs — Shortest import — what is found there

The shortest import of a symbol is found by the origin of what a package binds to its name.  Where
a package binds the name to something else from the same module, the import finds that:
`shortestImport_finds` says what a shortest import does find, for every importer that keeps to
what it has handed out, and that it is the symbol itself exactly where the sorts agree.

Registries are such importers, and loaders between two loads are.
-/

namespace ApiStubs

/-! ### Importers that keep to what they hand out -/

/-- The importer hands out the table of the name, and is not changed by that. -/
def Importer.Holds {σ : Type} [Importer σ] (disk : Disk) (s : σ) (name : String)
    (table : SymbolTable) : Prop :=
  Importer.load disk name s = (.ok table, s)

/-- An importer that, in its idle states, hands out the same table of a module ever after. -/
class LawfulImporter (σ : Type) extends Importer σ where
  /-- Nothing is in progress. -/
  idle : Disk → σ → Prop
  stays : ∀ {disk s} name, idle disk s → idle disk (load disk name s).2
  handsOut : ∀ {disk s name table}, idle disk s → (load disk name s).1 = .ok table →
    Importer.Holds disk (load disk name s).2 name table
  keeps : ∀ {disk s name table} other, idle disk s → Importer.Holds disk s name table →
    Importer.Holds disk (load disk other s).2 name table

instance : LawfulImporter Registry where
  idle _ _ := True
  stays _ _ := trivial
  handsOut _ h := Prod.ext h rfl
  keeps _ _ h := h

namespace Python.Loader

theorem loaded_of_holds {disk : Disk} {loader : Loader} {name : String} {table : SymbolTable}
    (hidle : loader.cache.loading = ∅) (h : Importer.Holds disk loader name table) :
    loader.cache.loaded.find? name = some table := by
  have hnone : loader.cache.loading.find? name = none := by rw [hidle, NameMap.find?_empty]
  have hloaded := (loader.tree disk).loaded_of_load_ok hnone (congrArg Prod.fst h)
  have hsame : ((loader.tree disk).load loader.nesting name loader.cache).2 = loader.cache :=
    congrArg (fun result => result.2.cache) h
  rwa [hsame] at hloaded

/-- A module that is loaded is held. -/
theorem holds_of_loaded {disk : Disk} {loader : Loader} {name : String} {table : SymbolTable}
    (hdeep : 0 < loader.nesting) (h : loader.cache.loaded.find? name = some table) :
    Importer.Holds disk loader name table := by
  obtain ⟨root, nesting, cache⟩ := loader
  cases nesting with
  | zero => exact absurd hdeep (Nat.lt_irrefl 0)
  | succ depth =>
    have hload := (Tree.below disk root).load_of_loaded h depth
    show (((Tree.below disk root).load (depth + 1) name cache).1, Loader.mk root (depth + 1)
      ((Tree.below disk root).load (depth + 1) name cache).2) = _
    rw [hload]

end Python.Loader

/-- A loader is idle while no module is being replayed; it can load anything at all. -/
instance : LawfulImporter Python.Loader where
  idle _ loader := loader.cache.loading = ∅ ∧ 0 < loader.nesting
  stays {disk loader} name h :=
    ⟨((loader.tree disk).load_grows loader.nesting name loader.cache).loading.trans h.1, h.2⟩
  handsOut {disk loader name table} h hok := by
    have hnone : loader.cache.loading.find? name = none := by rw [h.1, NameMap.find?_empty]
    exact Python.Loader.holds_of_loaded h.2 ((loader.tree disk).loaded_of_load_ok hnone hok)
  keeps {disk loader name table} other h hholds := by
    have hloaded := Python.Loader.loaded_of_holds h.1 hholds
    have hkept := ((loader.tree disk).load_grows loader.nesting other loader.cache).kept
    exact Python.Loader.holds_of_loaded h.2 (hkept name table hloaded)

/-! ### What the two questions leave behind -/

/-- The importer after some further imports. -/
def Importer.Later {σ : Type} [Importer σ] (disk : Disk) : σ → σ → Prop :=
  Relation.ReflTransGen fun s t => ∃ name, t = (Importer.load disk name s).2

namespace LawfulImporter

variable {σ : Type} [LawfulImporter σ] {disk : Disk} {s t : σ}

theorem idle_of_later (h : Importer.Later disk s t) (hs : idle disk s) : idle disk t := by
  induction h with
  | refl => exact hs
  | tail _ hstep ih =>
    obtain ⟨name, rfl⟩ := hstep
    exact stays name ih

theorem holds_of_later (h : Importer.Later disk s t) (hs : idle disk s) {name : String}
    {table : SymbolTable} (hholds : Importer.Holds disk s name table) :
    Importer.Holds disk t name table := by
  induction h with
  | refl => exact hholds
  | tail hbefore hstep ih =>
    obtain ⟨other, rfl⟩ := hstep
    exact keeps other (idle_of_later hbefore hs) ih

/-- The members of a module are read from the table that the importer then hands out. -/
theorem members_spec {module : String} {listed : Members} {after : Workspace σ}
    (hs : idle disk s) (h : members module ⟨disk, s⟩ = (.ok listed, after)) :
    ∃ table, listed = .ofTable table module ∧ after.disk = disk
      ∧ Importer.Later disk s after.importer ∧ Importer.Holds disk after.importer module table := by
  rw [run_members] at h
  cases hload : (Importer.load disk module s).1 with
  | error failure =>
    rw [hload] at h
    cases h
  | ok table =>
    rw [hload] at h
    cases h
    exact ⟨table, rfl, rfl, .single ⟨module, rfl⟩, handsOut hs hload⟩

/-- The candidate found hands out a symbol of that name and origin. -/
theorem firstHandingOut_spec {module symbol found : String} {candidates : List String}
    {after : Workspace σ} (hs : idle disk s)
    (h : firstHandingOut module symbol candidates ⟨disk, s⟩ = (.ok found, after)) :
    after.disk = disk ∧ Importer.Later disk s after.importer ∧ found ∈ candidates
      ∧ ∃ table, Importer.Holds disk after.importer found table
        ∧ table.handsOut symbol module := by
  induction candidates generalizing s with
  | nil => cases h
  | cons candidate rest ih =>
    have hnext : Importer.Later disk s (Importer.load disk candidate s).2 :=
      .single ⟨candidate, rfl⟩
    rw [run_firstHandingOut_cons] at h
    split at h
    · rename_i hhands
      cases hload : (Importer.load disk candidate s).1 with
      | error failure =>
        rw [hload] at hhands
        cases hhands
      | ok table =>
        rw [hload] at hhands
        cases h
        exact ⟨rfl, hnext, List.mem_cons_self, table, handsOut hs hload, hhands⟩
    · obtain ⟨hdisk, hlater, hmem, hfound⟩ := ih (stays candidate hs) h
      exact ⟨hdisk, hnext.trans hlater, List.mem_cons_of_mem _ hmem, hfound⟩

/-- **What a shortest import finds.**  Of a symbol that a module lists, it finds something of that
name that comes from the module; and that is the symbol itself if and only if it is of the sort
that the page of the symbol names. -/
theorem shortestImport_finds {module found : String} {listed : Members} {symbol : Symbol}
    {after last : Workspace σ} (hs : idle disk s)
    (hmembers : members module ⟨disk, s⟩ = (.ok listed, after)) (hsymbol : symbol ∈ listed.symbols)
    (hlater : Importer.Later disk after.importer t)
    (hshortest : shortestImport module symbol.name ⟨disk, t⟩ = (.ok found, last)) :
    found ∈ Dotted.prefixes module ∧ ∃ own outer itself other,
      Importer.Holds disk last.importer module own ∧ own.find? symbol.name = some itself
      ∧ Importer.Holds disk last.importer found outer ∧ outer.find? symbol.name = some other
      ∧ itself.origin? = some module ∧ SymbolKind.ofBinding? itself.kind = some symbol.kind
      ∧ other.origin? = some module
      ∧ (other = itself ↔ SymbolKind.ofBinding? other.kind = some symbol.kind) := by
  obtain ⟨own, rfl, -, hthen, hown⟩ := members_spec hs hmembers
  have hidle := idle_of_later (hthen.trans hlater) hs
  obtain ⟨-, hlast, hmem, outer, houter, hhands⟩ := firstHandingOut_spec hidle hshortest
  -- the module still has the table that its symbols were listed from
  have hown' := holds_of_later (hlater.trans hlast) (idle_of_later hthen hs) hown
  obtain ⟨-, hname⟩ := mem_symbols_ofTable.mp hsymbol
  obtain ⟨-, itself, hfind, horigin, hkind⟩ := mem_namesOf.mp hname
  obtain ⟨other, hfind', horigin'⟩ := SymbolTable.handsOut_iff.mp hhands
  refine ⟨hmem, own, outer, itself, other, hown', hfind, houter, hfind', horigin, hkind, horigin',
    fun heq => heq ▸ hkind, fun hkind' => ?_⟩
  -- each sort of symbol stands for one kind of binding
  have hkinds : other.kind = itself.kind := by
    rw [← hkind] at hkind'
    revert hkind'
    cases other.kind <;> cases itself.kind <;> simp [SymbolKind.ofBinding?]
  obtain ⟨kind, origin?⟩ := other
  obtain ⟨kind', origin?'⟩ := itself
  simp_all

/-- A package that hands out a function of its module under the name of a class there. -/
def aliasing : Registry :=
  (Registry.register {}
    (SymbolTable.bind (.named "pkg") "Engine" (.functionOf "pkg.core"))).register
    (((SymbolTable.named "pkg.core").bind "Engine" (.classOf "pkg.core")).bind "helper"
      (.functionOf "pkg.core"))

theorem aliasing_members : members "pkg.core" ⟨⟨[], []⟩, aliasing⟩
    = (.ok ⟨"pkg.core", ["Engine"], ["helper"], []⟩, ⟨⟨[], []⟩, aliasing⟩) := by cbv

theorem aliasing_shortest : shortestImport "pkg.core" "Engine" ⟨⟨[], []⟩, aliasing⟩
    = (.ok "pkg", ⟨⟨[], []⟩, aliasing⟩) := by cbv

/-- The page of a class says to import it from a package that hands out a function there. -/
theorem aliasing_misleads :
    ⟨"pkg.core", "Engine", .classType⟩ ∈ Members.symbols ⟨"pkg.core", ["Engine"], ["helper"], []⟩
    ∧ members "pkg.core" ⟨⟨[], []⟩, aliasing⟩
      = (.ok ⟨"pkg.core", ["Engine"], ["helper"], []⟩, ⟨⟨[], []⟩, aliasing⟩)
    ∧ shortestImport "pkg.core" "Engine" ⟨⟨[], []⟩, aliasing⟩
      = (.ok "pkg", ⟨⟨[], []⟩, aliasing⟩)
    ∧ (aliasing.table "pkg").find? "Engine" = some (.functionOf "pkg.core")
    ∧ (aliasing.table "pkg.core").find? "Engine" = some (.classOf "pkg.core") :=
  ⟨by decide, aliasing_members, aliasing_shortest, by cbv, by cbv⟩

/-- What is found under the name of the class comes from its module all the same. -/
theorem shortestImport_finds_aliased : ∃ outer other,
    Importer.Holds ⟨[], []⟩ aliasing "pkg" outer ∧ outer.find? "Engine" = some other
      ∧ other.origin? = some "pkg.core" := by
  have hlisted : Symbol.mk "pkg.core" "Engine" .classType
      ∈ Members.symbols ⟨"pkg.core", ["Engine"], ["helper"], []⟩ := by decide
  obtain ⟨-, _, outer, _, other, -, -, houter, hfind, -, -, horigin, -⟩ :=
    shortestImport_finds trivial aliasing_members hlisted .refl aliasing_shortest
  exact ⟨outer, other, houter, hfind, horigin⟩

end LawfulImporter

end ApiStubs
