import ApiStubs.Proofs.Locating
import ApiStubs.Proofs.Working
import Mathlib

/-!
# Proofs — Forgetful — loading without a cache

Where no module leads back to itself, the cache only saves work.  `Tree.evaluate` loads without
one: the package around a module first, then the module, whose every import evaluates the other
module again.  `Tree.load_eq_evaluate`: a load from any cache whose loaded tables are those
evaluation finds yields what evaluation yields, and leaves such a cache; a module that failed
before is evaluated again and fails again.

The induction is on the depth.  It needs that a load never meets a module being replayed
(`Tree.Clear`): those are modules that led to the load, and in an acyclic graph out of its reach.
-/

namespace ApiStubs.Python

namespace Tree

variable (tree : Tree)

/-- Replays a module whose imports are answered. -/
def execute (answer : String → Except ImportFailure SymbolTable) (name : String) :
    Except ImportFailure SymbolTable :=
  match tree.locate name with
  | none => .error ⟨name, .noModule name⟩
  | some location =>
    (Cache.settled name (tree.replay (fun other => liftExcept (answer other)) name location
      (Cache.opened {} name))).1

/-- Loads a module without a cache, with at most the given number of modules being loaded inside
each other. -/
def evaluate : Nat → String → Except ImportFailure SymbolTable
  | 0, name => .error ⟨name, .tooDeep⟩
  | depth + 1, name =>
    match tree.parent? name with
    | none => tree.execute (evaluate depth) name
    | some parent =>
      match evaluate depth parent with
      | .error failure => .error failure
      | .ok _ => tree.execute (evaluate depth) name

/-! ### Replays that import differently -/

variable {tree}

/-- The two caches have the same table of the module being replayed; the first satisfies `P`. -/
def SameTable (own : String) (P : Cache → Prop) (c d : Cache) : Prop :=
  c.loading.find? own = d.loading.find? own ∧ P c

/-- Two replays of a module, from caches with the same table of it, stay in step if the imports
that it can ask for do. -/
theorem replay_sameTable {P : Cache → Prop} {load load' : String → Importing SymbolTable}
    {name : String} {location : Location} (hlocate : tree.locate name = some location)
    (hP : ∀ change cache, P cache → P ((tree.scope load name location).update change cache).2)
    (hload : ∀ other, tree.AsksFor name other →
      Alike (SameTable name P) (load other) (load' other)) :
    Alike (SameTable name P) (tree.replay load name location)
      (tree.replay load' name location) := by
  rw [replay, replay]
  cases hcode : tree.code location.path with
  | error cause => exact .throw _
  | ok statements =>
    show Alike _ ((tree.scope load name location).replayAll statements)
      (((tree.scope load name location).importingBy load').replayAll statements)
    -- a replay reads and changes one table only, and both caches have that
    refine Scope.replayAll_alike (fun change _ c d hcd => ?_) (fun key c d hcd => ?_)
      fun s hs other hasks => ?_
    · have hfound := (tree.scope load name location).find?_update change
      have hsame := congrArg (Option.map change) hcd.1
      exact ⟨rfl, (hfound c).trans (hsame.trans (hfound d).symm), hP change c hcd.2⟩
    · refine ⟨?_, hcd⟩
      show Except.ok ((c.loading.find? name).bind _) = Except.ok ((d.loading.find? name).bind _)
      rw [hcd.1]
    · exact hload other ⟨location, statements, hlocate, hcode, s, hs, hasks.importingBy _⟩

theorem settled_congr {name : String} {first second : Except ImportFailure Unit × Cache}
    (hresult : first.1 = second.1)
    (htable : first.2.loading.find? name = second.2.loading.find? name) :
    (Cache.settled name first).1 = (Cache.settled name second).1 := by
  obtain ⟨result, c⟩ := first
  obtain ⟨result', d⟩ := second
  obtain rfl : result = result' := hresult
  cases result with
  | error failure => rfl
  | ok _ => exact congrArg (fun found => Except.ok (found.getD (.named name))) htable

/-- The replay of a module with its imports answered is the same for answers that agree on what
the module can ask for. -/
theorem execute_congr {answer answer' : String → Except ImportFailure SymbolTable} {name : String}
    (h : ∀ other, tree.AsksFor name other → answer other = answer' other) :
    tree.execute answer name = tree.execute answer' name := by
  rw [execute, execute]
  cases hlocate : tree.locate name with
  | none => rfl
  | some location =>
    have hsync : Alike (SameTable name fun _ => True)
        (tree.replay (fun other => liftExcept (answer other)) name location)
        (tree.replay (fun other => liftExcept (answer' other)) name location) := by
      refine replay_sameTable hlocate (fun _ _ _ => trivial) fun other hasks => ?_
      rw [h other hasks]
      exact .liftExcept _
    obtain ⟨hresult, htable, -⟩ := hsync (Cache.opened {} name) _ ⟨rfl, trivial⟩
    exact settled_congr hresult htable

/-- Evaluation comes to the same at every depth that is deep enough. -/
theorem evaluate_eq (hacyclic : tree.Acyclic) {depth depth' : Nat} {name : String}
    (h : tree.Within depth name) (h' : tree.Within depth' name) :
    tree.evaluate depth name = tree.evaluate depth' name := by
  induction depth generalizing depth' name with
  | zero => exact absurd h.2 (Nat.not_lt_zero _)
  | succ depth ih =>
    cases depth' with
    | zero => exact absurd h'.2 (Nat.not_lt_zero _)
    | succ depth' =>
      have hcall : ∀ other, tree.Calls name other →
          tree.evaluate depth other = tree.evaluate depth' other := fun other hcalls =>
        ih (h.of_calls hacyclic hcalls) (h'.of_calls hacyclic hcalls)
      have hexecute : tree.execute (tree.evaluate depth) name
          = tree.execute (tree.evaluate depth') name :=
        execute_congr fun other hasks => hcall other (.asks hasks)
      rw [evaluate, evaluate, hexecute]
      cases hparent : tree.parent? name with
      | none => rfl
      | some parent => simp only [hcall parent (.around hparent)]

/-! ### Loads -/

/-- Every loaded table is the one that evaluation finds. -/
def Faithful (tree : Tree) (cache : Cache) : Prop :=
  ∀ name table, cache.loaded.find? name = some table →
    ∃ depth, tree.Within depth name ∧ tree.evaluate depth name = .ok table

/-- No module that the load can lead to is being replayed, and no name that is none. -/
def Clear (tree : Tree) (cache : Cache) (name : String) : Prop :=
  (∀ other ∈ tree.reach name, cache.loading.find? other = none) ∧
    ∀ other, ¬tree.Located other → cache.loading.find? other = none

theorem Clear.self {cache : Cache} {name : String} (h : tree.Clear cache name) :
    cache.loading.find? name = none := by
  by_cases hname : tree.Located name
  · exact h.1 name (self_mem_reach hname)
  · exact h.2 name hname

theorem Clear.of_calls {cache : Cache} {name other : String} (h : tree.Clear cache name)
    (hcalls : tree.Calls name other) : tree.Clear cache other :=
  ⟨fun target ht => h.1 target (hcalls.reach_subset ht), h.2⟩

/-- A module asked for is clear of the one that asks, and of all that it was clear of. -/
theorem Clear.opened (hacyclic : tree.Acyclic) {cache inner : Cache} {name other : String}
    (h : tree.Clear cache name) (hasks : tree.AsksFor name other)
    (hinner : ∀ key, key ≠ name → inner.loading.find? key = cache.loading.find? key) :
    tree.Clear inner other := by
  have hcalls : tree.Calls name other := .asks hasks
  refine ⟨fun target ht => ?_, fun target ht => ?_⟩
  · have hne : target ≠ name := fun he => hcalls.not_mem_reach hacyclic (he ▸ ht)
    rw [hinner target hne]
    exact h.1 target (hcalls.reach_subset ht)
  · have hne : target ≠ name := fun he => ht (he ▸ located_of_asksFor hasks)
    rw [hinner target hne]
    exact h.2 target ht

/-- A module that comes to its own value is settled faithfully. -/
theorem Faithful.settled {cache : Cache} (h : tree.Faithful cache) {depth : Nat} {name : String}
    {result : Except ImportFailure Unit} (hwithin : tree.Within depth name)
    (hvalue : (Cache.settled name (result, cache)).1 = tree.evaluate depth name) :
    tree.Faithful (Cache.settled name (result, cache)).2 := by
  cases result with
  | error failure => exact h
  | ok _ =>
    intro key table hfind
    rw [Cache.settled, Cache.finished, NameMap.find?_insert] at hfind
    split at hfind
    · rename_i hkey
      cases hfind
      exact ⟨depth, hkey ▸ hwithin, hkey ▸ hvalue.symm⟩
    · exact h key table hfind

/-- The cache while a module is replayed: its loaded tables are those that evaluation finds, and
the tables of the modules replayed around it are as they were. -/
def Meanwhile (tree : Tree) (name : String) (before cache : Cache) : Prop :=
  tree.Faithful cache ∧ ∀ key, key ≠ name → cache.loading.find? key = before.loading.find? key

theorem Meanwhile.update {name : String} {before cache : Cache}
    (h : tree.Meanwhile name before cache) {scope : Scope} (hscope : scope.module = name)
    (change : Change) : tree.Meanwhile name before (scope.update change cache).2 := by
  rw [Scope.run_update, hscope]
  cases cache.loading.find? name with
  | none => exact h
  | some table =>
    refine ⟨h.1, fun key hk => ?_⟩
    simpa [hk] using h.2 key hk

/-- The imports of a module do not notice the cache, so its replay does not. -/
theorem loadFresh_eq_evaluate (hacyclic : tree.Acyclic) {depth : Nat} {name : String}
    {cache : Cache} (hwithin : tree.Within (depth + 1) name) (hfaithful : tree.Faithful cache)
    (hclear : tree.Clear cache name)
    (hvalue : tree.evaluate (depth + 1) name = tree.execute (tree.evaluate depth) name)
    (hload : ∀ other inner, tree.AsksFor name other → tree.Faithful inner →
      tree.Clear inner other → (tree.load depth other inner).1 = tree.evaluate depth other
        ∧ tree.Faithful (tree.load depth other inner).2) :
    (tree.loadFresh (tree.load depth) name cache).1 = tree.evaluate (depth + 1) name
      ∧ tree.Faithful (tree.loadFresh (tree.load depth) name cache).2 := by
  cases hlocate : tree.locate name with
  | none =>
    rw [hvalue, tree.loadFresh_missing hlocate, execute, hlocate]
    exact ⟨rfl, hfaithful⟩
  | some location =>
    have hsync : Alike (SameTable name (tree.Meanwhile name cache))
        (tree.replay (tree.load depth) name location)
        (tree.replay (fun other => liftExcept (tree.evaluate depth other)) name location) := by
      refine replay_sameTable hlocate (fun change inner h => h.update rfl change) ?_
      rintro other hasks c d ⟨htable, hfaith, hothers⟩
      -- an import leaves every table being replayed alone, the module's own among them
      obtain ⟨heq, hafter⟩ := hload other c hasks hfaith (hclear.opened hacyclic hasks hothers)
      have hloading := (tree.load_grows depth other c).loading
      rw [Importing.run_liftExcept, heq]
      exact ⟨rfl, hloading ▸ htable, hafter, fun key hk => hloading ▸ hothers key hk⟩
    have hopened : SameTable name (tree.Meanwhile name cache) (cache.opened name)
        (Cache.opened {} name) :=
      ⟨by simp [Cache.opened], hfaithful, fun key hk => by simp [Cache.opened, hk]⟩
    obtain ⟨hresult, htable, hafter, -⟩ := hsync _ _ hopened
    have hsettled : (Cache.settled name
        (tree.replay (tree.load depth) name location (cache.opened name))).1
        = tree.evaluate (depth + 1) name := by
      rw [hvalue, execute, hlocate]
      exact settled_congr hresult htable
    rw [tree.loadFresh_located hlocate]
    exact ⟨hsettled, hafter.settled hwithin hsettled⟩

/-- **A load yields what evaluation yields.** -/
theorem load_eq_evaluate (hacyclic : tree.Acyclic) {depth : Nat} {name : String} {cache : Cache}
    (hwithin : tree.Within depth name) (hfaithful : tree.Faithful cache)
    (hclear : tree.Clear cache name) :
    (tree.load depth name cache).1 = tree.evaluate depth name
      ∧ tree.Faithful (tree.load depth name cache).2 := by
  induction depth generalizing name cache with
  | zero => exact absurd hwithin.2 (Nat.not_lt_zero _)
  | succ depth ih =>
    have hload : ∀ other inner, tree.AsksFor name other → tree.Faithful inner →
        tree.Clear inner other → (tree.load depth other inner).1 = tree.evaluate depth other
          ∧ tree.Faithful (tree.load depth other inner).2 :=
      fun other inner hasks => ih (hwithin.of_calls hacyclic (.asks hasks))
    -- a loaded table was found at some depth, and every depth that is enough finds the same
    have hknown : ∀ (inner : Cache) table, tree.Faithful inner →
        inner.loaded.find? name = some table → .ok table = tree.evaluate (depth + 1) name := by
      intro inner table hinner hfind
      obtain ⟨deep, hdeep, heq⟩ := hinner name table hfind
      rw [← heq]
      exact evaluate_eq hacyclic hdeep hwithin
    refine tree.load_cases (P := fun result =>
      result.1 = tree.evaluate (depth + 1) name ∧ tree.Faithful result.2) ?_ ?_ ?_ ?_
    · -- what is known is loaded: nothing the load can lead to is being replayed
      intro table hfind
      have hloaded : cache.loaded.find? name = some table := by
        simpa [Cache.find?, hclear.self] using hfind
      exact ⟨hknown cache table hfaithful hloaded, hfaithful⟩
    · -- the package around it fails, with evaluation as with the load
      intro parent failure after _ hparent hfailed
      have hcalls : tree.Calls name parent := .around hparent
      obtain ⟨heq, hafter⟩ := ih (hwithin.of_calls hacyclic hcalls) hfaithful
        (hclear.of_calls hcalls)
      rw [hfailed] at heq hafter
      refine ⟨?_, hafter⟩
      rw [evaluate, hparent]
      simp only [← heq]
    · -- the package around it has loaded the module along with itself
      intro parent table own after _ hparent hok hown
      have hcalls : tree.Calls name parent := .around hparent
      obtain ⟨-, hafter⟩ := ih (hwithin.of_calls hacyclic hcalls) hfaithful
        (hclear.of_calls hcalls)
      rw [hok] at hafter
      exact ⟨hknown after own hafter hown, hafter⟩
    · intro after _ hready
      cases hready with
      | alone hparent =>
        exact loadFresh_eq_evaluate hacyclic hwithin hfaithful hclear (by rw [evaluate, hparent])
          hload
      | @inside parent table _ hparent hok hown =>
        have hcalls : tree.Calls name parent := .around hparent
        obtain ⟨heq, hafter⟩ := ih (hwithin.of_calls hacyclic hcalls) hfaithful
          (hclear.of_calls hcalls)
        have hloading := (tree.load_grows depth parent cache).loading
        rw [hok] at heq hafter hloading
        refine loadFresh_eq_evaluate hacyclic hwithin hafter ?_ ?_ hload
        · exact ⟨fun target ht => hloading ▸ hclear.1 target ht,
            fun target ht => hloading ▸ hclear.2 target ht⟩
        · rw [evaluate, hparent]
          simp only [← heq]

end Tree

/-! ### Loaders -/

namespace Loader

/-- The loader after loads of the given modules, one after the other. -/
def after (disk : Disk) : List String → Loader → Loader
  | [], loader => loader
  | name :: rest, loader => after disk rest (load disk name loader).2

/-- A loader of the same tree that replays nothing, and has loaded what evaluation finds. -/
structure Idle (disk : Disk) (fresh loader : Loader) : Prop where
  searchRoot : loader.searchRoot = fresh.searchRoot
  nesting : loader.nesting = fresh.nesting
  faithful : (fresh.tree disk).Faithful loader.cache
  loading : loader.cache.loading = ∅

theorem Idle.refl (disk : Disk) {fresh : Loader} (h : fresh.cache = {}) :
    Idle disk fresh fresh where
  searchRoot := rfl
  nesting := rfl
  faithful name table hf := by
    rw [h] at hf
    cases hf
  loading := by rw [h]

/-- In an acyclic tree a loader gives the answers of evaluation, whatever it was asked before. -/
theorem steady {disk : Disk} {fresh : Loader} (hacyclic : (fresh.tree disk).Acyclic) :
    Importer.Steady disk (Idle disk fresh) ((fresh.tree disk).Within fresh.nesting)
      ((fresh.tree disk).evaluate fresh.nesting) := by
  have hload : ∀ loader name, Idle disk fresh loader →
      (fresh.tree disk).Within fresh.nesting name →
      (load disk name loader).1 = (fresh.tree disk).evaluate fresh.nesting name
        ∧ Idle disk fresh (load disk name loader).2 := by
    rintro ⟨searchRoot, nesting, cache⟩ name ⟨rfl, rfl, hfaithful, hloading⟩ hname
    have hclear : (fresh.tree disk).Clear cache name := by
      constructor <;> intro other _ <;> rw [hloading, NameMap.find?_empty]
    obtain ⟨heq, hafter⟩ := Tree.load_eq_evaluate hacyclic hname hfaithful hclear
    have hsame := ((fresh.tree disk).load_grows fresh.nesting name cache).loading
    exact ⟨heq, rfl, rfl, hafter, hsame.trans hloading⟩
  exact ⟨fun s name hs hn => (hload s name hs hn).1, fun s name hs hn => (hload s name hs hn).2⟩

theorem after_idle {disk : Disk} {fresh : Loader} (hacyclic : (fresh.tree disk).Acyclic)
    {calls : List String} (hcalls : ∀ name ∈ calls, (fresh.tree disk).Within fresh.nesting name)
    {loader : Loader} (h : Idle disk fresh loader) : Idle disk fresh (after disk calls loader) := by
  induction calls generalizing loader with
  | nil => exact h
  | cons name rest ih =>
    exact ih (fun other ho => hcalls other (List.mem_cons_of_mem _ ho))
      ((steady hacyclic).stays loader name h (hcalls name List.mem_cons_self))

/-- **In an acyclic tree no answer depends on what was loaded before.**  A load after any others
yields what it yields from a fresh loader, and what evaluation without a cache yields at every
depth that is deep enough; so do the members of a module and the shortest import of a symbol.  The
depth of a loader made without giving one is enough for every name that leads to plain names of
modules only: `Loader.within_of_plain`. -/
theorem loads_forgotten (disk : Disk) {fresh : Loader} (hfresh : fresh.cache = {})
    (hacyclic : (fresh.tree disk).Acyclic) {calls : List String}
    (hcalls : ∀ name ∈ calls, (fresh.tree disk).Within fresh.nesting name) :
    (∀ name, (fresh.tree disk).Within fresh.nesting name →
      (load disk name (after disk calls fresh)).1 = (load disk name fresh).1
      ∧ ∀ depth, (fresh.tree disk).Within depth name →
        (load disk name fresh).1 = (fresh.tree disk).evaluate depth name)
    ∧ (∀ module, (fresh.tree disk).Within fresh.nesting module →
      (members module ⟨disk, after disk calls fresh⟩).1 = (members module ⟨disk, fresh⟩).1)
    ∧ ∀ module symbol,
      (∀ candidate ∈ Dotted.prefixes module, (fresh.tree disk).Within fresh.nesting candidate) →
      (shortestImport module symbol ⟨disk, after disk calls fresh⟩).1
        = (shortestImport module symbol ⟨disk, fresh⟩).1 := by
  have hsteady := steady hacyclic
  have hstart := Idle.refl disk hfresh
  have hused := after_idle hacyclic hcalls hstart
  refine ⟨fun name hname => ⟨?_, fun depth hdepth => ?_⟩, fun module hm => ?_,
    fun module symbol hc => ?_⟩
  · exact (hsteady.answers _ name hused hname).trans (hsteady.answers fresh name hstart hname).symm
  · exact (hsteady.answers fresh name hstart hname).trans (Tree.evaluate_eq hacyclic hname hdepth)
  · rw [hsteady.members_eq hused hm, hsteady.members_eq hstart hm]
  · rw [hsteady.shortestImport_eq hc hused, hsteady.shortestImport_eq hc hstart]

/-! ### A module that falls back -/

/-- A module that imports another one where a first import fails. -/
def fallingBack : Disk where
  entries := [
    (["w"], .directory),
    (["w", "app.py"], .file (.text
      "try:\n    import util.more\nexcept ImportError:\n    import util\n")),
    (["w", "util.py"], .file (.text "def f():\n    pass\n"))]
  workingDirectory := []

def fallingBackLoader : Loader := { searchRoot := ⟨"/w"⟩ }

def fallingBackTree : Tree := fallingBackLoader.tree fallingBack

theorem app_statements :
    (Source.ofText? "try:\n    import util.more\nexcept ImportError:\n    import util\n").map
      Source.statements = some [.attempt [.importModules [⟨"util.more", none⟩]]
        [.mk ⟨false, [.name "ImportError"]⟩ [.importModules [⟨"util", none⟩]]] none none] := by
  cbv

theorem util_statements : (Source.ofText? "def f():\n    pass\n").map Source.statements
    = some [.functionDef "f"] := by
  cbv

/-- Only the module that falls back asks for others, and for no more than these two. -/
theorem asksFor_fallingBack {name other : String} (h : fallingBackTree.AsksFor name other) :
    name ≠ "util" ∧ (other = "util.more" ∨ other = "util") := by
  obtain ⟨location, statements, hlocate, hcode, s, hs, hasks⟩ := h
  obtain ⟨text, hread, hspelled⟩ := Tree.below_code.mp hcode
  constructor
  · rintro rfl
    have hfile : fallingBackTree.locate "util" = some ⟨⟨"/w/util.py"⟩, false⟩ := by decide +kernel
    have htext : fallingBack.readText ⟨"/w/util.py"⟩ = .ok "def f():\n    pass\n" := by
      decide +kernel
    cases hfile.symm.trans hlocate
    cases htext.symm.trans hread
    cases util_statements.symm.trans hspelled
    cases List.mem_singleton.mp hs
    exact Scope.not_asks_functionDef hasks
  · obtain ⟨place, hplace⟩ := Disk.mem_entries_of_readText hread
    rw [fallingBack] at hplace
    simp only [List.mem_cons, Prod.mk.injEq, reduceCtorEq, and_false, false_or, Entry.file.injEq,
      Content.text.injEq, List.not_mem_nil, or_false] at hplace
    rcases hplace with ⟨-, rfl⟩ | ⟨-, rfl⟩
    · cases app_statements.symm.trans hspelled
      cases List.mem_singleton.mp hs
      cases hasks with
      | request hrequests hmem =>
        cases hrequests
        exact absurd hmem List.not_mem_nil
      | body hstatement hinner =>
        cases List.mem_singleton.mp hstatement
        obtain ⟨imported, himported, rfl⟩ := Scope.asks_importModules hinner
        exact .inl (by rw [List.mem_singleton.mp himported])
      | handler hblock hstatement hinner =>
        cases hblock
        cases List.mem_singleton.mp hstatement
        obtain ⟨imported, himported, rfl⟩ := Scope.asks_importModules hinner
        exact .inr (by rw [List.mem_singleton.mp himported])
    · cases util_statements.symm.trans hspelled
      cases List.mem_singleton.mp hs
      exact absurd hasks Scope.not_asks_functionDef

theorem not_encloses_util {outer : String} : ¬Encloses outer "util" := not_encloses (by decide)

theorem encloses_util {outer : String} (h : Encloses outer "util.more") : outer = "util" := by
  have hmore : Dotted.parent? "util.more" = some "util" := by decide
  obtain ⟨parent, hparent, hrest⟩ := encloses_iff.mp h
  cases hparent.symm.trans hmore
  exact hrest.resolve_right not_encloses_util

/-- What is needed is the package around, or the module fallen back to. -/
theorem fallingBack_needs {name other : String} (h : fallingBackTree.Needs name other) :
    Encloses other name ∨ name ≠ "util" ∧ other = "util" := by
  obtain ⟨-, hother, hencloses | ⟨asked, hasks, hasked⟩⟩ := h
  · exact .inl hencloses
  obtain ⟨hname, rfl | rfl⟩ := asksFor_fallingBack hasks
  · rcases hasked with rfl | hencloses
    · exact absurd hother (by decide +kernel)
    · exact .inr ⟨hname, encloses_util hencloses⟩
  · rcases hasked with rfl | hencloses
    · exact .inr ⟨hname, rfl⟩
    · exact absurd hencloses not_encloses_util

theorem fallingBack_acyclic : fallingBackTree.Acyclic := by
  refine Tree.acyclic_of_rank (fun name => if name = "util" then 0 else name.length + 1) ?_
  intro name other hneeds
  rcases fallingBack_needs hneeds with hencloses | ⟨hname, rfl⟩
  · have hlength := hencloses.length_lt
    have hname : name ≠ "util" := by
      rintro rfl
      exact not_encloses_util hencloses
    rw [if_neg hname]
    split <;> omega
  · rw [if_pos rfl, if_neg hname]
    exact Nat.succ_pos _

/-- Loads of the one and of the other stay within the two modules. -/
theorem fallingBack_reach {name : String} (h : name ∈ ["util.more", "app"]) :
    fallingBackTree.reach name ⊆ {"app", "util"} := by
  have hmore : ¬fallingBackTree.Located "util.more" := by decide +kernel
  have happ : ∀ {outer : String}, ¬Encloses outer "app" := not_encloses (by decide)
  refine Tree.reach_subset ?_ ?_
  · intro first hfirst hlocated
    rcases List.mem_pair.mp h with rfl | rfl
    · rcases hfirst with rfl | hencloses
      · exact absurd hlocated hmore
      · exact .inr (encloses_util hencloses)
    · rcases hfirst with rfl | hencloses
      · exact .inl rfl
      · exact absurd hencloses happ
  · intro inner hinner other hneeds
    rcases fallingBack_needs hneeds with hencloses | ⟨-, rfl⟩
    · rcases hinner with rfl | rfl
      · exact absurd hencloses happ
      · exact absurd hencloses not_encloses_util
    · exact .inr rfl

theorem fallingBack_within {name : String} (h : name ∈ ["util.more", "app"]) :
    fallingBackTree.Within maxNesting name := by
  refine within_of_plain (show fallingBackLoader.nesting = maxNesting from rfl) fun other ho => ?_
  rcases fallingBack_reach h ho with rfl | rfl <;> decide

/-- The import that fails first leaves a module loaded, and the fallback does not notice. -/
theorem fallingBack_forgotten :
    (load fallingBack "util.more" fallingBackLoader).1
      = .error ⟨"util.more", .noModule "util.more"⟩
    ∧ ((after fallingBack ["util.more"] fallingBackLoader).cache.loaded.contains "util")
    ∧ (load fallingBack "app" (after fallingBack ["util.more"] fallingBackLoader)).1
      = (load fallingBack "app" fallingBackLoader).1
    ∧ (load fallingBack "app" fallingBackLoader).1 = fallingBackTree.evaluate maxNesting "app"
    ∧ (load fallingBack "app" fallingBackLoader).1.map SymbolTable.publicBindings
      = .ok [("util", .ofModule)] := by
  have happ : fallingBackTree.Within maxNesting "app" := fallingBack_within (by simp)
  have hcalls : ∀ name ∈ ["util.more"], fallingBackTree.Within maxNesting name := fun name hname =>
    fallingBack_within (List.mem_append_left ["app"] hname)
  obtain ⟨hloads, -, -⟩ := loads_forgotten fallingBack
    (show fallingBackLoader.cache = {} from rfl) fallingBack_acyclic hcalls
  obtain ⟨hsame, hvalue⟩ := hloads "app" happ
  exact ⟨by decide +kernel, by decide +kernel, hsame, hvalue maxNesting happ, by decide +kernel⟩

end Loader

end ApiStubs.Python
